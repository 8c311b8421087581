import Mathlib.Logic.Basic
import Mathlib.Tactic.Common

/-!
# Programs under instrumentation

A computation acts on a world, and may keep a record beside it (`Hooked`).  It is `Blind`
when the record has no bearing on how it ends or on the world, and it `Adds` to a quantity of
the record what is read off the world it starts in.

A `Client` makes calls, and runs parts of itself in scopes.  Under instrumentation every call
and every scope is wrapped in code that keeps the record.  Where the wrappers are blind, the
client ends as it does without them (`Client.hooked_blind`); where each adds what its call
gains, the record has what the calls of the client gain (`Client.hooked_adds`).
-/

namespace Instrument

/-- An action on a world: how it ends, and the world it leaves. -/
def Bare (σ ε α : Type) := σ → Except ε α × σ

/-- The same beside a record. -/
def Hooked (τ σ ε α : Type) := τ → σ → Except ε α × τ × σ

variable {τ σ ε α β : Type}

def Bare.pure (a : α) : Bare σ ε α := fun w => (.ok a, w)

def Bare.raise (e : ε) : Bare σ ε α := fun w => (.error e, w)

namespace Hooked

def seq (p : Hooked τ σ ε α) (f : α → Hooked τ σ ε β) : Hooked τ σ ε β := fun t w =>
  match p t w with
  | (.ok a, t', w') => f a t' w'
  | (.error e, t', w') => (.error e, t', w')

instance : Monad (Hooked τ σ ε) where
  pure a := fun t w => (.ok a, t, w)
  bind := seq

def raise (e : ε) : Hooked τ σ ε α := fun t w => (.error e, t, w)

/-- Read the record and the world. -/
def look (f : τ → σ → α) : Hooked τ σ ε α := fun t w => (.ok (f t w), t, w)

/-- Change the record. -/
def record (f : τ → σ → τ) : Hooked τ σ ε Unit := fun t w => (.ok (), f t w, w)

/-- `try: p  except: handler`. -/
def attempt (p : Hooked τ σ ε α) (handler : ε → Hooked τ σ ε α) : Hooked τ σ ε α := fun t w =>
  match p t w with
  | (.ok a, t', w') => (.ok a, t', w')
  | (.error e, t', w') => handler e t' w'

/-- `try: p  finally: cleanup`. -/
def ensuring (p : Hooked τ σ ε α) (cleanup : Hooked τ σ ε Unit) : Hooked τ σ ε α := do
  let a ← attempt p fun e => do
    cleanup
    raise e
  cleanup
  return a

/-- `with` a block that is entered by one change of the record and left by another, which is
told the record before. -/
def block (enter : τ → τ) (leave : τ → τ → τ) (p : Hooked τ σ ε α) : Hooked τ σ ε α :=
  fun t w => ((p (enter t) w).1, leave t (p (enter t) w).2.1, (p (enter t) w).2.2)

def ofExcept (r : Except ε α) : Hooked τ σ ε α := fun t w => (r, t, w)

/-- An action that keeps no record. -/
def lift (q : Bare σ ε α) : Hooked τ σ ε α := fun t w => ((q w).1, t, (q w).2)

theorem bind_ok {p : Hooked τ σ ε α} {f : α → Hooked τ σ ε β} {t t' : τ} {w w' : σ} {a : α}
    (h : p t w = (.ok a, t', w')) : (p >>= f) t w = f a t' w' := by
  change seq p f t w = f a t' w'
  rw [seq, h]

theorem bind_error {p : Hooked τ σ ε α} {f : α → Hooked τ σ ε β} {t t' : τ} {w w' : σ} {e : ε}
    (h : p t w = (.error e, t', w')) : (p >>= f) t w = (.error e, t', w') := by
  change seq p f t w = (.error e, t', w')
  rw [seq, h]

/-! ## Computations the record has no bearing on -/

/-- The computation is this action, whatever is on record. -/
def Blind (p : Hooked τ σ ε α) (q : Bare σ ε α) : Prop :=
  ∀ t w, ((p t w).1, (p t w).2.2) = q w

section Rules

variable {p : Hooked τ σ ε α} {q : Bare σ ε α} {f : α → Hooked τ σ ε β}

theorem blind_lift : Blind (lift q : Hooked τ σ ε α) q := fun _ _ => rfl

theorem blind_pure (a : α) : Blind (pure a : Hooked τ σ ε α) (.pure a) := fun _ _ => rfl

theorem blind_raise (e : ε) : Blind (raise e : Hooked τ σ ε α) (.raise e) := fun _ _ => rfl

/-- What is read of the record decides between computations that are the same action. -/
theorem blind_look {g : τ → σ → α} {r : Bare σ ε β} (h : ∀ a, Blind (f a) r) :
    Blind (look g >>= f) r := fun t w => h (g t w) t w

theorem blind_record {g : τ → σ → τ} {f : Unit → Hooked τ σ ε β} {r : Bare σ ε β}
    (h : Blind (f ()) r) : Blind (record g >>= f) r := fun t w => h (g t w) w

/-- What follows an action and gives back its value changes nothing. -/
theorem Blind.andThen {f : α → Hooked τ σ ε α} (h : Blind p q)
    (hf : ∀ a, Blind (f a) (.pure a)) : Blind (p >>= f) q := by
  intro t w
  have hp := h t w
  change ((seq p f t w).1, (seq p f t w).2.2) = q w
  unfold seq
  cases hrun : p t w with
  | mk r rest =>
      obtain ⟨t', w'⟩ := rest
      rw [hrun] at hp
      cases r with
      | error e => exact hp
      | ok a => exact (hf a t' w').trans hp

/-- A handler that raises what it caught changes nothing. -/
theorem Blind.attempt {handler : ε → Hooked τ σ ε α} (h : Blind p q)
    (hhandler : ∀ e, Blind (handler e) (.raise e)) : Blind (p.attempt handler) q := by
  intro t w
  have hp := h t w
  unfold Hooked.attempt
  cases hrun : p t w with
  | mk r rest =>
      obtain ⟨t', w'⟩ := rest
      rw [hrun] at hp
      cases r with
      | ok a => exact hp
      | error e => exact (hhandler e t' w').trans hp

theorem Blind.ensuring {g : τ → σ → τ} (h : Blind p q) : Blind (p.ensuring (record g)) q :=
  (h.attempt fun e => blind_record (blind_raise e)).andThen fun a => blind_record (blind_pure a)

end Rules

/-! ## What a computation adds to its record -/

section Adding

variable (I : τ → σ → Prop) (m : τ → Nat)

/-- The computation keeps the invariant, and adds this to the quantity. -/
def Adds (p : Hooked τ σ ε α) (g : σ → Nat) : Prop :=
  ∀ t w, I t w → I (p t w).2.1 (p t w).2.2 ∧ m (p t w).2.1 = m t + g w

/-- What an end is worth: nothing, when it is an error. -/
def worthOf (worth : α → Nat) : Except ε α → Nat
  | .ok a => worth a
  | .error _ => 0

/-- The computation keeps the invariant, the quantity and the world. -/
def Quiet (p : Hooked τ σ ε α) : Prop :=
  ∀ t w, I t w → I (p t w).2.1 w ∧ m (p t w).2.1 = m t ∧ (p t w).2.2 = w

theorem worthOf_mul (n : Nat) (worth : α → Nat) (r : Except ε α) :
    worthOf (fun a => n * worth a) r = n * worthOf worth r := by
  cases r with
  | ok a => rfl
  | error e => rfl

variable {I m} {p : Hooked τ σ ε α} {f : α → Hooked τ σ ε β} {g g' : σ → Nat}

theorem Adds.congr (h : Adds I m p g) (hg : ∀ w, g w = g' w) : Adds I m p g' := by
  intro t w hI
  rw [← hg w]
  exact h t w hI

theorem quiet_pure (a : α) : Quiet I m (pure a : Hooked τ σ ε α) := fun _ _ h => ⟨h, rfl, rfl⟩

theorem quiet_raise (e : ε) : Quiet I m (raise e : Hooked τ σ ε α) := fun _ _ h => ⟨h, rfl, rfl⟩

theorem quiet_look (x : τ → σ → α) : Quiet I m (look x : Hooked τ σ ε α) :=
  fun _ _ h => ⟨h, rfl, rfl⟩

theorem quiet_record {x : τ → σ → τ} (h : ∀ t w, I t w → I (x t w) w ∧ m (x t w) = m t) :
    Quiet I m (record x : Hooked τ σ ε Unit) := fun t w hI => ⟨(h t w hI).1, (h t w hI).2, rfl⟩

theorem Quiet.bind (h : Quiet I m p) (hf : ∀ a, Quiet I m (f a)) : Quiet I m (p >>= f) := by
  intro t w hI
  obtain ⟨hI', hm, hw⟩ := h t w hI
  change I (seq p f t w).2.1 w ∧ m (seq p f t w).2.1 = m t ∧ (seq p f t w).2.2 = w
  unfold seq
  cases hrun : p t w with
  | mk r rest =>
      obtain ⟨t', w'⟩ := rest
      rw [hrun] at hI' hm hw
      subst hw
      cases r with
      | error e => exact ⟨hI', hm, rfl⟩
      | ok a =>
          obtain ⟨hI'', hm', hw'⟩ := hf a t' w' hI'
          exact ⟨hI'', hm'.trans hm, hw'⟩

/-- Quiet before. -/
theorem Quiet.andAdds (h : Quiet I m p) (hf : ∀ a, Adds I m (f a) g)
    (hok : ∀ t w, ∃ a, (p t w).1 = .ok a) : Adds I m (p >>= f) g := by
  intro t w hI
  obtain ⟨hI', hm, hw⟩ := h t w hI
  obtain ⟨a, ha⟩ := hok t w
  change I (seq p f t w).2.1 (seq p f t w).2.2 ∧ m (seq p f t w).2.1 = m t + g w
  unfold seq
  cases hrun : p t w with
  | mk r rest =>
      obtain ⟨t', w'⟩ := rest
      rw [hrun] at hI' hm hw ha
      subst hw
      subst ha
      obtain ⟨hI'', hm'⟩ := hf a t' w' hI'
      refine ⟨hI'', ?_⟩
      change m (f a t' w').2.1 = _
      rw [hm', show m t' = m t from hm]

theorem adds_look {x : τ → σ → α} (hf : ∀ a, Adds I m (f a) g) : Adds I m (look x >>= f) g :=
  (quiet_look x).andAdds hf fun _ _ => ⟨_, rfl⟩

/-- What is read is told by the invariant. -/
theorem adds_look_of {x : τ → σ → α} {a : α} (hx : ∀ t w, I t w → x t w = a)
    (hf : Adds I m (f a) g) : Adds I m (look x >>= f) g := by
  intro t w hI
  change I (f (x t w) t w).2.1 (f (x t w) t w).2.2 ∧ m (f (x t w) t w).2.1 = m t + g w
  rw [hx t w hI]
  exact hf t w hI

theorem adds_record {x : τ → σ → τ} {f : Unit → Hooked τ σ ε β}
    (h : ∀ t w, I t w → I (x t w) w ∧ m (x t w) = m t) (hf : Adds I m (f ()) g) :
    Adds I m (record x >>= f) g :=
  (quiet_record h).andAdds (fun _ => hf) fun _ _ => ⟨_, rfl⟩

/-- A change of the record that adds to the quantity. -/
theorem adds_record_of {x : τ → σ → τ} {f : Unit → Hooked τ σ ε β} {n : Nat}
    (h : ∀ t w, I t w → I (x t w) w ∧ m (x t w) = m t + n) (hf : Adds I m (f ()) g) :
    Adds I m (record x >>= f) fun w => n + g w := by
  intro t w hI
  obtain ⟨hI', hm⟩ := h t w hI
  obtain ⟨hI'', hm'⟩ := hf _ _ hI'
  refine ⟨hI'', hm'.trans ?_⟩
  rw [hm, Nat.add_assoc]

theorem Quiet.adds (h : Quiet I m p) : Adds I m p fun _ => 0 := by
  intro t w hI
  obtain ⟨hI', hm, hw⟩ := h t w hI
  rw [hw]
  exact ⟨hI', hm⟩

/-- An action that keeps the invariant adds nothing. -/
theorem adds_lift {q : Bare σ ε α} (h : ∀ t w, I t w → I t (q w).2) :
    Adds I m (lift q : Hooked τ σ ε α) fun _ => 0 := fun t w hI => ⟨h t w hI, rfl⟩

/-- Quiet after. -/
theorem Adds.andQuiet (h : Adds I m p g) (hf : ∀ a, Quiet I m (f a)) :
    Adds I m (p >>= f) g := by
  intro t w hI
  obtain ⟨hI', hm⟩ := h t w hI
  change I (seq p f t w).2.1 (seq p f t w).2.2 ∧ m (seq p f t w).2.1 = m t + g w
  unfold seq
  cases hrun : p t w with
  | mk r rest =>
      obtain ⟨t', w'⟩ := rest
      rw [hrun] at hI' hm
      cases r with
      | error e => exact ⟨hI', hm⟩
      | ok a =>
          obtain ⟨hI'', hm', hw'⟩ := hf a t' w' hI'
          refine ⟨?_, hm'.trans hm⟩
          change I (f a t' w').2.1 (f a t' w').2.2
          rw [hw']
          exact hI''

/-- What follows an action adds what the value of the action is worth. -/
theorem Adds.andGains {q : Bare σ ε α} {worth : α → Nat} (h : Adds I m p fun _ => 0)
    (hq : Blind p q)
    (hf : ∀ a t w, I t w → I (f a t w).2.1 w ∧ m (f a t w).2.1 = m t + worth a ∧
      (f a t w).2.2 = w) :
    Adds I m (p >>= f) fun w => worthOf worth (q w).1 := by
  intro t w hI
  obtain ⟨hI', hm⟩ := h t w hI
  have hend : (p t w).1 = (q w).1 := congrArg Prod.fst (hq t w)
  change I (seq p f t w).2.1 (seq p f t w).2.2 ∧
    m (seq p f t w).2.1 = m t + worthOf worth (q w).1
  rw [← hend]
  unfold seq
  cases hrun : p t w with
  | mk r rest =>
      obtain ⟨t', w'⟩ := rest
      rw [hrun] at hI' hm
      cases r with
      | error e => exact ⟨hI', hm⟩
      | ok a =>
          obtain ⟨hI'', hm', hw'⟩ := hf a t' w' hI'
          refine ⟨?_, hm'.trans (congrArg (· + worth a) hm)⟩
          change I (f a t' w').2.1 (f a t' w').2.2
          rw [hw']
          exact hI''

theorem Adds.attempt {handler : ε → Hooked τ σ ε α} (h : Adds I m p g)
    (hhandler : ∀ e, Quiet I m (handler e)) : Adds I m (p.attempt handler) g := by
  intro t w hI
  obtain ⟨hI', hm⟩ := h t w hI
  unfold Hooked.attempt
  cases hrun : p t w with
  | mk r rest =>
      obtain ⟨t', w'⟩ := rest
      rw [hrun] at hI' hm
      cases r with
      | ok a => exact ⟨hI', hm⟩
      | error e =>
          obtain ⟨hI'', hm', hw'⟩ := hhandler e t' w' hI'
          refine ⟨?_, hm'.trans hm⟩
          change I (handler e t' w').2.1 (handler e t' w').2.2
          rw [hw']
          exact hI''

theorem Adds.ensuring {cleanup : Hooked τ σ ε Unit} (h : Adds I m p g)
    (hcleanup : Quiet I m cleanup) : Adds I m (p.ensuring cleanup) g :=
  (h.attempt fun e => hcleanup.bind fun _ => quiet_raise e).andQuiet
    fun a => hcleanup.bind fun _ => quiet_pure a

end Adding

end Hooked

/-! ## Clients -/

/-- A client makes calls, and runs parts of itself in scopes; what it does next depends on
how they ended. -/
inductive Client (C S ε α : Type)
  | done (r : Except ε α)
  | call (c : C) (k : Except ε α → Client C S ε α)
  | scope (s : S) (body : Client C S ε α) (k : Except ε α → Client C S ε α)

namespace Client

variable {C S : Type}

/-- The client on the calls themselves. -/
def run (orig : C → Bare σ ε α) : Client C S ε α → Bare σ ε α
  | done r, w => (r, w)
  | call c k, w => (k (orig c w).1).run orig (orig c w).2
  | scope _ body k, w => (k (body.run orig w).1).run orig (body.run orig w).2

/-- The client with its calls and its scopes wrapped. -/
def hooked (call : C → Hooked τ σ ε α) (wrap : S → Hooked τ σ ε α → Hooked τ σ ε α) :
    Client C S ε α → Hooked τ σ ε α
  | done r, t, w => (r, t, w)
  | .call c k, t, w =>
      (k (call c t w).1).hooked call wrap (call c t w).2.1 (call c t w).2.2
  | scope s body k, t, w =>
      (k (wrap s (body.hooked call wrap) t w).1).hooked call wrap
        (wrap s (body.hooked call wrap) t w).2.1 (wrap s (body.hooked call wrap) t w).2.2

/-- What the calls and the scopes of the client gain. -/
def gains (orig : C → Bare σ ε α) (gain : C → Except ε α → Nat) (entry : S → Nat) :
    Client C S ε α → σ → Nat
  | done _, _ => 0
  | call c k, w =>
      gain c (orig c w).1 + (k (orig c w).1).gains orig gain entry (orig c w).2
  | scope s body k, w =>
      entry s + body.gains orig gain entry w +
        (k (body.run orig w).1).gains orig gain entry (body.run orig w).2

variable {orig : C → Bare σ ε α} {call : C → Hooked τ σ ε α}
  {wrap : S → Hooked τ σ ε α → Hooked τ σ ε α}

/-- Under wrappers that are blind the client ends as it does on the calls themselves, and
leaves the same world. -/
theorem hooked_blind (hcall : ∀ c, (call c).Blind (orig c))
    (hwrap : ∀ s p q, Hooked.Blind p q → (wrap s p).Blind q) (client : Client C S ε α) :
    (client.hooked call wrap).Blind (client.run orig) := by
  induction client with
  | done r => exact fun _ _ => rfl
  | call c k ih =>
      intro t w
      have hc := Prod.mk.inj (hcall c t w)
      simp only [hooked, run]
      rw [ih, ← hc.1, ← hc.2]
  | scope s body k ihbody ih =>
      intro t w
      have hs := Prod.mk.inj (hwrap s _ _ ihbody t w)
      simp only [hooked, run]
      rw [ih, ← hs.1, ← hs.2]

/-- Under wrappers that moreover add what each call and each scope gains. -/
theorem hooked_adds {I : τ → σ → Prop} {m : τ → Nat} {gain : C → Except ε α → Nat}
    {entry : S → Nat}
    (hcall : ∀ c, (call c).Blind (orig c))
    (hwrap : ∀ s p q, Hooked.Blind p q → (wrap s p).Blind q)
    (hgain : ∀ c, (call c).Adds I m fun w => gain c (orig c w).1)
    (hscope : ∀ s p g, Hooked.Adds I m p g → (wrap s p).Adds I m fun w => entry s + g w)
    (client : Client C S ε α) :
    (client.hooked call wrap).Adds I m (client.gains orig gain entry) := by
  induction client with
  | done r => exact fun _ _ h => ⟨h, rfl⟩
  | call c k ih =>
      intro t w hI
      have hc := Prod.mk.inj (hcall c t w)
      obtain ⟨hI', hm⟩ := hgain c t w hI
      obtain ⟨hI'', hm'⟩ := ih (call c t w).1 _ _ hI'
      refine ⟨hI'', ?_⟩
      simp only [hooked, gains]
      rw [hm', hm, hc.1, hc.2, Nat.add_assoc]
  | scope s body k ihbody ih =>
      intro t w hI
      have hs := Prod.mk.inj (hwrap s _ _ (hooked_blind hcall hwrap body) t w)
      obtain ⟨hI', hm⟩ := hscope s _ _ ihbody t w hI
      obtain ⟨hI'', hm'⟩ := ih (wrap s (body.hooked call wrap) t w).1 _ _ hI'
      refine ⟨hI'', ?_⟩
      simp only [hooked, gains]
      rw [hm', hm, hs.1, hs.2, Nat.add_assoc]

end Client

end Instrument
