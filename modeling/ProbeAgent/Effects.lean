import Mathlib.Data.List.Basic
import Mathlib.Tactic.Common

/-!
# Programs with effects, and the states they pass through

A program reads a state, performs effects on it one at a time and ends with a
value or an error.  Its meaning is the list of effects it performs from a given
state together with how it ends, so a run that is cut off after any number of
effects is a prefix of that list.

* `after`: the state after a list of effects.
* `Passes`: a property of every state a list of effects passes through, the
  first and the last included.
* `Ascends`: a relation of each state to the next one, and so to all after it
  (`Ascends.pairwise`).
* `Prog`: programs, with the rules that say what a sequence of programs does.
* `Prog.Triple`: what a program leaves, from what it starts with.
* `Prog.performed`: the effects of a program that may be stopped early.
* `Prog.SeenAs`: a program with finer effects does what a coarser one does.
-/

namespace Effects

universe u v w

/-- What an effect of type `ω` does to a state of type `σ`. -/
class Effect (ω : Type u) (σ : outParam (Type v)) where
  apply : σ → ω → σ

variable {ω : Type u} {σ : Type v} [Effect ω σ]

/-- The state after a list of effects. -/
def after (s : σ) (ws : List ω) : σ :=
  ws.foldl Effect.apply s

@[simp] theorem after_nil (s : σ) :
    after s ([] : List ω) = s := rfl

@[simp] theorem after_cons (s : σ) (w : ω) (ws : List ω) :
    after s (w :: ws) = after (Effect.apply s w) ws := rfl

@[simp] theorem after_append (s : σ) (ws vs : List ω) :
    after s (ws ++ vs) = after (after s ws) vs :=
  List.foldl_append

/-- A property that no effect of a list touches is the same after the list. -/
theorem after_frame {β : Type w} (view : σ → β) :
    ∀ (ws : List ω) (s : σ),
      (∀ w ∈ ws, ∀ t : σ, view (Effect.apply t w) = view t) →
      view (after s ws) = view s
  | [], _, _ => rfl
  | w :: ws, s, h => by
      rw [after_cons]
      rw [after_frame view ws _ (fun v hv => h v (List.mem_cons_of_mem _ hv))]
      exact h w List.mem_cons_self s

/-- `I` holds of every state a list of effects passes through. -/
def Passes (I : σ → Prop) (s : σ) (ws : List ω) : Prop :=
  ∀ n : Nat, I (after s (ws.take n))

@[simp] theorem passes_nil (I : σ → Prop) (s : σ) :
    Passes I s ([] : List ω) ↔ I s := by
  simp [Passes]

@[simp] theorem passes_cons (I : σ → Prop) (s : σ) (w : ω) (ws : List ω) :
    Passes I s (w :: ws) ↔ I s ∧ Passes I (Effect.apply s w) ws := by
  constructor
  · intro h
    exact ⟨h 0, fun n => h (n + 1)⟩
  · rintro ⟨h0, h⟩ n
    cases n with
    | zero => exact h0
    | succ n => exact h n

@[simp] theorem passes_append (I : σ → Prop) (s : σ) (ws vs : List ω) :
    Passes I s (ws ++ vs) ↔ Passes I s ws ∧ Passes I (after s ws) vs := by
  induction ws generalizing s with
  | nil =>
      simp only [List.nil_append, passes_nil, after_nil]
      exact ⟨fun h => ⟨by simpa using h 0, h⟩, fun h => h.2⟩
  | cons w ws ih =>
      rw [List.cons_append, passes_cons, passes_cons, ih, after_cons, and_assoc]

/-- What every effect keeps holds of every state passed through. -/
theorem Passes.of_each {I : σ → Prop} {s : σ} {ws : List ω}
    (h : ∀ w ∈ ws, ∀ t, I t → I (Effect.apply t w)) (hs : I s) : Passes I s ws := by
  induction ws generalizing s with
  | nil => exact (passes_nil I s).mpr hs
  | cons w ws ih =>
      refine (passes_cons I s w ws).mpr ⟨hs, ih (fun v hv => h v (List.mem_cons_of_mem w hv)) ?_⟩
      exact h w List.mem_cons_self s hs

theorem Passes.final {I : σ → Prop} {s : σ} {ws : List ω}
    (h : Passes I s ws) : I (after s ws) := by
  simpa using h ws.length

/-- Each effect of the list takes the state it meets to one that `R` relates it to. -/
def Ascends (R : σ → σ → Prop) : σ → List ω → Prop
  | _, [] => True
  | s, w :: ws => R s (Effect.apply s w) ∧ Ascends R (Effect.apply s w) ws

theorem Ascends.append {R : σ → σ → Prop} {s : σ} {ws vs : List ω} (hws : Ascends R s ws)
    (hvs : Ascends R (after s ws) vs) : Ascends R s (ws ++ vs) := by
  induction ws generalizing s with
  | nil => exact hvs
  | cons w ws ih => exact ⟨hws.1, ih hws.2 hvs⟩

theorem Ascends.of_each {R : σ → σ → Prop} {ws : List ω}
    (h : ∀ w ∈ ws, ∀ t, R t (Effect.apply t w)) (s : σ) : Ascends R s ws := by
  induction ws generalizing s with
  | nil => trivial
  | cons w ws ih =>
      exact ⟨h w List.mem_cons_self s, ih (fun v hv => h v (List.mem_cons_of_mem w hv)) _⟩

/-- The states a list of effects passes through, in their order. -/
def passed (s : σ) (ws : List ω) : List σ :=
  ws.scanl Effect.apply s

theorem mem_passed (s : σ) (ws : List ω) : s ∈ passed s ws := by
  cases ws <;> simp [passed]

/-- Along an ascent every state is related to those after it, and all to the last one. -/
theorem Ascends.pairwise {R : σ → σ → Prop} (hrefl : ∀ s, R s s)
    (htrans : ∀ {s t u}, R s t → R t u → R s u) {s : σ} {ws : List ω} (h : Ascends R s ws) :
    (passed s ws).Pairwise R ∧ (∀ t ∈ passed s ws, R s t) ∧
      ∀ t ∈ passed s ws, R t (after s ws) := by
  induction ws generalizing s with
  | nil => simp [passed, hrefl]
  | cons w ws ih =>
      obtain ⟨hpairwise, hfirst, hlast⟩ := ih h.2
      have hcons : passed s (w :: ws) = s :: passed (Effect.apply s w) ws := List.scanl_cons
      have hlater : ∀ t ∈ passed (Effect.apply s w) ws, R s t := fun t ht =>
        htrans h.1 (hfirst t ht)
      rw [hcons, List.pairwise_cons, List.forall_mem_cons, List.forall_mem_cons, after_cons]
      refine ⟨⟨hlater, hpairwise⟩, ⟨hrefl s, hlater⟩, ?_, hlast⟩
      exact htrans h.1 (hlast _ (mem_passed _ ws))

/-- The effects performed out of a list when the run is stopped after that many. -/
def cut (stop : Option Nat) (ws : List ω) : List ω :=
  match stop with
  | none => ws
  | some n => ws.take n

/-- A run that may be stopped still performs its first `n` effects. -/
def Reaches (stop : Option Nat) (n : Nat) : Prop :=
  ∀ k, stop = some k → n ≤ k

instance (stop : Option Nat) (n : Nat) : Decidable (Reaches stop n) :=
  match stop with
  | none => isTrue (fun _ h => nomatch h)
  | some k =>
      if h : n ≤ k then isTrue (fun _ hk => Option.some.inj hk ▸ h)
      else isFalse (fun hr => h (hr k rfl))

section Cut

omit [Effect ω σ]

@[simp] theorem cut_none (ws : List ω) : cut none ws = ws := rfl

@[simp] theorem cut_some (n : Nat) (ws : List ω) : cut (some n) ws = ws.take n := rfl

@[simp] theorem cut_nil (stop : Option Nat) : cut stop ([] : List ω) = [] := by
  cases stop with
  | none => rfl
  | some n => simp

@[simp] theorem reaches_none (n : Nat) : Reaches none n := by
  intro k hk
  cases hk

@[simp] theorem reaches_some (k n : Nat) : Reaches (some k) n ↔ n ≤ k := by
  constructor
  · intro h
    exact h k rfl
  · rintro h j hj
    cases hj
    exact h

theorem Reaches.mono {stop : Option Nat} {m n : Nat}
    (h : Reaches stop n) (hmn : m ≤ n) : Reaches stop m :=
  fun k hk => Nat.le_trans hmn (h k hk)

theorem mem_of_mem_cut {stop : Option Nat} {ws : List ω} {w : ω}
    (h : w ∈ cut stop ws) : w ∈ ws := by
  cases stop with
  | none => exact h
  | some n => exact List.mem_of_mem_take h

theorem cut_eq_take (stop : Option Nat) (ws : List ω) :
    ∃ n, cut stop ws = ws.take n := by
  cases stop with
  | none => exact ⟨ws.length, by simp⟩
  | some n => exact ⟨n, rfl⟩

/-- A run that gets past a part of the list performs all of it. -/
theorem cut_append_of_reaches {stop : Option Nat} {ws : List ω}
    (h : Reaches stop ws.length) (vs : List ω) :
    ∃ us, cut stop (ws ++ vs) = ws ++ us ∧ ∀ u ∈ us, u ∈ vs := by
  cases stop with
  | none => exact ⟨vs, rfl, fun _ hu => hu⟩
  | some n =>
      rw [reaches_some] at h
      refine ⟨vs.take (n - ws.length), ?_, fun u hu => List.mem_of_mem_take hu⟩
      rw [cut_some, List.take_append, List.take_of_length_le h]

/-- A run that does not get past the effect after a part performs no more than it. -/
theorem cut_append_of_not_reaches {stop : Option Nat} {ws vs : List ω}
    (h : ¬Reaches stop (ws.length + 1)) : cut stop (ws ++ vs) = cut stop ws := by
  cases stop with
  | none => simp at h
  | some n =>
      rw [reaches_some] at h
      rw [cut_some, cut_some, List.take_append_of_le_length (by omega)]

theorem cut_of_reaches {stop : Option Nat} {ws : List ω}
    (h : Reaches stop ws.length) : cut stop ws = ws := by
  cases stop with
  | none => rfl
  | some n =>
      rw [reaches_some] at h
      rw [cut_some, List.take_of_length_le h]

/-- A run stopped right after a part of the list performs just that part. -/
theorem cut_append_eq {stop : Option Nat} {ws : List ω} (h : Reaches stop ws.length)
    (hstop : ¬Reaches stop (ws.length + 1)) (vs : List ω) :
    cut stop (ws ++ vs) = ws := by
  cases stop with
  | none => simp at hstop
  | some n =>
      rw [reaches_some] at h hstop
      rw [cut_some, List.take_append_of_le_length (by omega), List.take_of_length_le h]

theorem mem_of_mem_cut_append {stop : Option Nat} {ws vs : List ω} {v : ω}
    (h : ¬Reaches stop (ws.length + 1)) (hv : v ∈ cut stop (ws ++ vs)) : v ∈ ws := by
  rw [cut_append_of_not_reaches h] at hv
  exact mem_of_mem_cut hv

/-- Whether a run performs an effect of a kind is decided by the first one. -/
theorem exists_mem_cut_iff {φ : ω → Prop} {ws vs : List ω} {w : ω}
    (hpre : ∀ v ∈ ws, ¬ φ v) (hw : φ w) (stop : Option Nat) :
    (∃ v ∈ cut stop (ws ++ w :: vs), φ v) ↔ Reaches stop (ws.length + 1) := by
  constructor
  · rintro ⟨v, hv, hφ⟩
    by_contra hstop
    exact hpre v (mem_of_mem_cut_append hstop hv) hφ
  · intro h
    have hsplit : ws ++ w :: vs = (ws ++ [w]) ++ vs := by simp
    have hlen : (ws ++ [w]).length = ws.length + 1 := by simp
    obtain ⟨us, hus, -⟩ := cut_append_of_reaches (by rwa [← hlen] at h) vs
    rw [hsplit, hus]
    exact ⟨w, by simp, hw⟩

end Cut

/-- What holds throughout a run holds where it is stopped. -/
theorem Passes.at_cut {I : σ → Prop} {s : σ} {ws : List ω} (h : Passes I s ws)
    (stop : Option Nat) : I (after s (cut stop ws)) := by
  obtain ⟨n, hn⟩ := cut_eq_take stop ws
  rw [hn]
  exact h n

theorem Passes.cut {I : σ → Prop} {s : σ} {ws : List ω} (h : Passes I s ws)
    (stop : Option Nat) : Passes I s (cut stop ws) := by
  obtain ⟨m, hm⟩ := cut_eq_take stop ws
  intro n
  rw [hm, List.take_take]
  exact h (min n m)

/-- A computation that may fail gives a value when both its halves do. -/
theorem except_bind_eq_ok {ε α β : Type w} {x : Except ε α} {f : α → Except ε β} {b : β} :
    (x >>= f) = .ok b ↔ ∃ a, x = .ok a ∧ f a = .ok b := by
  cases x with
  | error e => simp [bind, Except.bind]
  | ok a => simp [bind, Except.bind]

/-- A program: from a state, the effects it performs and how it ends. -/
structure Prog (ω : Type u) (σ : Type v) (ε α : Type w) where
  run : σ → List ω × Except ε α

namespace Prog

section Primitives

variable {ω : Type u} {σ : Type v} {ε α : Type w}

/-- The effects a program performs when nothing stops it. -/
def effects (p : Prog ω σ ε α) (s : σ) : List ω := (p.run s).1

/-- How a program ends when nothing stops it. -/
def result (p : Prog ω σ ε α) (s : σ) : Except ε α := (p.run s).2

/-- The effects a program performs when it is stopped after that many. -/
def performed (p : Prog ω σ ε α) (s : σ) (stop : Option Nat) : List ω :=
  cut stop (p.effects s)

/-- Perform one effect. -/
def perform (w : ω) : Prog ω σ ε PUnit := ⟨fun _ => ([w], .ok ⟨⟩)⟩

/-- Read the state. -/
def look (g : σ → α) : Prog ω σ ε α := ⟨fun s => ([], .ok (g s))⟩

/-- End with an error. -/
def raise (e : ε) : Prog ω σ ε α := ⟨fun _ => ([], .error e)⟩

/-- Go on with a value, or end with an error, computed without effects. -/
def ofExcept (x : Except ε α) : Prog ω σ ε α := ⟨fun _ => ([], x)⟩

/-- Run a program and swallow its error. -/
def swallow (p : Prog ω σ ε PUnit) : Prog ω σ ε PUnit := ⟨fun s => ((p.run s).1, .ok ⟨⟩)⟩

@[simp] theorem run_perform (w : ω) (s : σ) :
    (perform w : Prog ω σ ε PUnit).run s = ([w], .ok ⟨⟩) := rfl

@[simp] theorem run_look (g : σ → α) (s : σ) :
    (look g : Prog ω σ ε α).run s = ([], .ok (g s)) := rfl

@[simp] theorem run_raise (e : ε) (s : σ) :
    (raise e : Prog ω σ ε α).run s = ([], .error e) := rfl

@[simp] theorem run_ofExcept (x : Except ε α) (s : σ) :
    (ofExcept x : Prog ω σ ε α).run s = ([], x) := rfl

@[simp] theorem run_swallow (p : Prog ω σ ε PUnit) (s : σ) :
    (swallow p).run s = ((p.run s).1, .ok ⟨⟩) := rfl

/-- A run gives the effects, the end and, stopped, the effects performed. -/
theorem effects_of_run {p : Prog ω σ ε α} {s : σ} {ws : List ω} {r : Except ε α}
    (h : p.run s = (ws, r)) : p.effects s = ws := by
  rw [effects, h]

theorem result_of_run {p : Prog ω σ ε α} {s : σ} {ws : List ω} {r : Except ε α}
    (h : p.run s = (ws, r)) : p.result s = r := by
  rw [result, h]

theorem performed_of_run {p : Prog ω σ ε α} {s : σ} {ws : List ω} {r : Except ε α}
    (h : p.run s = (ws, r)) (stop : Option Nat) : p.performed s stop = cut stop ws := by
  rw [performed, effects_of_run h]

@[simp] theorem effects_swallow (p : Prog ω σ ε PUnit) (s : σ) :
    (swallow p).effects s = p.effects s := rfl

end Primitives

section Sequencing

variable {ω : Type u} {σ : Type v} [Effect ω σ] {ε α β : Type w}

/-- Run `p`, then `f` from the state `p` left, unless `p` ended with an error. -/
def seq (p : Prog ω σ ε α) (f : α → Prog ω σ ε β) : Prog ω σ ε β := ⟨fun s =>
  match p.run s with
  | (ws, .error e) => (ws, .error e)
  | (ws, .ok a) => (ws ++ ((f a).run (after s ws)).1, ((f a).run (after s ws)).2)⟩

instance : Monad (Prog ω σ ε) where
  pure a := ⟨fun _ => ([], .ok a)⟩
  bind := seq

@[simp] theorem run_pure (a : α) (s : σ) :
    (pure a : Prog ω σ ε α).run s = ([], .ok a) := rfl

/-- A sequence ends where its first part ends with an error. -/
theorem bind_error {p : Prog ω σ ε α} {f : α → Prog ω σ ε β} {s : σ}
    {ws : List ω} {e : ε} (h : p.run s = (ws, .error e)) :
    (p >>= f).run s = (ws, .error e) := by
  change (seq p f).run s = _
  simp [seq, h]

/-- Otherwise the second part goes on from the state the first one left. -/
theorem bind_ok {p : Prog ω σ ε α} {f : α → Prog ω σ ε β} {s : σ}
    {ws : List ω} {a : α} (h : p.run s = (ws, .ok a)) :
    (p >>= f).run s =
      (ws ++ ((f a).run (after s ws)).1, ((f a).run (after s ws)).2) := by
  change (seq p f).run s = _
  simp [seq, h]

/-- What holds of the effects of both parts of a sequence holds of all its effects. -/
theorem forall_effects_bind {q : ω → Prop} {p : Prog ω σ ε α} {f : α → Prog ω σ ε β} {s : σ}
    (hp : ∀ w ∈ (p.run s).1, q w) (hf : ∀ a t, ∀ w ∈ ((f a).run t).1, q w) :
    ∀ w ∈ ((p >>= f).run s).1, q w := by
  intro w hw
  cases hrun : p.run s with
  | mk ws r =>
      rw [hrun] at hp
      cases r with
      | error e =>
          rw [bind_error hrun] at hw
          exact hp w hw
      | ok a =>
          rw [bind_ok hrun] at hw
          rcases List.mem_append.mp hw with hw | hw
          · exact hp w hw
          · exact hf a _ w hw

@[simp] theorem run_look_bind (g : σ → α) (f : α → Prog ω σ ε β) (s : σ) :
    (look g >>= f).run s = (f (g s)).run s := by
  rw [bind_ok (run_look g s)]
  simp

@[simp] theorem effects_look_bind (g : σ → α) (f : α → Prog ω σ ε β) (s : σ) :
    (look g >>= f).effects s = (f (g s)).effects s := by
  rw [effects, run_look_bind, effects]

@[simp] theorem result_look_bind (g : σ → α) (f : α → Prog ω σ ε β) (s : σ) :
    (look g >>= f).result s = (f (g s)).result s := by
  rw [result, run_look_bind, result]

@[simp] theorem run_ofExcept_ok_bind (a : α) (f : α → Prog ω σ ε β) (s : σ) :
    (ofExcept (.ok a) >>= f).run s = (f a).run s := by
  rw [bind_ok (run_ofExcept _ s)]
  simp

@[simp] theorem run_ofExcept_error_bind (e : ε) (f : α → Prog ω σ ε β) (s : σ) :
    (ofExcept (.error e) >>= f).run s = ([], .error e) :=
  bind_error (run_ofExcept _ s)

/-- From a state with `P` the program ends with a value in a state with `Q` of it, or
with an error in a state with `R`. -/
def Triple (P : σ → Prop) (p : Prog ω σ ε α) (Q : α → σ → Prop) (R : σ → Prop) : Prop :=
  ∀ s, P s →
    match p.result s with
    | .ok a => Q a (after s (p.effects s))
    | .error _ => R (after s (p.effects s))

section Triples

variable {P : σ → Prop} {R : σ → Prop}

theorem Triple.pure {Q : α → σ → Prop} {a : α} (h : ∀ s, P s → Q a s) :
    Triple P (Pure.pure a : Prog ω σ ε α) Q R := fun s hs => h s hs

theorem Triple.look {Q : α → σ → Prop} {g : σ → α} (h : ∀ s, P s → Q (g s) s) :
    Triple P (Prog.look g : Prog ω σ ε α) Q R := fun s hs => h s hs

theorem Triple.raise {Q : α → σ → Prop} {e : ε} (h : ∀ s, P s → R s) :
    Triple P (Prog.raise e : Prog ω σ ε α) Q R := fun s hs => h s hs

theorem Triple.perform {Q : PUnit → σ → Prop} {w : ω}
    (h : ∀ s, P s → Q ⟨⟩ (Effect.apply s w)) :
    Triple P (Prog.perform w : Prog ω σ ε PUnit) Q R := fun s hs => h s hs

theorem Triple.ofExcept {Q : α → σ → Prop} {x : Except ε α}
    (hok : ∀ a s, x = .ok a → P s → Q a s) (herror : ∀ s, P s → R s) :
    Triple P (Prog.ofExcept x : Prog ω σ ε α) Q R := by
  intro s hs
  cases x with
  | error e => exact herror s hs
  | ok a => exact hok a s rfl hs

/-- In a sequence the second part starts from what the first one leaves. -/
theorem Triple.bind {Q : α → σ → Prop} {Q' : β → σ → Prop} {p : Prog ω σ ε α}
    {f : α → Prog ω σ ε β} (hp : Triple P p Q R) (hf : ∀ a, Triple (Q a) (f a) Q' R) :
    Triple P (p >>= f) Q' R := by
  intro s hs
  have hfirst := hp s hs
  cases hrun : p.run s with
  | mk ws r =>
      rw [result_of_run hrun, effects_of_run hrun] at hfirst
      cases r with
      | error e =>
          rw [result_of_run (bind_error hrun), effects_of_run (bind_error hrun)]
          exact hfirst
      | ok a =>
          have hsecond := hf a (after s ws) hfirst
          rw [result_of_run (bind_ok hrun), effects_of_run (bind_ok hrun), after_append]
          exact hsecond

theorem Triple.mono {P' : σ → Prop} {Q : α → σ → Prop} {p : Prog ω σ ε α}
    (h : Triple P p Q R) (hP : ∀ s, P' s → P s) : Triple P' p Q R :=
  fun s hs => h s (hP s hs)

/-- What does not depend on the state may be assumed of a program. -/
theorem Triple.assume {φ : Prop} {Q : α → σ → Prop} {p : Prog ω σ ε α}
    (h : φ → Triple P p Q R) : Triple (fun s => φ ∧ P s) p Q R :=
  fun s hs => h hs.1 s hs.2

/-- It is enough to know what a program leaves of each state it may start from. -/
theorem Triple.of_start {Q : α → σ → Prop} {p : Prog ω σ ε α}
    (h : ∀ s, P s → Triple (fun t => t = s) p Q R) : Triple P p Q R :=
  fun s hs => h s hs s rfl

/-- However it ends, what both ends have in common holds. -/
theorem Triple.final {I : σ → Prop} {p : Prog ω σ ε α} (h : Triple P p (fun _ => I) I)
    {s : σ} (hs : P s) : I (after s (p.effects s)) := by
  have hend := h s hs
  cases hresult : p.result s with
  | error e =>
      rw [hresult] at hend
      exact hend
  | ok a =>
      rw [hresult] at hend
      exact hend

end Triples

end Sequencing

section Views

universe u'

variable {ω : Type u} {ω' : Type u'} {σ : Type v} [Effect ω σ] [Effect ω' σ] {ε α β : Type w}

/-- Finer effects do to the state what is seen of them, and nothing when nothing is. -/
def Faithful (see : ω' → Option ω) : Prop :=
  ∀ (s : σ) (w' : ω'), Effect.apply s w' =
    match see w' with
    | some w => Effect.apply s w
    | none => s

theorem Faithful.after {see : ω' → Option ω} (h : Faithful (σ := σ) see) (s : σ)
    (ws : List ω') : after s (ws.filterMap see) = after s ws := by
  induction ws generalizing s with
  | nil => rfl
  | cons w' ws ih =>
      rw [after_cons, h s w', List.filterMap_cons]
      cases see w' with
      | none => exact ih s
      | some w => exact ih _

/-- What is seen of the effects of a program is the other program, which ends alike. -/
def SeenAs (see : ω' → Option ω) (p : Prog ω' σ ε α) (q : Prog ω σ ε α) : Prop :=
  ∀ s, (p.run s).1.filterMap see = (q.run s).1 ∧ (p.run s).2 = (q.run s).2

/-- A program with its effects among finer ones. -/
def lift (f : ω → ω') (p : Prog ω σ ε α) : Prog ω' σ ε α :=
  ⟨fun s => ((p.run s).1.map f, (p.run s).2)⟩

variable {see : ω' → Option ω}

omit [Effect ω σ] [Effect ω' σ] in
theorem SeenAs.lift {f : ω → ω'} (h : ∀ w, see (f w) = some w) (p : Prog ω σ ε α) :
    SeenAs see (Prog.lift f p) p := by
  intro s
  refine ⟨?_, rfl⟩
  change ((p.run s).1.map f).filterMap see = (p.run s).1
  rw [List.filterMap_map, show see ∘ f = some from funext h, List.filterMap_some]

theorem SeenAs.pure (a : α) : SeenAs see (Pure.pure a : Prog ω' σ ε α) (Pure.pure a) :=
  fun _ => ⟨rfl, rfl⟩

theorem SeenAs.look_bind {g : σ → α} {f : α → Prog ω' σ ε β} {f' : α → Prog ω σ ε β}
    (h : ∀ a, SeenAs see (f a) (f' a)) :
    SeenAs see (Prog.look g >>= f) (Prog.look g >>= f') := by
  intro s
  rw [run_look_bind, run_look_bind]
  exact h (g s) s

theorem SeenAs.bind (hsee : Faithful (σ := σ) see) {p : Prog ω' σ ε α} {q : Prog ω σ ε α}
    {f : α → Prog ω' σ ε β} {g : α → Prog ω σ ε β} (h : SeenAs see p q)
    (hf : ∀ a, SeenAs see (f a) (g a)) : SeenAs see (p >>= f) (q >>= g) := by
  intro s
  obtain ⟨heffects, hresult⟩ := h s
  cases hp : p.run s with
  | mk ws r =>
      cases hq : q.run s with
      | mk vs r' =>
          rw [hp, hq] at heffects hresult
          change ws.filterMap see = vs at heffects
          change r = r' at hresult
          subst hresult
          cases r with
          | error e =>
              rw [bind_error hp, bind_error hq]
              exact ⟨heffects, rfl⟩
          | ok a =>
              have hstate : Effects.after s vs = Effects.after s ws := by
                rw [← heffects, hsee.after]
              obtain ⟨hrest, hend⟩ := hf a (Effects.after s ws)
              rw [bind_ok hp, bind_ok hq, hstate]
              refine ⟨?_, hend⟩
              rw [List.filterMap_append, heffects, hrest]

end Views

end Prog

end Effects
