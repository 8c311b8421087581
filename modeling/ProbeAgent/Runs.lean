import Mathlib.Algebra.BigOperators.Group.List.Basic
import Mathlib.Algebra.GroupWithZero.Nat
import Mathlib.Data.List.Basic
import Mathlib.Logic.Relation
import Mathlib.Tactic.Common

/-!
# Runs of a labelled transition system

A run from a state is the list of actions taken together with the state each of
them led to.  `Along` says that a property of single steps holds at every step
of a run.

The main result, `along_iff`, turns a fact about one step into a fact about
whole runs: if, in the states an invariant describes, the property `G` of a step
is equivalent to the condition `K` on it, and steps that meet `K` keep the
invariant, then `G` holds along a run exactly when `K` does.  For a fact about the
end of a run, `marked_lastState_iff` does the same with a mark no step clears.

Two further rules compare runs: `length_le_of_potential` bounds the length of a run
by what its actions put in, and `run_view` makes of a run one of a system it refines,
where some steps cannot be seen.
-/

namespace Runs

universe u v

variable {σ : Type u} {α : Type v}

/-- Runs of the relation `step`, as the actions taken and the states reached. -/
inductive Run (step : σ → α → σ → Prop) : σ → List (α × σ) → Prop
  | nil (s : σ) : Run step s []
  | cons {s t : σ} {a : α} {r : List (α × σ)} :
      step s a t → Run step t r → Run step s ((a, t) :: r)

/-- The property `G` of a step holds at every step of a run. -/
def Along (G : σ → α → σ → Prop) : σ → List (α × σ) → Prop
  | _, [] => True
  | s, (a, t) :: r => G s a t ∧ Along G t r

@[simp] theorem along_nil (G : σ → α → σ → Prop) (s : σ) :
    Along G s [] := trivial

@[simp] theorem along_cons (G : σ → α → σ → Prop) (s t : σ) (a : α)
    (r : List (α × σ)) :
    Along G s ((a, t) :: r) ↔ G s a t ∧ Along G t r := Iff.rfl

/-- The last state of a run. -/
def lastState : σ → List (α × σ) → σ
  | s, [] => s
  | _, (_, t) :: r => lastState t r

/-- Every state a run goes through, its first one included. -/
def statesOf (s : σ) (r : List (α × σ)) : List σ :=
  s :: r.map Prod.snd

/-- A property of the state a step leads to, along a run, is one of all its states. -/
theorem along_target_iff (J : σ → Prop) :
    ∀ (s : σ) (r : List (α × σ)),
      (J s ∧ Along (fun _ _ t => J t) s r) ↔ ∀ t ∈ statesOf s r, J t
  | s, [] => by simp [statesOf]
  | s, (a, t) :: r => by
      have ih := along_target_iff J t r
      rw [along_cons, ih]
      simp [statesOf]

section Invariants

variable {step : σ → α → σ → Prop} {G K : σ → α → σ → Prop}

/-- A run whose steps have a property is one of the steps that have it. -/
theorem Run.restrict {s : σ} {r : List (α × σ)} (hr : Run step s r) (h : Along G s r) :
    Run (fun s a t => step s a t ∧ G s a t) s r := by
  induction hr with
  | nil s => exact .nil s
  | cons hst _ ih => exact .cons ⟨hst, h.1⟩ (ih h.2)

/-- One step decides `G`, and `K` keeps the invariant: so `K` decides `G` along runs. -/
theorem along_iff (Inv : σ → Prop)
    (hkeep : ∀ {s a t}, step s a t → Inv s → K s a t → Inv t)
    (hone : ∀ {s a t}, step s a t → Inv s → (G s a t ↔ K s a t))
    {s : σ} {r : List (α × σ)} (hr : Run step s r) (hs : Inv s) :
    Along G s r ↔ Along K s r := by
  induction hr with
  | nil s => exact Iff.rfl
  | @cons s t a r hst _ ih =>
      rw [along_cons, along_cons]
      constructor
      · rintro ⟨hG, hrest⟩
        have hK := (hone hst hs).mp hG
        exact ⟨hK, (ih (hkeep hst hs hK)).mp hrest⟩
      · rintro ⟨hK, hrest⟩
        exact ⟨(hone hst hs).mpr hK, (ih (hkeep hst hs hK)).mpr hrest⟩

/-- What every step from a state with the invariant has, every step of a run has. -/
theorem along_of_invariant (Inv : σ → Prop)
    (hkeep : ∀ {s a t}, step s a t → Inv s → Inv t)
    (hone : ∀ {s a t}, step s a t → Inv s → G s a t)
    {s : σ} {r : List (α × σ)} (hr : Run step s r) (hs : Inv s) : Along G s r := by
  induction hr with
  | nil s => trivial
  | cons hst _ ih => exact ⟨hone hst hs, ih (hkeep hst hs)⟩

/-- An invariant every step keeps holds at the end of a run. -/
theorem invariant_lastState (Inv : σ → Prop)
    (hkeep : ∀ {s a t}, step s a t → Inv s → Inv t)
    {s : σ} {r : List (α × σ)} (hr : Run step s r) (hs : Inv s) : Inv (lastState s r) := by
  induction hr with
  | nil s => exact hs
  | cons hst _ ih => exact ih (hkeep hst hs)

/-- A mark that no step clears is there at the end exactly if it was at the start or
some step made it. -/
theorem marked_lastState_iff {M : σ → Prop} {B : σ → α → Prop} (Inv : σ → Prop)
    (hkeep : ∀ {s a t}, step s a t → Inv s → Inv t)
    (hone : ∀ {s a t}, step s a t → Inv s → (M t ↔ M s ∨ B s a))
    {s : σ} {r : List (α × σ)} (hr : Run step s r) (hs : Inv s) :
    M (lastState s r) ↔ M s ∨ ¬Along (fun s a _ => ¬B s a) s r := by
  induction hr with
  | nil s => simp [lastState]
  | @cons s t a r hst _ ih =>
      rw [lastState, ih (hkeep hst hs), hone hst hs, along_cons, not_and_or, not_not, or_assoc]

/-- Any state of a run and its last one are related as the states before and after a
step are. -/
theorem related_lastState (R : σ → σ → Prop) (hrefl : ∀ s, R s s)
    (htrans : ∀ {s t u}, R s t → R t u → R s u) (hone : ∀ {s a t}, step s a t → R s t)
    {s : σ} {r : List (α × σ)} (hr : Run step s r) :
    ∀ u ∈ statesOf s r, R u (lastState s r) := by
  induction hr with
  | nil s => simpa [statesOf, lastState] using hrefl s
  | @cons s t a r hst _ ih =>
      intro u hu
      rcases List.mem_cons.mp hu with rfl | hu
      · exact htrans (hone hst) (ih t List.mem_cons_self)
      · exact ih u (by simpa [statesOf] using hu)

/-- What the last state has and the first has not, some step brought about. -/
theorem brought_about {M : σ → Prop} {s : σ} {r : List (α × σ)} (hr : Run step s r)
    (hs : ¬M s) (hlast : M (lastState s r)) :
    ∃ t a u, t ∈ statesOf s r ∧ step t a u ∧ ¬M t ∧ M u := by
  induction hr with
  | nil s => exact absurd hlast hs
  | @cons s t a r hst _ ih =>
      by_cases ht : M t
      · exact ⟨s, a, t, List.mem_cons_self, hst, hs, ht⟩
      · obtain ⟨u, b, v, hu, hrest⟩ := ih ht hlast
        exact ⟨u, b, v, List.mem_cons_of_mem _ (by simpa [statesOf] using hu), hrest⟩

/-- Every state of a run meets an invariant that every step keeps. -/
theorem invariant_statesOf (Inv : σ → Prop)
    (hkeep : ∀ {s a t}, step s a t → Inv s → Inv t)
    {s : σ} {r : List (α × σ)} (hr : Run step s r) (hs : Inv s) :
    ∀ t ∈ statesOf s r, Inv t := by
  induction hr with
  | nil s => simpa [statesOf] using hs
  | @cons s t a r hst _ ih =>
      intro u hu
      rcases List.mem_cons.mp hu with rfl | hu
      · exact hs
      · exact ih (hkeep hst hs) u (by simpa [statesOf] using hu)

end Invariants

section Potential

variable {step : σ → α → σ → Prop}

/-- What the actions of a run put in, all together. -/
def supplied (gain : α → Nat) (r : List (α × σ)) : Nat :=
  (r.map fun x => gain x.1).sum

/-- If every step uses up some of a potential that only the actions add to, what they
add bounds the length of a run. -/
theorem length_le_of_potential (gain : α → Nat) (potential : σ → Nat) (Inv : σ → Prop)
    (hkeep : ∀ {s a t}, step s a t → Inv s → Inv t)
    (hone : ∀ {s a t}, step s a t → Inv s → potential t + 1 ≤ potential s + gain a)
    {s : σ} {r : List (α × σ)} (hr : Run step s r) (hs : Inv s) :
    potential (lastState s r) + r.length ≤ potential s + supplied gain r := by
  induction hr with
  | nil s => simp [lastState, supplied]
  | @cons s t a r hst _ ih =>
      have htail := ih (hkeep hst hs)
      have hhead := hone hst hs
      simp only [supplied, List.map_cons, List.sum_cons, List.length_cons, lastState] at htail ⊢
      omega

end Potential

section Refinement

universe w x

variable {τ : Type w} {β : Type x}

/-- What a run looks like where only some of its steps are seen. -/
def view (abs : σ → τ) (seen : σ → α → Option β) : σ → List (α × σ) → List (β × τ)
  | _, [] => []
  | s, (a, t) :: r =>
      match seen s a with
      | some b => (b, abs t) :: view abs seen t r
      | none => view abs seen t r

/-- If every step is seen as a step of another system, or changes nothing there, a
run is seen as a run of it. -/
theorem run_view {step : σ → α → σ → Prop} {step' : τ → β → τ → Prop} (abs : σ → τ)
    (seen : σ → α → Option β) (Inv : σ → Prop)
    (hkeep : ∀ {s a t}, step s a t → Inv s → Inv t)
    (hseen : ∀ {s a t b}, step s a t → Inv s → seen s a = some b → step' (abs s) b (abs t))
    (hunseen : ∀ {s a t}, step s a t → Inv s → seen s a = none → abs t = abs s)
    {s : σ} {r : List (α × σ)} (hr : Run step s r) (hs : Inv s) :
    Run step' (abs s) (view abs seen s r) ∧
      lastState (abs s) (view abs seen s r) = abs (lastState s r) := by
  induction hr with
  | nil s => exact ⟨.nil _, rfl⟩
  | @cons s t a r hst _ ih =>
      obtain ⟨hrun, hlast⟩ := ih (hkeep hst hs)
      cases ha : seen s a with
      | some b =>
          simp only [view, ha, lastState]
          exact ⟨.cons (hseen hst hs ha) hrun, hlast⟩
      | none =>
          rw [hunseen hst hs ha] at hrun hlast
          simp only [view, ha, lastState]
          exact ⟨hrun, hlast⟩

end Refinement

/-- The run of a system whose action decides the next state. -/
def trace (act : σ → α → σ) : σ → List α → List (α × σ)
  | _, [] => []
  | s, a :: as => (a, act s a) :: trace act (act s a) as

@[simp] theorem trace_nil (act : σ → α → σ) (s : σ) :
    trace act s [] = [] := rfl

@[simp] theorem trace_cons (act : σ → α → σ) (s : σ) (a : α) (as : List α) :
    trace act s (a :: as) = (a, act s a) :: trace act (act s a) as := rfl

/-- `along_iff` for a system whose action decides the next state.  The actions of
the run are among those `A` admits. -/
theorem along_trace_iff {act : σ → α → σ} {G K : σ → α → Prop} {A : α → Prop}
    (Inv : σ → Prop)
    (hkeep : ∀ {s a}, A a → Inv s → K s a → Inv (act s a))
    (hone : ∀ {s a}, A a → Inv s → (G s a ↔ K s a))
    {s : σ} (hs : Inv s) {as : List α} (has : ∀ a ∈ as, A a) :
    Along (fun s a _ => G s a) s (trace act s as) ↔
      Along (fun s a _ => K s a) s (trace act s as) := by
  induction as generalizing s with
  | nil => simp
  | cons a as ih =>
      have ha := has a List.mem_cons_self
      have hrest : ∀ b ∈ as, A b := fun b hb => has b (List.mem_cons_of_mem _ hb)
      rw [trace_cons, along_cons, along_cons, hone ha hs]
      refine and_congr_right (fun hK => ?_)
      exact ih (hkeep ha hs hK) hrest

/-- A property of every step, where the invariant is kept whatever the step. -/
theorem along_trace {act : σ → α → σ} {G : σ → α → Prop} {A : α → Prop}
    (Inv : σ → Prop)
    (hkeep : ∀ {s a}, A a → Inv s → Inv (act s a))
    (hone : ∀ {s a}, A a → Inv s → G s a)
    {s : σ} (hs : Inv s) {as : List α} (has : ∀ a ∈ as, A a) :
    Along (fun s a _ => G s a) s (trace act s as) := by
  induction as generalizing s with
  | nil => trivial
  | cons a as ih =>
      have ha := has a List.mem_cons_self
      refine ⟨hone ha hs, ih (hkeep ha hs) ?_⟩
      exact fun b hb => has b (List.mem_cons_of_mem _ hb)

end Runs
