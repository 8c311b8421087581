import Mathlib.Data.Fintype.Basic
import Mathlib.Data.Finset.Card
import Mathlib.Logic.Relation
import Mathlib.Tactic.Common

/-!
# Walking a graph with a visited set

In a finite graph in which every vertex has at most one successor, `walk` follows the
successors and stops at a goal, at a vertex without successor, or at one it has visited
before.  It ends because the vertices are finitely many and each step visits a new one,
whatever cycles there are, and it says whether a goal is reachable (`walk_iff`).
-/

namespace VisitedWalk

universe u

/-- Follow the successors until a goal or a vertex visited before. -/
def walk {V : Type u} [Fintype V] [DecidableEq V] (next : V → Option V) (goal : V → Bool)
    (seen : Finset V) : Option V → Bool
  | none => false
  | some v =>
      if v ∈ seen then false
      else if goal v then true
      else walk next goal (insert v seen) (next v)
termination_by (Finset.univ \ seen).card
decreasing_by
  refine Finset.card_lt_card (Finset.ssubset_iff_subset_ne.mpr ⟨?_, fun heq => ?_⟩)
  · exact Finset.sdiff_subset_sdiff (Finset.Subset.refl _) (Finset.subset_insert v seen)
  · have hmem : v ∈ Finset.univ \ seen := Finset.mem_sdiff.mpr ⟨Finset.mem_univ v, ‹v ∉ seen›⟩
    rw [← heq] at hmem
    exact (Finset.mem_sdiff.mp hmem).2 (Finset.mem_insert_self v seen)

variable {V : Type u} (next : V → Option V) (goal : V → Bool)

/-- The vertices on the way from `v`. -/
def OnPath (v x : V) : Prop :=
  Relation.ReflTransGen (fun a b => next a = some b) v x

/-- What has been visited has no goal in it, and its successors have been visited or are
looked at next. -/
def Explored (seen : Finset V) (current : Option V) : Prop :=
  ∀ v ∈ seen, goal v = false ∧ ∀ w, next v = some w → w ∈ seen ∨ current = some w

variable {next goal}

theorem Explored.insert [DecidableEq V] {seen : Finset V} {v : V}
    (h : Explored next goal seen (some v)) (hv : goal v = false) :
    Explored next goal (insert v seen) (next v) := by
  intro x hx
  rcases Finset.mem_insert.mp hx with rfl | hx
  · exact ⟨hv, fun w hw => .inr hw⟩
  · refine ⟨(h x hx).1, fun w hw => .inl ?_⟩
    rcases (h x hx).2 w hw with hseen | hcurrent
    · exact Finset.mem_insert_of_mem hseen
    · cases hcurrent
      exact Finset.mem_insert_self v seen

/-- A visited set that its successors do not leave has no goal on any way from it. -/
theorem goal_eq_false_of_closed {seen : Finset V}
    (hgoal : ∀ v ∈ seen, goal v = false) (hclosed : ∀ v ∈ seen, ∀ w, next v = some w → w ∈ seen)
    {v x : V} (hv : v ∈ seen) (hpath : OnPath next v x) : goal x = false := by
  have hx : x ∈ seen := by
    induction hpath with
    | refl => exact hv
    | tail _ hstep ih => exact hclosed _ ih _ hstep
  exact hgoal x hx

variable [Fintype V] [DecidableEq V]

/-- A walk that finds no goal leaves none on the way. -/
theorem goal_eq_false_of_walk (seen : Finset V) (current : Option V)
    (h : Explored next goal seen current) (hwalk : walk next goal seen current = false) :
    ∀ v x, (v ∈ seen ∨ current = some v) → OnPath next v x → goal x = false := by
  induction seen, current using walk.induct next goal with
  | case1 seen =>
      intro v x hv hpath
      have hclosed : ∀ v ∈ seen, ∀ w, next v = some w → w ∈ seen := by
        intro v hv w hw
        exact ((h v hv).2 w hw).resolve_right nofun
      exact goal_eq_false_of_closed (fun v hv => (h v hv).1) hclosed
        (hv.resolve_right nofun) hpath
  | case2 seen u hu =>
      intro v x hv hpath
      have hclosed : ∀ v ∈ seen, ∀ w, next v = some w → w ∈ seen := by
        intro v hv w hw
        rcases (h v hv).2 w hw with hw | hw
        · exact hw
        · cases hw
          exact hu
      refine goal_eq_false_of_closed (fun v hv => (h v hv).1) hclosed ?_ hpath
      rcases hv with hv | hv
      · exact hv
      · cases hv
        exact hu
  | case3 seen u hu hgoal =>
      rw [walk, if_neg hu, if_pos hgoal] at hwalk
      cases hwalk
  | case4 seen u hu hgoal ih =>
      intro v x hv hpath
      rw [walk, if_neg hu, if_neg hgoal] at hwalk
      refine ih (h.insert (Bool.eq_false_iff.mpr hgoal)) hwalk v x (.inl ?_) hpath
      rcases hv with hv | hv
      · exact Finset.mem_insert_of_mem hv
      · cases hv
        exact Finset.mem_insert_self _ seen

/-- A goal that is found is on the way. -/
theorem exists_goal_of_walk (seen : Finset V) (current : Option V)
    (hwalk : walk next goal seen current = true) :
    ∃ v x, current = some v ∧ OnPath next v x ∧ goal x = true := by
  induction seen, current using walk.induct next goal with
  | case1 seen =>
      rw [walk] at hwalk
      cases hwalk
  | case2 seen u hu =>
      rw [walk, if_pos hu] at hwalk
      cases hwalk
  | case3 seen u hu hgoal => exact ⟨u, u, rfl, .refl, hgoal⟩
  | case4 seen u hu hgoal ih =>
      rw [walk, if_neg hu, if_neg hgoal] at hwalk
      obtain ⟨v, x, hv, hpath, hx⟩ := ih hwalk
      exact ⟨u, x, rfl, Relation.ReflTransGen.head hv hpath, hx⟩

/-- **The walk finds a goal exactly if there is one on the way.** -/
theorem walk_iff (v : V) :
    walk next goal ∅ (some v) = true ↔ ∃ x, OnPath next v x ∧ goal x = true := by
  constructor
  · intro hwalk
    obtain ⟨u, x, hu, hpath, hx⟩ := exists_goal_of_walk ∅ (some v) hwalk
    cases hu
    exact ⟨x, hpath, hx⟩
  · rintro ⟨x, hpath, hx⟩
    by_contra hwalk
    have hnone : Explored next goal ∅ (some v) := fun u hu => absurd hu (Finset.notMem_empty u)
    have hfalse := goal_eq_false_of_walk ∅ (some v) hnone (Bool.eq_false_iff.mpr hwalk) v x
      (.inr rfl) hpath
    rw [hx] at hfalse
    cases hfalse

end VisitedWalk
