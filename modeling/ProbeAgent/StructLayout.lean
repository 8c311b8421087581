import Mathlib.Data.List.Induction
import Mathlib.Order.Bounds.Basic
import Mathlib.Tactic.Common

/-!
# C structs under natural alignment

The members of a C struct lie one after another, each at the least multiple of its
own size that is not before the end of the one before it.  `Starts` says so of one
member, given those before it; `packedEnd` computes where a list of members ends.

The two agree (`starts_iff`), and a longer struct ends no earlier (`packedEnd_append`),
so a buffer that holds the last member of a struct holds every member of it.
-/

namespace StructLayout

/-- The least multiple of `a` that is not below `n`. -/
def alignUp (n a : Nat) : Nat :=
  (n + (a - 1)) / a * a

theorem isLeast_alignUp (n : Nat) {a : Nat} (ha : 0 < a) :
    IsLeast {m | a ∣ m ∧ n ≤ m} (alignUp n a) := by
  have hdiv := Nat.div_add_mod (n + (a - 1)) a
  have hmod := Nat.mod_lt (n + (a - 1)) ha
  have hsplit : alignUp n a = a * ((n + (a - 1)) / a) := by
    rw [alignUp, Nat.mul_comm]
  constructor
  · refine ⟨hsplit ▸ Nat.dvd_mul_right _ _, ?_⟩
    omega
  · rintro m ⟨⟨k, rfl⟩, hm⟩
    rw [hsplit]
    refine Nat.mul_le_mul_left a ?_
    -- a smaller multiple would end before `n`
    by_contra hk
    have hlt : a * (k + 1) ≤ a * ((n + (a - 1)) / a) := Nat.mul_le_mul_left a (by omega)
    rw [Nat.mul_add, Nat.mul_one] at hlt
    omega

theorem le_alignUp (n : Nat) {a : Nat} (ha : 0 < a) : n ≤ alignUp n a :=
  (isLeast_alignUp n ha).1.2

/-- Members of these sizes, in this order, end there. -/
inductive EndsAt : List Nat → Nat → Prop
  | nil : EndsAt [] 0
  | snoc {sizes : List Nat} {n a start : Nat} :
      EndsAt sizes n → IsLeast {m | a ∣ m ∧ n ≤ m} start → EndsAt (sizes ++ [a]) (start + a)

/-- A member of size `a` after members of these sizes starts there. -/
def Starts (before : List Nat) (a start : Nat) : Prop :=
  ∃ n, EndsAt before n ∧ IsLeast {m | a ∣ m ∧ n ≤ m} start

/-- Where members of these sizes end. -/
def packedEnd (sizes : List Nat) : Nat :=
  sizes.foldl (fun n a => alignUp n a + a) 0

@[simp] theorem packedEnd_nil : packedEnd [] = 0 := rfl

@[simp] theorem packedEnd_snoc (sizes : List Nat) (a : Nat) :
    packedEnd (sizes ++ [a]) = alignUp (packedEnd sizes) a + a := by
  simp [packedEnd]

theorem endsAt_iff {sizes : List Nat} (hpos : ∀ a ∈ sizes, 0 < a) (n : Nat) :
    EndsAt sizes n ↔ n = packedEnd sizes := by
  constructor
  · intro h
    induction h with
    | nil => rfl
    | @snoc sizes n a start _ hstart ih =>
        have ha : 0 < a := hpos a (by simp)
        have hn := ih (fun b hb => hpos b (by simp [hb]))
        rw [packedEnd_snoc, ← hn, hstart.unique (isLeast_alignUp n ha)]
  · rintro rfl
    induction sizes using List.reverseRecOn with
    | nil => exact .nil
    | append_singleton sizes a ih =>
        rw [packedEnd_snoc]
        refine .snoc (ih fun b hb => hpos b (by simp [hb])) ?_
        exact isLeast_alignUp _ (hpos a (by simp))

/-- Where a member starts, computed. -/
theorem starts_iff {before : List Nat} (hpos : ∀ a ∈ before, 0 < a) {a : Nat} (ha : 0 < a)
    (start : Nat) : Starts before a start ↔ start = alignUp (packedEnd before) a := by
  constructor
  · rintro ⟨n, hn, hstart⟩
    rw [endsAt_iff hpos] at hn
    rw [← hn]
    exact hstart.unique (isLeast_alignUp n ha)
  · rintro rfl
    exact ⟨_, (endsAt_iff hpos _).mpr rfl, isLeast_alignUp _ ha⟩

/-- With more members a struct ends no earlier. -/
theorem packedEnd_append (sizes more : List Nat) (hpos : ∀ a ∈ more, 0 < a) :
    packedEnd sizes ≤ packedEnd (sizes ++ more) := by
  induction more using List.reverseRecOn with
  | nil => simp
  | append_singleton more a ih =>
      have ha : 0 < a := hpos a (by simp)
      have hmore := ih fun b hb => hpos b (by simp [hb])
      have halign := le_alignUp (packedEnd (sizes ++ more)) ha
      rw [← List.append_assoc, packedEnd_snoc]
      omega

end StructLayout
