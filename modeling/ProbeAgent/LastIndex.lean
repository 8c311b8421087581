import Mathlib.Data.List.Induction
import Mathlib.Tactic.Common

/-!
# The last index with a property

`lastIndex P n` is the last index below `n` at which `P` holds.  On the indices of a
list it is the place of the last element a filter keeps (`getLast?_filter`), and two
properties have the same last index, one implying the other, exactly if every index
with the weaker property alone is followed by one with both (`lastIndex_eq_iff`).
-/

namespace LastIndex

universe u

section Indices

variable (P Q : Nat → Prop) [DecidablePred P] [DecidablePred Q]

/-- The last index below `n` at which `P` holds. -/
def lastIndex : Nat → Option Nat
  | 0 => none
  | n + 1 => if P n then some n else lastIndex n

theorem lastIndex_eq_none_iff (n : Nat) :
    lastIndex P n = none ↔ ∀ m, m < n → ¬P m := by
  induction n with
  | zero =>
      simp [lastIndex]
  | succ n ih =>
      by_cases hn : P n
      · simp only [lastIndex, if_pos hn, reduceCtorEq, false_iff]
        exact fun h => h n n.lt_succ_self hn
      · rw [lastIndex, if_neg hn, ih]
        constructor
        · intro h m hm
          rcases Nat.lt_succ_iff_lt_or_eq.mp hm with hm | rfl
          · exact h m hm
          · exact hn
        · exact fun h m hm => h m (Nat.lt_succ_of_lt hm)

theorem lastIndex_eq_some_iff (n k : Nat) :
    lastIndex P n = some k ↔ k < n ∧ P k ∧ ∀ m, k < m → m < n → ¬P m := by
  induction n with
  | zero =>
      simp [lastIndex]
  | succ n ih =>
      by_cases hn : P n
      · rw [lastIndex, if_pos hn, Option.some.injEq]
        constructor
        · rintro rfl
          exact ⟨Nat.lt_succ_self _, hn, fun m hkm hmn => by omega⟩
        · rintro ⟨hk, -, hlast⟩
          by_contra hne
          exact hlast n (by omega) n.lt_succ_self hn
      · rw [lastIndex, if_neg hn, ih]
        constructor
        · rintro ⟨hk, hP, hlast⟩
          refine ⟨Nat.lt_succ_of_lt hk, hP, fun m hkm hm => ?_⟩
          rcases Nat.lt_succ_iff_lt_or_eq.mp hm with hm | rfl
          · exact hlast m hkm hm
          · exact hn
        · rintro ⟨hk, hP, hlast⟩
          refine ⟨?_, hP, fun m hkm hm => hlast m hkm (Nat.lt_succ_of_lt hm)⟩
          rcases Nat.lt_succ_iff_lt_or_eq.mp hk with hk | rfl
          · exact hk
          · exact absurd hP hn

/-- Where `Q` implies `P`, their last indices are the same exactly if every index
with `P` alone is followed by one with `Q`. -/
theorem lastIndex_eq_iff {n : Nat} (hsub : ∀ k, k < n → Q k → P k) :
    lastIndex P n = lastIndex Q n ↔
      ∀ k, k < n → P k → ¬Q k → ∃ m, k < m ∧ m < n ∧ Q m := by
  constructor
  · intro heq k hk hP hQ
    cases hlast : lastIndex Q n with
    | none =>
        rw [hlast, lastIndex_eq_none_iff] at heq
        exact absurd hP (heq k hk)
    | some m =>
        obtain ⟨hm, hQm, -⟩ := (lastIndex_eq_some_iff Q n m).mp hlast
        obtain ⟨-, -, hlastP⟩ := (lastIndex_eq_some_iff P n m).mp (heq.trans hlast)
        refine ⟨m, ?_, hm, hQm⟩
        by_contra hkm
        have hne : m ≠ k := fun h => hQ (h ▸ hQm)
        exact hlastP k (by omega) hk hP
  · intro hfollowed
    symm
    cases hlast : lastIndex P n with
    | none =>
        rw [lastIndex_eq_none_iff] at hlast ⊢
        exact fun m hm hQ => hlast m hm (hsub m hm hQ)
    | some k =>
        obtain ⟨hk, hP, hlastP⟩ := (lastIndex_eq_some_iff P n k).mp hlast
        rw [lastIndex_eq_some_iff]
        refine ⟨hk, ?_, fun m hkm hm hQ => hlastP m hkm hm (hsub m hm hQ)⟩
        by_contra hQ
        obtain ⟨m, hkm, hm, hQm⟩ := hfollowed k hk hP hQ
        exact hlastP m hkm hm (hsub m hm hQm)

theorem lastIndex_congr {n : Nat} (h : ∀ k, k < n → (P k ↔ Q k)) :
    lastIndex P n = lastIndex Q n :=
  (lastIndex_eq_iff P Q fun k hk => (h k hk).mpr).mpr fun k hk hP hQ =>
    absurd ((h k hk).mp hP) hQ

end Indices

/-- The last element a filter keeps, by its place. -/
theorem getLast?_filter {α : Type u} (p : α → Bool) (l : List α) :
    (l.filter p).getLast? =
      (lastIndex (fun k => (l[k]?).any p = true) l.length).bind fun k => l[k]? := by
  induction l using List.reverseRecOn with
  | nil =>
      rfl
  | append_singleton l x ih =>
      rw [List.length_append, List.length_singleton, lastIndex, List.filter_append]
      cases hx : p x with
      | true =>
          simp [hx]
      | false =>
          have hearlier : ∀ k, k < l.length → (l ++ [x])[k]? = l[k]? := fun k hk =>
            List.getElem?_append_left hk
          have hsame := lastIndex_congr (fun k => ((l ++ [x])[k]?).any p = true)
            (fun k => (l[k]?).any p = true) (n := l.length) fun k hk => by rw [hearlier k hk]
          have hdropped : [x].filter p = [] := by
            simp [hx]
          simp only [List.getElem?_concat_length, Option.any_some, hx, Bool.false_eq_true, if_false]
          rw [hdropped, List.append_nil, ih, hsame]
          cases hlast : lastIndex (fun k => (l[k]?).any p = true) l.length with
          | none =>
              rfl
          | some k =>
              obtain ⟨hk, -⟩ := (lastIndex_eq_some_iff _ _ _).mp hlast
              exact (hearlier k hk).symm

end LastIndex
