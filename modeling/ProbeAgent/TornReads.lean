import Mathlib.Data.List.Basic
import Mathlib.Data.List.Nodup
import Mathlib.Logic.Function.Basic
import Mathlib.Tactic.Common

/-!
# Reading attributes one by one while they are assigned

One thread performs operations, each of which assigns some attributes of an object one
after another.  Another reads attributes of it one by one, with no lock.  A read is
placed by the number of assignments performed before it.

* `writeAll_apply`: an attribute holds what was assigned to it last.
* `SameSight`: two reads of an attribute with no assignment to it between them.  They
  see the same value (`SameSight.cellsAt_eq`), and where no value is assigned twice only
  they do (`sameSight_of_cellsAt_eq`).
* `boundary`: the number of assignments of the first operations.
-/

namespace TornReads

universe u v

variable {A : Type u} [DecidableEq A] {V : A → Type v}

/-- The values of the attributes. -/
abbrev Cells (V : A → Type v) := (a : A) → V a

/-- An assignment: the attribute and its new value. -/
abbrev Assign (V : A → Type v) := (a : A) × V a

def write (s : Cells V) (w : Assign V) : Cells V :=
  Function.update s w.1 w.2

def writeAll (s : Cells V) (ws : List (Assign V)) : Cells V :=
  ws.foldl write s

@[simp] theorem writeAll_nil (s : Cells V) : writeAll s [] = s := rfl

@[simp] theorem writeAll_cons (s : Cells V) (w : Assign V) (ws : List (Assign V)) :
    writeAll s (w :: ws) = writeAll (write s w) ws := rfl

theorem writeAll_append (s : Cells V) (ws vs : List (Assign V)) :
    writeAll s (ws ++ vs) = writeAll (writeAll s ws) vs :=
  List.foldl_append

/-- The values once that many assignments have been performed. -/
def cellsAt (s : Cells V) (ws : List (Assign V)) (i : Nat) : Cells V :=
  writeAll s (ws.take i)

/-- The values assigned to an attribute, in order. -/
def written (a : A) : List (Assign V) → List (V a)
  | [] => []
  | w :: ws => if h : w.1 = a then (h ▸ w.2) :: written a ws else written a ws

theorem written_append (a : A) (ws vs : List (Assign V)) :
    written a (ws ++ vs) = written a ws ++ written a vs := by
  induction ws with
  | nil => rfl
  | cons w ws ih =>
      rw [List.cons_append, written, written, ih]
      split <;> rfl

theorem written_eq_nil_iff (a : A) (ws : List (Assign V)) :
    written a ws = [] ↔ ∀ w ∈ ws, w.1 ≠ a := by
  induction ws with
  | nil => simp [written]
  | cons w ws ih =>
      rw [written, List.forall_mem_cons]
      split
      · rename_i h
        simp [h]
      · rename_i h
        simp [h, ih]

/-- An attribute holds what was assigned to it last. -/
theorem writeAll_apply (s : Cells V) (ws : List (Assign V)) (a : A) :
    writeAll s ws a = (written a ws).getLastD (s a) := by
  induction ws generalizing s with
  | nil => rfl
  | cons w ws ih =>
      rw [writeAll_cons, ih, written]
      split
      · rename_i h
        obtain ⟨b, x⟩ := w
        cases h
        rw [List.getLastD_cons, write, Function.update_self]
      · rename_i h
        rw [write, Function.update_of_ne (Ne.symm h)]

/-! ## Two reads of one attribute -/

/-- Reads of `a` at `i` and at `j` see the same assignments to it. -/
def SameSight (a : A) (ws : List (Assign V)) (i j : Nat) : Prop :=
  ∀ n w, ws[n]? = some w → w.1 = a → (n < i ↔ n < j)

omit [DecidableEq A] in
theorem SameSight.symm {a : A} {ws : List (Assign V)} {i j : Nat} (h : SameSight a ws i j) :
    SameSight a ws j i :=
  fun n w hw ha => (h n w hw ha).symm

omit [DecidableEq A] in
/-- The assignments before the later read are those before the earlier one and those
between them. -/
theorem take_eq_append (ws : List (Assign V)) {i j : Nat} (hij : i ≤ j) :
    ws.take j = ws.take i ++ (ws.take j).drop i := by
  have hsplit := List.take_append_drop i (ws.take j)
  rw [List.take_take, Nat.min_eq_left hij] at hsplit
  exact hsplit.symm

theorem sameSight_iff_of_le {a : A} {ws : List (Assign V)} {i j : Nat} (hij : i ≤ j) :
    SameSight a ws i j ↔ written a ((ws.take j).drop i) = [] := by
  rw [written_eq_nil_iff]
  constructor
  · intro h w hw ha
    obtain ⟨n, hn⟩ := List.mem_iff_getElem?.mp hw
    rw [List.getElem?_drop, List.getElem?_take] at hn
    split at hn
    · rename_i hlt
      have := (h (i + n) w hn ha).mpr hlt
      omega
    · cases hn
  · intro h n w hw ha
    constructor
    · omega
    · intro hlt
      by_contra hge
      rw [Nat.not_lt] at hge
      refine h w (List.mem_iff_getElem?.mpr ⟨n - i, ?_⟩) ha
      rw [List.getElem?_drop, Nat.add_sub_of_le hge, List.getElem?_take, if_pos hlt, hw]

/-- Then they see the same value. -/
theorem SameSight.cellsAt_eq {a : A} {ws : List (Assign V)} {i j : Nat}
    (h : SameSight a ws i j) (s : Cells V) : cellsAt s ws i a = cellsAt s ws j a := by
  wlog hij : i ≤ j generalizing i j
  · exact (this h.symm (by omega)).symm
  · have hbetween := (sameSight_iff_of_le hij).mp h
    rw [cellsAt, cellsAt, take_eq_append ws hij, writeAll_append, writeAll_apply _ (List.drop _ _),
      hbetween]
    rfl

/-- Where no value is assigned twice, only they do. -/
theorem sameSight_of_cellsAt_eq {a : A} {s : Cells V} {ws : List (Assign V)}
    (hdistinct : (s a :: written a ws).Nodup) {i j : Nat}
    (h : cellsAt s ws i a = cellsAt s ws j a) : SameSight a ws i j := by
  wlog hij : i ≤ j generalizing i j
  · exact (this h.symm (by omega)).symm
  · rw [sameSight_iff_of_le hij]
    rw [cellsAt, cellsAt, take_eq_append ws hij, writeAll_apply, writeAll_apply,
      written_append] at h
    have hall : written a ws = written a (ws.take i) ++ written a ((ws.take j).drop i) ++
        written a (ws.drop j) := by
      rw [← written_append, ← take_eq_append ws hij, ← written_append, List.take_append_drop]
    rw [hall] at hdistinct
    generalize written a (ws.take i) = before at h hdistinct
    generalize written a ((ws.take j).drop i) = between at h hdistinct ⊢
    by_contra hne
    obtain ⟨init, last, rfl⟩ := (List.eq_nil_or_concat between).resolve_left hne
    rw [List.concat_eq_append] at h hdistinct
    have hlast : (before ++ (init ++ [last])).getLastD (s a) = last := by
      rw [← List.append_assoc, List.getLastD_concat]
    have hmem : before.getLastD (s a) ∈ s a :: before := List.getLastD_mem_cons
    rw [h, hlast] at hmem
    rw [← List.append_assoc before, List.append_assoc, ← List.cons_append, ← List.cons_append,
      List.nodup_append] at hdistinct
    exact hdistinct.2.2 last (List.mem_append_left _ hmem) last (by simp) rfl

/-! ## Operations -/

/-- How many assignments the first `k` operations perform. -/
def boundary (ops : List (List (Assign V))) (k : Nat) : Nat :=
  (ops.take k).flatten.length

theorem cellsAt_boundary (s : Cells V) (ops : List (List (Assign V))) (k : Nat) :
    cellsAt s ops.flatten (boundary ops k) = writeAll s (ops.take k).flatten := by
  have hsplit : ops.flatten = (ops.take k).flatten ++ (ops.drop k).flatten := by
    rw [← List.flatten_append, List.take_append_drop]
  rw [cellsAt, boundary, hsplit, List.take_left]

end TornReads
