import Mathlib.Data.List.Basic
import Mathlib.Data.List.Infix
import Mathlib.Tactic.Common

/-!
# Replacing the occurrences of a list

`replace old new` replaces the occurrences of `old` from left to right, each one being
looked for after the end of the one before, as `bytes.replace` and `str.replace` do for
an `old` that is not empty.

* `Replaced`: what is replaced by what, one occurrence after another.
* `Apart w b`: no occurrence of `w` ever overlaps one of `b`.

A replacement by something that `w` keeps apart from brings no occurrence of `w` into a
list (`not_infix_replace`), and when `w` is what is replaced, leaves none in it
(`not_infix_replace_self`).

`escape e old` puts an `e` before every occurrence of `old`, which `unescape` takes away
again (`unescape_escape`); no occurrence is left without one (`preceded_of_escape_eq`).
-/

namespace Substitution

universe u

variable {α : Type u}

section Replace

variable [DecidableEq α] (old new : List α)

/-- `replace`, where the next elements are the rest of an occurrence. -/
def replaceFrom : Nat → List α → List α
  | _, [] => []
  | rest + 1, _ :: l => replaceFrom rest l
  | 0, a :: l =>
      if old <+: a :: l then new ++ replaceFrom (old.length - 1) l
      else a :: replaceFrom 0 l

/-- Replace every occurrence, from left to right. -/
def replace (l : List α) : List α := replaceFrom old new 0 l

@[simp] theorem replace_nil : replace old new [] = [] := rfl

theorem replaceFrom_eq (rest : Nat) (l : List α) :
    replaceFrom old new rest l = replace old new (l.drop rest) := by
  induction l generalizing rest with
  | nil =>
      cases rest <;> simp [replaceFrom, replace]
  | cons a l ih =>
      cases rest with
      | zero => rfl
      | succ rest => simpa [replaceFrom] using ih rest

variable {old}

/-- An occurrence at the front is replaced, and the search goes on after it. -/
theorem replace_append (hold : old ≠ []) (post : List α) :
    replace old new (old ++ post) = new ++ replace old new post := by
  cases old with
  | nil => exact absurd rfl hold
  | cons a old =>
      have hprefix : a :: old <+: a :: (old ++ post) := List.prefix_append (a :: old) post
      rw [replace, List.cons_append, replaceFrom, if_pos hprefix, replaceFrom_eq]
      simp

theorem replace_cons {a : α} {l : List α} (h : ¬old <+: a :: l) :
    replace old new (a :: l) = a :: replace old new l := by
  rw [replace, replaceFrom, if_neg h, replace]

end Replace

/-- A list is made of occurrences and of elements at which none begins, each one looked for
where the one before ends. -/
theorem occurrence_induction [DecidableEq α] {old : List α} (hold : old ≠ [])
    {motive : List α → Prop} (nil : motive [])
    (occurs : ∀ post, motive post → motive (old ++ post))
    (other : ∀ a l, ¬old <+: a :: l → motive l → motive (a :: l)) (l : List α) :
    motive l := by
  induction hlen : l.length using Nat.strong_induction_on generalizing l with
  | h n ih =>
      cases l with
      | nil => exact nil
      | cons a l =>
          by_cases hprefix : old <+: a :: l
          · obtain ⟨post, hpost⟩ := hprefix
            have hshort : post.length < n := by
              have hpos := List.length_pos_of_ne_nil hold
              have := congrArg List.length hpost
              simp only [List.length_append] at this
              omega
            rw [← hpost]
            exact occurs post (ih _ hshort post rfl)
          · refine other a l hprefix (ih l.length ?_ l rfl)
            simp only [List.length_cons] at hlen
            omega

/-- `r` is `l` with the occurrences of `old` replaced by `new`, the first one first. -/
inductive Replaced (old new : List α) : List α → List α → Prop
  | absent {l : List α} (h : ¬old <:+: l) : Replaced old new l l
  | first {pre post r : List α}
      (h : ∀ k < pre.length, ¬old <+: (pre ++ old ++ post).drop k)
      (hr : Replaced old new post r) :
      Replaced old new (pre ++ old ++ post) (pre ++ new ++ r)

/-- An element before the place that is looked at changes nothing. -/
theorem Replaced.cons {old new l r : List α} {a : α} (h : ¬old <+: a :: l)
    (hr : Replaced old new l r) : Replaced old new (a :: l) (a :: r) := by
  cases hr with
  | absent habsent =>
      refine .absent fun hoccurs => ?_
      rcases List.infix_cons_iff.mp hoccurs with hprefix | hoccurs
      · exact h hprefix
      · exact habsent hoccurs
  | @first pre post r hfirst hr =>
      refine @Replaced.first _ old new (a :: pre) post r ?_ hr
      intro k hk
      cases k with
      | zero => exact h
      | succ k => exact hfirst k (by simpa using hk)

/-- **`replace` replaces.** -/
theorem replaced_replace [DecidableEq α] {old : List α} (hold : old ≠ []) (new l : List α) :
    Replaced old new l (replace old new l) := by
  induction l using occurrence_induction hold with
  | nil => exact .absent fun hoccurs => hold (List.infix_nil.mp hoccurs)
  | occurs post ih =>
      rw [replace_append new hold]
      exact @Replaced.first _ old new [] post _ (by simp) ih
  | other a l hprefix ih =>
      rw [replace_cons new hprefix]
      exact .cons hprefix ih

/-! ## Occurrences that keep apart -/

/-- Wherever `w` and `b` occur in a list, one ends before the other begins. -/
def Apart (w b : List α) : Prop :=
  ∀ x y p q : List α, x ++ b ++ y = p ++ w ++ q →
    x.length + b.length ≤ p.length ∨ p.length + w.length ≤ x.length

/-- Of two ways to divide a list, the one that divides it later divides the second part
of the other. -/
theorem exists_of_append_eq {x u p v : List α} (h : x ++ u = p ++ v)
    (hle : x.length ≤ p.length) : ∃ d, p = x ++ d ∧ u = d ++ v := by
  obtain ⟨d, rfl⟩ : x <+: p := List.prefix_of_prefix_length_le ⟨u, rfl⟩ ⟨v, h.symm⟩ hle
  refine ⟨d, rfl, ?_⟩
  rwa [List.append_assoc, List.append_cancel_left_eq] at h

/-- An occurrence of `w` around one of `b` is on one side of it. -/
theorem Apart.infix_append {w b : List α} (h : Apart w b) {x y : List α}
    (hoccurs : w <:+: x ++ b ++ y) : w <:+: x ∨ w <:+: y := by
  obtain ⟨p, q, hpq⟩ := hoccurs
  rcases h x y p q hpq.symm with hafter | hbefore
  · right
    have hsplit : (x ++ b) ++ y = p ++ (w ++ q) := by rw [← hpq, List.append_assoc]
    obtain ⟨t, -, rfl⟩ := exists_of_append_eq hsplit (by simpa using hafter)
    exact ⟨t, q, by rw [List.append_assoc]⟩
  · left
    have hsplit : (p ++ w) ++ q = x ++ (b ++ y) := by rw [hpq, List.append_assoc]
    obtain ⟨t, rfl, -⟩ := exists_of_append_eq hsplit (by simpa using hbefore)
    exact ⟨p, t, rfl⟩

theorem Apart.append {w b c : List α} (hw : w ≠ []) (hb : Apart w b) (hc : Apart w c) :
    Apart w (b ++ c) := by
  intro x y p q h
  have hpos := List.length_pos_of_ne_nil hw
  have hleft := hb x (c ++ y) p q (by simpa [List.append_assoc] using h)
  have hright := hc (x ++ b) y p q (by simpa [List.append_assoc] using h)
  simp only [List.length_append] at hright ⊢
  omega

/-- What keeps apart from a list keeps apart from copies of it in a row. -/
theorem Apart.flatten_replicate {w b : List α} (hw : w ≠ []) (hb : Apart w b) (n : Nat) :
    Apart w (List.replicate (n + 1) b).flatten := by
  induction n with
  | zero => simpa using hb
  | succ n ih =>
      rw [List.replicate_succ, List.flatten_cons]
      exact hb.append hw ih

section Occurrences

variable {old new w l r : List α}

/-- A list replaced leaves no occurrence that was there before the first one. -/
theorem not_infix_of_first (hold : old ≠ []) {pre post : List α}
    (h : ∀ k < pre.length, ¬old <+: (pre ++ old ++ post).drop k) : ¬old <:+: pre := by
  rintro ⟨s, t, rfl⟩
  have hpos := List.length_pos_of_ne_nil hold
  refine h s.length (by simp only [List.length_append]; omega) ⟨t ++ old ++ post, ?_⟩
  simp [List.append_assoc]

/-- Replacing brings in no occurrence of what keeps apart from the replacement. -/
theorem Replaced.not_occurs (hnew : Apart w new) (hr : Replaced old new l r)
    (h : ¬w <:+: l) : ¬w <:+: r := by
  induction hr with
  | absent => exact h
  | @first pre post r hfirst hr ih =>
      intro hoccurs
      rcases hnew.infix_append hoccurs with hpre | hpost
      · exact h (hpre.trans ⟨[], old ++ post, by simp⟩)
      · refine ih (fun hoccurs => h ?_) hpost
        exact hoccurs.trans ⟨pre ++ old, [], by simp⟩

/-- Replacing leaves no occurrence of what is replaced, if that keeps apart from the
replacement. -/
theorem Replaced.not_occurs_self (hold : old ≠ []) (hnew : Apart old new)
    (hr : Replaced old new l r) : ¬old <:+: r := by
  induction hr with
  | absent h => exact h
  | first hfirst hr ih =>
      intro hoccurs
      rcases hnew.infix_append hoccurs with hpre | hpost
      · exact not_infix_of_first hold hfirst hpre
      · exact ih hpost

theorem not_infix_replace [DecidableEq α] (hold : old ≠ []) (hnew : Apart w new)
    (h : ¬w <:+: l) : ¬w <:+: replace old new l :=
  (replaced_replace hold new l).not_occurs hnew h

theorem not_infix_replace_self [DecidableEq α] (hold : old ≠ []) (hnew : Apart old new)
    (l : List α) : ¬old <:+: replace old new l :=
  (replaced_replace hold new l).not_occurs_self hold hnew

end Occurrences

/-! ## Text around what is replaced -/

section Around

variable [DecidableEq α] {old : List α} (new : List α)

/-- What begins with an element that `old` does not have is copied. -/
theorem replace_cons_of_notMem {a : α} (ha : a ∉ old) (hold : old ≠ []) (l : List α) :
    replace old new (a :: l) = a :: replace old new l := by
  refine replace_cons new fun hprefix => ha ?_
  cases old with
  | nil => exact absurd rfl hold
  | cons b old =>
      obtain ⟨rfl, -⟩ := List.cons_prefix_cons.mp hprefix
      exact List.mem_cons_self

theorem replace_append_left {lit : List α} (hlit : ∀ a ∈ lit, a ∉ old) (hold : old ≠ [])
    (l : List α) : replace old new (lit ++ l) = lit ++ replace old new l := by
  induction lit with
  | nil => rfl
  | cons a lit ih =>
      have ha := hlit a List.mem_cons_self
      have hrest := ih fun b hb => hlit b (List.mem_cons_of_mem a hb)
      rw [List.cons_append, replace_cons_of_notMem new ha hold, hrest, List.cons_append]

omit [DecidableEq α] in
/-- An occurrence does not reach into what has no element of it. -/
theorem prefix_of_prefix_append {lit l : List α} (hlit : ∀ a ∈ lit, a ∉ old)
    (h : old <+: l ++ lit) : old <+: l := by
  rcases Nat.le_total old.length l.length with hshort | hlong
  · exact List.prefix_of_prefix_length_le h (List.prefix_append l lit) hshort
  · obtain ⟨d, rfl⟩ := List.prefix_of_prefix_length_le (List.prefix_append l lit) h hlong
    have hd : d <+: lit := (List.prefix_append_right_inj l).mp h
    cases d with
    | nil => exact ⟨[], by simp⟩
    | cons a d =>
        have ha : a ∈ lit := hd.subset List.mem_cons_self
        exact absurd (List.mem_append_right l List.mem_cons_self) (hlit a ha)

/-- Text that has no element of `old` is copied when it comes after, too. -/
theorem replace_append_right {lit : List α} (hlit : ∀ a ∈ lit, a ∉ old) (hold : old ≠ [])
    (l : List α) : replace old new (l ++ lit) = replace old new l ++ lit := by
  induction l using occurrence_induction hold with
  | nil => simpa using replace_append_left new hlit hold []
  | occurs post ih =>
      rw [List.append_assoc, replace_append new hold, replace_append new hold, ih,
        List.append_assoc]
  | other a l hprefix ih =>
      have hlong : ¬old <+: a :: (l ++ lit) :=
        fun h => hprefix (prefix_of_prefix_append hlit (l := a :: l) h)
      rw [List.cons_append, replace_cons new hlong, replace_cons new hprefix, ih,
        List.cons_append]

end Around

/-! ## Escaping -/

section Escaping

variable [DecidableEq α] {e : α} {old : List α}

/-- Put an `e` before every occurrence of `old`. -/
def escape (e : α) (old l : List α) : List α := replace old (e :: old) l

/-- Take the `e` before an occurrence of `old` away. -/
def unescape (e : α) (old l : List α) : List α := replace (e :: old) old l

/-- What stands at the front of an escaped list, up to the first `e`, stands at the front
of the list itself. -/
theorem prefix_of_prefix_escape (hold : old ≠ []) {w : List α} (hw : e ∉ w) {l : List α}
    (h : w <+: escape e old l) : w <+: l := by
  induction w generalizing l with
  | nil => exact List.nil_prefix
  | cons a w ih =>
      cases l with
      | nil => exact h
      | cons b l =>
          by_cases hprefix : old <+: b :: l
          · obtain ⟨post, hpost⟩ := hprefix
            rw [escape, ← hpost, replace_append _ hold, List.cons_append] at h
            obtain ⟨rfl, -⟩ := List.cons_prefix_cons.mp h
            exact absurd List.mem_cons_self hw
          · rw [escape, replace_cons _ hprefix] at h
            obtain ⟨rfl, hrest⟩ := List.cons_prefix_cons.mp h
            have hw' : e ∉ w := fun hmem => hw (List.mem_cons_of_mem a hmem)
            exact List.cons_prefix_cons.mpr ⟨rfl, ih hw' hrest⟩

theorem escape_append (hold : old ≠ []) (post : List α) :
    escape e old (old ++ post) = e :: (old ++ escape e old post) :=
  replace_append (e :: old) hold post

theorem escape_cons {a : α} {l : List α} (h : ¬old <+: a :: l) :
    escape e old (a :: l) = a :: escape e old l :=
  replace_cons (e :: old) h

/-- **Escaping loses nothing.** -/
theorem unescape_escape (hold : old ≠ []) (he : e ∉ old) (l : List α) :
    unescape e old (escape e old l) = l := by
  induction l using occurrence_induction hold with
  | nil => rfl
  | occurs post ih =>
      rw [escape_append hold, unescape, ← List.cons_append,
        replace_append old (List.cons_ne_nil e old), ← unescape, ih]
  | other a l h ih =>
      have hnew : ¬e :: old <+: a :: escape e old l := by
        intro hprefix
        obtain ⟨rfl, hrest⟩ := List.cons_prefix_cons.mp hprefix
        obtain ⟨post, rfl⟩ := prefix_of_prefix_escape hold he hrest
        rw [escape_append hold] at hrest
        cases old with
        | nil => exact hold rfl
        | cons b old =>
            obtain ⟨rfl, -⟩ := List.cons_prefix_cons.mp hrest
            exact he List.mem_cons_self
      rw [escape_cons h, unescape, replace_cons old hnew, ← unescape, ih]

theorem escape_injective (hold : old ≠ []) (he : e ∉ old) :
    Function.Injective (escape e old) :=
  Function.LeftInverse.injective (unescape_escape hold he)

omit [DecidableEq α] in
/-- After the front of an occurrence, the next one begins after its end. -/
theorem exists_of_tail_append_eq {d : α} {t r x y : List α} (hd : d ∉ t)
    (h : t ++ r = x ++ (d :: y)) : ∃ x', x = t ++ x' ∧ r = x' ++ (d :: y) := by
  rcases Nat.le_total t.length x.length with hlong | hshort
  · exact exists_of_append_eq h hlong
  · obtain ⟨u, rfl, hrest⟩ := exists_of_append_eq h.symm hshort
    cases u with
    | nil => exact ⟨[], by simp, hrest.symm⟩
    | cons c u =>
        obtain ⟨rfl, -⟩ := List.cons_eq_cons.mp hrest
        exact absurd (List.mem_append_right x List.mem_cons_self) hd

/-- In an escaped list an `e` stands before every occurrence, if no occurrence begins in
the middle of another. -/
theorem preceded_of_escape_eq {d : α} {t : List α} (hd : d ∉ t) (he : e ∉ d :: t)
    {l x y : List α} (h : escape e (d :: t) l = x ++ (d :: t) ++ y) :
    ∃ x', x = x' ++ [e] := by
  induction l using occurrence_induction (List.cons_ne_nil d t) generalizing x with
  | nil => simp [escape] at h
  | occurs post ih =>
      rw [escape_append (List.cons_ne_nil d t)] at h
      cases x with
      | nil =>
          obtain ⟨rfl, -⟩ := List.cons_eq_cons.mp h
          exact absurd List.mem_cons_self he
      | cons a x =>
          simp only [List.cons_append] at h
          obtain ⟨rfl, hx⟩ := List.cons_eq_cons.mp h
          cases x with
          | nil => exact ⟨[], rfl⟩
          | cons b x =>
              obtain ⟨rfl, hrest⟩ := List.cons_eq_cons.mp hx
              have hsplit : t ++ escape e (d :: t) post = x ++ (d :: t ++ y) := by
                simpa [List.append_assoc] using hrest
              obtain ⟨x₂, rfl, hpost⟩ := exists_of_tail_append_eq hd hsplit
              obtain ⟨x', rfl⟩ := ih (by simpa using hpost)
              exact ⟨e :: d :: (t ++ x'), by simp⟩
  | other a l hother ih =>
      rw [escape_cons hother] at h
      cases x with
      | nil =>
          have hprefix : d :: t <+: a :: escape e (d :: t) l := ⟨y, h.symm⟩
          rw [← escape_cons hother] at hprefix
          exact absurd (prefix_of_prefix_escape (List.cons_ne_nil d t) he hprefix) hother
      | cons b x =>
          obtain ⟨rfl, hrest⟩ := List.cons_eq_cons.mp h
          obtain ⟨x', rfl⟩ := ih hrest
          exact ⟨a :: x', rfl⟩

end Escaping

end Substitution
