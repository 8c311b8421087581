import ProbeAgent.PyText

/-!
# Methods of `str`

* `words`: the parts of a list between separators, the empty ones left out, as `str.split`
  does it for white space.
* `CaseMap.lower`: `str.lower`.  What it does to a character outside ASCII is in Unicode's
  tables and may depend on the text around it, so the tables are given by a `CaseMap`.
* `removePrefix`: `str.removeprefix`.
* `strNat`: `str` of a number, which `int` reads back (`number_strNat`).
-/

namespace PyText

universe u

/-! ## Words -/

section Words

variable {α : Type u} (sep : α → Bool)

/-- The parts between separators that are not empty. -/
def words (l : List α) : List (List α) :=
  (l.splitOnP sep).filter (fun w => !w.isEmpty)

/-- A part of a list that separators, or the ends of the list, stand around. -/
structure IsWord (l w : List α) : Prop where
  ne_nil : w ≠ []
  solid : ∀ a ∈ w, sep a = false
  placed : ∃ x y, l = x ++ (w ++ y) ∧ (∀ a, x.getLast? = some a → sep a = true) ∧
    (∀ a, y.head? = some a → sep a = true)

variable {sep}

theorem words_append_sep {a : α} (ha : sep a = true) (x l : List α) :
    words sep (x ++ a :: l) = words sep x ++ words sep l := by
  rw [words, List.splitOnP_append_cons x l ha, List.filter_append, words, words]

theorem words_sep_cons {a : α} (ha : sep a = true) (l : List α) :
    words sep (a :: l) = words sep l :=
  words_append_sep ha [] l

theorem words_sep_append {s : List α} (hs : ∀ a ∈ s, sep a = true) (l : List α) :
    words sep (s ++ l) = words sep l := by
  induction s with
  | nil => rfl
  | cons a s ih =>
      rw [List.cons_append, words_sep_cons (hs a List.mem_cons_self)]
      exact ih fun b hb => hs b (List.mem_cons_of_mem a hb)

theorem words_separators {s : List α} (hs : ∀ a ∈ s, sep a = true) : words sep s = [] := by
  rw [← List.append_nil s, words_sep_append hs]
  rfl

theorem words_of_solid {w : List α} (hne : w ≠ []) (hw : ∀ a ∈ w, sep a = false) :
    words sep w = [w] := by
  rw [words, List.splitOnP_eq_singleton hw]
  simp [hne]

/-- A word at the front, with a separator or nothing after it. -/
theorem words_solid_append {w rest : List α} (hne : w ≠ []) (hw : ∀ a ∈ w, sep a = false)
    (hrest : ∀ a, rest.head? = some a → sep a = true) :
    words sep (w ++ rest) = w :: words sep rest := by
  cases rest with
  | nil =>
      rw [List.append_nil, words_of_solid hne hw]
      rfl
  | cons a rest =>
      have ha := hrest a rfl
      rw [words_append_sep ha, words_of_solid hne hw, words_sep_cons ha]
      rfl

theorem IsWord.mem_words {l w : List α} (h : IsWord sep l w) : w ∈ words sep l := by
  obtain ⟨x, y, rfl, hx, hy⟩ := h.placed
  have hword : w ∈ words sep (w ++ y) := by
    rw [words_solid_append h.ne_nil h.solid hy]
    exact List.mem_cons_self
  rcases List.eq_nil_or_concat x with rfl | ⟨x, a, rfl⟩
  · exact hword
  · have ha : sep a = true := hx a (by simp)
    rw [List.concat_eq_append, List.append_assoc, List.singleton_append, words_append_sep ha]
    exact List.mem_append_right _ hword

/-- Separators may be replaced by other separators. -/
theorem words_map {p q : α → Bool} {f : α → α} (hsep : ∀ a, q a = p (f a))
    (hkeep : ∀ a, q a = false → f a = a) (l : List α) : words p (l.map f) = words q l := by
  have hsplit : (l.map f).splitOnP p = l.splitOnP q := by
    induction l with
    | nil => rfl
    | cons a l ih =>
        rw [List.map_cons, List.splitOnP_cons_eq_if_modifyHead,
          List.splitOnP_cons_eq_if_modifyHead, ih, ← hsep]
        cases hq : q a with
        | true => rfl
        | false => rw [hkeep a hq]
  rw [words, words, hsplit]

end Words

/-- `str.split()`. -/
def split (s : PyStr) : List PyStr :=
  words isSpace s

/-- `str.removeprefix`. -/
def removePrefix (p s : PyStr) : PyStr :=
  if p <+: s then s.drop p.length else s

theorem removePrefix_append (p s : PyStr) : removePrefix p (p ++ s) = s := by
  rw [removePrefix, if_pos (List.prefix_append p s), List.drop_left]

/-- Only the prefix goes. -/
theorem mem_removePrefix {p s : PyStr} {c : CodePoint} (hc : c ∈ s) (hp : c ∉ p) :
    c ∈ removePrefix p s := by
  unfold removePrefix
  split
  · rename_i hprefix
    obtain ⟨t, rfl⟩ := hprefix
    rw [List.drop_left]
    exact (List.mem_append.mp hc).resolve_left hp
  · exact hc

/-! ## Case -/

/-- The lower case of an ASCII character. -/
def lowerAscii (c : CodePoint) : CodePoint :=
  if 0x41 ≤ c.val ∧ c.val ≤ 0x5A then Fin.ofNat 0x110000 (c.val + 0x20) else c

theorem lowerAscii_val (c : CodePoint) :
    (lowerAscii c).val = if 0x41 ≤ c.val ∧ c.val ≤ 0x5A then c.val + 0x20 else c.val := by
  unfold lowerAscii
  split
  · rename_i h
    simp only [Fin.ofNat, Fin.val_mk]
    omega
  · rfl

/-- A sign: ASCII and no letter. -/
def IsSign (c : CodePoint) : Prop :=
  c.val < 0x41 ∨ (0x5A < c.val ∧ c.val < 0x61) ∨ (0x7A < c.val ∧ c.val < 0x80)

theorem lowerAscii_eq_sign {c x : CodePoint} (hx : IsSign x) : lowerAscii c = x ↔ c = x := by
  rw [Fin.ext_iff, Fin.ext_iff, lowerAscii_val]
  unfold IsSign at hx
  split <;> omega

theorem val_lt_of_lowerAscii {c : CodePoint} (h : (lowerAscii c).val < 0x80) :
    c.val < 0x80 := by
  rw [lowerAscii_val] at h
  split at h <;> omega

/-- What Unicode has for the characters outside ASCII: the lower case of a character with
the text before and after it.  Only two of them have ASCII in it: the Kelvin sign is a `k`,
and the dotted capital I an `i` with a mark after it. -/
structure CaseMap where
  lowerOther : PyStr → CodePoint → PyStr → PyStr
  foreign : ∀ before c after, 0x80 ≤ c.val →
    ∃ x ∈ lowerOther before c after, 0x80 ≤ x.val ∨ x.val = 0x6B
  letters : ∀ before c after, 0x80 ≤ c.val →
    ∀ x ∈ lowerOther before c after, 0x80 ≤ x.val ∨ x.val = 0x69 ∨ x.val = 0x6B

namespace CaseMap

variable (m : CaseMap)

/-- `lower`, after some of the text. -/
def lowerFrom (before : PyStr) : PyStr → PyStr
  | [] => []
  | c :: s =>
      (if c.val < 0x80 then [lowerAscii c] else m.lowerOther before c s) ++
        lowerFrom (before ++ [c]) s

/-- `str.lower`. -/
def lower (s : PyStr) : PyStr := m.lowerFrom [] s

/-- A table for texts that are all ASCII. -/
def ascii : CaseMap where
  lowerOther _ c _ := [c]
  foreign _ c _ hc := ⟨c, List.mem_singleton_self c, .inl hc⟩
  letters _ _ _ hc _ hx := .inl (List.mem_singleton.mp hx ▸ hc)

theorem lowerFrom_ascii {s : PyStr} (h : ∀ c ∈ s, c.val < 0x80) (before : PyStr) :
    m.lowerFrom before s = s.map lowerAscii := by
  induction s generalizing before with
  | nil => rfl
  | cons c s ih =>
      rw [lowerFrom, if_pos (h c List.mem_cons_self),
        ih fun x hx => h x (List.mem_cons_of_mem c hx)]
      rfl

theorem lower_ascii {s : PyStr} (h : ∀ c ∈ s, c.val < 0x80) :
    m.lower s = s.map lowerAscii :=
  m.lowerFrom_ascii h []

/-- A character outside ASCII shows in the lower case. -/
theorem exists_mem_lower {s : PyStr} {c : CodePoint} (hc : c ∈ s) (hforeign : 0x80 ≤ c.val) :
    ∃ x ∈ m.lower s, 0x80 ≤ x.val ∨ x.val = 0x6B := by
  obtain ⟨before, after, rfl⟩ := List.append_of_mem hc
  have hfrom : ∀ (pre : PyStr), ∃ x ∈ m.lowerFrom pre (before ++ c :: after),
      0x80 ≤ x.val ∨ x.val = 0x6B := by
    induction before with
    | nil =>
        intro pre
        obtain ⟨x, hx, hval⟩ := m.foreign pre c after hforeign
        refine ⟨x, ?_, hval⟩
        rw [List.nil_append, lowerFrom, if_neg (Nat.not_lt.mpr hforeign)]
        exact List.mem_append_left _ hx
    | cons b before ih =>
        intro pre
        obtain ⟨x, hx, hval⟩ := ih (by simp) (pre ++ [b])
        exact ⟨x, List.mem_append_right _ hx, hval⟩
  exact hfrom []

/-- The texts whose lower case is an ASCII text without a `k` are ASCII themselves. -/
theorem lower_eq_iff {t : PyStr} (ht : ∀ c ∈ t, c.val < 0x80 ∧ c.val ≠ 0x6B) (s : PyStr) :
    m.lower s = t ↔ s.map lowerAscii = t := by
  have hascii : (m.lower s = t ∨ s.map lowerAscii = t) → ∀ c ∈ s, c.val < 0x80 := by
    rintro h c hc
    by_contra hforeign
    rcases h with rfl | rfl
    · obtain ⟨x, hx, hval⟩ := m.exists_mem_lower hc (Nat.le_of_not_lt hforeign)
      have := ht x hx
      omega
    · exact hforeign (val_lt_of_lowerAscii (ht _ (List.mem_map_of_mem hc)).1)
  constructor
  · intro h
    rw [← m.lower_ascii (hascii (.inl h)), h]
  · intro h
    rw [m.lower_ascii (hascii (.inr h)), h]

/-- Signs are kept, and none is added. -/
theorem count_lower {x : CodePoint} (hx : IsSign x) (s : PyStr) :
    (m.lower s).count x = s.count x := by
  have hfrom : ∀ before, (m.lowerFrom before s).count x = s.count x := by
    induction s with
    | nil => exact fun _ => rfl
    | cons c s ih =>
        intro before
        rw [lowerFrom, List.count_append, ih]
        split
        · rw [List.count_singleton, List.count_cons, Nat.add_comm]
          simp only [beq_iff_eq, lowerAscii_eq_sign hx]
        · rename_i hc
          have hforeign := Nat.le_of_not_lt hc
          have hnone : x ∉ m.lowerOther before c s := by
            intro hmem
            have hval := m.letters before c s hforeign x hmem
            unfold IsSign at hx
            omega
          have hne : c ≠ x := by
            rintro rfl
            unfold IsSign at hx
            omega
          rw [List.count_eq_zero.mpr hnone, List.count_cons_of_ne hne, Nat.zero_add]
  exact hfrom []

/-- Whether the lower case begins with an ASCII text can be told without the tables: no
foreign character stands for one of its letters. -/
theorem prefix_lower_iff {p : PyStr}
    (hp : ∀ c ∈ p, c.val < 0x80 ∧ c.val ≠ 0x69 ∧ c.val ≠ 0x6B) (s : PyStr) :
    p <+: m.lower s ↔ p <+: s.map lowerAscii := by
  have hfrom : ∀ before, p <+: m.lowerFrom before s ↔ p <+: s.map lowerAscii := by
    induction p generalizing s with
    | nil => exact fun _ => iff_of_true List.nil_prefix List.nil_prefix
    | cons a p ih =>
        intro before
        have ha := hp a List.mem_cons_self
        have hp' := fun c hc => hp c (List.mem_cons_of_mem a hc)
        cases s with
        | nil => exact Iff.rfl
        | cons c s =>
            by_cases hc : c.val < 0x80
            · rw [lowerFrom, if_pos hc, List.singleton_append, List.map_cons,
                List.cons_prefix_cons, List.cons_prefix_cons, ih hp' s]
            · have hforeign := Nat.le_of_not_lt hc
              refine iff_of_false (fun hprefix => ?_) (fun hprefix => ?_)
              · rw [lowerFrom, if_neg hc] at hprefix
                obtain ⟨x, hx, -⟩ := m.foreign before c s hforeign
                obtain ⟨y, other, hother⟩ := List.exists_cons_of_ne_nil (List.ne_nil_of_mem hx)
                have hmem : y ∈ m.lowerOther before c s := hother ▸ List.mem_cons_self
                have hy := m.letters before c s hforeign y hmem
                rw [hother, List.cons_append, List.cons_prefix_cons] at hprefix
                rw [← hprefix.1] at hy
                omega
              · rw [List.map_cons, List.cons_prefix_cons] at hprefix
                have hval := congrArg Fin.val hprefix.1
                rw [lowerAscii_val] at hval
                split at hval <;> omega
  exact hfrom []

end CaseMap

theorem lowerAscii_eq_self {c : CodePoint} (h : ¬(0x41 ≤ c.val ∧ c.val ≤ 0x5A)) :
    lowerAscii c = c := by
  rw [lowerAscii, if_neg h]

theorem lowerAscii_lowerAscii (c : CodePoint) : lowerAscii (lowerAscii c) = lowerAscii c := by
  refine lowerAscii_eq_self ?_
  rw [lowerAscii_val]
  split <;> omega

theorem count_map_lowerAscii {x : CodePoint} (hx : IsSign x) (s : PyStr) :
    (s.map lowerAscii).count x = s.count x := by
  induction s with
  | nil => rfl
  | cons c s ih =>
      rw [List.map_cons, List.count_cons, List.count_cons, ih]
      simp only [beq_iff_eq, lowerAscii_eq_sign hx]

/-! ## Numbers -/

/-- `str(n)`. -/
def strNat (n : Nat) : PyStr := py (toString n)

theorem strNat_eq (n : Nat) :
    strNat n = (Nat.toDigits 10 n).map fun c => Fin.ofNat 0x110000 c.toNat := by
  rw [strNat, py, show toString n = n.repr from rfl, Nat.toList_repr]

/-- The code point of a decimal digit. -/
theorem digit_val {c : Char} (h : c.isDigit = true) :
    (Fin.ofNat 0x110000 c.toNat : CodePoint).val = c.toNat ∧
      0x30 ≤ c.toNat ∧ c.toNat ≤ 0x39 := by
  simp only [Char.isDigit, Bool.and_eq_true, decide_eq_true_eq, UInt32.le_iff_toNat_le] at h
  have hlow : 0x30 ≤ c.toNat := h.1
  have hhigh : c.toNat ≤ 0x39 := h.2
  refine ⟨?_, hlow, hhigh⟩
  simp only [Fin.ofNat, Fin.val_mk]
  omega

theorem val_of_mem_strNat {n : Nat} {c : CodePoint} (h : c ∈ strNat n) :
    0x30 ≤ c.val ∧ c.val ≤ 0x39 := by
  rw [strNat_eq] at h
  obtain ⟨d, hd, rfl⟩ := List.mem_map.mp h
  have hval := digit_val (Nat.isDigit_of_mem_toDigits (by decide) (by decide) hd)
  rw [hval.1]
  exact hval.2

theorem strNat_ne_nil (n : Nat) : strNat n ≠ [] := by
  rw [strNat_eq]
  simp [Nat.toDigits_ne_nil]

theorem length_strNat_le {n k : Nat} (hk : 0 < k) (h : n < 10 ^ k) : (strNat n).length ≤ k := by
  rw [strNat_eq, List.length_map]
  exact (Nat.length_toDigits_le_iff (by decide) hk).mpr h

/-- `int` reads back what `str` wrote. -/
theorem number_strNat (n : Nat) : number 10 decimalDigit (strNat n) = some n := by
  have hfold : ∀ (l : List Char) (init : Nat), (∀ c ∈ l, c.isDigit = true) →
      (l.map fun c => (Fin.ofNat 0x110000 c.toNat : CodePoint)).foldl
          (fun n c => do pure ((← n) * 10 + (← decimalDigit c))) (some init) =
        some (Nat.ofDigitChars 10 l init) := by
    intro l
    induction l with
    | nil => exact fun init _ => rfl
    | cons c l ih =>
        intro init hl
        have hval := digit_val (hl c List.mem_cons_self)
        have hdigit : decimalDigit (Fin.ofNat 0x110000 c.toNat) = some (c.toNat - 0x30) := by
          rw [decimalDigit, hval.1, if_pos hval.2]
        have hstep : 10 * init + (c.toNat - '0'.toNat) = init * 10 + (c.toNat - 0x30) := by
          rw [Nat.mul_comm]
          rfl
        rw [List.map_cons, List.foldl_cons, hdigit, Nat.ofDigitChars_cons, hstep]
        exact ih _ fun d hd => hl d (List.mem_cons_of_mem c hd)
  have hdigits : ∀ c ∈ Nat.toDigits 10 n, c.isDigit = true :=
    fun c hc => Nat.isDigit_of_mem_toDigits (by decide) (by decide) hc
  rw [strNat_eq, number, hfold _ 0 hdigits, Nat.ofDigitChars_ten_toDigits]

end PyText
