import ProbeAgent.PyValue
import Mathlib.Data.List.DropRight
import Mathlib.Data.Nat.Digits.Lemmas
import Mathlib.Data.Nat.Log

/-!
# Numbers in text

The numbers of a JSON text as `json.scanner` matches them (`NUMBER_RE`), and as
`int.__repr__` and `float.__repr__` write them.  A text `repr` wrote is matched as a whole
(`lexNumber_text`).  An integer of more than `maxStrDigits` digits is neither written nor
read: both ways are a `ValueError`.

`float` takes the double nearest to the decimal number, and `repr` the shortest decimal
number that `float` takes to the double, the nearest one where there are several.
-/

namespace NumberText

open PyText ProbeAgent

def minus : CodePoint := 0x2D
def plus : CodePoint := 0x2B
def point : CodePoint := 0x2E
def smallE : CodePoint := 0x65
def capitalE : CodePoint := 0x45

def isDigit (c : CodePoint) : Bool :=
  decide (0x30 ≤ c.val ∧ c.val ≤ 0x39)

/-- What the groups of `NUMBER_RE` match: the sign, the integer part, the digits after the
point, and the exponent with its sign. -/
structure Lexeme where
  negative : Bool
  whole : PyStr
  fraction : Option PyStr := none
  exponent : Option (Bool × PyStr) := none
deriving DecidableEq

/-! ## Matching -/

/-- `-?(0|[1-9][0-9]*)`, after the sign. -/
def lexWhole (s : PyStr) : Option (PyStr × PyStr) :=
  match s with
  | [] => none
  | c :: rest =>
      if c = digitZero then some ([c], rest)
      else if isDigit c then some (s.takeWhile isDigit, s.dropWhile isDigit)
      else none

/-- `(\.[0-9]+)?`. -/
def lexFraction (s : PyStr) : Option PyStr × PyStr :=
  match s with
  | c :: d :: rest =>
      if c = point && isDigit d then
        (some ((d :: rest).takeWhile isDigit), (d :: rest).dropWhile isDigit)
      else (none, s)
  | _ => (none, s)

/-- The sign of an exponent and what follows it. -/
def lexSign (s : PyStr) : Bool × PyStr :=
  match s with
  | c :: rest => if c = minus then (true, rest) else if c = plus then (false, rest) else (false, s)
  | [] => (false, s)

/-- `([eE][-+]?[0-9]+)?`. -/
def lexExponent (s : PyStr) : Option (Bool × PyStr) × PyStr :=
  match s with
  | c :: rest =>
      if c = smallE || c = capitalE then
        let (negative, digits) := lexSign rest
        if digits.takeWhile isDigit = [] then (none, s)
        else (some (negative, digits.takeWhile isDigit), digits.dropWhile isDigit)
      else (none, s)
  | [] => (none, s)

/-- `NUMBER_RE.match`: the number at the front and what follows it. -/
def lexNumber (s : PyStr) : Option (Lexeme × PyStr) :=
  let negative := s.head? = some minus
  match lexWhole (if negative then s.tail else s) with
  | none => none
  | some (whole, rest) =>
      let (fraction, rest) := lexFraction rest
      let (exponent, rest) := lexExponent rest
      some (⟨negative, whole, fraction, exponent⟩, rest)

/-! ## Values -/

/-- The number digits stand for. -/
def digitsValue (s : PyStr) : Nat :=
  s.foldl (fun n c => n * 10 + (c.val - 0x30)) 0

/-- `num / den`, rounded to an integer, ties to even. -/
def roundHalfEven (num den : Nat) : Nat :=
  let q := num / den
  let r := num % den
  if 2 * r < den ∨ (2 * r = den ∧ q % 2 = 0) then q else q + 1

/-- `m * 2 ^ e` with an odd `m`, found within `n` halvings. -/
def halve : Nat → Nat → Int → Nat × Int
  | 0, m, e => (m, e)
  | n + 1, m, e => if m % 2 = 0 then halve n (m / 2) (e + 1) else (m, e)

/-- The largest power of the base that is not above `num / den`, as its exponent. -/
def floorLog (base num den : Nat) : Int :=
  if den ≤ num then Nat.log base (num / den) else -(Nat.log base ((den - 1) / num) + 1 : Int)

/-- The double nearest to `num / den`. -/
def nearest (negative : Bool) (num den : Nat) : PyFloat :=
  if num = 0 then .finite negative 0 0
  else
    let e := max (floorLog 2 num den - 52) (-1074)
    let m := roundHalfEven (num * 2 ^ (-e).toNat) (den * 2 ^ e.toNat)
    if m = 0 then .finite negative 0 0
    else if 1024 ≤ (Nat.log 2 m : Int) + e then .inf negative
    else .finite negative (halve 64 m e).1 (halve 64 m e).2

namespace Lexeme

/-- There is a fraction or an exponent. -/
def isFloat (l : Lexeme) : Bool :=
  l.fraction.isSome || l.exponent.isSome

/-- `int(text)`. -/
def int (l : Lexeme) : Int :=
  if l.negative then -(digitsValue l.whole : Int) else digitsValue l.whole

/-- The power of ten the digits of the lexeme are multiplied by. -/
def scale (l : Lexeme) : Int :=
  (match l.exponent with
    | none => 0
    | some (true, digits) => -(digitsValue digits : Int)
    | some (false, digits) => digitsValue digits) - (l.fraction.getD []).length

/-- `float(text)`. -/
def float (l : Lexeme) : PyFloat :=
  nearest l.negative (digitsValue (l.whole ++ l.fraction.getD []) * 10 ^ l.scale.toNat)
    (10 ^ (-l.scale).toNat)

def fractionText (l : Lexeme) : PyStr :=
  match l.fraction with
  | none => []
  | some digits => point :: digits

def exponentText (l : Lexeme) : PyStr :=
  match l.exponent with
  | none => []
  | some (negative, digits) => smallE :: (if negative then minus else plus) :: digits

/-- The text, with the exponent as `repr` writes it. -/
def text (l : Lexeme) : PyStr :=
  (if l.negative then [minus] else []) ++ (l.whole ++ (l.fractionText ++ l.exponentText))

end Lexeme

/-! ## `repr` -/

def digitChar (n : Nat) : CodePoint :=
  Fin.ofNat 0x110000 (0x30 + n)

/-- `str(n)`. -/
def decimal (n : Nat) : PyStr :=
  if n = 0 then [digitZero] else ((Nat.digits 10 n).map digitChar).reverse

/-- `sys.int_info.default_max_str_digits`. -/
def maxStrDigits : Nat := 4300

/-- An integer that the interpreter turns into a text and reads from one. -/
def FewDigits (n : Int) : Prop :=
  (decimal n.natAbs).length ≤ maxStrDigits

instance (n : Int) : Decidable (FewDigits n) :=
  inferInstanceAs (Decidable (_ ≤ _))

/-- `int.__repr__`, for a number of few digits. -/
def intLexeme (n : Int) : Lexeme :=
  ⟨decide (n < 0), decimal n.natAbs, none, none⟩

/-- The digits without the zeros at the end. -/
def trimZeros (s : PyStr) : PyStr :=
  s.rdropWhile (· = digitZero)

/-- An exponent has two digits or more. -/
def exponentDigits (n : Nat) : PyStr :=
  if n < 10 then digitZero :: decimal n else decimal n

/-- How `float.__repr__` lays out `d * 10 ^ x`: with an exponent from `1e16` on and
below `1e-4`. -/
def layout (negative : Bool) (d : Nat) (x : Int) : Lexeme :=
  let digits := trimZeros (decimal d)
  let decpt := (decimal d).length + x
  if -4 < decpt ∧ decpt ≤ 16 then
    if decpt ≤ 0 then
      ⟨negative, [digitZero], some (List.replicate (-decpt).toNat digitZero ++ digits), none⟩
    else if digits.length ≤ decpt.toNat then
      ⟨negative, digits ++ List.replicate (decpt.toNat - digits.length) digitZero,
        some [digitZero], none⟩
    else ⟨negative, digits.take decpt.toNat, some (digits.drop decpt.toNat), none⟩
  else
    ⟨negative, digits.take 1, if digits.length = 1 then none else some (digits.drop 1),
      some (decide (decpt < 1), exponentDigits (decpt - 1).natAbs)⟩

/-- The decimal numbers of `n` digits on either side of `num / den`, the nearer first. -/
def neighbours (num den n : Nat) : List (Nat × Int) :=
  let x := floorLog 10 num den + 1 - n
  let top := num * 10 ^ (-x).toNat
  let bottom := den * 10 ^ x.toNat
  let low := top / bottom
  if top % bottom = 0 then [(low, x)]
  else if roundHalfEven top bottom = low then [(low, x), (low + 1, x)]
  else [(low + 1, x), (low, x)]

/-- `m * 2 ^ e` in full. -/
def exactDecimal (m : Nat) (e : Int) : Nat × Int :=
  if 0 ≤ e then (m * 2 ^ e.toNat, 0) else (m * 5 ^ (-e).toNat, e)

/-- The shortest decimal number for a float: seventeen digits are always enough. -/
def shortest (negative : Bool) (m : Nat) (e : Int) : Nat × Int :=
  let num := m * 2 ^ e.toNat
  let den := 2 ^ (-e).toNat
  (((List.range 17).flatMap fun n => neighbours num den (n + 1)).find? fun c =>
    decide (0 < c.1 ∧ (layout negative c.1 c.2).float = .finite negative m e)).getD
      (exactDecimal m e)

/-- `float.__repr__` of a finite float. -/
def floatLexeme (negative : Bool) (m : Nat) (e : Int) : Lexeme :=
  if m = 0 then ⟨negative, [digitZero], some [digitZero], none⟩
  else layout negative (shortest negative m e).1 (shortest negative m e).2

/-! ## What is written is matched -/

/-- One digit or more. -/
structure Digits (s : PyStr) : Prop where
  nonempty : s ≠ []
  digits : ∀ c ∈ s, isDigit c = true

/-- Digits, with no zero in front of others. -/
def Whole (s : PyStr) : Prop :=
  s = [digitZero] ∨ (Digits s ∧ s.head? ≠ some digitZero)

/-- A lexeme that `NUMBER_RE` can match. -/
structure Lexeme.WellFormed (l : Lexeme) : Prop where
  whole : Whole l.whole
  fraction : ∀ digits, l.fraction = some digits → Digits digits
  exponent : ∀ negative digits, l.exponent = some (negative, digits) → Digits digits

/-- No digit comes next. -/
def NoDigit (s : PyStr) : Prop :=
  ∀ c, s.head? = some c → isDigit c = false

/-- What comes next does not go on with a number. -/
structure Ends (s : PyStr) : Prop where
  noDigit : NoDigit s
  noPoint : s.head? ≠ some point
  noSmallE : s.head? ≠ some smallE
  noCapitalE : s.head? ≠ some capitalE

theorem noDigit_cons {c : CodePoint} (h : isDigit c = false) (s : PyStr) : NoDigit (c :: s) := by
  intro d hd
  cases hd
  exact h

theorem takeWhile_of_noDigit {s : PyStr} (h : NoDigit s) :
    s.takeWhile isDigit = [] ∧ s.dropWhile isDigit = s := by
  cases s with
  | nil => exact ⟨rfl, rfl⟩
  | cons c s =>
      have hc := h c rfl
      simp [hc]

/-- Digits are taken as far as they go. -/
theorem takeWhile_digits {digits : PyStr} (h : ∀ c ∈ digits, isDigit c = true) {rest : PyStr}
    (hrest : NoDigit rest) :
    (digits ++ rest).takeWhile isDigit = digits ∧ (digits ++ rest).dropWhile isDigit = rest := by
  obtain ⟨htake, hdrop⟩ := takeWhile_of_noDigit hrest
  rw [List.takeWhile_append_of_pos h, List.dropWhile_append_of_pos h, htake, hdrop,
    List.append_nil]
  exact ⟨rfl, rfl⟩

theorem lexWhole_append {whole : PyStr} (h : Whole whole) {rest : PyStr} (hrest : NoDigit rest) :
    lexWhole (whole ++ rest) = some (whole, rest) := by
  rcases h with rfl | ⟨⟨hnonempty, hdigits⟩, hzero⟩
  · rfl
  · obtain ⟨htake, hdrop⟩ := takeWhile_digits hdigits hrest
    obtain ⟨c, whole, rfl⟩ := List.exists_cons_of_ne_nil hnonempty
    have hc : c ≠ digitZero := fun hc => hzero (by rw [hc]; rfl)
    rw [List.cons_append] at htake hdrop ⊢
    rw [lexWhole, if_neg hc, if_pos (hdigits c List.mem_cons_self), htake, hdrop]

theorem lexFraction_append {l : Lexeme} (h : ∀ digits, l.fraction = some digits → Digits digits)
    {rest : PyStr} (hrest : NoDigit rest) (hpoint : rest.head? ≠ some point) :
    lexFraction (l.fractionText ++ rest) = (l.fraction, rest) := by
  unfold Lexeme.fractionText
  cases hfraction : l.fraction with
  | none =>
      match rest, hpoint with
      | [], _ => rfl
      | [c], _ => rfl
      | c :: d :: rest, hpoint =>
          have hc : c ≠ point := fun hc => hpoint (by rw [hc]; rfl)
          simp [lexFraction, hc]
  | some digits =>
      obtain ⟨hnonempty, hdigits⟩ := h digits hfraction
      obtain ⟨htake, hdrop⟩ := takeWhile_digits hdigits hrest
      obtain ⟨d, digits, rfl⟩ := List.exists_cons_of_ne_nil hnonempty
      rw [List.cons_append] at htake hdrop
      simp only [List.cons_append, lexFraction, hdigits d List.mem_cons_self, decide_true,
        Bool.and_self, if_true, htake, hdrop]

theorem lexExponent_append {l : Lexeme}
    (h : ∀ negative digits, l.exponent = some (negative, digits) → Digits digits)
    {rest : PyStr} (hrest : Ends rest) :
    lexExponent (l.exponentText ++ rest) = (l.exponent, rest) := by
  unfold Lexeme.exponentText
  cases hexponent : l.exponent with
  | none =>
      cases rest with
      | nil => rfl
      | cons c rest =>
          have hsmall : c ≠ smallE := fun hc => hrest.noSmallE (by rw [hc]; rfl)
          have hcapital : c ≠ capitalE := fun hc => hrest.noCapitalE (by rw [hc]; rfl)
          simp [lexExponent, hsmall, hcapital]
  | some exponent =>
      obtain ⟨negative, digits⟩ := exponent
      obtain ⟨hnonempty, hdigits⟩ := h negative digits hexponent
      obtain ⟨htake, hdrop⟩ := takeWhile_digits hdigits hrest.noDigit
      have hsign : lexSign ((if negative then minus else plus) :: (digits ++ rest)) =
          (negative, digits ++ rest) := by
        cases negative with
        | true => simp [lexSign]
        | false => simp [lexSign, show plus ≠ minus by decide]
      simp only [List.cons_append, lexExponent, hsign, htake, hdrop, if_neg hnonempty,
        decide_true, Bool.true_or, if_true]

/-- A text that `repr` writes is matched as a whole. -/
theorem lexNumber_text {l : Lexeme} (h : l.WellFormed) {rest : PyStr} (hrest : Ends rest) :
    lexNumber (l.text ++ rest) = some (l, rest) := by
  have hexponent : NoDigit (l.exponentText ++ rest) ∧
      (l.exponentText ++ rest).head? ≠ some point := by
    unfold Lexeme.exponentText
    split
    · exact ⟨hrest.noDigit, hrest.noPoint⟩
    · exact ⟨noDigit_cons (by decide) _, by simp [show smallE ≠ point by decide]⟩
  have hfraction : NoDigit (l.fractionText ++ (l.exponentText ++ rest)) := by
    unfold Lexeme.fractionText
    split
    · exact hexponent.1
    · exact noDigit_cons (by decide) _
  have hwhole := lexWhole_append h.whole hfraction
  have hhead : (l.whole ++ (l.fractionText ++ (l.exponentText ++ rest))).head? ≠ some minus := by
    rcases h.whole with hzero | ⟨⟨hnonempty, hdigits⟩, -⟩
    · simp [hzero, show digitZero ≠ minus by decide]
    · obtain ⟨c, whole, hcons⟩ := List.exists_cons_of_ne_nil hnonempty
      have hc := hdigits c (by rw [hcons]; exact List.mem_cons_self)
      rw [hcons, List.cons_append, List.head?_cons]
      rintro ⟨⟩
      cases hc
  have htext : l.text ++ rest = (if l.negative then [minus] else []) ++
      (l.whole ++ (l.fractionText ++ (l.exponentText ++ rest))) := by
    simp only [Lexeme.text, List.append_assoc]
  rw [htext, lexNumber]
  cases hnegative : l.negative with
  | true =>
      simp only [if_true, List.cons_append, List.nil_append, List.head?_cons, decide_true,
        List.tail_cons, hwhole, lexFraction_append h.fraction hexponent.1 hexponent.2,
        lexExponent_append h.exponent hrest]
      rw [← hnegative]
  | false =>
      simp only [if_false, Bool.false_eq_true, List.nil_append, hhead, decide_false, hwhole,
        lexFraction_append h.fraction hexponent.1 hexponent.2,
        lexExponent_append h.exponent hrest]
      rw [← hnegative]

/-! ## `repr` writes what is matched -/

theorem digitChar_facts : ∀ n : Fin 10,
    isDigit (digitChar n.val) = true ∧ (digitChar n.val = digitZero → n.val = 0) := by
  decide +kernel

theorem isDigit_digitZero : isDigit digitZero = true := by
  decide

theorem digits_decimal (n : Nat) : Digits (decimal n) := by
  unfold decimal
  split
  · exact ⟨by simp, by simp [isDigit_digitZero]⟩
  · rename_i hn
    refine ⟨by simp [Nat.digits_eq_nil_iff_eq_zero, hn], fun c hc => ?_⟩
    rw [List.mem_reverse, List.mem_map] at hc
    obtain ⟨d, hd, rfl⟩ := hc
    exact (digitChar_facts ⟨d, Nat.digits_lt_base (by decide) hd⟩).1

/-- A positive number does not begin with a zero. -/
theorem head_decimal {n : Nat} (h : n ≠ 0) : (decimal n).head? ≠ some digitZero := by
  have hnil : Nat.digits 10 n ≠ [] := Nat.digits_ne_nil_iff_ne_zero.mpr h
  rw [decimal, if_neg h, List.head?_reverse, List.getLast?_map,
    List.getLast?_eq_some_getLast hnil, Option.map_some]
  intro hzero
  have hlt : (Nat.digits 10 n).getLast hnil < 10 :=
    Nat.digits_lt_base (by decide) (List.getLast_mem hnil)
  exact Nat.getLast_digit_ne_zero 10 h
    ((digitChar_facts ⟨_, hlt⟩).2 (Option.some.inj hzero))

theorem whole_decimal (n : Nat) : Whole (decimal n) := by
  by_cases h : n = 0
  · exact .inl (by rw [decimal, if_pos h])
  · exact .inr ⟨digits_decimal n, head_decimal h⟩

theorem intLexeme_wellFormed (n : Int) : (intLexeme n).WellFormed :=
  ⟨whole_decimal _, nofun, nofun⟩

theorem digitsValue_append (s : PyStr) (c : CodePoint) :
    digitsValue (s ++ [c]) = digitsValue s * 10 + (c.val - 0x30) := by
  simp [digitsValue]

/-- Reading a number's digits gives it back. -/
theorem digitsValue_decimal (n : Nat) : digitsValue (decimal n) = n := by
  have hval : ∀ d : Fin 10, (digitChar d.val).val - 0x30 = d.val := by decide +kernel
  have hdigits : ∀ ds : List Nat, (∀ d ∈ ds, d < 10) →
      digitsValue (ds.map digitChar).reverse = Nat.ofDigits 10 ds := by
    intro ds
    induction ds with
    | nil => intro _; rfl
    | cons d ds ih =>
        intro hlt
        rw [List.forall_mem_cons] at hlt
        have hd : (digitChar d).val - 0x30 = d := hval ⟨d, hlt.1⟩
        rw [List.map_cons, List.reverse_cons, digitsValue_append, ih hlt.2, Nat.ofDigits_cons, hd]
        omega
  unfold decimal
  split
  · rename_i hn
    rw [hn]
    rfl
  · rw [hdigits _ fun d hd => Nat.digits_lt_base (by decide) hd, Nat.ofDigits_digits]

theorem int_intLexeme (n : Int) : (intLexeme n).int = n := by
  simp only [Lexeme.int, intLexeme, digitsValue_decimal, decide_eq_true_eq]
  split <;> omega

/-- A piece in front of digits that do not begin with a zero. -/
theorem Digits.of_leading {s t : PyStr} (h : Digits t) (hzero : t.head? ≠ some digitZero)
    (hpre : s <+: t) (hs : s ≠ []) : Digits s ∧ s.head? ≠ some digitZero := by
  refine ⟨⟨hs, fun c hc => h.digits c (hpre.subset hc)⟩, ?_⟩
  obtain ⟨rest, rfl⟩ := hpre
  obtain ⟨c, s, rfl⟩ := List.exists_cons_of_ne_nil hs
  exact hzero

theorem digits_trimZeros {d : Nat} (h : d ≠ 0) :
    Digits (trimZeros (decimal d)) ∧ (trimZeros (decimal d)).head? ≠ some digitZero := by
  refine (digits_decimal d).of_leading (head_decimal h) (List.rdropWhile_prefix _ _) fun hnil => ?_
  have hall := (List.rdropWhile_eq_nil_iff).mp hnil
  obtain ⟨c, rest, hcons⟩ := List.exists_cons_of_ne_nil (digits_decimal d).nonempty
  have hc := hall c (by rw [hcons]; exact List.mem_cons_self)
  have hhead := head_decimal h
  rw [hcons, List.head?_cons, of_decide_eq_true hc] at hhead
  exact hhead rfl

theorem digits_exponentDigits (n : Nat) : Digits (exponentDigits n) := by
  obtain ⟨hnonempty, hdigits⟩ := digits_decimal n
  unfold exponentDigits
  split
  · exact ⟨by simp, List.forall_mem_cons.mpr ⟨isDigit_digitZero, hdigits⟩⟩
  · exact ⟨hnonempty, hdigits⟩

theorem layout_wellFormed (negative : Bool) {d : Nat} (h : d ≠ 0) (x : Int) :
    (layout negative d x).WellFormed := by
  obtain ⟨hdigits, hzero⟩ := digits_trimZeros h
  have hlength := List.length_pos_iff.mpr hdigits.nonempty
  have hzeros : ∀ n, ∀ c ∈ List.replicate n digitZero, isDigit c = true := by
    intro n c hc
    rw [List.eq_of_mem_replicate hc]
    exact isDigit_digitZero
  have htake : ∀ n, n ≠ 0 → Whole ((trimZeros (decimal d)).take n) := fun n hn =>
    .inr (hdigits.of_leading hzero (List.take_prefix _ _) (by simp [hn, hdigits.nonempty]))
  have hdrop : ∀ n, n < (trimZeros (decimal d)).length →
      Digits ((trimZeros (decimal d)).drop n) := fun n hn =>
    ⟨by simp [hn], fun c hc => hdigits.digits c (List.mem_of_mem_drop hc)⟩
  simp only [layout]
  generalize ((decimal d).length : Int) + x = decpt
  split
  · rename_i hrange
    split
    · refine ⟨.inl rfl, ?_, nofun⟩
      rintro digits ⟨⟩
      exact ⟨by simp [hdigits.nonempty], List.forall_mem_append.mpr ⟨hzeros _, hdigits.digits⟩⟩
    · split
      · refine ⟨.inr ⟨⟨by simp [hdigits.nonempty],
          List.forall_mem_append.mpr ⟨hdigits.digits, hzeros _⟩⟩, ?_⟩, ?_, nofun⟩
        · rwa [List.head?_append_of_ne_nil _ hdigits.nonempty]
        · rintro digits ⟨⟩
          exact ⟨by simp, by simp [isDigit_digitZero]⟩
      · refine ⟨htake _ (by omega), ?_, nofun⟩
        rintro digits ⟨⟩
        exact hdrop _ (by omega)
  · refine ⟨htake _ (by decide), fun digits hfraction => ?_, ?_⟩
    · simp only at hfraction
      split at hfraction
      · cases hfraction
      · cases hfraction
        exact hdrop 1 (by omega)
    · rintro negative digits ⟨⟩
      exact digits_exponentDigits _

theorem exactDecimal_ne_zero {m : Nat} (h : m ≠ 0) (e : Int) : (exactDecimal m e).1 ≠ 0 := by
  unfold exactDecimal
  split <;> simp [h]

theorem floatLexeme_wellFormed (negative : Bool) (m : Nat) (e : Int) :
    (floatLexeme negative m e).WellFormed := by
  unfold floatLexeme
  split
  · refine ⟨.inl rfl, ?_, nofun⟩
    rintro digits ⟨⟩
    exact ⟨by simp, by simp [isDigit_digitZero]⟩
  · rename_i hm
    refine layout_wellFormed negative ?_ _
    unfold shortest
    simp only
    cases hfind : List.find? _ _ with
    | none => exact exactDecimal_ne_zero hm e
    | some c =>
        have hfound := List.find?_some hfind
        rw [decide_eq_true_iff] at hfound
        exact hfound.1.ne'

/-- A float is written with a fraction or an exponent. -/
theorem layout_isFloat (negative : Bool) (d : Nat) (x : Int) :
    (layout negative d x).isFloat = true := by
  simp only [layout]
  split
  · split
    · rfl
    · split <;> rfl
  · simp [Lexeme.isFloat]

theorem floatLexeme_isFloat (negative : Bool) (m : Nat) (e : Int) :
    (floatLexeme negative m e).isFloat = true := by
  unfold floatLexeme
  split
  · rfl
  · exact layout_isFloat _ _ _

end NumberText
