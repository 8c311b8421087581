import ProbeAgent.NumberText
import Mathlib.Data.List.Induction

/-!
# JSON texts (`json.dumps`, `json.loads`)

`dumps` is the encoder with the options its callers set, `loads` the decoder.  The
interpreter's limit on the depth of the recursion is not part of it.

A text that `dumps` wrote is read (`loads_dumps`), as the value itself but for what a text
cannot tell apart: `reread`.  Two surrogates in a row that make a pair are escaped one by
one and read as one character.
-/

namespace JsonText

open PyText NumberText ProbeAgent

def space : CodePoint := 0x20
def quote : CodePoint := 0x22
def backslash : CodePoint := 0x5C
def solidus : CodePoint := 0x2F
def comma : CodePoint := 0x2C
def colon : CodePoint := 0x3A
def openBracket : CodePoint := 0x5B
def closeBracket : CodePoint := 0x5D
def openBrace : CodePoint := 0x7B
def closeBrace : CodePoint := 0x7D
def smallB : CodePoint := 0x62
def smallF : CodePoint := 0x66
def smallN : CodePoint := 0x6E
def smallR : CodePoint := 0x72
def smallT : CodePoint := 0x74
def smallU : CodePoint := 0x75

/-! ## Surrogates -/

def isHigh (n : Nat) : Bool :=
  decide (0xD800 ≤ n ∧ n < 0xDC00)

def isLow (n : Nat) : Bool :=
  decide (0xDC00 ≤ n ∧ n < 0xE000)

/-- The character a pair of surrogates stands for. -/
def joined (high low : Nat) : CodePoint :=
  Fin.ofNat 0x110000 (0x10000 + (high - 0xD800) * 0x400 + (low - 0xDC00))

/-- The text with the surrogates that make a pair put together. -/
def joinPairs : PyStr → PyStr
  | [] => []
  | [c] => [c]
  | c :: d :: s =>
      if isHigh c.val && isLow d.val then joined c.val d.val :: joinPairs s
      else c :: joinPairs (d :: s)

/-- There is no surrogate in the text. -/
def NoSurrogate (s : PyStr) : Prop :=
  ∀ c ∈ s, ¬(0xD800 ≤ c.val ∧ c.val < 0xE000)

instance (s : PyStr) : Decidable (NoSurrogate s) :=
  List.decidableBAll _ s

/-! ## `dumps` -/

/-- The options of `json.dumps`: `ensure_ascii`, `allow_nan`, and whether the separators
are those without a space. -/
structure Style where
  ensureAscii : Bool
  allowNan : Bool
  compact : Bool
deriving DecidableEq

/-- `json.dumps(v)`. -/
def defaultStyle : Style :=
  ⟨true, true, false⟩

def Style.gap (style : Style) : PyStr :=
  if style.compact then [] else [space]

def Style.itemSeparator (style : Style) : PyStr :=
  comma :: style.gap

def Style.keySeparator (style : Style) : PyStr :=
  colon :: style.gap

def hex4 (n : Nat) : PyStr :=
  [hexDigit (n / 0x1000 % 16), hexDigit (n / 0x100 % 16), hexDigit (n / 0x10 % 16),
    hexDigit (n % 16)]

/-- A UTF-16 unit as an escape. -/
def escapeUnit (n : Nat) : PyStr :=
  backslash :: smallU :: hex4 n

/-- A character as `encode_basestring_ascii` writes it, or `encode_basestring`. -/
def escapeChar (ensureAscii : Bool) (c : CodePoint) : PyStr :=
  if c = quote then [backslash, quote]
  else if c = backslash then [backslash, backslash]
  else if c.val = 0x0A then [backslash, smallN]
  else if c.val = 0x0D then [backslash, smallR]
  else if c.val = 0x09 then [backslash, smallT]
  else if c.val = 0x0C then [backslash, smallF]
  else if c.val = 0x08 then [backslash, smallB]
  else if c.val < 0x20 then escapeUnit c.val
  else if ensureAscii && decide (0x7E < c.val) then
    if c.val < 0x10000 then escapeUnit c.val
    else
      escapeUnit (0xD800 + (c.val - 0x10000) / 0x400) ++
        escapeUnit (0xDC00 + (c.val - 0x10000) % 0x400)
  else [c]

/-- Printable ASCII. -/
def isPrintable (c : CodePoint) : Bool :=
  decide (0x20 ≤ c.val ∧ c.val < 0x7F)

def stringText (ensureAscii : Bool) (s : PyStr) : PyStr :=
  quote :: (s.flatMap (escapeChar ensureAscii) ++ [quote])

/-- none is the `ValueError` of a number with too many digits. -/
def intText (n : Int) : Option PyStr :=
  if FewDigits n then some (intLexeme n).text else none

/-- none is the `ValueError` of `allow_nan=False`. -/
def floatText (allowNan : Bool) : PyFloat → Option PyStr
  | .nan => if allowNan then some (py "NaN") else none
  | .inf negative =>
      if allowNan then some (if negative then py "-Infinity" else py "Infinity") else none
  | .finite negative m e => some (floatLexeme negative m e).text

section Dumps

variable (style : Style)

mutual

/-- `json.dumps`; none is a `ValueError`. -/
def dumps : Json → Option PyStr
  | .null => some (py "null")
  | .bool true => some (py "true")
  | .bool false => some (py "false")
  | .int n => intText n
  | .float x => floatText style.allowNan x
  | .str s => some (stringText style.ensureAscii s)
  | .arr [] => some [openBracket, closeBracket]
  | .arr (v :: vs) =>
      match dumps v, dumpsItems vs with
      | some t, some ts => some (openBracket :: (t ++ (ts ++ [closeBracket])))
      | _, _ => none
  | .obj [] => some [openBrace, closeBrace]
  | .obj ((k, v) :: fs) =>
      match dumps v, dumpsMembers fs with
      | some t, some ts =>
          some (openBrace :: (stringText style.ensureAscii k ++
            (style.keySeparator ++ (t ++ (ts ++ [closeBrace])))))
      | _, _ => none

/-- The items after the first. -/
def dumpsItems : List Json → Option PyStr
  | [] => some []
  | v :: vs =>
      match dumps v, dumpsItems vs with
      | some t, some ts => some (style.itemSeparator ++ (t ++ ts))
      | _, _ => none

/-- The members after the first. -/
def dumpsMembers : List (PyStr × Json) → Option PyStr
  | [] => some []
  | (k, v) :: fs =>
      match dumps v, dumpsMembers fs with
      | some t, some ts =>
          some (style.itemSeparator ++ (stringText style.ensureAscii k ++
            (style.keySeparator ++ (t ++ ts))))
      | _, _ => none

end

end Dumps

/-! ## `loads` -/

def isBlank (c : CodePoint) : Bool :=
  decide (c.val = 0x20 ∨ c.val = 0x09 ∨ c.val = 0x0A ∨ c.val = 0x0D)

def skipBlanks (s : PyStr) : PyStr :=
  s.dropWhile isBlank

/-- Four hexadecimal digits. -/
def scanHex4 : PyStr → Option (Nat × PyStr)
  | a :: b :: c :: d :: rest =>
      match hexadecimalDigit a, hexadecimalDigit b, hexadecimalDigit c, hexadecimalDigit d with
      | some a, some b, some c, some d => some (((a * 16 + b) * 16 + c) * 16 + d, rest)
      | _, _, _, _ => none
  | _ => none

/-- What follows `\\u`: a unit, and the one that makes a pair with it, if it comes next. -/
def scanUnit (s : PyStr) : Option (CodePoint × PyStr) :=
  match scanHex4 s with
  | none => none
  | some (n, rest) =>
      if isHigh n then
        match rest with
        | c :: d :: more =>
            if c = backslash ∧ d = smallU then
              match scanHex4 more with
              | none => none
              | some (low, after) =>
                  if isLow low then some (joined n low, after)
                  else some (Fin.ofNat 0x110000 n, rest)
            else some (Fin.ofNat 0x110000 n, rest)
        | _ => some (Fin.ofNat 0x110000 n, rest)
      else some (Fin.ofNat 0x110000 n, rest)

/-- What a one-letter escape stands for. -/
def unescape (c : CodePoint) : Option CodePoint :=
  if c = quote then some quote
  else if c = backslash then some backslash
  else if c = solidus then some solidus
  else if c = smallB then some 0x08
  else if c = smallF then some 0x0C
  else if c = smallN then some 0x0A
  else if c = smallR then some 0x0D
  else if c = smallT then some 0x09
  else none

/-- One character of a string, escaped or not. -/
def scanChar : PyStr → Option (CodePoint × PyStr)
  | [] => none
  | c :: rest =>
      if c = backslash then
        match rest with
        | [] => none
        | e :: rest =>
            if e = smallU then scanUnit rest
            else (unescape e).map fun x => (x, rest)
      else if c.val < 0x20 then none
      else some (c, rest)

/-- `scanstring`, after the quotation mark and within `n` characters. -/
def scanString : Nat → PyStr → Option (PyStr × PyStr)
  | 0, _ => none
  | _ + 1, [] => none
  | n + 1, c :: rest =>
      if c = quote then some ([], rest)
      else
        match scanChar (c :: rest) with
        | none => none
        | some (x, rest) => (scanString n rest).map fun p => (x :: p.1, p.2)

/-- The names the decoder knows. -/
def literals : List (PyStr × Json) :=
  [(py "null", .null), (py "true", .bool true), (py "false", .bool false),
    (py "NaN", .float .nan), (py "Infinity", .float (.inf false)),
    (py "-Infinity", .float (.inf true))]

def scanLiteral (s : PyStr) : Option (Json × PyStr) :=
  (literals.find? fun l => l.1.isPrefixOf s).map fun l => (l.2, s.drop l.1.length)

/-- The value of a number; none is the `ValueError` of an integer with too many digits. -/
def numberValue (l : Lexeme) : Option Json :=
  if l.isFloat then some (.float l.float)
  else if maxStrDigits < l.whole.length then none
  else some (.int l.int)

def scanNumber (s : PyStr) : Option (Json × PyStr) :=
  match lexNumber s with
  | none => none
  | some (l, rest) => (numberValue l).map fun v => (v, rest)

/-- `d[key] = v`. -/
def store (fields : List (PyStr × Json)) (key : PyStr) (v : Json) : List (PyStr × Json) :=
  if key ∈ fields.map Prod.fst then fields.map fun f => if f.1 = key then (key, v) else f
  else fields ++ [(key, v)]

/-- `dict(pairs)`. -/
def dictOf (pairs : List (PyStr × Json)) : List (PyStr × Json) :=
  pairs.foldl (fun fields p => store fields p.1 p.2) []

mutual

/-- `scan_once`, within a depth and a length of `n`. -/
def scanValue : Nat → PyStr → Option (Json × PyStr)
  | 0, _ => none
  | _ + 1, [] => none
  | n + 1, c :: rest =>
      if c = quote then (scanString rest.length rest).map fun p => (.str p.1, p.2)
      else if c = openBrace then
        match skipBlanks rest with
        | [] => none
        | d :: more =>
            if d = closeBrace then some (.obj [], more)
            else (scanMembers n (d :: more)).map fun p => (.obj (dictOf p.1), p.2)
      else if c = openBracket then
        match skipBlanks rest with
        | [] => none
        | d :: more =>
            if d = closeBracket then some (.arr [], more)
            else (scanItems n (d :: more)).map fun p => (.arr p.1, p.2)
      else (scanLiteral (c :: rest)).or (scanNumber (c :: rest))

/-- The items of an array, up to its end. -/
def scanItems : Nat → PyStr → Option (List Json × PyStr)
  | 0, _ => none
  | n + 1, s =>
      match scanValue n s with
      | none => none
      | some (v, rest) =>
          match skipBlanks rest with
          | [] => none
          | c :: rest =>
              if c = closeBracket then some ([v], rest)
              else if c = comma then
                (scanItems n (skipBlanks rest)).map fun p => (v :: p.1, p.2)
              else none

/-- The members of an object, up to its end. -/
def scanMembers : Nat → PyStr → Option (List (PyStr × Json) × PyStr)
  | 0, _ => none
  | _ + 1, [] => none
  | n + 1, q :: s =>
      if q ≠ quote then none
      else
        match scanString s.length s with
        | none => none
        | some (key, rest) =>
            match skipBlanks rest with
            | [] => none
            | c :: rest =>
                if c ≠ colon then none
                else
                  match scanValue n (skipBlanks rest) with
                  | none => none
                  | some (v, rest) =>
                      match skipBlanks rest with
                      | [] => none
                      | c :: rest =>
                          if c = closeBrace then some ([(key, v)], rest)
                          else if c = comma then
                            (scanMembers n (skipBlanks rest)).map fun p =>
                              ((key, v) :: p.1, p.2)
                          else none

end

/-- `json.loads` of a text; none is a `ValueError`, most often a `JSONDecodeError`. -/
def loads (s : PyStr) : Option Json :=
  match scanValue (s.length + 1) (skipBlanks s) with
  | none => none
  | some (v, rest) => if skipBlanks rest = [] then some v else none

/-! ## What is read back -/

/-- `float(repr(x))`. -/
def rereadFloat : PyFloat → PyFloat
  | .finite negative m e => (floatLexeme negative m e).float
  | x => x

mutual

/-- The value that a text of this one is read as. -/
def reread : Json → Json
  | .null => .null
  | .bool b => .bool b
  | .int n => .int n
  | .float x => .float (rereadFloat x)
  | .str s => .str (joinPairs s)
  | .arr items => .arr (rereadItems items)
  | .obj fields => .obj (dictOf (rereadMembers fields))

def rereadItems : List Json → List Json
  | [] => []
  | v :: vs => reread v :: rereadItems vs

def rereadMembers : List (PyStr × Json) → List (PyStr × Json)
  | [] => []
  | (k, v) :: fs => (joinPairs k, reread v) :: rereadMembers fs

end

/-! ## Strings -/

theorem scanHex4_hex4 {n : Nat} (h : n < 0x10000) (rest : PyStr) :
    scanHex4 (hex4 n ++ rest) = some (n, rest) := by
  have hdigit : ∀ d : Fin 16, hexadecimalDigit (hexDigit d.val) = some d.val := by
    decide +kernel
  have hdigit : ∀ d, d < 16 → hexadecimalDigit (hexDigit d) = some d := fun d hd => hdigit ⟨d, hd⟩
  simp only [hex4, List.cons_append, List.nil_append, scanHex4,
    hdigit _ (Nat.mod_lt _ (show 0 < 16 by decide))]
  congr 2
  omega

theorem ofNat_val {c : CodePoint} {n : Nat} (h : n = c.val) : Fin.ofNat 0x110000 n = c := by
  subst h
  exact Fin.ofNat_val_eq_self c

/-- What comes next is no escape of the second half of a pair. -/
def NoLow (s : PyStr) : Prop :=
  ∀ more, s = backslash :: smallU :: more →
    ∃ n after, scanHex4 more = some (n, after) ∧ isLow n = false

theorem scanUnit_hex4 {n : Nat} (hn : n < 0x10000) {rest : PyStr}
    (h : isHigh n = true → NoLow rest) :
    scanUnit (hex4 n ++ rest) = some (Fin.ofNat 0x110000 n, rest) := by
  simp only [scanUnit, scanHex4_hex4 hn]
  split
  · rename_i hhigh
    match rest, h hhigh with
    | [], _ => rfl
    | [c], _ => rfl
    | c :: d :: more, hlow =>
        simp only
        split
        · rename_i hescape
          obtain ⟨low, after, hscan, hlow⟩ := hlow more (by rw [hescape.1, hescape.2])
          simp only [hscan, hlow, Bool.false_eq_true, if_false]
        · rfl
  · rfl

theorem scanUnit_pair {high low : Nat} (hhigh : isHigh high = true) (hlow : isLow low = true)
    (rest : PyStr) :
    scanUnit (hex4 high ++ (escapeUnit low ++ rest)) = some (joined high low, rest) := by
  have hh : high < 0x10000 := by
    simp only [isHigh, decide_eq_true_eq] at hhigh
    omega
  have hl : low < 0x10000 := by
    simp only [isLow, decide_eq_true_eq] at hlow
    omega
  simp only [scanUnit, scanHex4_hex4 hh, hhigh, escapeUnit, List.cons_append, and_self, if_true,
    scanHex4_hex4 hl, hlow]

/-- How a character is written. -/
inductive Escaped (ascii : Bool) (c : CodePoint) : PyStr → Prop
  /-- With a one-letter escape. -/
  | letter (x : CodePoint) (hx : unescape x = some c) (hu : x ≠ smallU)
      (hp : isPrintable x = true) : Escaped ascii c [backslash, x]
  | unit (h : c.val < 0x10000) : Escaped ascii c (escapeUnit c.val)
  | pair (h : 0x10000 ≤ c.val) :
      Escaped ascii c (escapeUnit (0xD800 + (c.val - 0x10000) / 0x400) ++
        escapeUnit (0xDC00 + (c.val - 0x10000) % 0x400))
  /-- As it is. -/
  | plain (hquote : c ≠ quote) (hbackslash : c ≠ backslash) (hlow : 0x20 ≤ c.val)
      (hascii : ascii = false ∨ isPrintable c = true) : Escaped ascii c [c]

theorem escaped_escapeChar (ascii : Bool) (c : CodePoint) :
    Escaped ascii c (escapeChar ascii c) := by
  unfold escapeChar
  by_cases h1 : c = quote
  · rw [if_pos h1]
    exact .letter quote (by rw [h1]; rfl) (by decide) rfl
  rw [if_neg h1]
  by_cases h2 : c = backslash
  · rw [if_pos h2]
    exact .letter backslash (by rw [h2]; rfl) (by decide) rfl
  rw [if_neg h2]
  by_cases h3 : c.val = 0x0A
  · rw [if_pos h3]
    exact .letter smallN (by rw [show c = 0x0A from Fin.ext h3]; rfl) (by decide) rfl
  rw [if_neg h3]
  by_cases h4 : c.val = 0x0D
  · rw [if_pos h4]
    exact .letter smallR (by rw [show c = 0x0D from Fin.ext h4]; rfl) (by decide) rfl
  rw [if_neg h4]
  by_cases h5 : c.val = 0x09
  · rw [if_pos h5]
    exact .letter smallT (by rw [show c = 0x09 from Fin.ext h5]; rfl) (by decide) rfl
  rw [if_neg h5]
  by_cases h6 : c.val = 0x0C
  · rw [if_pos h6]
    exact .letter smallF (by rw [show c = 0x0C from Fin.ext h6]; rfl) (by decide) rfl
  rw [if_neg h6]
  by_cases h7 : c.val = 0x08
  · rw [if_pos h7]
    exact .letter smallB (by rw [show c = 0x08 from Fin.ext h7]; rfl) (by decide) rfl
  rw [if_neg h7]
  by_cases h8 : c.val < 0x20
  · rw [if_pos h8]
    exact .unit (by omega)
  rw [if_neg h8]
  by_cases h9 : (ascii && decide (0x7E < c.val)) = true
  · rw [if_pos h9]
    by_cases h10 : c.val < 0x10000
    · rw [if_pos h10]
      exact .unit h10
    · rw [if_neg h10]
      exact .pair (by omega)
  · rw [if_neg h9]
    refine .plain h1 h2 (by omega) ?_
    cases ascii with
    | false => exact .inl rfl
    | true =>
        rw [Bool.true_and, decide_eq_true_eq] at h9
        exact .inr (decide_eq_true ⟨by omega, by omega⟩)

/-- A character that is written with an escape or in itself. -/
theorem scanChar_escapeChar (ascii : Bool) (c : CodePoint) {r : PyStr}
    (h : isHigh c.val = true → NoLow r) :
    scanChar (escapeChar ascii c ++ r) = some (c, r) := by
  have hescaped := escaped_escapeChar ascii c
  generalize escapeChar ascii c = text at hescaped
  cases hescaped with
  | letter x hx hu hp =>
      simp only [List.cons_append, List.nil_append, scanChar, if_true, if_neg hu, hx,
        Option.map_some]
  | unit hlt =>
      simp only [escapeUnit, List.cons_append, scanChar, if_true]
      rw [scanUnit_hex4 hlt h, ofNat_val rfl]
  | pair hle =>
      have hc := c.isLt
      have hhigh : isHigh (0xD800 + (c.val - 0x10000) / 0x400) = true :=
        decide_eq_true (by omega)
      have hlow : isLow (0xDC00 + (c.val - 0x10000) % 0x400) = true :=
        decide_eq_true (by omega)
      have hpair := scanUnit_pair hhigh hlow r
      rw [List.append_assoc]
      simp only [escapeUnit, List.cons_append, scanChar, if_true] at hpair ⊢
      rw [hpair, joined, ofNat_val (c := c) (by omega)]
  | plain hquote hbackslash hlow hascii =>
      simp only [List.cons_append, List.nil_append, scanChar, if_neg hbackslash,
        if_neg (Nat.not_lt.mpr hlow)]

/-- Two surrogates that make a pair, escaped one by one. -/
theorem scanChar_pair {c d : CodePoint} (hc : isHigh c.val = true) (hd : isLow d.val = true)
    (rest : PyStr) :
    scanChar (escapeChar true c ++ (escapeChar true d ++ rest)) =
      some (joined c.val d.val, rest) := by
  have hunit : ∀ x : CodePoint, 0xD800 ≤ x.val → x.val < 0xE000 →
      escapeChar true x = escapeUnit x.val := by
    intro x hlow hhigh
    have hquote : x ≠ quote := fun hx => absurd (congrArg Fin.val hx) (by simp [quote]; omega)
    have hbackslash : x ≠ backslash := fun hx =>
      absurd (congrArg Fin.val hx) (by simp [backslash]; omega)
    rw [escapeChar, if_neg hquote, if_neg hbackslash, if_neg (by omega), if_neg (by omega),
      if_neg (by omega), if_neg (by omega), if_neg (by omega), if_neg (by omega),
      if_pos (by simp; omega), if_pos (by omega)]
  have hc' := of_decide_eq_true hc
  have hd' := of_decide_eq_true hd
  rw [hunit c (by omega) (by omega), hunit d (by omega) (by omega)]
  have hpair := scanUnit_pair hc hd rest
  simp only [escapeUnit, List.cons_append, scanChar, if_true] at hpair ⊢
  exact hpair

/-- What is written for a character is no second half of a pair, unless the character is. -/
theorem noLow_escapeChar (ascii : Bool) {c : CodePoint} (h : isLow c.val = false) (rest : PyStr) :
    NoLow (escapeChar ascii c ++ rest) := by
  have hunit : ∀ (n : Nat) (t : PyStr), n < 0x10000 → isLow n = false →
      NoLow (escapeUnit n ++ t) := by
    intro n t hn hlow more heq
    simp only [escapeUnit, List.cons_append, List.cons.injEq, true_and] at heq
    subst heq
    exact ⟨n, t, scanHex4_hex4 hn t, hlow⟩
  have hescaped := escaped_escapeChar ascii c
  generalize escapeChar ascii c = text at hescaped
  cases hescaped with
  | letter x hx hu hp =>
      intro more heq
      exact absurd (List.cons.inj (List.cons.inj heq).2).1 hu
  | unit hlt => exact hunit _ _ hlt h
  | pair hle =>
      have hc := c.isLt
      rw [List.append_assoc]
      exact hunit _ _ (by omega) (decide_eq_false (by omega))
  | plain hquote hbackslash hlow hascii =>
      intro more heq
      exact absurd (List.cons.inj heq).1 hbackslash

theorem escapeChar_head (ascii : Bool) (c : CodePoint) :
    ∃ x t, escapeChar ascii c = x :: t ∧ x ≠ quote := by
  have hbackslash : backslash ≠ quote := by decide
  have hescaped := escaped_escapeChar ascii c
  generalize escapeChar ascii c = text at hescaped
  cases hescaped with
  | letter x hx hu hp => exact ⟨_, _, rfl, hbackslash⟩
  | unit hlt => exact ⟨_, _, rfl, hbackslash⟩
  | pair hle => exact ⟨_, _, rfl, hbackslash⟩
  | plain hquote hbackslash hlow hascii => exact ⟨_, _, rfl, hquote⟩

theorem scanString_of_scanChar {n : Nat} {c x : CodePoint} {t rest : PyStr} (hc : c ≠ quote)
    (h : scanChar (c :: t) = some (x, rest)) :
    scanString (n + 1) (c :: t) = (scanString n rest).map fun p => (x :: p.1, p.2) := by
  rw [scanString, if_neg hc, h]

/-- The characters that a text carries: all of them when it is ASCII. -/
def Carried (ascii : Bool) (s : PyStr) : Prop :=
  ascii = true ∨ NoSurrogate s

theorem Carried.tail {ascii : Bool} {c : CodePoint} {s : PyStr} (h : Carried ascii (c :: s)) :
    Carried ascii s :=
  h.imp_right fun h x hx => h x (List.mem_cons_of_mem c hx)

theorem Carried.of_isHigh {ascii : Bool} {c : CodePoint} {s : PyStr} (h : Carried ascii (c :: s))
    (hc : isHigh c.val = true) : ascii = true := by
  refine h.resolve_right fun h => h c List.mem_cons_self ?_
  have hc := of_decide_eq_true hc
  omega

/-- A string is read back up to its pairs of surrogates. -/
theorem scanString_escape {ascii : Bool} {s : PyStr} (h : Carried ascii s) (rest : PyStr)
    {n : Nat} (hn : s.length < n) :
    scanString n (s.flatMap (escapeChar ascii) ++ quote :: rest) = some (joinPairs s, rest) := by
  induction s using joinPairs.induct generalizing n with
  | case1 =>
      obtain ⟨n, rfl⟩ := Nat.exists_eq_succ_of_ne_zero (Nat.ne_zero_of_lt hn)
      rfl
  | case2 c =>
      obtain ⟨n, rfl⟩ := Nat.exists_eq_succ_of_ne_zero (Nat.ne_zero_of_lt hn)
      obtain ⟨x, t, hescape, hx⟩ := escapeChar_head ascii c
      have hchar := scanChar_escapeChar ascii c (r := quote :: rest)
        fun _ more heq => absurd (List.cons.inj heq).1 (by decide)
      simp only [List.flatMap_cons, List.flatMap_nil, List.append_nil]
      rw [hescape, List.cons_append] at hchar ⊢
      rw [scanString_of_scanChar hx hchar]
      obtain ⟨n, rfl⟩ := Nat.exists_eq_succ_of_ne_zero (n := n) (by
        simp only [List.length_singleton] at hn
        omega)
      rfl
  | case3 c d s hpair ih =>
      obtain ⟨n, rfl⟩ := Nat.exists_eq_succ_of_ne_zero (Nat.ne_zero_of_lt hn)
      rw [Bool.and_eq_true] at hpair
      obtain rfl := h.of_isHigh hpair.1
      obtain ⟨x, t, hescape, hx⟩ := escapeChar_head true c
      have hchar := scanChar_pair hpair.1 hpair.2
        (s.flatMap (escapeChar true) ++ quote :: rest)
      simp only [List.flatMap_cons, List.append_assoc]
      rw [hescape, List.cons_append] at hchar ⊢
      rw [scanString_of_scanChar hx hchar, ih (.inl rfl) (by
        simp only [List.length_cons] at hn
        omega)]
      simp [joinPairs, hpair]
  | case4 c d s hpair ih =>
      obtain ⟨n, rfl⟩ := Nat.exists_eq_succ_of_ne_zero (Nat.ne_zero_of_lt hn)
      obtain ⟨x, t, hescape, hx⟩ := escapeChar_head ascii c
      have hchar := scanChar_escapeChar ascii c
        (r := (d :: s).flatMap (escapeChar ascii) ++ quote :: rest) fun hhigh => by
          rw [List.flatMap_cons, List.append_assoc]
          exact noLow_escapeChar ascii (by simpa [hhigh] using hpair) _
      rw [List.flatMap_cons, List.append_assoc]
      rw [hescape, List.cons_append] at hchar ⊢
      rw [scanString_of_scanChar hx hchar, ih h.tail (by
        simp only [List.length_cons] at hn ⊢
        omega)]
      simp [joinPairs, hpair]

/-- Every character takes a place in the text. -/
theorem length_le_escape (ascii : Bool) (s : PyStr) :
    s.length ≤ (s.flatMap (escapeChar ascii)).length := by
  induction s with
  | nil => rfl
  | cons c s ih =>
      obtain ⟨x, t, hescape, -⟩ := escapeChar_head ascii c
      rw [List.flatMap_cons, hescape]
      simp only [List.length_append, List.length_cons]
      omega

/-- A string, after its quotation mark and with all of the text at hand. -/
theorem scanString_stringText {ascii : Bool} {s : PyStr} (h : Carried ascii s) (rest : PyStr) :
    scanString (s.flatMap (escapeChar ascii) ++ quote :: rest).length
      (s.flatMap (escapeChar ascii) ++ quote :: rest) = some (joinPairs s, rest) := by
  refine scanString_escape h rest ?_
  have hlength := length_le_escape ascii s
  simp only [List.length_append, List.length_cons]
  omega

/-! ## Numbers and names -/

/-- A number begins with a digit, after a minus sign or not. -/
theorem lexeme_head {l : Lexeme} (h : l.WellFormed) :
    ∃ c t, l.text = c :: t ∧
      (isDigit c = true ∨ (c = minus ∧ ∃ d t', t = d :: t' ∧ isDigit d = true)) := by
  have hwhole : ∃ c t, l.whole = c :: t ∧ isDigit c = true := by
    rcases h.whole with hzero | ⟨⟨hnonempty, hdigits⟩, -⟩
    · exact ⟨_, _, hzero, isDigit_digitZero⟩
    · obtain ⟨c, t, hcons⟩ := List.exists_cons_of_ne_nil hnonempty
      exact ⟨c, t, hcons, hdigits c (by rw [hcons]; exact List.mem_cons_self)⟩
  obtain ⟨c, t, hcons, hc⟩ := hwhole
  rw [Lexeme.text, hcons]
  cases l.negative with
  | true => exact ⟨_, _, rfl, .inr ⟨rfl, _, _, rfl, hc⟩⟩
  | false => exact ⟨_, _, rfl, .inl hc⟩

theorem literals_head : ∀ l ∈ literals, ∃ c t, l.1 = c :: t ∧ isDigit c = false ∧
    (c = minus → ∃ d t', t = d :: t' ∧ isDigit d = false) := by
  simp only [literals, List.forall_mem_cons]
  exact ⟨⟨_, _, rfl, rfl, nofun⟩, ⟨_, _, rfl, rfl, nofun⟩, ⟨_, _, rfl, rfl, nofun⟩,
    ⟨_, _, rfl, rfl, nofun⟩, ⟨_, _, rfl, rfl, nofun⟩,
    ⟨_, _, rfl, rfl, fun _ => ⟨_, _, rfl, rfl⟩⟩, nofun⟩

theorem scanLiteral_lexeme {l : Lexeme} (h : l.WellFormed) (rest : PyStr) :
    scanLiteral (l.text ++ rest) = none := by
  obtain ⟨c, t, htext, hc⟩ := lexeme_head h
  rw [scanLiteral, Option.map_eq_none_iff, List.find?_eq_none]
  intro word hword hpre
  obtain ⟨d, u, hcons, hd, hminus⟩ := literals_head word hword
  rw [hcons, htext, List.cons_append, List.isPrefixOf_iff_prefix, List.cons_prefix_cons] at hpre
  obtain ⟨rfl, hpre⟩ := hpre
  rcases hc with hdigit | ⟨hsign, e, t', rfl, he⟩
  · rw [hd] at hdigit
    cases hdigit
  · obtain ⟨e', u', rfl, he'⟩ := hminus hsign
    rw [List.cons_append, List.cons_prefix_cons] at hpre
    rw [hpre.1, he] at he'
    cases he'

theorem scanValue_atom {c : CodePoint} (hquote : c ≠ quote) (hbrace : c ≠ openBrace)
    (hbracket : c ≠ openBracket) (n : Nat) (rest : PyStr) :
    scanValue (n + 1) (c :: rest) = (scanLiteral (c :: rest)).or (scanNumber (c :: rest)) := by
  rw [scanValue, if_neg hquote, if_neg hbrace, if_neg hbracket]

theorem scanValue_lexeme {l : Lexeme} (h : l.WellFormed) {rest : PyStr} (hrest : Ends rest)
    (n : Nat) :
    scanValue (n + 1) (l.text ++ rest) = (numberValue l).map fun v => (v, rest) := by
  have hliteral := scanLiteral_lexeme h rest
  have hnumber := lexNumber_text h hrest
  obtain ⟨c, t, htext, hc⟩ := lexeme_head h
  have hne : ∀ x, isDigit x = false → x ≠ minus → c ≠ x := by
    rintro x hx hminus rfl
    rcases hc with hdigit | ⟨hsign, -⟩
    · rw [hx] at hdigit
      cases hdigit
    · exact hminus hsign
  rw [htext, List.cons_append] at hliteral hnumber ⊢
  rw [scanValue_atom (hne _ (by decide) (by decide)) (hne _ (by decide) (by decide))
    (hne _ (by decide) (by decide)), hliteral, scanNumber, hnumber]
  rfl

/-- An integer of few digits is read back. -/
theorem numberValue_intLexeme {n : Int} (h : FewDigits n) :
    numberValue (intLexeme n) = some (.int n) := by
  have hfew : ¬maxStrDigits < (intLexeme n).whole.length := not_lt.mpr h
  rw [numberValue, if_neg (show ¬(intLexeme n).isFloat = true from Bool.false_ne_true), if_neg hfew,
    int_intLexeme]

/-! ## Values -/

section Everywhere

variable (N : Int → Prop) (P : PyFloat → Prop) (Q : PyStr → Prop)

mutual

/-- Every integer, every float, and every string and key of the value is of its kind. -/
def Everywhere : Json → Prop
  | .int n => N n
  | .float x => P x
  | .str s => Q s
  | .arr items => EverywhereItems items
  | .obj fields => EverywhereMembers fields
  | _ => True

def EverywhereItems : List Json → Prop
  | [] => True
  | v :: vs => Everywhere v ∧ EverywhereItems vs

def EverywhereMembers : List (PyStr × Json) → Prop
  | [] => True
  | (k, v) :: fs => Q k ∧ Everywhere v ∧ EverywhereMembers fs

end

end Everywhere

/-- The texts of the value can be written in this style. -/
abbrev CarriedIn (style : Style) : Json → Prop :=
  Everywhere (fun _ => True) (fun _ => True) (Carried style.ensureAscii)

/-- The integers of the value can be written. -/
abbrev Fits : Json → Prop :=
  Everywhere FewDigits (fun _ => True) (fun _ => True)

theorem skipBlanks_cons {c : CodePoint} (h : isBlank c = false) (s : PyStr) :
    skipBlanks (c :: s) = c :: s := by
  simp [skipBlanks, h]

theorem skipBlanks_gap (style : Style) {c : CodePoint} (h : isBlank c = false) (s : PyStr) :
    skipBlanks (style.gap ++ c :: s) = c :: s := by
  rw [Style.gap]
  split
  · exact skipBlanks_cons h s
  · simp [skipBlanks, h, show isBlank space = true by decide]

/-- What a text begins with. -/
structure Opens (s : PyStr) (c : CodePoint) : Prop where
  head : s.head? = some c
  printable : isPrintable c = true
  blank : isBlank c = false
  bracket : c ≠ closeBracket
  brace : c ≠ closeBrace

/-- A sign that begins a value: none that is skipped and none that ends a list. -/
theorem opens_of_head {s : PyStr} {c : CodePoint} (hhead : s.head? = some c)
    (hsign : (isPrintable c && !isBlank c && c != closeBracket && c != closeBrace) = true) :
    Opens s c := by
  simp only [Bool.and_eq_true, Bool.not_eq_true', bne_iff_ne] at hsign
  obtain ⟨⟨⟨hprintable, hblank⟩, hbracket⟩, hbrace⟩ := hsign
  exact ⟨hhead, hprintable, hblank, hbracket, hbrace⟩

theorem opens_of_isDigit {c : CodePoint} (h : isDigit c = true) (s : PyStr) : Opens (c :: s) c := by
  have hc := of_decide_eq_true h
  refine ⟨rfl, decide_eq_true (by omega), ?_, ?_, ?_⟩
  · simp only [isBlank, decide_eq_false_iff_not]
    omega
  · rintro rfl
    cases h
  · rintro rfl
    cases h

theorem opens_lexeme {l : Lexeme} (h : l.WellFormed) : ∃ c, Opens l.text c := by
  obtain ⟨c, t, htext, hdigit | ⟨rfl, -⟩⟩ := lexeme_head h
  · rw [htext]
    exact ⟨c, opens_of_isDigit hdigit t⟩
  · rw [htext]
    exact ⟨minus, opens_of_head rfl (by decide)⟩

theorem intText_eq_some {n : Int} {t : PyStr} (h : intText n = some t) :
    FewDigits n ∧ t = (intLexeme n).text := by
  rw [intText] at h
  split at h
  · rename_i hfew
    exact ⟨hfew, (Option.some.inj h).symm⟩
  · cases h

/-- A text that `dumps` wrote does not begin with white space or the end of a list. -/
theorem opens_dumps {style : Style} {v : Json} {t : PyStr} (h : dumps style v = some t) :
    ∃ c, Opens t c := by
  match v, h with
  | .null, h => cases h; exact ⟨_, opens_of_head rfl (by decide)⟩
  | .bool true, h => cases h; exact ⟨_, opens_of_head rfl (by decide)⟩
  | .bool false, h => cases h; exact ⟨_, opens_of_head rfl (by decide)⟩
  | .int n, h => rw [(intText_eq_some h).2]; exact opens_lexeme (intLexeme_wellFormed n)
  | .float x, h =>
      rw [dumps] at h
      match x, h with
      | .nan, h =>
          rw [floatText] at h
          split at h
          · cases h; exact ⟨_, opens_of_head rfl (by decide)⟩
          · cases h
      | .inf negative, h =>
          rw [floatText] at h
          split at h
          · cases h
            cases negative with
            | true => exact ⟨_, opens_of_head rfl (by decide)⟩
            | false => exact ⟨_, opens_of_head rfl (by decide)⟩
          · cases h
      | .finite negative m e, h => cases h; exact opens_lexeme (floatLexeme_wellFormed _ _ _)
  | .str s, h => cases h; exact ⟨quote, opens_of_head rfl (by decide)⟩
  | .arr [], h => cases h; exact ⟨_, opens_of_head rfl (by decide)⟩
  | .arr (v :: vs), h =>
      rw [dumps] at h
      split at h
      · cases h; exact ⟨_, opens_of_head rfl (by decide)⟩
      · cases h
  | .obj [], h => cases h; exact ⟨_, opens_of_head rfl (by decide)⟩
  | .obj ((k, v) :: fs), h =>
      rw [dumps] at h
      split at h
      · cases h; exact ⟨_, opens_of_head rfl (by decide)⟩
      · cases h

theorem ends_cons {c : CodePoint} (hdigit : isDigit c = false) (hpoint : c ≠ point)
    (hsmall : c ≠ smallE) (hcapital : c ≠ capitalE) (s : PyStr) : Ends (c :: s) :=
  ⟨noDigit_cons hdigit s, fun h => hpoint (Option.some.inj h), fun h => hsmall (Option.some.inj h),
    fun h => hcapital (Option.some.inj h)⟩

/-- What comes after a value ends it. -/
theorem ends_of_sign {c : CodePoint} (h : c = comma ∨ c = closeBracket ∨ c = closeBrace)
    (s : PyStr) : Ends (c :: s) := by
  rcases h with rfl | rfl | rfl
  · exact ends_cons (by decide) (by decide) (by decide) (by decide) s
  · exact ends_cons (by decide) (by decide) (by decide) (by decide) s
  · exact ends_cons (by decide) (by decide) (by decide) (by decide) s

theorem ends_nil : Ends [] :=
  ⟨nofun, nofun, nofun, nofun⟩

section Inversion

variable {style : Style} {v : Json} {vs : List Json} {k : PyStr} {fs : List (PyStr × Json)}
  {t : PyStr}

theorem dumps_arr_cons (h : dumps style (.arr (v :: vs)) = some t) :
    ∃ tv ts, dumps style v = some tv ∧ dumpsItems style vs = some ts ∧
      t = openBracket :: (tv ++ (ts ++ [closeBracket])) := by
  rw [dumps] at h
  split at h
  · rename_i tv ts hv hvs
    exact ⟨tv, ts, hv, hvs, (Option.some.inj h).symm⟩
  · cases h

theorem dumpsItems_cons (h : dumpsItems style (v :: vs) = some t) :
    ∃ tv ts, dumps style v = some tv ∧ dumpsItems style vs = some ts ∧
      t = style.itemSeparator ++ (tv ++ ts) := by
  rw [dumpsItems] at h
  split at h
  · rename_i tv ts hv hvs
    exact ⟨tv, ts, hv, hvs, (Option.some.inj h).symm⟩
  · cases h

theorem dumps_obj_cons (h : dumps style (.obj ((k, v) :: fs)) = some t) :
    ∃ tv ts, dumps style v = some tv ∧ dumpsMembers style fs = some ts ∧
      t = openBrace :: (stringText style.ensureAscii k ++
        (style.keySeparator ++ (tv ++ (ts ++ [closeBrace])))) := by
  rw [dumps] at h
  split at h
  · rename_i tv ts hv hfs
    exact ⟨tv, ts, hv, hfs, (Option.some.inj h).symm⟩
  · cases h

theorem dumpsMembers_cons (h : dumpsMembers style ((k, v) :: fs) = some t) :
    ∃ tv ts, dumps style v = some tv ∧ dumpsMembers style fs = some ts ∧
      t = style.itemSeparator ++ (stringText style.ensureAscii k ++
        (style.keySeparator ++ (tv ++ ts))) := by
  rw [dumpsMembers] at h
  split at h
  · rename_i tv ts hv hfs
    exact ⟨tv, ts, hv, hfs, (Option.some.inj h).symm⟩
  · cases h

end Inversion

/-- The value of a member, after the colon. -/
theorem skipBlanks_value (style : Style) {v : Json} {t : PyStr} (h : dumps style v = some t)
    (rest : PyStr) : skipBlanks (style.gap ++ (t ++ rest)) = t ++ rest := by
  obtain ⟨c, hc⟩ := opens_dumps h
  obtain ⟨u, rfl⟩ := List.head?_eq_some_iff.mp hc.head
  exact skipBlanks_gap style hc.blank (u ++ rest)

mutual

/-- A text that `dumps` wrote is read as the value `reread` gives, whatever follows. -/
theorem scanValue_dumps (style : Style) (v : Json) {t r : PyStr} {n : Nat}
    (ht : dumps style v = some t) (hc : CarriedIn style v) (hrest : Ends r)
    (hn : t.length ≤ n) : scanValue n (t ++ r) = some (reread v, r) := by
  obtain ⟨n, rfl⟩ : ∃ m, n = m + 1 := by
    obtain ⟨c, hopens⟩ := opens_dumps ht
    obtain ⟨u, rfl⟩ := List.head?_eq_some_iff.mp hopens.head
    rw [List.length_cons] at hn
    exact ⟨n - 1, by omega⟩
  match v, ht, hc with
  | .null, ht, _ => cases ht; rfl
  | .bool true, ht, _ => cases ht; rfl
  | .bool false, ht, _ => cases ht; rfl
  | .int k, ht, _ =>
      obtain ⟨hfew, rfl⟩ := intText_eq_some ht
      rw [scanValue_lexeme (intLexeme_wellFormed k) hrest, numberValue_intLexeme hfew]
      rfl
  | .float x, ht, _ =>
      rw [dumps] at ht
      match x, ht with
      | .nan, ht =>
          rw [floatText] at ht
          split at ht
          · cases ht
            rfl
          · cases ht
      | .inf negative, ht =>
          rw [floatText] at ht
          split at ht
          · cases ht
            cases negative with
            | true => rfl
            | false => rfl
          · cases ht
      | .finite negative m e, ht =>
          cases ht
          rw [scanValue_lexeme (floatLexeme_wellFormed negative m e) hrest, numberValue,
            if_pos (floatLexeme_isFloat negative m e)]
          rfl
  | .str s, ht, hc =>
      cases ht
      simp only [stringText, List.cons_append, List.append_assoc, List.nil_append, scanValue,
        if_true]
      rw [scanString_stringText hc]
      rfl
  | .arr [], ht, _ => cases ht; rfl
  | .obj [], ht, _ => cases ht; rfl
  | .arr (v :: vs), ht, hc =>
      obtain ⟨tv, ts, hv, hvs, rfl⟩ := dumps_arr_cons ht
      have hitems := scanItems_dumps style v vs hv hvs hc (r := r) (n := n) (by
        simp only [List.length_cons, List.length_append, List.length_nil] at hn ⊢
        omega)
      obtain ⟨c, hopens⟩ := opens_dumps hv
      obtain ⟨u, rfl⟩ := List.head?_eq_some_iff.mp hopens.head
      simp only [List.cons_append, List.append_assoc, List.nil_append] at hitems ⊢
      rw [scanValue, if_neg (by decide), if_neg (by decide), if_pos rfl,
        skipBlanks_cons hopens.blank]
      simp only [if_neg hopens.bracket, hitems]
      rfl
  | .obj ((k, v) :: fs), ht, hc =>
      obtain ⟨tv, ts, hv, hfs, rfl⟩ := dumps_obj_cons ht
      have hmembers := scanMembers_dumps style k v fs hv hfs hc (r := r) (n := n) (by
        simp only [List.length_cons, List.length_append, List.length_nil] at hn ⊢
        omega)
      simp only [stringText, List.cons_append, List.append_assoc, List.nil_append] at hmembers ⊢
      rw [scanValue, if_neg (by decide), if_pos rfl, skipBlanks_cons (by decide)]
      simp only [if_neg (show quote ≠ closeBrace by decide), hmembers]
      rfl
termination_by sizeOf v

theorem scanItems_dumps (style : Style) (v : Json) (vs : List Json) {t ts r : PyStr} {n : Nat}
    (ht : dumps style v = some t) (hts : dumpsItems style vs = some ts)
    (hc : CarriedIn style (.arr (v :: vs))) (hn : (t ++ ts).length + 1 ≤ n) :
    scanItems n (t ++ (ts ++ closeBracket :: r)) =
      some (reread v :: rereadItems vs, r) := by
  obtain ⟨n, rfl⟩ : ∃ m, n = m + 1 := ⟨n - 1, by omega⟩
  rw [List.length_append] at hn
  obtain ⟨hcv, hcvs⟩ := hc
  match hvs : vs, hts, hcvs with
  | [], hts, _ =>
      cases hts
      have hv := scanValue_dumps style v ht hcv (r := closeBracket :: r)
        (ends_of_sign (.inr (.inl rfl)) _) (n := n) (by omega)
      rw [List.nil_append, scanItems, hv]
      simp only [skipBlanks_cons (show isBlank closeBracket = false by decide), if_true]
      rfl
  | w :: ws, hts, hcvs =>
      obtain ⟨tw, tws, hw, hws, rfl⟩ := dumpsItems_cons hts
      have hv := scanValue_dumps style v ht hcv
        (r := style.itemSeparator ++ (tw ++ tws) ++ closeBracket :: r)
        (ends_of_sign (.inl rfl) _) (n := n) (by omega)
      have hrest := scanItems_dumps style w ws hw hws hcvs (r := r) (n := n) (by
        simp only [Style.itemSeparator, List.length_append, List.length_cons] at hn ⊢
        omega)
      rw [scanItems, hv]
      simp only [Style.itemSeparator, List.cons_append, List.append_assoc,
        skipBlanks_cons (show isBlank comma = false by decide),
        if_neg (show comma ≠ closeBracket by decide), if_true,
        skipBlanks_value style hw, hrest]
      rfl
termination_by sizeOf (v :: vs)

theorem scanMembers_dumps (style : Style) (k : PyStr) (v : Json) (fs : List (PyStr × Json))
    {t ts r : PyStr} {n : Nat} (ht : dumps style v = some t)
    (hts : dumpsMembers style fs = some ts) (hc : CarriedIn style (.obj ((k, v) :: fs)))
    (hn : (t ++ ts).length + 1 ≤ n) :
    scanMembers n (stringText style.ensureAscii k ++
        (style.keySeparator ++ (t ++ (ts ++ closeBrace :: r)))) =
      some ((joinPairs k, reread v) :: rereadMembers fs, r) := by
  obtain ⟨n, rfl⟩ : ∃ m, n = m + 1 := ⟨n - 1, by omega⟩
  rw [List.length_append] at hn
  obtain ⟨hck, hcv, hcfs⟩ := hc
  simp only [stringText, List.cons_append, List.append_assoc, List.nil_append, scanMembers,
    ne_eq, not_true_eq_false, if_false, scanString_stringText hck, Style.keySeparator,
    skipBlanks_cons (show isBlank colon = false by decide), skipBlanks_value style ht]
  match hfs : fs, hts, hcfs with
  | [], hts, _ =>
      cases hts
      have hv := scanValue_dumps style v ht hcv (r := closeBrace :: r)
        (ends_of_sign (.inr (.inr rfl)) _) (n := n) (by omega)
      rw [List.nil_append, hv]
      simp only [skipBlanks_cons (show isBlank closeBrace = false by decide), if_true]
      rfl
  | (l, w) :: gs, hts, hcfs =>
      obtain ⟨tw, tws, hw, hws, rfl⟩ := dumpsMembers_cons hts
      have hv := scanValue_dumps style v ht hcv
        (r := style.itemSeparator ++ (stringText style.ensureAscii l ++
          (style.keySeparator ++ (tw ++ tws))) ++ closeBrace :: r)
        (ends_of_sign (.inl rfl) _) (n := n) (by omega)
      have hrest := scanMembers_dumps style l w gs hw hws hcfs (r := r) (n := n) (by
        simp only [Style.itemSeparator, List.length_append, List.length_cons] at hn ⊢
        omega)
      rw [hv]
      simp only [Style.itemSeparator, stringText, List.cons_append, List.append_assoc,
        List.nil_append, skipBlanks_cons (show isBlank comma = false by decide),
        if_neg (show comma ≠ closeBrace by decide), if_true,
        skipBlanks_gap style (show isBlank quote = false by decide)] at hrest ⊢
      rw [hrest]
      rfl
termination_by sizeOf ((k, v) :: fs)

end

/-- A text that `dumps` wrote is read. -/
theorem loads_dumps {style : Style} {v : Json} {t : PyStr} (ht : dumps style v = some t)
    (hc : CarriedIn style v) : loads t = some (reread v) := by
  obtain ⟨c, hopens⟩ := opens_dumps ht
  obtain ⟨u, rfl⟩ := List.head?_eq_some_iff.mp hopens.head
  have hscan := scanValue_dumps style v ht hc ends_nil (n := (c :: u).length + 1) (by omega)
  rw [List.append_nil] at hscan
  rw [loads, skipBlanks_cons hopens.blank, hscan]
  rfl

/-! ## Texts and dictionaries that are read as they are -/

theorem joinPairs_of_noSurrogate {s : PyStr} (h : NoSurrogate s) : joinPairs s = s := by
  induction s using joinPairs.induct with
  | case1 => rfl
  | case2 c => rfl
  | case3 c d s hpair ih =>
      have hhigh := of_decide_eq_true (Bool.and_eq_true_iff.mp hpair).1
      exact absurd ⟨hhigh.1, by omega⟩ (h c List.mem_cons_self)
  | case4 c d s hpair ih =>
      rw [joinPairs, if_neg hpair, ih fun x hx => h x (List.mem_cons_of_mem c hx)]

theorem joined_ge (high low : Nat) (hhigh : isHigh high = true) (hlow : isLow low = true) :
    0x10000 ≤ (joined high low).val := by
  have hhigh := of_decide_eq_true hhigh
  have hlow := of_decide_eq_true hlow
  rw [joined, Fin.val_ofNat, Nat.mod_eq_of_lt (by omega)]
  omega

/-- A text of the basic plane is read from no other. -/
theorem eq_of_joinPairs_eq {s t : PyStr} (ht : ∀ c ∈ t, c.val < 0x10000)
    (h : joinPairs s = t) : s = t := by
  induction s using joinPairs.induct generalizing t with
  | case1 => exact h
  | case2 c => exact h
  | case3 c d s hpair ih =>
      have hpair' := Bool.and_eq_true_iff.mp hpair
      rw [joinPairs, if_pos hpair] at h
      subst h
      have hlt := ht _ List.mem_cons_self
      have hge := joined_ge c.val d.val hpair'.1 hpair'.2
      omega
  | case4 c d s hpair ih =>
      rw [joinPairs, if_neg hpair] at h
      subst h
      rw [← ih (fun x hx => ht x (List.mem_cons_of_mem c hx)) rfl]

theorem rereadMembers_append (fs gs : List (PyStr × Json)) :
    rereadMembers (fs ++ gs) = rereadMembers fs ++ rereadMembers gs := by
  induction fs with
  | nil => rfl
  | cons f fs ih =>
      obtain ⟨k, v⟩ := f
      rw [List.cons_append, rereadMembers, rereadMembers, ih, List.cons_append]

theorem keys_rereadMembers (fs : List (PyStr × Json)) :
    (rereadMembers fs).map Prod.fst = fs.map fun f => joinPairs f.1 := by
  induction fs with
  | nil => rfl
  | cons f fs ih =>
      obtain ⟨k, v⟩ := f
      rw [rereadMembers, List.map_cons, ih, List.map_cons]

/-- A key of the basic plane that is not written is not read. -/
theorem not_mem_rereadMembers {fs : List (PyStr × Json)} {k : PyStr}
    (hk : ∀ c ∈ k, c.val < 0x10000) (h : k ∉ fs.map Prod.fst) :
    k ∉ (rereadMembers fs).map Prod.fst := by
  rw [keys_rereadMembers]
  intro hmem
  obtain ⟨f, hf, hjoin⟩ := List.mem_map.mp hmem
  exact h (List.mem_map.mpr ⟨f, hf, eq_of_joinPairs_eq hk hjoin⟩)

theorem store_of_not_mem {fs : List (PyStr × Json)} {k : PyStr} (h : k ∉ fs.map Prod.fst)
    (v : Json) : store fs k v = fs ++ [(k, v)] := by
  rw [store, if_neg h]

theorem mem_keys_store {fs : List (PyStr × Json)} {k l : PyStr} {v : Json}
    (h : l ∈ (store fs k v).map Prod.fst) : l = k ∨ l ∈ fs.map Prod.fst := by
  rw [store] at h
  split at h
  · rename_i hmem
    rw [List.map_map] at h
    obtain ⟨f, hf, rfl⟩ := List.mem_map.mp h
    simp only [Function.comp_apply]
    split
    · exact .inl rfl
    · exact .inr (List.mem_map_of_mem hf)
  · rw [List.map_append, List.mem_append] at h
    exact h.symm.imp_left fun h => List.mem_singleton.mp h

theorem dictOf_concat (ps : List (PyStr × Json)) (k : PyStr) (v : Json) :
    dictOf (ps ++ [(k, v)]) = store (dictOf ps) k v := by
  rw [dictOf, List.foldl_append]
  rfl

theorem mem_keys_dictOf {ps : List (PyStr × Json)} {l : PyStr}
    (h : l ∈ (dictOf ps).map Prod.fst) : l ∈ ps.map Prod.fst := by
  induction ps using List.reverseRecOn with
  | nil => exact h
  | append_singleton ps p ih =>
      rw [dictOf_concat] at h
      rw [List.map_append, List.mem_append]
      exact (mem_keys_store h).symm.imp ih fun h => List.mem_singleton.mpr h

/-- A pair with a key of its own comes last. -/
theorem dictOf_concat_fresh {ps : List (PyStr × Json)} {k : PyStr} (h : k ∉ ps.map Prod.fst)
    (v : Json) : dictOf (ps ++ [(k, v)]) = dictOf ps ++ [(k, v)] := by
  rw [dictOf_concat, store_of_not_mem fun hmem => h (mem_keys_dictOf hmem)]

theorem dictOf_of_nodup {ps : List (PyStr × Json)} (h : (ps.map Prod.fst).Nodup) :
    dictOf ps = ps := by
  induction ps using List.reverseRecOn with
  | nil => rfl
  | append_singleton ps p ih =>
      rw [List.map_append, List.nodup_append] at h
      have hfresh : p.1 ∉ ps.map Prod.fst := fun hmem =>
        h.2.2 p.1 hmem p.1 List.mem_cons_self rfl
      rw [dictOf_concat_fresh hfresh, ih h.1]

theorem lookup_of_mem {ps : List (PyStr × Json)} (h : (ps.map Prod.fst).Nodup) {k : PyStr}
    {v : Json} (hmem : (k, v) ∈ ps) : ps.lookup k = some v := by
  induction ps with
  | nil => cases hmem
  | cons p ps ih =>
      rw [List.map_cons, List.nodup_cons] at h
      rw [List.lookup_cons]
      rcases List.mem_cons.mp hmem with rfl | hmem
      · rw [beq_self_eq_true]
      · have hne : k ≠ p.1 := by
          rintro rfl
          exact h.1 (List.mem_map.mpr ⟨_, hmem, rfl⟩)
        rw [beq_eq_false_iff_ne.mpr hne]
        exact ih h.2 hmem

theorem lookup_concat_fresh {ps : List (PyStr × Json)} {k : PyStr} (h : k ∉ ps.map Prod.fst)
    (v : Json) : (ps ++ [(k, v)]).lookup k = some v := by
  induction ps with
  | nil => rw [List.nil_append, List.lookup_cons, beq_self_eq_true]
  | cons p ps ih =>
      rw [List.map_cons, List.mem_cons, not_or] at h
      rw [List.cons_append, List.lookup_cons, beq_eq_false_iff_ne.mpr h.1]
      exact ih h.2

end JsonText
