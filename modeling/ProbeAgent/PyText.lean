import Mathlib.Algebra.GroupWithZero.Nat
import Mathlib.Data.List.Basic
import Mathlib.Data.Fin.Basic
import Mathlib.Tactic.Common

/-!
# Python text and bytes

Python's `str` is a sequence of code points, lone surrogates included, and its
`bytes` a sequence of octets.  This module has the parts of the language and its
standard library that programs reading and writing text files rely on:

* `encodeUtf8`, `decodeUtf8`: the strict UTF-8 codec (`str.encode`, text files);
* `universalNewlines`: the translation a text file is read with;
* `splitlines`, `strip`: `str.splitlines`, `str.strip`;
* `hexdigest`: the lower-case hexadecimal form of a byte string.

The encoder is inverted by the decoder (`decodeUtf8_encodeUtf8`), and a text of
whole lines that carry no white space is split into these lines
(`splitlines_unlines`).
-/

namespace PyText

/-- A Unicode code point, surrogates included. -/
abbrev CodePoint := Fin 0x110000

instance neZero_codePoints : NeZero 0x110000 :=
  ⟨nofun⟩

instance lawfulBEq_codePoint : LawfulBEq CodePoint :=
  inferInstance

/-- Python's `str`. -/
abbrev PyStr := List CodePoint

/-- Python's `bytes`. -/
abbrev Bytes := List UInt8

/-- The Python string of a literal. -/
def py (s : String) : PyStr :=
  s.toList.map (fun c => Fin.ofNat 0x110000 c.toNat)

/-! ## UTF-8 -/

/-- The UTF-8 form of a code point; a surrogate has none. -/
def encodeChar (c : CodePoint) : Option Bytes :=
  if c.val < 0x80 then
    some [c.val.toUInt8]
  else if c.val < 0x800 then
    some [(0xC0 + c.val / 0x40).toUInt8, (0x80 + c.val % 0x40).toUInt8]
  else if 0xD800 ≤ c.val ∧ c.val < 0xE000 then
    none
  else if c.val < 0x10000 then
    some [(0xE0 + c.val / 0x1000).toUInt8,
      (0x80 + c.val / 0x40 % 0x40).toUInt8, (0x80 + c.val % 0x40).toUInt8]
  else
    some [(0xF0 + c.val / 0x40000).toUInt8, (0x80 + c.val / 0x1000 % 0x40).toUInt8,
      (0x80 + c.val / 0x40 % 0x40).toUInt8, (0x80 + c.val % 0x40).toUInt8]

/-- `str.encode("utf-8")`; none is `UnicodeEncodeError`. -/
def encodeUtf8 : PyStr → Option Bytes
  | [] => some []
  | c :: s =>
      match encodeChar c, encodeUtf8 s with
      | some b, some bs => some (b ++ bs)
      | _, _ => none

/-- The payload of a continuation byte. -/
def continuation (b : UInt8) : Option Nat :=
  if 0x80 ≤ b.toNat ∧ b.toNat < 0xC0 then some (b.toNat - 0x80) else none

/-- What a leading byte announces: the number of continuation bytes, its own
payload and the least code point a form of this length may carry. -/
def leading (b : UInt8) : Option (Nat × Nat × Nat) :=
  if b.toNat < 0x80 then some (0, b.toNat, 0)
  else if b.toNat < 0xC0 then none
  else if b.toNat < 0xE0 then some (1, b.toNat - 0xC0, 0x80)
  else if b.toNat < 0xF0 then some (2, b.toNat - 0xE0, 0x800)
  else if b.toNat < 0xF8 then some (3, b.toNat - 0xF0, 0x10000)
  else none

/-- Add the payloads of `k` continuation bytes to `n`. -/
def takeContinuation : Nat → Nat → Bytes → Option (Nat × Bytes)
  | 0, n, bs => some (n, bs)
  | _ + 1, _, [] => none
  | k + 1, n, b :: bs =>
      match continuation b with
      | none => none
      | some x => takeContinuation k (n * 0x40 + x) bs

/-- The code point `n`, when it is one that a form of this length may carry. -/
def codePointFrom (least n : Nat) : Option CodePoint :=
  if h : n < 0x110000 then
    if least ≤ n ∧ ¬(0xD800 ≤ n ∧ n < 0xE000) then some ⟨n, h⟩ else none
  else none

/-- The first code point of a byte string and the bytes after it. -/
def decodeChar : Bytes → Option (CodePoint × Bytes)
  | [] => none
  | b :: bs =>
      match leading b with
      | none => none
      | some (k, n, least) =>
          match takeContinuation k n bs with
          | none => none
          | some (n, rest) => (codePointFrom least n).map (fun c => (c, rest))

/-- Decoding with a bound on the number of code points. -/
def decodeFuel : Nat → Bytes → Option PyStr
  | _, [] => some []
  | 0, _ :: _ => none
  | n + 1, b :: bs =>
      match decodeChar (b :: bs) with
      | none => none
      | some (c, rest) => (decodeFuel n rest).map (c :: ·)

/-- Strict UTF-8 decoding; none is `UnicodeDecodeError`.  Every code point takes
at least one byte, so the length of the input is bound enough. -/
def decodeUtf8 (bs : Bytes) : Option PyStr :=
  decodeFuel bs.length bs

theorem toNat_toUInt8 {n : Nat} (h : n < 256) : n.toUInt8.toNat = n := by
  simp only [Nat.toUInt8, UInt8.toNat_ofNat']
  omega

@[simp] theorem takeContinuation_zero (n : Nat) (bs : Bytes) :
    takeContinuation 0 n bs = some (n, bs) := rfl

/-- One continuation byte adds the six bits it was made from. -/
theorem takeContinuation_succ (k n x : Nat) (bs : Bytes) (hx : x < 0x40) :
    takeContinuation (k + 1) n ((0x80 + x).toUInt8 :: bs) =
      takeContinuation k (n * 0x40 + x) bs := by
  have hval := toNat_toUInt8 (show 0x80 + x < 256 by omega)
  have hcont : continuation (0x80 + x).toUInt8 = some x := by
    unfold continuation
    rw [hval, if_pos (by omega), Nat.add_sub_cancel_left]
  simp only [takeContinuation, hcont]

theorem codePointFrom_eq {least : Nat} (c : CodePoint)
    (hleast : least ≤ c.val) (hs : ¬(0xD800 ≤ c.val ∧ c.val < 0xE000)) :
    codePointFrom least c.val = some c := by
  unfold codePointFrom
  rw [dif_pos c.isLt, if_pos ⟨hleast, hs⟩]

/-- A form whose bytes add up to `c` is decoded to `c`. -/
theorem decodeChar_of_parts {c : CodePoint} {b : UInt8} {bs rest : Bytes}
    (k n least : Nat) (hlead : leading b = some (k, n, least))
    (htake : takeContinuation k n bs = some (c.val, rest))
    (hleast : least ≤ c.val) (hs : ¬(0xD800 ≤ c.val ∧ c.val < 0xE000)) :
    decodeChar (b :: bs) = some (c, rest) := by
  simp only [decodeChar, hlead, htake, codePointFrom_eq c hleast hs, Option.map_some]

/-- Decoding a code point's own form gives it back, whatever follows. -/
theorem decodeChar_encodeChar {c : CodePoint} {b : Bytes} (rest : Bytes)
    (h : encodeChar c = some b) : decodeChar (b ++ rest) = some (c, rest) := by
  have hc := c.isLt
  have hlow : ∀ n : Nat, n % 0x40 < 0x40 := fun n => Nat.mod_lt n (by decide)
  unfold encodeChar at h
  split_ifs at h with h1 h2 hs h3
  · cases h
    have hb := toNat_toUInt8 (show c.val < 256 by omega)
    refine decodeChar_of_parts 0 (c.val) 0 ?_ rfl (by omega) (by omega)
    simp only [leading, hb, if_pos h1]
  · cases h
    have hb := toNat_toUInt8 (show 0xC0 + c.val / 0x40 < 256 by omega)
    simp only [List.cons_append, List.nil_append]
    refine decodeChar_of_parts 1 (c.val / 0x40) 0x80 ?_ ?_
      (by omega) (by omega)
    · rw [leading, hb, if_neg (by omega), if_neg (by omega), if_pos (by omega),
        Nat.add_sub_cancel_left]
    · rw [takeContinuation_succ _ _ _ _ (hlow _), takeContinuation_zero]
      congr 2
      omega
  · cases h
    have hb := toNat_toUInt8 (show 0xE0 + c.val / 0x1000 < 256 by omega)
    simp only [List.cons_append, List.nil_append]
    refine decodeChar_of_parts 2 (c.val / 0x1000) 0x800 ?_ ?_
      (by omega) hs
    · rw [leading, hb, if_neg (by omega), if_neg (by omega), if_neg (by omega),
        if_pos (by omega), Nat.add_sub_cancel_left]
    · rw [takeContinuation_succ _ _ _ _ (hlow _), takeContinuation_succ _ _ _ _ (hlow _),
        takeContinuation_zero]
      congr 2
      omega
  · cases h
    have hb := toNat_toUInt8 (show 0xF0 + c.val / 0x40000 < 256 by omega)
    simp only [List.cons_append, List.nil_append]
    refine decodeChar_of_parts 3 (c.val / 0x40000) 0x10000 ?_ ?_
      (by omega) hs
    · rw [leading, hb, if_neg (by omega), if_neg (by omega), if_neg (by omega),
        if_neg (by omega), if_pos (by omega), Nat.add_sub_cancel_left]
    · rw [takeContinuation_succ _ _ _ _ (hlow _), takeContinuation_succ _ _ _ _ (hlow _),
        takeContinuation_succ _ _ _ _ (hlow _), takeContinuation_zero]
      congr 2
      omega

theorem encodeChar_ne_nil {c : CodePoint} {b : Bytes}
    (h : encodeChar c = some b) : b ≠ [] := by
  rintro rfl
  unfold encodeChar at h
  split_ifs at h <;> simp at h

theorem encodeUtf8_cons {c : CodePoint} {s : PyStr} {bs : Bytes}
    (h : encodeUtf8 (c :: s) = some bs) :
    ∃ b rest, encodeChar c = some b ∧ encodeUtf8 s = some rest ∧ bs = b ++ rest := by
  unfold encodeUtf8 at h
  cases hb : encodeChar c with
  | none => simp [hb] at h
  | some b =>
      cases hr : encodeUtf8 s with
      | none => simp [hb, hr] at h
      | some rest =>
          rw [hb, hr] at h
          exact ⟨b, rest, rfl, rfl, (Option.some.inj h).symm⟩

theorem decodeFuel_encodeUtf8 :
    ∀ (s : PyStr) (bs : Bytes) (n : Nat),
      encodeUtf8 s = some bs → bs.length ≤ n → decodeFuel n bs = some s
  | [], bs, n, h, _ => by
      cases h
      cases n <;> rfl
  | c :: s, bs, n, h, hn => by
      obtain ⟨b, rest, hb, hrest, rfl⟩ := encodeUtf8_cons h
      cases b with
      | nil => exact absurd rfl (encodeChar_ne_nil hb)
      | cons b₀ b =>
          cases n with
          | zero => simp at hn
          | succ n =>
              have hdec := decodeChar_encodeChar rest hb
              have ih := decodeFuel_encodeUtf8 s rest n hrest (by
                simp only [List.cons_append, List.length_cons, List.length_append] at hn
                omega)
              rw [List.cons_append] at hdec ⊢
              simp only [decodeFuel, hdec, ih, Option.map_some]

/-- Decoding inverts encoding. -/
theorem decodeUtf8_encodeUtf8 {s : PyStr} {bs : Bytes}
    (h : encodeUtf8 s = some bs) : decodeUtf8 bs = some s :=
  decodeFuel_encodeUtf8 s bs bs.length h (Nat.le_refl _)

/-- An ASCII text can always be encoded. -/
theorem encodeUtf8_ascii :
    ∀ s : PyStr, (∀ c ∈ s, c.val < 0x80) → ∃ bs, encodeUtf8 s = some bs
  | [], _ => ⟨[], rfl⟩
  | c :: s, h => by
      obtain ⟨bs, hbs⟩ := encodeUtf8_ascii s (fun x hx => h x (List.mem_cons_of_mem _ hx))
      have hc : c.val < 0x80 := h c List.mem_cons_self
      exact ⟨_, by simp [encodeUtf8, encodeChar, hc, hbs]; rfl⟩

/-! ### Where a character begins -/

/-- The first byte of a character's form begins one, and no other byte of it does. -/
theorem encodeChar_continues {c : CodePoint} {b₀ : UInt8} {b : Bytes}
    (h : encodeChar c = some (b₀ :: b)) :
    continuation b₀ = none ∧ ∀ x ∈ b, continuation x ≠ none := by
  have hc := c.isLt
  have hfirst : ∀ n : Nat, n < 256 → n < 0x80 ∨ 0xC0 ≤ n → continuation n.toUInt8 = none := by
    intro n hn hlead
    rw [continuation, toNat_toUInt8 hn, if_neg (by omega)]
  have hnext : ∀ n : Nat, n < 0x40 → continuation (0x80 + n).toUInt8 ≠ none := by
    intro n hn
    rw [continuation, toNat_toUInt8 (by omega), if_pos (by omega)]
    exact Option.some_ne_none _
  unfold encodeChar at h
  split_ifs at h with h1 h2 hs h3
  · cases h
    exact ⟨hfirst _ (by omega) (by omega), by simp⟩
  · cases h
    refine ⟨hfirst _ (by omega) (by omega), ?_⟩
    simp only [List.forall_mem_cons]
    exact ⟨hnext _ (by omega), by simp⟩
  · cases h
    refine ⟨hfirst _ (by omega) (by omega), ?_⟩
    simp only [List.forall_mem_cons]
    exact ⟨hnext _ (by omega), hnext _ (by omega), by simp⟩
  · cases h
    refine ⟨hfirst _ (by omega) (by omega), ?_⟩
    simp only [List.forall_mem_cons]
    exact ⟨hnext _ (by omega), hnext _ (by omega), hnext _ (by omega), by simp⟩

/-- Two forms at the front of the same bytes are of the same character. -/
theorem eq_of_encodeChar_append {c c' : CodePoint} {b b' rest rest' : Bytes}
    (hb : encodeChar c = some b) (hb' : encodeChar c' = some b')
    (h : b ++ rest = b' ++ rest') : c = c' := by
  have hdec := decodeChar_encodeChar rest hb
  rw [h, decodeChar_encodeChar rest' hb'] at hdec
  exact (congrArg Prod.fst (Option.some.inj hdec)).symm

/-- A text's form begins with the first byte of a character's. -/
theorem encodeUtf8_head {s : PyStr} {b₀ : UInt8} {w : Bytes}
    (h : encodeUtf8 s = some (b₀ :: w)) : continuation b₀ = none := by
  cases s with
  | nil => simp [encodeUtf8] at h
  | cons c s =>
      obtain ⟨b, rest, hb, -, hsplit⟩ := encodeUtf8_cons h
      obtain ⟨c₀, b, rfl⟩ := List.exists_cons_of_ne_nil (encodeChar_ne_nil hb)
      cases hsplit
      exact (encodeChar_continues hb).1

/-- A byte of a text's form that begins a character divides the text there. -/
theorem encodeUtf8_boundary {s : PyStr} {u v : Bytes} {b₀ : UInt8}
    (h : encodeUtf8 s = some (u ++ b₀ :: v)) (hb₀ : continuation b₀ = none) :
    ∃ s₁ s₂, s = s₁ ++ s₂ ∧ encodeUtf8 s₁ = some u ∧ encodeUtf8 s₂ = some (b₀ :: v) := by
  induction s generalizing u with
  | nil =>
      simp [encodeUtf8] at h
  | cons c s ih =>
      cases u with
      | nil => exact ⟨[], c :: s, rfl, rfl, h⟩
      | cons a u =>
          obtain ⟨b, rest, hb, hrest, hsplit⟩ := encodeUtf8_cons h
          rcases List.append_eq_append_iff.mp hsplit with ⟨t, rfl, ht⟩ | ⟨t, ht, hrest'⟩
          · cases t with
            | nil =>
                rw [List.append_nil] at hb
                rw [List.nil_append] at ht
                refine ⟨[c], s, rfl, by simp [encodeUtf8, hb], by rw [hrest, ht]⟩
            | cons d t =>
                -- the byte would lie inside the form of `c`
                rw [List.cons_append] at ht hb
                cases ht
                exact absurd hb₀ ((encodeChar_continues hb).2 _ (by simp))
          · subst hrest'
            obtain ⟨s₁, s₂, rfl, hs₁, hs₂⟩ := ih hrest
            refine ⟨c :: s₁, s₂, rfl, ?_, hs₂⟩
            rw [ht]
            simp [encodeUtf8, hb, hs₁]

/-! ## Lines and white space -/

/-- Reading a text file turns every line ending into a single newline. -/
def universalNewlines : PyStr → PyStr
  | [] => []
  | [c] => if c.val = 0x0D then [0x0A] else [c]
  | c :: d :: s =>
      if c.val = 0x0D then
        if d.val = 0x0A then 0x0A :: universalNewlines s
        else 0x0A :: universalNewlines (d :: s)
      else c :: universalNewlines (d :: s)

/-- The characters `str.splitlines` breaks at. -/
def isLineBreak (c : CodePoint) : Bool :=
  (0x0A ≤ c.val && c.val ≤ 0x0D) || (0x1C ≤ c.val && c.val ≤ 0x1E) ||
    c.val == 0x85 || c.val == 0x2028 || c.val == 0x2029

/-- The characters `str.isspace` accepts. -/
def isSpace (c : CodePoint) : Bool :=
  (0x09 ≤ c.val && c.val ≤ 0x0D) || (0x1C ≤ c.val && c.val ≤ 0x20) ||
    c.val == 0x85 || c.val == 0xA0 || c.val == 0x1680 ||
    (0x2000 ≤ c.val && c.val ≤ 0x200A) || c.val == 0x2028 || c.val == 0x2029 ||
    c.val == 0x202F || c.val == 0x205F || c.val == 0x3000

/-- `splitlines` with the part of the current line read so far. -/
def splitlinesFrom : PyStr → PyStr → List PyStr
  | line, [] => if line.isEmpty then [] else [line]
  | line, [c] => if isLineBreak c then [line] else [line ++ [c]]
  | line, c :: d :: s =>
      if isLineBreak c then
        if c.val = 0x0D ∧ d.val = 0x0A then line :: splitlinesFrom [] s
        else line :: splitlinesFrom [] (d :: s)
      else splitlinesFrom (line ++ [c]) (d :: s)

/-- `str.splitlines`. -/
def splitlines (s : PyStr) : List PyStr := splitlinesFrom [] s

/-- `str.strip`. -/
def strip (s : PyStr) : PyStr :=
  ((s.dropWhile isSpace).reverse.dropWhile isSpace).reverse

/-- Each line followed by a newline. -/
def unlines (ls : List PyStr) : PyStr := ls.flatMap (fun l => l ++ [0x0A])

/-- A text in which no character is white space. -/
def Solid (s : PyStr) : Prop := ∀ c ∈ s, isSpace c = false

theorem isLineBreak_of_isSpace_false {c : CodePoint} (h : isSpace c = false) :
    isLineBreak c = false := by
  simp only [isSpace, isLineBreak, Bool.or_eq_false_iff, Bool.and_eq_false_iff,
    decide_eq_false_iff_not, beq_eq_false_iff_ne] at h ⊢
  omega

theorem strip_of_solid {s : PyStr} (h : Solid s) : strip s = s := by
  have hdrop : ∀ l : PyStr, Solid l → l.dropWhile isSpace = l := by
    intro l hl
    cases l with
    | nil => rfl
    | cons c l => simp [hl c List.mem_cons_self]
  have hrev : Solid s.reverse := fun c hc => h c (List.mem_reverse.mp hc)
  unfold strip
  rw [hdrop s h, hdrop _ hrev, List.reverse_reverse]

/-- A newline ends the line it follows. -/
theorem splitlinesFrom_newline :
    ∀ (l line rest : PyStr), Solid l →
      splitlinesFrom line (l ++ 0x0A :: rest) = (line ++ l) :: splitlinesFrom [] rest
  | [], line, [], _ => by
      simp [splitlinesFrom, isLineBreak]
  | [], line, d :: rest, _ => by
      simp [splitlinesFrom, isLineBreak]
  | [c], line, rest, h => by
      have hc := isLineBreak_of_isSpace_false (h c List.mem_cons_self)
      have ih := splitlinesFrom_newline [] (line ++ [c]) rest (by simp [Solid])
      simpa [splitlinesFrom, hc] using ih
  | c :: d :: l, line, rest, h => by
      have hc := isLineBreak_of_isSpace_false (h c List.mem_cons_self)
      have ih := splitlinesFrom_newline (d :: l) (line ++ [c]) rest
        (fun x hx => h x (List.mem_cons_of_mem _ hx))
      simpa [splitlinesFrom, hc] using ih

/-- Splitting a text of whole lines gives the lines back. -/
theorem splitlines_unlines :
    ∀ ls : List PyStr, (∀ l ∈ ls, Solid l) → splitlines (unlines ls) = ls
  | [], _ => rfl
  | l :: ls, h => by
      have ih := splitlines_unlines ls (fun x hx => h x (List.mem_cons_of_mem _ hx))
      have hl := splitlinesFrom_newline l [] (unlines ls) (h l List.mem_cons_self)
      unfold splitlines at ih ⊢
      rw [ih] at hl
      simpa [unlines] using hl

/-- A text without carriage returns is read as it was written. -/
theorem universalNewlines_eq :
    ∀ s : PyStr, (∀ c ∈ s, c.val ≠ 0x0D) → universalNewlines s = s
  | [], _ => rfl
  | [c], h => by simp [universalNewlines, h c List.mem_cons_self]
  | c :: d :: s, h => by
      have ih := universalNewlines_eq (d :: s) (fun x hx => h x (List.mem_cons_of_mem _ hx))
      simp [universalNewlines, h c List.mem_cons_self, ih]

/-! ## Numbers -/

/-- `0`. -/
def digitZero : CodePoint := 0x30

/-- The value of a decimal digit. -/
def decimalDigit (c : CodePoint) : Option Nat :=
  if 0x30 ≤ c.val ∧ c.val ≤ 0x39 then some (c.val - 0x30) else none

/-- The value of a hexadecimal digit of either case. -/
def hexadecimalDigit (c : CodePoint) : Option Nat :=
  if 0x30 ≤ c.val ∧ c.val ≤ 0x39 then some (c.val - 0x30)
  else if 0x41 ≤ c.val ∧ c.val ≤ 0x46 then some (c.val - 0x37)
  else if 0x61 ≤ c.val ∧ c.val ≤ 0x66 then some (c.val - 0x57)
  else none

/-- The number the digits stand for in a base; none if one of them is no digit. -/
def number (base : Nat) (digit : CodePoint → Option Nat) (s : PyStr) : Option Nat :=
  s.foldl (fun n c => do pure ((← n) * base + (← digit c))) (some 0)

/-! ## Hexadecimal digests -/

/-- A SHA-256 digest. -/
structure Digest where
  bytes : Bytes
  size : bytes.length = 32
deriving DecidableEq

/-- The digit of a value below sixteen. -/
def hexDigit (n : Nat) : CodePoint :=
  Fin.ofNat 0x110000 (if n < 10 then 0x30 + n else 0x57 + n)

/-- `hashlib`'s `hexdigest`: two lower-case digits for each byte. -/
def hexdigest (d : Digest) : PyStr :=
  d.bytes.flatMap (fun b => [hexDigit (b.toNat / 16), hexDigit (b.toNat % 16)])

theorem hexDigit_val {n : Nat} (h : n < 16) :
    (0x30 ≤ (hexDigit n).val ∧ (hexDigit n).val ≤ 0x39) ∨
      (0x61 ≤ (hexDigit n).val ∧ (hexDigit n).val ≤ 0x66) := by
  unfold hexDigit
  simp only [Fin.ofNat, Fin.val_mk]
  split <;> omega

/-- Every character of a digest is a lower-case hexadecimal digit. -/
theorem mem_hexdigest {d : Digest} {c : CodePoint} (h : c ∈ hexdigest d) :
    (0x30 ≤ c.val ∧ c.val ≤ 0x39) ∨ (0x61 ≤ c.val ∧ c.val ≤ 0x66) := by
  obtain ⟨b, _, hc⟩ := List.mem_flatMap.mp h
  have hb : b.toNat < 256 := b.toNat_lt
  rcases List.mem_cons.mp hc with rfl | hc
  · exact hexDigit_val (by omega)
  · rw [List.mem_singleton.mp hc]
    exact hexDigit_val (by omega)

theorem hexdigest_solid (d : Digest) : Solid (hexdigest d) := by
  intro c hc
  have h := mem_hexdigest hc
  simp only [isSpace, Bool.or_eq_false_iff, Bool.and_eq_false_iff,
    decide_eq_false_iff_not, beq_eq_false_iff_ne]
  omega

theorem hexdigest_ne_nil (d : Digest) : hexdigest d ≠ [] := by
  obtain ⟨bytes, size⟩ := d
  cases bytes with
  | nil => simp at size
  | cons b bs => simp [hexdigest]

/-- What a digest is made of. -/
def isHexLower (c : CodePoint) : Bool :=
  (0x30 ≤ c.val && c.val ≤ 0x39) || (0x61 ≤ c.val && c.val ≤ 0x66)

/-- The two digits of a byte. -/
def hexByte (b : UInt8) : PyStr :=
  [hexDigit (b.toNat / 16), hexDigit (b.toNat % 16)]

theorem hexDigit_injective {m n : Nat} (hm : m < 16) (hn : n < 16)
    (h : hexDigit m = hexDigit n) : m = n := by
  have hval := congrArg Fin.val h
  simp only [hexDigit, Fin.ofNat, Fin.val_mk] at hval
  split at hval <;> split at hval <;> omega

/-- Every lower-case digit is the digit of a value. -/
theorem exists_hexDigit {c : CodePoint} (h : isHexLower c = true) :
    ∃ n, n < 16 ∧ hexDigit n = c := by
  simp only [isHexLower, Bool.or_eq_true, Bool.and_eq_true, decide_eq_true_eq] at h
  rcases h with ⟨hlow, hhigh⟩ | ⟨hlow, hhigh⟩
  · refine ⟨c.val - 0x30, by omega, Fin.ext ?_⟩
    simp only [hexDigit, Fin.ofNat, Fin.val_mk]
    rw [if_pos (by omega)]
    omega
  · refine ⟨c.val - 0x57, by omega, Fin.ext ?_⟩
    simp only [hexDigit, Fin.ofNat, Fin.val_mk]
    rw [if_neg (by omega)]
    omega

theorem hexByte_injective : Function.Injective hexByte := by
  intro a b h
  obtain ⟨hhigh, hlow, -⟩ : hexDigit (a.toNat / 16) = hexDigit (b.toNat / 16) ∧
      hexDigit (a.toNat % 16) = hexDigit (b.toNat % 16) ∧ True := by
    simpa [hexByte] using h
  have ha := a.toNat_lt
  have hb := b.toNat_lt
  have hdiv := hexDigit_injective (by omega) (by omega) hhigh
  have hmod := hexDigit_injective (by omega) (by omega) hlow
  exact UInt8.toNat_inj.mp (by omega)

theorem flatMap_hexByte_injective : ∀ bs cs : Bytes,
    bs.flatMap hexByte = cs.flatMap hexByte → bs = cs
  | [], [], _ => rfl
  | [], c :: cs, h => by simp [hexByte] at h
  | b :: bs, [], h => by simp [hexByte] at h
  | b :: bs, c :: cs, h => by
      rw [List.flatMap_cons, List.flatMap_cons] at h
      obtain ⟨hhead, htail⟩ := List.append_inj h rfl
      rw [hexByte_injective hhead, flatMap_hexByte_injective bs cs htail]

theorem hexdigest_injective : Function.Injective hexdigest := by
  intro d e h
  have hbytes := flatMap_hexByte_injective d.bytes e.bytes h
  cases d
  cases e
  cases hbytes
  rfl

theorem exists_flatMap_hexByte (n : Nat) (s : PyStr) (hlen : s.length = 2 * n)
    (hs : ∀ c ∈ s, isHexLower c = true) :
    ∃ bs : Bytes, bs.length = n ∧ bs.flatMap hexByte = s := by
  induction n generalizing s with
  | zero => exact ⟨[], rfl, (List.length_eq_zero_iff.mp hlen).symm⟩
  | succ n ih =>
      match s with
      | [] => simp at hlen
      | [_] =>
          simp only [List.length_cons, List.length_nil] at hlen
          omega
      | a :: b :: s =>
          obtain ⟨high, hhigh, ha⟩ := exists_hexDigit (hs a (by simp))
          obtain ⟨low, hlow, hb⟩ := exists_hexDigit (hs b (by simp))
          obtain ⟨bs, hbs, hdigits⟩ := ih s (by simp at hlen; omega)
            (fun c hc => hs c (by simp [hc]))
          have hbyte := toNat_toUInt8 (show high * 16 + low < 256 by omega)
          refine ⟨(high * 16 + low).toUInt8 :: bs, by simp [hbs], ?_⟩
          have hdiv : (high * 16 + low) / 16 = high := by omega
          have hmod : (high * 16 + low) % 16 = low := by omega
          rw [List.flatMap_cons, hdigits, hexByte, hbyte, hdiv, hmod, ha, hb]
          rfl

/-- Sixty-four lower-case digits are a digest. -/
theorem exists_hexdigest {s : PyStr} (hlen : s.length = 64)
    (hs : ∀ c ∈ s, isHexLower c = true) : ∃ d, hexdigest d = s := by
  obtain ⟨bs, hbs, hdigits⟩ := exists_flatMap_hexByte 32 s hlen hs
  exact ⟨⟨bs, hbs⟩, hdigits⟩

theorem length_hexdigest (d : Digest) : (hexdigest d).length = 64 := by
  have hflat : ∀ bs : Bytes, (bs.flatMap hexByte).length = 2 * bs.length := by
    intro bs
    induction bs with
    | nil => rfl
    | cons b bs ih =>
        rw [List.flatMap_cons, List.length_append, ih, List.length_cons]
        simp only [hexByte, List.length_cons, List.length_nil]
        omega
  have h := hflat d.bytes
  rw [d.size] at h
  exact h

theorem isHexLower_of_mem_hexdigest {d : Digest} {c : CodePoint} (h : c ∈ hexdigest d) :
    isHexLower c = true := by
  simpa [isHexLower] using mem_hexdigest h

end PyText
