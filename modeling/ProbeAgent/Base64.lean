import ProbeAgent.PyText

/-!
# Base64 (`base64.b64encode`, `base64.b64decode`)

The encoder, its bytes read as ASCII, and the decoder as it is without `validate`: it
passes over what is not of the alphabet and stops at the padding that ends a group.
-/

namespace Base64

open PyText

/-- `=`. -/
def pad : CodePoint := 0x3D

/-- The character of a value below 64. -/
def symbol (n : Nat) : CodePoint :=
  Fin.ofNat 0x110000
    (if n < 26 then 0x41 + n
    else if n < 52 then 0x61 + (n - 26)
    else if n < 62 then 0x30 + (n - 52)
    else if n = 62 then 0x2B
    else 0x2F)

/-- The value of a character of the alphabet. -/
def symbolValue (c : CodePoint) : Option Nat :=
  if 0x41 ≤ c.val ∧ c.val ≤ 0x5A then some (c.val - 0x41)
  else if 0x61 ≤ c.val ∧ c.val ≤ 0x7A then some (c.val - 0x61 + 26)
  else if 0x30 ≤ c.val ∧ c.val ≤ 0x39 then some (c.val - 0x30 + 52)
  else if c.val = 0x2B then some 62
  else if c.val = 0x2F then some 63
  else none

/-- `base64.b64encode(data).decode()`. -/
def encode : Bytes → PyStr
  | [] => []
  | [a] => [symbol (a.toNat / 4), symbol (a.toNat % 4 * 16), pad, pad]
  | [a, b] =>
      [symbol (a.toNat / 4), symbol (a.toNat % 4 * 16 + b.toNat / 16),
        symbol (b.toNat % 16 * 4), pad]
  | a :: b :: c :: rest =>
      symbol (a.toNat / 4) :: symbol (a.toNat % 4 * 16 + b.toNat / 16) ::
        symbol (b.toNat % 16 * 4 + c.toNat / 64) :: symbol (c.toNat % 64) :: encode rest

/-- `binascii.a2b_base64`, from a place in a group of four: `left` are the bits over from
the character before, `pads` the padding seen in the group. -/
def decodeFrom (place left pads : Nat) : PyStr → Option Bytes
  | [] => if place = 0 then some [] else none
  | c :: rest =>
      if c = pad then
        if place < 2 then decodeFrom place left pads rest
        else if 4 ≤ place + (pads + 1) then some []
        else decodeFrom place left (pads + 1) rest
      else
        match symbolValue c with
        | none => decodeFrom place left pads rest
        | some v =>
            match place with
            | 0 => decodeFrom 1 v 0 rest
            | 1 => (decodeFrom 2 (v % 16) 0 rest).map ((left * 4 + v / 16).toUInt8 :: ·)
            | 2 => (decodeFrom 3 (v % 4) 0 rest).map ((left * 16 + v / 4).toUInt8 :: ·)
            | _ => (decodeFrom 0 0 0 rest).map ((left * 64 + v).toUInt8 :: ·)

/-- `base64.b64decode(s)` for a string; none is a `ValueError`. -/
def decode (s : PyStr) : Option Bytes :=
  if ∀ c ∈ s, c.val < 0x80 then decodeFrom 0 0 0 s else none

/-! ## The round trip -/

theorem symbol_facts : ∀ n : Fin 64,
    symbol n.val ≠ pad ∧ symbolValue (symbol n.val) = some n.val ∧ (symbol n.val).val < 0x80 := by
  decide +kernel

section Symbols

variable {n : Nat} (h : n < 64) (left pads : Nat) (rest : PyStr)
include h

theorem decodeFrom_symbol (place : Nat) : decodeFrom place left pads (symbol n :: rest) =
    match place with
    | 0 => decodeFrom 1 n 0 rest
    | 1 => (decodeFrom 2 (n % 16) 0 rest).map ((left * 4 + n / 16).toUInt8 :: ·)
    | 2 => (decodeFrom 3 (n % 4) 0 rest).map ((left * 16 + n / 4).toUInt8 :: ·)
    | _ => (decodeFrom 0 0 0 rest).map ((left * 64 + n).toUInt8 :: ·) := by
  obtain ⟨hpad, hvalue, -⟩ := symbol_facts ⟨n, h⟩
  simp only at hpad hvalue
  rw [decodeFrom, if_neg hpad, hvalue]

theorem decodeFrom_zero : decodeFrom 0 left pads (symbol n :: rest) = decodeFrom 1 n 0 rest :=
  decodeFrom_symbol h left pads rest 0

theorem decodeFrom_one : decodeFrom 1 left pads (symbol n :: rest) =
    (decodeFrom 2 (n % 16) 0 rest).map ((left * 4 + n / 16).toUInt8 :: ·) :=
  decodeFrom_symbol h left pads rest 1

theorem decodeFrom_two : decodeFrom 2 left pads (symbol n :: rest) =
    (decodeFrom 3 (n % 4) 0 rest).map ((left * 16 + n / 4).toUInt8 :: ·) :=
  decodeFrom_symbol h left pads rest 2

theorem decodeFrom_three : decodeFrom 3 left pads (symbol n :: rest) =
    (decodeFrom 0 0 0 rest).map ((left * 64 + n).toUInt8 :: ·) :=
  decodeFrom_symbol h left pads rest 3

end Symbols

theorem toUInt8_of_eq {n : Nat} {a : UInt8} (h : n = a.toNat) : n.toUInt8 = a := by
  rw [h]
  simp

/-- Decoding inverts encoding. -/
theorem decodeFrom_encode (data : Bytes) : decodeFrom 0 0 0 (encode data) = some data := by
  induction data using encode.induct with
  | case1 => rfl
  | case2 a =>
      have ha := a.toNat_lt
      rw [encode, decodeFrom_zero (by omega), decodeFrom_one (by omega),
        toUInt8_of_eq (a := a) (by omega)]
      rfl
  | case3 a b =>
      have ha := a.toNat_lt
      have hb := b.toNat_lt
      rw [encode, decodeFrom_zero (by omega), decodeFrom_one (by omega),
        decodeFrom_two (by omega), toUInt8_of_eq (a := a) (by omega),
        toUInt8_of_eq (a := b) (by omega)]
      rfl
  | case4 a b c rest ih =>
      have ha := a.toNat_lt
      have hb := b.toNat_lt
      have hc := c.toNat_lt
      rw [encode, decodeFrom_zero (by omega), decodeFrom_one (by omega),
        decodeFrom_two (by omega), decodeFrom_three (by omega), ih,
        toUInt8_of_eq (a := a) (by omega), toUInt8_of_eq (a := b) (by omega),
        toUInt8_of_eq (a := c) (by omega)]
      rfl

/-- The encoder writes ASCII. -/
theorem encode_ascii (data : Bytes) : ∀ c ∈ encode data, c.val < 0x80 := by
  have hsymbol : ∀ n, n < 64 → (symbol n).val < 0x80 := fun n h => (symbol_facts ⟨n, h⟩).2.2
  have hpad : pad.val < 0x80 := by decide
  induction data using encode.induct with
  | case1 => simp [encode]
  | case2 a =>
      have ha := a.toNat_lt
      simp only [encode, List.forall_mem_cons]
      exact ⟨hsymbol _ (by omega), hsymbol _ (by omega), hpad, hpad, by simp⟩
  | case3 a b =>
      have ha := a.toNat_lt
      have hb := b.toNat_lt
      simp only [encode, List.forall_mem_cons]
      exact ⟨hsymbol _ (by omega), hsymbol _ (by omega), hsymbol _ (by omega), hpad, by simp⟩
  | case4 a b c rest ih =>
      have ha := a.toNat_lt
      have hb := b.toNat_lt
      have hc := c.toNat_lt
      simp only [encode, List.forall_mem_cons]
      exact ⟨hsymbol _ (by omega), hsymbol _ (by omega), hsymbol _ (by omega),
        hsymbol _ (by omega), ih⟩

theorem decode_encode (data : Bytes) : decode (encode data) = some data := by
  rw [decode, if_pos (encode_ascii data), decodeFrom_encode]

end Base64
