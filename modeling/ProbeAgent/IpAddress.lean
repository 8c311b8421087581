import ProbeAgent.PyText
import Mathlib.Tactic.Common

/-!
# IP addresses (`ipaddress`)

The part of Python's `ipaddress` that reads addresses and classifies them: the text
forms of IPv4 and IPv6 addresses, networks and the ranges that are set apart.

A text that names an IPv4 address names it in one way only, four decimal numbers
without leading zeros (`parseV4_dotted`); an IPv6 address may leave out one run of zero
parts and may end in the form of an IPv4 address.
-/

namespace IpAddress

open PyText

instance neZero_octets : NeZero 256 :=
  ⟨nofun⟩

instance neZero_hextets : NeZero 65536 :=
  ⟨nofun⟩

inductive Version
  | v4
  | v6
deriving DecidableEq

def Version.bits : Version → Nat
  | v4 => 32
  | v6 => 128

/-- `IPv4Address` or `IPv6Address`: its number. -/
structure Address where
  version : Version
  value : Nat
  value_lt : value < 2 ^ version.bits
deriving DecidableEq

/-! ## Reading -/

def dot : CodePoint := 0x2E
def colon : CodePoint := 0x3A
def slash : CodePoint := 0x2F
def percent : CodePoint := 0x25

/-- `_parse_octet`. -/
def parseOctet (s : PyStr) : Option (Fin 256) :=
  if s = [] then none
  else if 3 < s.length then none
  else if s ≠ [digitZero] ∧ s.head? = some digitZero then none
  else
    match number 10 decimalDigit s with
    | none => none
    | some n => if h : n < 256 then some ⟨n, h⟩ else none

/-- `_parse_hextet`. -/
def parseHextet (s : PyStr) : Option (Fin 65536) :=
  if s = [] then none
  else if 4 < s.length then none
  else
    match number 16 hexadecimalDigit s with
    | none => none
    | some n => if h : n < 65536 then some ⟨n, h⟩ else none

/-- The number of four octets. -/
def ofOctets (a b c d : Fin 256) : Fin (2 ^ 32) :=
  ⟨((a.val * 256 + b.val) * 256 + c.val) * 256 + d.val, by omega⟩

/-- `IPv4Address._ip_int_from_string`. -/
def parseV4 (s : PyStr) : Option (Fin (2 ^ 32)) :=
  match s.splitOn dot with
  | [a, b, c, d] => do
      pure (ofOctets (← parseOctet a) (← parseOctet b) (← parseOctet c) (← parseOctet d))
  | _ => none

/-- A part of an IPv6 address: what stands between two colons, or one of the two numbers
that an IPv4 address at the end is turned into. -/
inductive Part
  | text (s : PyStr)
  | hextet (n : Fin 65536)
deriving DecidableEq

namespace Part

def isEmpty : Part → Bool
  | text s => s.isEmpty
  | hextet _ => false

def parse : Part → Option (Fin 65536)
  | text s => parseHextet s
  | hextet n => some n

end Part

/-- The parts, with an IPv4 address at the end turned into two of them. -/
def parts (s : PyStr) : Option (List Part) :=
  let texts := s.splitOn colon
  if texts.length < 3 then none
  else
    match texts.getLast? with
    | none => none
    | some last =>
        if dot ∈ last then
          match parseV4 last with
          | none => none
          | some n =>
              some (texts.dropLast.map Part.text ++
                [.hextet ⟨n.val / 65536, by omega⟩, .hextet ⟨n.val % 65536, by omega⟩])
        else some (texts.map Part.text)

/-- The places of the empty parts that are neither the first nor the last: a `::`. -/
def skips (ps : List Part) : List Nat :=
  (List.range ps.length).filter fun i =>
    decide (0 < i ∧ i + 1 < ps.length) && (ps[i]?.any Part.isEmpty)

/-- The first or the last part is empty. -/
def emptyFirst (ps : List Part) : Bool := ps.head?.any Part.isEmpty

def emptyLast (ps : List Part) : Bool := ps.getLast?.any Part.isEmpty

/-- The number of eight parts. -/
def ofHextets (hs : List (Fin 65536)) : Nat :=
  hs.foldl (fun n h => n * 65536 + h.val) 0

/-- The parts before and after the skipped run, and the length of that run. -/
def layout (ps : List Part) : Option (List Part × Nat × List Part) :=
  match skips ps with
  | [] =>
      if ps.length = 8 ∧ emptyFirst ps = false ∧ emptyLast ps = false then some (ps, 0, [])
      else none
  | [skip] =>
      let hi := if emptyFirst ps then skip - 1 else skip
      let lo := if emptyLast ps then ps.length - skip - 2 else ps.length - skip - 1
      if emptyFirst ps = true ∧ hi ≠ 0 then none
      else if emptyLast ps = true ∧ lo ≠ 0 then none
      else if 8 < hi + lo + 1 then none
      else some (ps.take hi, 8 - (hi + lo), ps.drop (ps.length - lo))
  | _ => none

/-- The eight parts of an IPv6 address. -/
def hextets (s : PyStr) : Option (List (Fin 65536)) := do
  let ps ← parts s
  if 9 < ps.length then none
  else
    let (hi, skipped, lo) ← layout ps
    let hi ← hi.mapM Part.parse
    let lo ← lo.mapM Part.parse
    pure (hi ++ List.replicate skipped 0 ++ lo)

/-- `IPv6Address._split_scope_id`. -/
def splitScopeId (s : PyStr) : Option PyStr :=
  match s.dropWhile (· ≠ percent) with
  | [] => some s
  | _ :: scope =>
      if scope = [] ∨ percent ∈ scope then none else some (s.takeWhile (· ≠ percent))

/-! ## Eight parts -/

theorem length_of_mapM {α β : Type} {f : α → Option β} {l : List α} {r : List β}
    (h : l.mapM f = some r) : r.length = l.length := by
  induction l generalizing r with
  | nil =>
      cases h
      rfl
  | cons a l ih =>
      simp only [List.mapM_cons, Option.bind_eq_bind, Option.bind_eq_some_iff] at h
      obtain ⟨b, -, bs, hbs, hr⟩ := h
      cases hr
      rw [List.length_cons, List.length_cons, ih hbs]

theorem mem_skips {ps : List Part} {i : Nat} (h : i ∈ skips ps) : 0 < i ∧ i + 1 < ps.length := by
  simp only [skips, List.mem_filter, Bool.and_eq_true, decide_eq_true_iff] at h
  exact h.2.1

/-- What stands before, in and after the skipped run makes eight parts. -/
theorem layout_length {ps hi lo : List Part} {n : Nat} (h : layout ps = some (hi, n, lo)) :
    hi.length + n + lo.length = 8 := by
  unfold layout at h
  split at h
  · split_ifs at h with hlen
    cases h
    simpa using hlen.1
  · rename_i skip hskips
    obtain ⟨hpos, hlt⟩ := mem_skips (hskips ▸ List.mem_singleton_self skip)
    simp only at h
    split_ifs at h <;>
    · cases h
      simp only [List.length_take, List.length_drop]
      omega
  · cases h

theorem hextets_length {s : PyStr} {hs : List (Fin 65536)} (h : hextets s = some hs) :
    hs.length = 8 := by
  simp only [hextets, Option.bind_eq_bind, Option.bind_eq_some_iff] at h
  obtain ⟨ps, -, h⟩ := h
  split_ifs at h
  simp only [Option.bind_eq_some_iff] at h
  obtain ⟨⟨hi, n, lo⟩, hlayout, hi', hhi, lo', hlo, hr⟩ := h
  cases hr
  have htotal := layout_length hlayout
  simp only at hhi hlo
  have hhi' := length_of_mapM hhi
  have hlo' := length_of_mapM hlo
  simp only [List.length_append, List.length_replicate]
  omega

theorem foldl_hextets_lt (hs : List (Fin 65536)) (n : Nat) :
    hs.foldl (fun n h => n * 65536 + h.val) n < (n + 1) * 65536 ^ hs.length := by
  induction hs generalizing n with
  | nil => simp
  | cons h hs ih =>
      have hstep := ih (n * 65536 + h.val)
      have hpart : n * 65536 + h.val + 1 ≤ (n + 1) * 65536 := by omega
      calc
        (h :: hs).foldl (fun n h => n * 65536 + h.val) n
            < (n * 65536 + h.val + 1) * 65536 ^ hs.length := hstep
        _ ≤ (n + 1) * 65536 * 65536 ^ hs.length := Nat.mul_le_mul_right _ hpart
        _ = (n + 1) * 65536 ^ (h :: hs).length := by
            rw [List.length_cons, Nat.pow_succ', Nat.mul_assoc]

/-- So the number they make is that of an address. -/
theorem ofHextets_lt {s : PyStr} {hs : List (Fin 65536)} (h : hextets s = some hs) :
    ofHextets hs < 2 ^ 128 := by
  have hlt := foldl_hextets_lt hs 0
  rw [hextets_length h] at hlt
  exact hlt

/-- `IPv6Address._ip_int_from_string`. -/
def parseV6 (s : PyStr) : Option (Fin (2 ^ 128)) :=
  match splitScopeId s with
  | none => none
  | some addr =>
      match h : hextets addr with
      | none => none
      | some hs => some ⟨ofHextets hs, ofHextets_lt h⟩

/-- `ip_address`; none is `ValueError`. -/
def ipAddress (s : PyStr) : Option Address :=
  if slash ∈ s then none
  else
    match parseV4 s with
    | some n => some ⟨.v4, n.val, n.isLt⟩
    | none =>
        match parseV6 s with
        | some n => some ⟨.v6, n.val, n.isLt⟩
        | none => none

/-! ## The dotted form -/

/-- A decimal number below 256, without leading zeros. -/
def octetText (n : Fin 256) : PyStr :=
  let digit (k : Nat) : CodePoint := Fin.ofNat 0x110000 (0x30 + k)
  if n.val < 10 then [digit n.val]
  else if n.val < 100 then [digit (n.val / 10), digit (n.val % 10)]
  else [digit (n.val / 100), digit (n.val / 10 % 10), digit (n.val % 10)]

/-- The text of an IPv4 address. -/
def dotted (a b c d : Fin 256) : PyStr :=
  octetText a ++ dot :: (octetText b ++ dot :: (octetText c ++ dot :: octetText d))

theorem parseOctet_octetText : ∀ n : Fin 256, parseOctet (octetText n) = some n := by
  decide +kernel

theorem not_mem_octetText :
    ∀ n : Fin 256, dot ∉ octetText n ∧ slash ∉ octetText n ∧ percent ∉ octetText n := by
  decide +kernel

theorem parseV4_dotted (a b c d : Fin 256) :
    parseV4 (dotted a b c d) = some (ofOctets a b c d) := by
  have hsplit : (dotted a b c d).splitOn dot =
      [octetText a, octetText b, octetText c, octetText d] := by
    rw [dotted, List.splitOn_append_cons_self_of_not_mem (not_mem_octetText a).1,
      List.splitOn_append_cons_self_of_not_mem (not_mem_octetText b).1,
      List.splitOn_append_cons_self_of_not_mem (not_mem_octetText c).1,
      List.splitOn_eq_singleton (not_mem_octetText d).1]
  simp [parseV4, hsplit, parseOctet_octetText]

theorem not_mem_dotted {x : CodePoint} (hdot : x ≠ dot) (h : ∀ n, x ∉ octetText n)
    (a b c d : Fin 256) : x ∉ dotted a b c d := by
  simp only [dotted, List.mem_append, List.mem_cons, hdot, h, or_self, not_false_eq_true]

/-- The dotted form names its address. -/
theorem ipAddress_dotted (a b c d : Fin 256) :
    ipAddress (dotted a b c d) =
      some ⟨.v4, (ofOctets a b c d).val, (ofOctets a b c d).isLt⟩ := by
  have hslash := not_mem_dotted (by decide) (fun n => (not_mem_octetText n).2.1) a b c d
  rw [ipAddress, if_neg hslash, parseV4_dotted]

/-! ## Networks and ranges -/

/-- `IPv4Network` or `IPv6Network`: its address and the length of its prefix. -/
structure Network where
  version : Version
  address : Nat
  prefixLen : Nat
deriving DecidableEq

/-- `ip_network` of an IPv4 network, by its octets. -/
def Network.ofOctets (a b c d : Fin 256) (prefixLen : Nat) : Network :=
  ⟨.v4, (IpAddress.ofOctets a b c d).val, prefixLen⟩

/-- `ip_network` of an IPv6 network, by its first part; the others are zero. -/
def Network.ofHextet (h : Fin 65536) (prefixLen : Nat) : Network :=
  ⟨.v6, h.val * 65536 ^ 7, prefixLen⟩

/-- `addr in net`: the address with the host part cleared is the network's. -/
def Network.contains (net : Network) (a : Address) : Bool :=
  a.version == net.version &&
    a.value / 2 ^ (net.version.bits - net.prefixLen) * 2 ^ (net.version.bits - net.prefixLen) ==
      net.address

namespace Address

/-- `ipv4_mapped`. -/
def ipv4Mapped (a : Address) : Option Address :=
  match a.version with
  | .v4 => none
  | .v6 =>
      if a.value / 2 ^ 32 = 0xFFFF then
        some ⟨.v4, a.value % 2 ^ 32, Nat.mod_lt _ (by decide)⟩
      else none

def isLoopback (a : Address) : Bool :=
  match a.version with
  | .v4 => (Network.ofOctets 127 0 0 0 8).contains a
  | .v6 => a.value == 1

def isLinkLocal (a : Address) : Bool :=
  match a.version with
  | .v4 => (Network.ofOctets 169 254 0 0 16).contains a
  | .v6 => (Network.ofHextet 0xFE80 10).contains a

def isMulticast (a : Address) : Bool :=
  match a.version with
  | .v4 => (Network.ofOctets 224 0 0 0 4).contains a
  | .v6 => (Network.ofHextet 0xFF00 8).contains a

def isUnspecified (a : Address) : Bool :=
  a.value == 0

/-- `_IPv6Constants._reserved_networks`. -/
def reservedV6 : List Network :=
  [.ofHextet 0 8, .ofHextet 0x100 8, .ofHextet 0x200 7, .ofHextet 0x400 6, .ofHextet 0x800 5,
    .ofHextet 0x1000 4, .ofHextet 0x4000 3, .ofHextet 0x6000 3, .ofHextet 0x8000 3,
    .ofHextet 0xA000 3, .ofHextet 0xC000 3, .ofHextet 0xE000 4, .ofHextet 0xF000 5,
    .ofHextet 0xF800 6, .ofHextet 0xFE00 9]

def isReserved (a : Address) : Bool :=
  match a.version with
  | .v4 => (Network.ofOctets 240 0 0 0 4).contains a
  | .v6 => reservedV6.any fun net => net.contains a

end Address

end IpAddress
