import ProbeAgent.EgressGuard

/-!
# What the egress policy lets through

Which texts `_ip_is_blocked` lets through, over all of them (`egress_policy_iff`): those
that name a public IPv4 address, as such or mapped into IPv6, and the IPv6 addresses of
`2000::/3` and of `fec0::/10`, with a zone or without.  Which names `_host_is_blocked`
refuses, by their labels (`host_blocked_iff`).
-/

namespace ProbeAgent

open PyText IpAddress

/-! ## IPv6 -/

/-- The first of the eight parts decides on a network whose prefix is no longer. -/
theorem contains_ofHextet_eq_true {x : Fin 65536} {len n : Nat} (hlen : len ≤ 16)
    (h : n < 2 ^ Version.v6.bits) :
    (Network.ofHextet x len).contains ⟨.v6, n, h⟩ = true ↔
      n / 2 ^ 112 / 2 ^ (16 - len) * 2 ^ (16 - len) = x.val := by
  have hbits : Version.v6.bits - len = 112 + (16 - len) := by
    simp only [Version.bits]
    omega
  have hpow : (65536 : Nat) ^ 7 = 2 ^ 112 := by decide
  simp only [Network.contains, Network.ofHextet, beq_self_eq_true, Bool.true_and, beq_iff_eq,
    hbits, hpow]
  rw [Nat.pow_add, ← Nat.div_div_eq_div_mul, Nat.mul_comm (2 ^ 112), ← Nat.mul_assoc]
  exact Nat.mul_left_inj (by decide)

theorem contains_ofHextet_eq_false {x : Fin 65536} {len n : Nat} (hlen : len ≤ 16)
    (h : n < 2 ^ Version.v6.bits) :
    (Network.ofHextet x len).contains ⟨.v6, n, h⟩ = false ↔
      n / 2 ^ 112 / 2 ^ (16 - len) * 2 ^ (16 - len) ≠ x.val := by
  rw [← Bool.not_eq_true, not_iff_not, contains_ofHextet_eq_true hlen]

theorem first_part_lt {n : Nat} (h : n < 2 ^ Version.v6.bits) : n / 2 ^ 112 < 65536 := by
  rw [Nat.div_lt_iff_lt_mul (by decide)]
  exact h

/-- Which IPv6 addresses are not reserved, by their first part. -/
theorem not_reserved_v6_iff {n : Nat} (h : n < 2 ^ Version.v6.bits) :
    (⟨.v6, n, h⟩ : Address).isReserved = false ↔
      (0x2000 ≤ n / 2 ^ 112 ∧ n / 2 ^ 112 < 0x4000) ∨
        (0xFC00 ≤ n / 2 ^ 112 ∧ n / 2 ^ 112 < 0xFE00) ∨ 0xFE80 ≤ n / 2 ^ 112 := by
  have hlt := first_part_lt h
  simp only [Address.isReserved, List.any_eq_false, Bool.not_eq_true]
  simp only [Address.reservedV6, List.forall_mem_cons, List.not_mem_nil, IsEmpty.forall_iff,
    implies_true, and_true]
  rw [contains_ofHextet_eq_false (by decide), contains_ofHextet_eq_false (by decide),
    contains_ofHextet_eq_false (by decide), contains_ofHextet_eq_false (by decide),
    contains_ofHextet_eq_false (by decide), contains_ofHextet_eq_false (by decide),
    contains_ofHextet_eq_false (by decide), contains_ofHextet_eq_false (by decide),
    contains_ofHextet_eq_false (by decide), contains_ofHextet_eq_false (by decide),
    contains_ofHextet_eq_false (by decide), contains_ofHextet_eq_false (by decide),
    contains_ofHextet_eq_false (by decide), contains_ofHextet_eq_false (by decide),
    contains_ofHextet_eq_false (by decide)]
  generalize n / 2 ^ 112 = first at *
  simp only [Nat.reduceSub, Nat.reducePow, Fin.coe_ofNat_eq_mod, Nat.reduceMod]
  omega

/-- Which IPv6 addresses are public, by their first part. -/
theorem public_v6_iff {n : Nat} (h : n < 2 ^ Version.v6.bits) :
    Public ⟨.v6, n, h⟩ ↔
      (0x2000 ≤ n / 2 ^ 112 ∧ n / 2 ^ 112 < 0x4000) ∨
        (0xFEC0 ≤ n / 2 ^ 112 ∧ n / 2 ^ 112 < 0xFF00) := by
  have hlt := first_part_lt h
  have hv4 : ∀ (p q r s : Fin 256) len, (Network.ofOctets p q r s len).contains ⟨.v6, n, h⟩ =
      false := fun _ _ _ _ _ => contains_of_version_ne nofun
  have hsingle : ∀ k : Nat,
      (⟨.v6, k, 128⟩ : Network).contains ⟨.v6, n, h⟩ = false ↔ n ≠ k := by
    intro k
    simp [Network.contains, Version.bits]
  have hsmall : ∀ k : Nat, k < 2 ^ 112 → n / 2 ^ 112 ≠ 0 → n ≠ k := by
    rintro k hk hne rfl
    exact hne (Nat.div_eq_of_lt hk)
  rw [public_iff, not_reserved_v6_iff]
  simp only [Address.isLoopback, Address.isLinkLocal, Address.isMulticast,
    Address.isUnspecified, blockedNetworks, List.forall_mem_cons, List.not_mem_nil,
    IsEmpty.forall_iff, implies_true, and_true, hv4, hsingle, beq_eq_false_iff_ne, true_and,
    contains_ofHextet_eq_false (by decide : 8 ≤ 16),
    contains_ofHextet_eq_false (by decide : 7 ≤ 16),
    contains_ofHextet_eq_false (by decide : 10 ≤ 16)]
  have hzero := hsmall 0 (by decide)
  have hone := hsmall 1 (by decide)
  generalize n / 2 ^ 112 = first at *
  simp only [Nat.reduceSub, Nat.reducePow, Fin.coe_ofNat_eq_mod, Nat.reduceMod]
  constructor
  · rintro ⟨-, hlink, hmulticast, -, hreserved, -, -, hlocal, -⟩
    omega
  · intro hrange
    refine ⟨hone (by omega), by omega, by omega, hzero (by omega), by omega, hone (by omega),
      hzero (by omega), by omega, by omega⟩

/-! ## The policy on addresses -/

/-- An IPv4 address outside every range that is set apart or blocked. -/
def OpenV4 (n : Nat) : Prop :=
  let a := n / 2 ^ 24
  let b := n / 2 ^ 16 % 256
  let c := n / 2 ^ 8 % 256
  a ≠ 0 ∧ a ≠ 10 ∧ a ≠ 127 ∧ a < 224 ∧ ¬(a = 100 ∧ 64 ≤ b ∧ b < 128) ∧ ¬(a = 169 ∧ b = 254) ∧
    ¬(a = 172 ∧ 16 ≤ b ∧ b < 32) ∧ ¬(a = 192 ∧ b = 0 ∧ c = 0) ∧ ¬(a = 192 ∧ b = 168) ∧
    ¬(a = 198 ∧ (b = 18 ∨ b = 19))

/-- An IPv6 address of `2000::/3` or of `fec0::/10`. -/
def OpenV6 (n : Nat) : Prop :=
  (0x2000 ≤ n / 2 ^ 112 ∧ n / 2 ^ 112 < 0x4000) ∨ (0xFEC0 ≤ n / 2 ^ 112 ∧ n / 2 ^ 112 < 0xFF00)

theorem openV4_iff {n : Nat} (h : n < 2 ^ Version.v4.bits) : Public ⟨.v4, n, h⟩ ↔ OpenV4 n := by
  have hlt : n < 4294967296 := h
  have hoctets : n = ((n / 2 ^ 24 * 256 + n / 2 ^ 16 % 256) * 256 + n / 2 ^ 8 % 256) * 256 +
      n % 256 := by omega
  exact public_v4_iff h (a := ⟨n / 2 ^ 24, by omega⟩) (b := ⟨n / 2 ^ 16 % 256, by omega⟩)
    (c := ⟨n / 2 ^ 8 % 256, by omega⟩) (d := ⟨n % 256, by omega⟩) hoctets

/-- **The policy on addresses.** Over all texts, `_ip_is_blocked` lets through exactly
those that name, a zone left out, an open IPv4 address, an IPv6 address that an open IPv4
address is mapped into, or an open IPv6 address. -/
theorem egress_policy_iff (ip : PyStr) :
    ipIsBlocked ip = false ↔
      ∃ addr, ipAddress (dropZone ip) = some addr ∧
        match addr.version with
        | .v4 => OpenV4 addr.value
        | .v6 => (addr.value / 2 ^ 32 = 0xFFFF ∧ OpenV4 (addr.value % 2 ^ 32)) ∨
            OpenV6 addr.value := by
  rw [ipIsBlocked_eq_false_iff, Vetted]
  refine exists_congr fun addr => and_congr_right fun _ => ?_
  obtain ⟨version, n, hn⟩ := addr
  cases version with
  | v4 =>
      exact openV4_iff hn
  | v6 =>
      by_cases hmapped : n / 2 ^ 32 = 0xFFFF
      · have hlow : ¬OpenV6 n := by
          have hfirst : n / 2 ^ 112 = 0 := by
            have hdiv : n / 2 ^ 112 = n / 2 ^ 32 / 2 ^ 80 := by
              rw [Nat.div_div_eq_div_mul, ← Nat.pow_add]
            rw [hdiv, hmapped]
            rfl
          rw [OpenV6, hfirst]
          omega
        simp only [unmapped, Address.ipv4Mapped, hmapped, true_and, or_iff_left hlow]
        exact openV4_iff _
      · simp only [unmapped, Address.ipv4Mapped, hmapped, false_and, false_or]
        exact public_v6_iff hn

/-! ## The policy on names -/

theorem intercalate_append {α : Type} {sep : α} {front back : List (List α)} (hfront : front ≠ [])
    (hback : back ≠ []) :
    [sep].intercalate (front ++ back) =
      [sep].intercalate front ++ sep :: [sep].intercalate back := by
  induction front with
  | nil =>
      exact absurd rfl hfront
  | cons part front ih =>
      rw [List.cons_append, List.intercalate_cons_of_ne_nil (by simp [hback])]
      cases front with
      | nil =>
          simp
      | cons next front =>
          rw [ih (List.cons_ne_nil next front),
            List.intercalate_cons_of_ne_nil (List.cons_ne_nil next front)]
          simp

/-- A text ends with another, alone or after a separator, exactly if its parts end with the
parts of that. -/
theorem splitOn_suffix_iff {α : Type} [BEq α] [LawfulBEq α] {sep : α} {s h : List α} :
    s.splitOn sep <:+ h.splitOn sep ↔ h = s ∨ sep :: s <:+ h := by
  constructor
  · rintro ⟨front, hfront⟩
    have hjoin : h = [sep].intercalate (front ++ s.splitOn sep) := by
      rw [hfront, List.intercalate_splitOn]
    have hne : s.splitOn sep ≠ [] := by
      rw [List.splitOn_eq_splitOnP]
      exact List.splitOnP_ne_nil _ s
    cases front with
    | nil =>
        rw [List.nil_append, List.intercalate_splitOn] at hjoin
        exact .inl hjoin
    | cons part front =>
        rw [intercalate_append (List.cons_ne_nil part front) hne,
          List.intercalate_splitOn] at hjoin
        exact .inr ⟨_, hjoin.symm⟩
  · rintro (rfl | ⟨front, rfl⟩)
    · exact List.suffix_refl _
    · refine ⟨front.splitOn sep, ?_⟩
      rw [List.splitOn_eq_splitOnP, List.splitOn_eq_splitOnP, List.splitOn_eq_splitOnP,
        List.splitOnP_append_cons _ _ (by simp)]

/-- The labels of a name. -/
def labels (name : PyStr) : List PyStr :=
  name.splitOn dot

/-- **The policy on names.** `_host_is_blocked` refuses the empty name and exactly the names
whose last labels are `localhost`, or `railway` and `internal`, white space around the name,
dots at its end and its case left out of account. -/
theorem host_blocked_iff (caseMap : CaseMap) (host : PyStr) :
    hostIsBlocked caseMap host = true ↔
      rstripDots (caseMap.lower (strip host)) = [] ∨
        [py "localhost"] <:+ labels (rstripDots (caseMap.lower (strip host))) ∨
        [py "railway", py "internal"] <:+ labels (rstripDots (caseMap.lower (strip host))) := by
  have hsplit : labels (py "localhost") = [py "localhost"] ∧
      labels (py "railway.internal") = [py "railway", py "internal"] := by
    decide +kernel
  unfold hostIsBlocked
  dsimp only
  split
  · rename_i hnil
    exact iff_of_true rfl (.inl hnil)
  · rename_i hne
    rw [or_iff_right hne, ← hsplit.1, ← hsplit.2, labels, labels, labels, splitOn_suffix_iff,
      splitOn_suffix_iff]
    simp only [blockedHostSuffixes, List.any_cons, List.any_nil, Bool.or_false, Bool.or_eq_true,
      beq_iff_eq, List.isSuffixOf_iff_suffix]
    exact or_comm

end ProbeAgent
