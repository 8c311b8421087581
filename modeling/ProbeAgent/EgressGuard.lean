import ProbeAgent.IpAddress
import ProbeAgent.StrMethods
import ProbeAgent.PyValue
import Mathlib.Data.List.Induction
import Mathlib.Data.List.TakeWhile
import Mathlib.Tactic.MkIffOfInductiveProp

/-!
# The target-egress policy (`services/egress_guard.py`)

`install` wraps `socket.getaddrinfo` and `socket.socket.connect` once; so does
`run_progress.install`, around or inside the guard, and the hooks it adds pass every
call on.  The guard enforces the policy while a flag of the calling thread is set, which
an `active()` block sets on entry and puts back on every way out.

From the first call of `egress_guard.install` on, a call made inside such a block is
vetted, whatever the order of the two installers; a call made outside never is
(`egress_vetted`).
-/

namespace ProbeAgent

open PyText IpAddress

/-! ## The blocklist -/

/-- `_BLOCKED_HOST_SUFFIXES`. -/
def blockedHostSuffixes : List PyStr :=
  [py "railway.internal", py "localhost"]

/-- `_BLOCKED_NETWORKS`. -/
def blockedNetworks : List Network :=
  [.ofOctets 0 0 0 0 8, .ofOctets 10 0 0 0 8, .ofOctets 100 64 0 0 10, .ofOctets 127 0 0 0 8,
    .ofOctets 169 254 0 0 16, .ofOctets 172 16 0 0 12, .ofOctets 192 0 0 0 24,
    .ofOctets 192 168 0 0 16, .ofOctets 198 18 0 0 15, ⟨.v6, 1, 128⟩, ⟨.v6, 0, 128⟩,
    .ofHextet 0xFC00 7, .ofHextet 0xFE80 10]

/-- `s.rstrip(".")`. -/
def rstripDots (s : PyStr) : PyStr :=
  (s.reverse.dropWhile (· = dot)).reverse

section Blocklist

-- what Unicode has for `str.lower`
variable (caseMap : CaseMap)

/-- `_host_is_blocked`. -/
def hostIsBlocked (host : PyStr) : Bool :=
  let h := rstripDots (caseMap.lower (strip host))
  if h = [] then true
  else blockedHostSuffixes.any fun suffix => h == suffix || (dot :: suffix).isSuffixOf h

end Blocklist

/-- `ip.split("%", 1)[0]`. -/
def dropZone (ip : PyStr) : PyStr :=
  ip.takeWhile (· ≠ percent)

/-- The address an IPv4-mapped one stands for, or the address itself. -/
def unmapped (a : Address) : Address :=
  a.ipv4Mapped.getD a

/-- `_ip_is_blocked`. -/
def ipIsBlocked (ip : PyStr) : Bool :=
  match ipAddress (dropZone ip) with
  | none => true
  | some a =>
      let addr := unmapped a
      if addr.isLoopback || addr.isLinkLocal || addr.isMulticast || addr.isUnspecified ||
          addr.isReserved then true
      else blockedNetworks.any fun net => addr.version == net.version && net.contains addr

/-- An address in none of the ranges that are set apart or blocked. -/
@[mk_iff] structure Public (a : Address) : Prop where
  loopback : a.isLoopback = false
  linkLocal : a.isLinkLocal = false
  multicast : a.isMulticast = false
  unspecified : a.isUnspecified = false
  reserved : a.isReserved = false
  networks : ∀ net ∈ blockedNetworks, net.contains a = false

/-- A text that names an address which, unwrapped, is public. -/
def Vetted (ip : PyStr) : Prop :=
  ∃ a, ipAddress (dropZone ip) = some a ∧ Public (unmapped a)

theorem contains_version {net : Network} {a : Address} (h : net.contains a = true) :
    a.version = net.version := by
  rw [Network.contains, Bool.and_eq_true, beq_iff_eq] at h
  exact h.1

/-- What is not blocked is vetted, and the other way round. -/
theorem ipIsBlocked_eq_false_iff (ip : PyStr) : ipIsBlocked ip = false ↔ Vetted ip := by
  unfold ipIsBlocked Vetted
  cases ipAddress (dropZone ip) with
  | none => simp
  | some a =>
      have hnetworks : (blockedNetworks.any fun net =>
            (unmapped a).version == net.version && net.contains (unmapped a)) = false ↔
          ∀ net ∈ blockedNetworks, net.contains (unmapped a) = false := by
        rw [List.any_eq_false]
        refine forall₂_congr fun net _ => ?_
        rw [Bool.and_eq_true, not_and, beq_iff_eq, Bool.not_eq_true]
        refine ⟨fun h => ?_, fun h _ => h⟩
        by_contra hcontains
        rw [Bool.not_eq_false] at hcontains
        rw [h (contains_version hcontains)] at hcontains
        cases hcontains
      simp only [Option.some.injEq, exists_eq_left']
      split
      · rename_i hrange
        refine iff_of_false (by simp) fun hpublic => ?_
        simp [hpublic.loopback, hpublic.linkLocal, hpublic.multicast, hpublic.unspecified,
          hpublic.reserved] at hrange
      · rename_i hrange
        simp only [Bool.or_eq_true, not_or, Bool.not_eq_true] at hrange
        obtain ⟨⟨⟨⟨hloopback, hlinkLocal⟩, hmulticast⟩, hunspecified⟩, hreserved⟩ := hrange
        rw [hnetworks]
        exact ⟨fun h => ⟨hloopback, hlinkLocal, hmulticast, hunspecified, hreserved, h⟩,
          fun h => h.networks⟩

/-- An IPv4 address is outside a network when its prefix is another. -/
theorem contains_ofOctets_eq_false (p q r s : Fin 256) (len n : Nat)
    (h : n < 2 ^ Version.v4.bits) :
    (Network.ofOctets p q r s len).contains ⟨.v4, n, h⟩ = false ↔
      n / 2 ^ (32 - len) * 2 ^ (32 - len) ≠
        ((p.val * 256 + q.val) * 256 + r.val) * 256 + s.val := by
  simp [Network.contains, Network.ofOctets, ofOctets, Version.bits]

theorem contains_of_version_ne {net : Network} {a : Address} (h : a.version ≠ net.version) :
    net.contains a = false := by
  simp [Network.contains, h]

/-- Which IPv4 addresses are public. -/
theorem public_v4_iff {n : Nat} (h : n < 2 ^ Version.v4.bits) {a b c d : Fin 256}
    (hn : n = ((a.val * 256 + b.val) * 256 + c.val) * 256 + d.val) :
    Public ⟨.v4, n, h⟩ ↔
      a.val ≠ 0 ∧ a.val ≠ 10 ∧ a.val ≠ 127 ∧ a.val < 224 ∧
        ¬(a.val = 100 ∧ 64 ≤ b.val ∧ b.val < 128) ∧ ¬(a.val = 169 ∧ b.val = 254) ∧
        ¬(a.val = 172 ∧ 16 ≤ b.val ∧ b.val < 32) ∧ ¬(a.val = 192 ∧ b.val = 0 ∧ c.val = 0) ∧
        ¬(a.val = 192 ∧ b.val = 168) ∧ ¬(a.val = 198 ∧ (b.val = 18 ∨ b.val = 19)) := by
  have hv6 : ∀ address prefixLen, (⟨.v6, address, prefixLen⟩ : Network).contains ⟨.v4, n, h⟩ =
      false := fun _ _ => contains_of_version_ne nofun
  have hhextet : ∀ x prefixLen, (Network.ofHextet x prefixLen).contains ⟨.v4, n, h⟩ = false :=
    fun _ _ => hv6 _ _
  simp only [public_iff, Address.isLoopback, Address.isLinkLocal, Address.isMulticast,
    Address.isUnspecified, Address.isReserved, blockedNetworks, List.forall_mem_cons,
    contains_ofOctets_eq_false, beq_eq_false_iff_ne, hv6, hhextet, List.not_mem_nil,
    IsEmpty.forall_iff, implies_true, and_true]
  -- the prefixes of the address, by its octets
  have h8 : n / 16777216 = a.val := by omega
  have h16 : n / 65536 = a.val * 256 + b.val := by omega
  have h24 : n / 256 = (a.val * 256 + b.val) * 256 + c.val := by omega
  have h4 : n / 268435456 = a.val / 16 := by omega
  have h10 : n / 4194304 = a.val * 4 + b.val / 64 := by omega
  have h12 : n / 1048576 = a.val * 16 + b.val / 16 := by omega
  have h15 : n / 131072 = a.val * 128 + b.val / 2 := by omega
  simp only [Nat.reduceSub, h8, h16, h24, h4, h10, h12, h15, Fin.coe_ofNat_eq_mod, Nat.reduceMod,
    Nat.zero_mod, Nat.reducePow, Nat.reduceMul, Nat.reduceAdd, Nat.add_zero, Nat.zero_mul]
  have hn0 : a.val ≠ 0 → n ≠ 0 := by omega
  clear h8 h16 h24 h4 h10 h12 h15 hv6 hhextet hn h
  -- what each network says of the octets
  have ha := a.isLt
  have hb := b.isLt
  have hc := c.isLt
  obtain ⟨hthis, hten, hloopback, hmulticast, hreserved, hshared, hlink, hprivate, hprotocol,
      hhome, hbench⟩ :
      (a.val * 16777216 ≠ 0 ↔ a.val ≠ 0) ∧ (a.val * 16777216 ≠ 167772160 ↔ a.val ≠ 10) ∧
      (a.val * 16777216 ≠ 2130706432 ↔ a.val ≠ 127) ∧
      (a.val / 16 * 268435456 ≠ 3758096384 ↔ ¬(224 ≤ a.val ∧ a.val < 240)) ∧
      (a.val / 16 * 268435456 ≠ 4026531840 ↔ a.val < 240) ∧
      ((a.val * 4 + b.val / 64) * 4194304 ≠ 1681915904 ↔
        ¬(a.val = 100 ∧ 64 ≤ b.val ∧ b.val < 128)) ∧
      ((a.val * 256 + b.val) * 65536 ≠ 2851995648 ↔ ¬(a.val = 169 ∧ b.val = 254)) ∧
      ((a.val * 16 + b.val / 16) * 1048576 ≠ 2886729728 ↔
        ¬(a.val = 172 ∧ 16 ≤ b.val ∧ b.val < 32)) ∧
      (((a.val * 256 + b.val) * 256 + c.val) * 256 ≠ 3221225472 ↔
        ¬(a.val = 192 ∧ b.val = 0 ∧ c.val = 0)) ∧
      ((a.val * 256 + b.val) * 65536 ≠ 3232235520 ↔ ¬(a.val = 192 ∧ b.val = 168)) ∧
      ((a.val * 128 + b.val / 2) * 131072 ≠ 3323068416 ↔
        ¬(a.val = 198 ∧ (b.val = 18 ∨ b.val = 19))) := by
    refine ⟨?_, ?_, ?_, ?_, ?_, ?_, ?_, ?_, ?_, ?_, ?_⟩ <;> omega
  rw [hthis, hten, hloopback, hmulticast, hreserved, hshared, hlink, hprivate, hprotocol, hhome,
    hbench]
  constructor
  · rintro ⟨h127, h169, hm, -, hr, h0, h10, h100, -, -, h172, h192, h168, h198⟩
    have hlt : a.val < 224 := Nat.lt_of_not_le fun hle => hm ⟨hle, hr⟩
    exact ⟨h0, h10, h127, hlt, h100, h169, h172, h192, h168, h198⟩
  · rintro ⟨h0, h10, h127, hlt, h100, h169, h172, h192, h168, h198⟩
    have hm : ¬(224 ≤ a.val ∧ a.val < 240) := fun hm => Nat.not_lt.mpr hm.1 hlt
    exact ⟨h127, h169, hm, hn0 h0, Nat.lt_trans hlt (by decide), h0, h10, h100, h127, h169, h172,
      h192, h168, h198⟩

/-- Which dotted addresses are vetted. -/
theorem vetted_dotted_iff (a b c d : Fin 256) :
    Vetted (dotted a b c d) ↔
      a.val ≠ 0 ∧ a.val ≠ 10 ∧ a.val ≠ 127 ∧ a.val < 224 ∧
        ¬(a.val = 100 ∧ 64 ≤ b.val ∧ b.val < 128) ∧ ¬(a.val = 169 ∧ b.val = 254) ∧
        ¬(a.val = 172 ∧ 16 ≤ b.val ∧ b.val < 32) ∧ ¬(a.val = 192 ∧ b.val = 0 ∧ c.val = 0) ∧
        ¬(a.val = 192 ∧ b.val = 168) ∧ ¬(a.val = 198 ∧ (b.val = 18 ∨ b.val = 19)) := by
  have hzone : dropZone (dotted a b c d) = dotted a b c d := by
    have hpercent := not_mem_dotted (by decide) (fun n => (not_mem_octetText n).2.2) a b c d
    rw [dropZone, List.takeWhile_eq_self_iff]
    intro x hx
    rw [decide_eq_true_iff]
    rintro rfl
    exact hpercent hx
  rw [Vetted, hzone, ipAddress_dotted, ← public_v4_iff (ofOctets a b c d).isLt rfl]
  simp [unmapped, Address.ipv4Mapped]

/-! ## The wrapped calls -/

/-- What is passed to `connect`: a tuple, with its items as `str` gives them and none
for None, or anything else. -/
inductive SockAddr
  | tuple (items : List (Option PyStr))
  | other
deriving DecidableEq

/-- `address[0] if isinstance(address, tuple) and address else None`. -/
def SockAddr.ip : SockAddr → Option PyStr
  | tuple (ip :: _) => ip
  | _ => none

/-- What the two installers put around a call. -/
inductive Layer
  | guard
  | progress
deriving DecidableEq

inductive ConnectEnd
  | refused
  /-- The original is called. -/
  | reached (address : SockAddr)
deriving DecidableEq

inductive ResolveEnd
  | refused
  /-- The original raises. -/
  | failed
  /-- The addresses of the answer. -/
  | answered (addresses : List PyStr)
deriving DecidableEq

/-- `ip is None or _ip_is_blocked(str(ip))`. -/
def targetIsBlocked (address : SockAddr) : Bool :=
  match address.ip with
  | none => true
  | some ip => ipIsBlocked ip

/-- A call of `connect` through the layers, the outermost first. -/
def connectThrough (active : Bool) (address : SockAddr) : List Layer → ConnectEnd
  | [] => .reached address
  | .progress :: rest => connectThrough active address rest
  | .guard :: rest =>
      if active && targetIsBlocked address then .refused
      else connectThrough active address rest

section Calls

variable (caseMap : CaseMap)

/-- The answer is rejected as a whole. -/
def answerIsBlocked (host : Option PyStr) (addresses : List PyStr) : Bool :=
  (host.any fun h => hostIsBlocked caseMap h) || addresses.any ipIsBlocked

/-- A call of `getaddrinfo` through the layers: `answer` is what the original returns,
none if it raises. -/
def getaddrinfoThrough (active : Bool) (host : Option PyStr) (answer : Option (List PyStr)) :
    List Layer → ResolveEnd
  | [] =>
      match answer with
      | none => .failed
      | some addresses => .answered addresses
  | .progress :: rest => getaddrinfoThrough active host answer rest
  | .guard :: rest =>
      match getaddrinfoThrough active host answer rest with
      | .answered addresses =>
          if active && answerIsBlocked caseMap host addresses then .refused
          else .answered addresses
      | outcome => outcome

/-- The layers decide by whether the guard is among them. -/
theorem connectThrough_eq (active : Bool) (address : SockAddr) (layers : List Layer) :
    connectThrough active address layers =
      if .guard ∈ layers ∧ active = true ∧ targetIsBlocked address = true then .refused
      else .reached address := by
  induction layers with
  | nil => simp [connectThrough]
  | cons layer layers ih =>
      cases layer with
      | progress => simp [connectThrough, ih]
      | guard =>
          rw [connectThrough, ih]
          cases active <;> cases targetIsBlocked address <;> simp

theorem getaddrinfoThrough_eq (active : Bool) (host : Option PyStr)
    (answer : Option (List PyStr)) (layers : List Layer) :
    getaddrinfoThrough caseMap active host answer layers =
      match answer with
      | none => .failed
      | some addresses =>
          if .guard ∈ layers ∧ active = true ∧ answerIsBlocked caseMap host addresses = true then
            .refused
          else .answered addresses := by
  induction layers with
  | nil => cases answer <;> simp [getaddrinfoThrough]
  | cons layer layers ih =>
      cases layer with
      | progress => simp [getaddrinfoThrough, ih]
      | guard =>
          rw [getaddrinfoThrough, ih]
          cases answer with
          | none => rfl
          | some addresses =>
              cases active with
              | false => simp
              | true =>
                  cases hblocked : answerIsBlocked caseMap host addresses <;>
                    by_cases hguard : Layer.guard ∈ layers <;> simp [hblocked, hguard]

end Calls

/-! ## The process -/

/-- A thread's flag `_local.active`, and the value each block under way put aside, the
innermost first. -/
structure GuardCells where
  flag : Bool := false
  saved : List Bool := []

variable {T : Type}

/-- What is installed, the outermost layer first, and the threads. -/
structure Egress (T : Type) where
  guardInstalled : Bool := false
  progressInstalled : Bool := false
  layers : List Layer := []
  threads : T → GuardCells := fun _ => {}

/-- What happens in the process. -/
inductive EgressEvent (T : Type)
  /-- `egress_guard.install()`. -/
  | installGuard
  /-- `run_progress.install()`. -/
  | installProgress
  /-- A thread enters an `active()` block. -/
  | enter (t : T)
  /-- It leaves the innermost one, at its end or by an exception. -/
  | leave (t : T) (raised : Bool)
  | connect (t : T) (address : SockAddr)
  | getaddrinfo (t : T) (host : Option PyStr) (answer : Option (List PyStr))
deriving DecidableEq

namespace Egress

/-- `egress_guard.install`. -/
def installGuard (p : Egress T) : Egress T :=
  if p.guardInstalled then p
  else { p with guardInstalled := true, layers := .guard :: p.layers }

/-- `run_progress.install`. -/
def installProgress (p : Egress T) : Egress T :=
  if p.progressInstalled then p
  else { p with progressInstalled := true, layers := .progress :: p.layers }

section Threads

variable [DecidableEq T]

def setThread (p : Egress T) (t : T) (cells : GuardCells) : Egress T :=
  { p with threads := fun u => if u = t then cells else p.threads u }

/-- `active()`, up to its `yield`. -/
def enter (p : Egress T) (t : T) : Egress T :=
  p.setThread t { flag := true, saved := (p.threads t).flag :: (p.threads t).saved }

/-- Its `finally`. -/
def leave (p : Egress T) (t : T) : Egress T :=
  match (p.threads t).saved with
  | [] => p
  | prev :: saved => p.setThread t { flag := prev, saved := saved }

def act (p : Egress T) : EgressEvent T → Egress T
  | .installGuard => p.installGuard
  | .installProgress => p.installProgress
  | .enter t => p.enter t
  | .leave t _ => p.leave t
  | .connect _ _ => p
  | .getaddrinfo _ _ _ => p

/-- The process after these events. -/
def run (events : List (EgressEvent T)) : Egress T :=
  events.foldl act {}

end Threads

/-- A call of `connect` by a thread. -/
def connect (p : Egress T) (t : T) (address : SockAddr) : ConnectEnd :=
  connectThrough (p.threads t).flag address p.layers

/-- A call of `getaddrinfo` by a thread. -/
def getaddrinfo (p : Egress T) (caseMap : CaseMap) (t : T) (host : Option PyStr)
    (answer : Option (List PyStr)) : ResolveEnd :=
  getaddrinfoThrough caseMap (p.threads t).flag host answer p.layers

end Egress

section Runs

variable [DecidableEq T]

/-- How many `active()` blocks a thread is in. -/
def depth (t : T) (events : List (EgressEvent T)) : Nat :=
  events.foldl
    (fun n e =>
      match e with
      | .enter u => if u = t then n + 1 else n
      | .leave u _ => if u = t then n - 1 else n
      | _ => n) 0

/-- The flag inside the blocks whose saved values these are. -/
inductive Blocks : Bool → List Bool → Prop
  | outside : Blocks false []
  | inside {flag : Bool} {saved : List Bool} : Blocks flag saved → Blocks true (flag :: saved)

theorem Blocks.flag_iff {flag : Bool} {saved : List Bool} (h : Blocks flag saved) :
    flag = true ↔ 0 < saved.length := by
  cases h with
  | outside => simp
  | inside => simp

theorem depth_append (t : T) (events : List (EgressEvent T)) (e : EgressEvent T) :
    depth t (events ++ [e]) =
      match e with
      | .enter u => if u = t then depth t events + 1 else depth t events
      | .leave u _ => if u = t then depth t events - 1 else depth t events
      | _ => depth t events := by
  simp [depth]

theorem run_append (events : List (EgressEvent T)) (e : EgressEvent T) :
    Egress.run (events ++ [e]) = (Egress.run events).act e := by
  simp [Egress.run]

omit [DecidableEq T] in
@[simp] theorem Egress.installGuard_threads (p : Egress T) :
    p.installGuard.threads = p.threads := by
  unfold Egress.installGuard
  split <;> rfl

omit [DecidableEq T] in
@[simp] theorem Egress.installProgress_threads (p : Egress T) :
    p.installProgress.threads = p.threads := by
  unfold Egress.installProgress
  split <;> rfl

/-- A thread's cells belong to the blocks it is in. -/
structure InBlocks (cells : GuardCells) (n : Nat) : Prop where
  blocks : Blocks cells.flag cells.saved
  length_eq : cells.saved.length = n

theorem inBlocks_run (t : T) (events : List (EgressEvent T)) :
    InBlocks ((Egress.run events).threads t) (depth t events) := by
  induction events using List.reverseRecOn with
  | nil => exact ⟨.outside, rfl⟩
  | append_singleton events e ih =>
      rw [run_append, depth_append]
      generalize Egress.run events = p at ih ⊢
      cases e with
      | installGuard => simpa [Egress.act] using ih
      | installProgress => simpa [Egress.act] using ih
      | enter u =>
          by_cases hu : u = t
          · subst hu
            simp only [Egress.act, Egress.enter, Egress.setThread, if_true]
            exact ⟨.inside ih.blocks, by simp [ih.length_eq]⟩
          · simpa [Egress.act, Egress.enter, Egress.setThread, hu, Ne.symm hu] using ih
      | leave u raised =>
          by_cases hu : u = t
          · subst hu
            simp only [Egress.act, Egress.leave, if_true]
            cases hcells : p.threads u with
            | mk flag saved =>
                rw [hcells] at ih
                cases saved with
                | nil =>
                    have hzero : depth u events = 0 := by simpa using ih.length_eq.symm
                    simp only [hzero]
                    rw [hcells]
                    exact ⟨ih.blocks, rfl⟩
                | cons prev saved =>
                    have hlength : saved.length = depth u events - 1 := by
                      simp [← ih.length_eq]
                    cases ih.blocks with
                    | inside hblocks => exact ⟨by simpa [Egress.setThread] using hblocks,
                        by simpa [Egress.setThread] using hlength⟩
          · simp only [Egress.act, Egress.leave, if_neg hu]
            split
            · exact ih
            · simpa [Egress.setThread, Ne.symm hu] using ih
      | connect => exact ih
      | getaddrinfo => exact ih

/-- The guard is among the layers once it has been installed. -/
theorem guard_mem_layers (events : List (EgressEvent T)) :
    ((Egress.run events).guardInstalled = true ↔ .installGuard ∈ events) ∧
      (.guard ∈ (Egress.run events).layers ↔ .installGuard ∈ events) := by
  induction events using List.reverseRecOn with
  | nil => simp [Egress.run]
  | append_singleton events e ih =>
      rw [run_append]
      generalize Egress.run events = p at ih ⊢
      cases e with
      | installGuard =>
          simp only [Egress.act, Egress.installGuard]
          split
          · rename_i hinstalled
            simp [hinstalled, ih.2, ih.1.mp hinstalled]
          · simp
      | installProgress =>
          simp only [Egress.act, Egress.installProgress]
          split
          · simpa using ih
          · simpa using ih
      | leave u raised =>
          simp only [Egress.act, Egress.leave]
          split
          · simpa using ih
          · simpa [Egress.setThread] using ih
      | _ => simpa [Egress.act, Egress.enter, Egress.setThread] using ih

/-! ## What the calls of a run decide -/

/-- The flag is set in the blocks and nowhere else. -/
theorem flag_run_iff (t : T) (events : List (EgressEvent T)) :
    ((Egress.run events).threads t).flag = true ↔ 0 < depth t events := by
  have hcells := inBlocks_run t events
  rw [hcells.blocks.flag_iff, hcells.length_eq]

/-- A target that is not refused is a tuple whose first item is vetted. -/
theorem targetIsBlocked_eq_false_iff (address : SockAddr) :
    targetIsBlocked address = false ↔
      ∃ ip rest, address = .tuple (some ip :: rest) ∧ Vetted ip := by
  unfold targetIsBlocked
  match address with
  | .other => simp [SockAddr.ip]
  | .tuple [] => simp [SockAddr.ip]
  | .tuple (none :: rest) => simp [SockAddr.ip]
  | .tuple (some ip :: rest) => simp [SockAddr.ip, ipIsBlocked_eq_false_iff]

/-- One blocked address is enough to reject the answer, and so is the name. -/
theorem answerIsBlocked_iff (caseMap : CaseMap) (host : Option PyStr)
    (addresses : List PyStr) :
    answerIsBlocked caseMap host addresses = true ↔
      (∃ h, host = some h ∧ hostIsBlocked caseMap h = true) ∨ ∃ ip ∈ addresses, ¬Vetted ip := by
  rw [answerIsBlocked, Bool.or_eq_true, List.any_eq_true]
  refine or_congr (by cases host <;> simp) (exists_congr fun ip => and_congr_right fun _ => ?_)
  rw [← ipIsBlocked_eq_false_iff, Bool.not_eq_false]

theorem connect_run (t : T) (events : List (EgressEvent T)) (address : SockAddr) :
    (Egress.run events).connect t address =
      if .installGuard ∈ events ∧ 0 < depth t events ∧ targetIsBlocked address = true then
        .refused
      else .reached address := by
  simp only [Egress.connect, connectThrough_eq, flag_run_iff, (guard_mem_layers events).2]

theorem getaddrinfo_run (caseMap : CaseMap) (t : T) (events : List (EgressEvent T))
    (host : Option PyStr) (answer : Option (List PyStr)) :
    (Egress.run events).getaddrinfo caseMap t host answer =
      match answer with
      | none => .failed
      | some addresses =>
          if .installGuard ∈ events ∧ 0 < depth t events ∧
              answerIsBlocked caseMap host addresses = true then .refused
          else .answered addresses := by
  rw [Egress.getaddrinfo, getaddrinfoThrough_eq]
  cases answer with
  | none => rfl
  | some addresses => simp only [flag_run_iff, (guard_mem_layers events).2]

/-- Once the guard is installed, whatever the order of the installers: inside a block of its
thread a connection reaches vetted addresses only and an answer is rejected as a whole;
outside nothing is refused.  Nothing else of what happened bears on a call. -/
theorem egress_vetted (caseMap : CaseMap) (events : List (EgressEvent T)) (t : T) :
    (.installGuard ∈ events → 0 < depth t events →
      (∀ address address', (Egress.run events).connect t address = .reached address' →
        ∃ ip rest, address' = .tuple (some ip :: rest) ∧ Vetted ip) ∧
      ∀ host addresses,
        ((∃ h, host = some h ∧ hostIsBlocked caseMap h = true) ∨ ∃ ip ∈ addresses, ¬Vetted ip) →
          (Egress.run events).getaddrinfo caseMap t host (some addresses) = .refused) ∧
    (depth t events = 0 →
      (∀ address, (Egress.run events).connect t address = .reached address) ∧
      ∀ host answer, (Egress.run events).getaddrinfo caseMap t host answer ≠ .refused) ∧
    ∀ others : List (EgressEvent T), (.installGuard ∈ others ↔ .installGuard ∈ events) →
      depth t others = depth t events →
        (∀ address, (Egress.run others).connect t address =
          (Egress.run events).connect t address) ∧
        ∀ host answer, (Egress.run others).getaddrinfo caseMap t host answer =
          (Egress.run events).getaddrinfo caseMap t host answer := by
  refine ⟨fun hinstalled hdepth => ⟨fun address address' hreached => ?_,
      fun host addresses hblocked => ?_⟩, fun hdepth => ⟨fun address => ?_,
      fun host answer => ?_⟩, fun others hinstalled hdepth => ⟨fun address => ?_,
      fun host answer => ?_⟩⟩
  · rw [connect_run] at hreached
    split at hreached
    · cases hreached
    · rename_i hallowed
      cases hreached
      rw [← targetIsBlocked_eq_false_iff, ← Bool.not_eq_true]
      exact fun hblocked => hallowed ⟨hinstalled, hdepth, hblocked⟩
  · rw [getaddrinfo_run]
    exact if_pos ⟨hinstalled, hdepth, (answerIsBlocked_iff caseMap host addresses).mpr hblocked⟩
  · rw [connect_run, if_neg (by omega)]
  · rw [getaddrinfo_run]
    cases answer with
    | none => nofun
    | some addresses =>
        simp only [if_neg (show ¬(.installGuard ∈ events ∧ 0 < depth t events ∧
          answerIsBlocked caseMap host addresses = true) by omega)]
        nofun
  · simp only [connect_run, hinstalled, hdepth]
  · simp only [getaddrinfo_run, hinstalled, hdepth]

/-- A block entered in a process where the guard was never installed refuses nothing. -/
theorem never_installed_reaches_loopback :
    0 < depth () [.enter ()] ∧ ¬Vetted (dotted 127 0 0 1) ∧
      (Egress.run [.enter ()]).connect () (.tuple [some (dotted 127 0 0 1), some (py "80")]) =
        .reached (.tuple [some (dotted 127 0 0 1), some (py "80")]) := by
  refine ⟨by decide, ?_, rfl⟩
  rw [vetted_dotted_iff]
  exact fun h => h.2.2.1 rfl

end Runs

end ProbeAgent
