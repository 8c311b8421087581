import ProbeAgent.Rounding
import Mathlib.Tactic.NormNum
import Mathlib.Tactic.Positivity

/-!
# The verdict on a stalled connection (`services/tcp_state.py`)

What the kernel reports of a connection, and whose a stall is judged to be from
the phase it stood in and that report.  The one verdict that needs no report is
the agent's: it depends on the phase alone (`verdict_agent_iff`).
-/

namespace ProbeAgent

open Rounding

/-- Where a run can be, as `run_progress` names it. -/
inductive Phase
  | starting
  | betweenRequests
  | resolving
  | connecting
  | tlsHandshake
  | sending
  | awaitingResponse
  | receiving
  | storingBodies
deriving DecidableEq

/-- The TCP states worth naming (`_STATES`); the others keep their number. -/
inductive ConnState
  | established
  | synSent
  | finWait1
  | close
  | closeWait
  | other (code : Nat)
deriving DecidableEq

/-- What is kept of `struct tcp_info` (`_KEPT`).  A field past what the kernel
filled is None. -/
structure TcpInfo where
  state : Option ConnState
  retransmits : Option Nat
  backoff : Option Nat
  unacked : Option Nat
  lost : Option Nat
  totalRetrans : Option Nat
  rtt : Option Nat
  minRtt : Option Nat
  lastDataRecv : Option Nat
  lastAckRecv : Option Nat
  bytesReceived : Option Nat
  dataSegsIn : Option Nat
  rcvOoopack : Option Nat
  dsackDups : Option Nat
deriving DecidableEq

inductive Verdict
  | endpoint
  | network
  | agent
  | unknown
deriving DecidableEq

/-- `_OOO_MIN`. -/
def oooMin : Nat := 2

/-- `_OOO_SHARE`, which is 0.01. -/
def oooShare : ℚ := double (1 / 100)

/-- Whether the connection shows packet loss, or none when it cannot tell. -/
def lossy (tcp : TcpInfo) : Option Bool :=
  if 0 < tcp.totalRetrans.getD 0 ∨ 0 < tcp.retransmits.getD 0 then some true
  else
    match tcp.rcvOoopack with
    | none => none
    | some ooo =>
        some (decide (oooMin ≤ ooo ∧ double (tcp.dataSegsIn.getD 0 * oooShare) ≤ ooo))

def wirePhases : List Phase :=
  [.connecting, .tlsHandshake, .sending, .awaitingResponse, .receiving]

def agentPhases : List Phase :=
  [.betweenRequests, .storingBodies]

/-- Who a stall belongs to, and why. -/
def verdict (phase : Phase) (tcp : Option TcpInfo) : Verdict × String :=
  if phase ∈ agentPhases then
    (.agent, "the run was in the agent's own work, outside any request")
  else if phase = .resolving then
    (.network, "the name did not resolve")
  else
    match tcp with
    | none => (.unknown, "no connection state to judge by")
    | some tcp =>
        if phase ∉ wirePhases then
          (.unknown, "no connection state to judge by")
        else if phase = .connecting ∨ tcp.state = some .synSent then
          (.network, "the connection was never accepted")
        else
          match lossy tcp with
          | some true => (.network, "the path was losing packets")
          | none => (.unknown, "this kernel does not report receive-side loss")
          | some false =>
              if 0 < tcp.unacked.getD 0 then
                (.unknown, "the last data sent was not yet acknowledged")
              else
                (.endpoint,
                  "the endpoint acknowledged everything sent and the path lost nothing")

/-! ## The share of the segments out of order -/

theorem oooShare_eq : oooShare = 5764607523034235 / 2 ^ 59 := by
  decide +kernel

/-- A hundred shares of a whole number are rounded to it or below. -/
theorem double_share_le {m : ℕ} (hm : m < 2 ^ 52) : double (m * (100 * oooShare)) ≤ m := by
  have hshare : (m : ℚ) * (100 * oooShare) = m + m * (12 / 2 ^ 59) := by
    rw [oooShare_eq]
    ring
  rcases Nat.eq_zero_or_pos m with rfl | hpos
  · have hzero : double 0 = 0 := by decide +kernel
    simp [hzero]
  · have hone : (1 : ℚ) ≤ m := by exact_mod_cast hpos
    refine double_le_natCast hpos hm ?_ ?_
    · rw [hshare]
      linarith
    · rw [hshare]
      linarith

/-- **The share in doubles.** Of segments that 32 bits count, one in a hundred is what the
product of doubles makes it. -/
theorem share_le_iff {segs ooo : ℕ} (hsegs : segs < 2 ^ 32) :
    double (segs * oooShare) ≤ ooo ↔ segs ≤ 100 * ooo := by
  have hlt : (segs : ℚ) < 4294967296 := by exact_mod_cast hsegs
  constructor
  · intro hle
    by_contra hmore
    rw [not_le, ← Nat.succ_le_iff] at hmore
    have hcast : (100 * ooo + 1 : ℚ) ≤ segs := by exact_mod_cast hmore
    have hnonneg : (0 : ℚ) ≤ segs := Nat.cast_nonneg _
    have hbound : |(segs : ℚ) * oooShare| < 2 ^ (26 : ℤ) := by
      rw [oooShare_eq, abs_of_nonneg (by positivity)]
      norm_num
      linarith
    have hnear := (abs_le.mp (abs_double_sub_le hbound (by decide))).1
    rw [oooShare_eq] at hle hnear
    norm_num at hnear hle
    linarith
  · intro hle
    have hceil : segs ≤ 100 * ((segs + 99) / 100) := by omega
    have hcast : (segs : ℚ) ≤ 100 * ((segs + 99) / 100 : ℕ) := by exact_mod_cast hceil
    have hshare : 0 < oooShare := by
      rw [oooShare_eq]
      norm_num
    calc double (segs * oooShare)
        ≤ double (((segs + 99) / 100 : ℕ) * (100 * oooShare)) := by
          refine double_mono (by positivity) ?_
          have hscaled := mul_le_mul_of_nonneg_right hcast hshare.le
          linarith
      _ ≤ ((segs + 99) / 100 : ℕ) := double_share_le (by omega)
      _ ≤ ooo := by
          have hmost : (segs + 99) / 100 ≤ ooo := by omega
          exact_mod_cast hmost

/-! ## What a verdict says -/

/-- A stall is the agent's exactly in its own phases, whatever the kernel says. -/
theorem verdict_agent_iff (phase : Phase) (tcp : Option TcpInfo) :
    (verdict phase tcp).1 = .agent ↔ phase ∈ agentPhases := by
  unfold verdict
  by_cases hphase : phase ∈ agentPhases
  · rw [if_pos hphase]
    exact ⟨fun _ => hphase, fun _ => rfl⟩
  · -- no other branch names the agent
    rw [if_neg hphase]
    refine ⟨fun h => ?_, fun h => absurd h hphase⟩
    repeat' split at h
    all_goals cases h

theorem lossy_eq_true_iff (tcp : TcpInfo) :
    lossy tcp = some true ↔
      0 < tcp.totalRetrans.getD 0 ∨ 0 < tcp.retransmits.getD 0 ∨
        ∃ ooo : Nat, tcp.rcvOoopack = some ooo ∧ oooMin ≤ ooo ∧
          double (tcp.dataSegsIn.getD 0 * oooShare) ≤ ooo := by
  rw [lossy, ← or_assoc]
  split
  · rename_i h
    exact iff_of_true rfl (.inl h)
  · rename_i h
    rw [or_iff_right h]
    cases tcp.rcvOoopack <;> simp

theorem lossy_eq_false_iff (tcp : TcpInfo) :
    lossy tcp = some false ↔
      tcp.totalRetrans.getD 0 = 0 ∧ tcp.retransmits.getD 0 = 0 ∧
        ∃ ooo : Nat, tcp.rcvOoopack = some ooo ∧
          ¬(oooMin ≤ ooo ∧ double (tcp.dataSegsIn.getD 0 * oooShare) ≤ ooo) := by
  rw [lossy, ← and_assoc, ← Nat.le_zero, ← Nat.le_zero, ← Nat.not_lt, ← Nat.not_lt, ← not_or]
  split
  · rename_i h
    exact iff_of_false nofun (fun h' => h'.1 h)
  · rename_i h
    rw [and_iff_right h]
    cases tcp.rcvOoopack <;> simp

theorem verdict_of_wire {phase : Phase} (hwire : phase ∈ wirePhases) (t : TcpInfo) :
    (verdict phase (some t)).1 =
      if phase = .connecting ∨ t.state = some .synSent then .network
      else
        match lossy t with
        | some true => .network
        | none => .unknown
        | some false => if 0 < t.unacked.getD 0 then .unknown else .endpoint := by
  have hphase : ∀ phase ∈ wirePhases, phase ∉ agentPhases ∧ phase ≠ .resolving := by
    decide
  obtain ⟨hagent, hresolving⟩ := hphase phase hwire
  rw [verdict, if_neg hagent, if_neg hresolving]
  simp only [hwire, not_true, if_false]
  split
  · rfl
  · cases lossy t with
    | none => rfl
    | some loss =>
        cases loss with
        | true => rfl
        | false =>
            simp only
            split <;> rfl

/-- A stall is the network's where the name did not resolve, or something of the
connection says so. -/
theorem verdict_network_iff (phase : Phase) (tcp : Option TcpInfo) :
    (verdict phase tcp).1 = .network ↔
      phase = .resolving ∨
        ∃ t, tcp = some t ∧ phase ∈ wirePhases ∧
          (phase = .connecting ∨ t.state = some .synSent ∨ lossy t = some true) := by
  cases tcp with
  | none =>
      cases phase <;> simp [verdict, agentPhases]
  | some t =>
      by_cases hwire : phase ∈ wirePhases
      · have hresolving : phase ≠ .resolving := by
          rintro rfl
          revert hwire
          decide
        rw [verdict_of_wire hwire, or_iff_right hresolving]
        simp only [hwire, Option.some.injEq, exists_eq_left', true_and]
        by_cases hsyn : phase = .connecting ∨ t.state = some .synSent
        · rw [if_pos hsyn, ← or_assoc]
          exact iff_of_true rfl (.inl hsyn)
        · rw [if_neg hsyn, ← or_assoc, or_iff_right hsyn]
          cases lossy t with
          | none => simp
          | some loss =>
              cases loss with
              | true => simp
              | false => by_cases hunacked : 0 < t.unacked.getD 0 <;> simp [hunacked]
      · simp only [hwire, false_and, and_false, exists_false, or_false]
        revert hwire
        cases phase <;> simp [verdict, agentPhases, wirePhases]

/-- The endpoint is blamed where the connection stands, nothing was lost, and nothing
waits for its acknowledgement. -/
theorem verdict_endpoint_iff (phase : Phase) (tcp : Option TcpInfo) :
    (verdict phase tcp).1 = .endpoint ↔
      ∃ t, tcp = some t ∧ phase ∈ wirePhases ∧ phase ≠ .connecting ∧ t.state ≠ some .synSent ∧
        lossy t = some false ∧ t.unacked.getD 0 = 0 := by
  cases tcp with
  | none =>
      cases phase <;> simp [verdict, agentPhases]
  | some t =>
      by_cases hwire : phase ∈ wirePhases
      · rw [verdict_of_wire hwire]
        simp only [hwire, Option.some.injEq, exists_eq_left', true_and]
        by_cases hsyn : phase = .connecting ∨ t.state = some .synSent
        · rw [if_pos hsyn]
          refine iff_of_false nofun ?_
          rintro ⟨hconnecting, hstate, -⟩
          exact hsyn.elim hconnecting hstate
        · rw [if_neg hsyn]
          rw [not_or] at hsyn
          simp only [hsyn.1, hsyn.2, ne_eq, not_false_eq_true, true_and]
          cases lossy t with
          | none => simp
          | some loss =>
              cases loss with
              | true => simp
              | false =>
                  by_cases hunacked : 0 < t.unacked.getD 0
                  · simp only [hunacked, if_true, true_and]
                    exact iff_of_false nofun (by omega)
                  · simp only [hunacked, if_false, true_and, true_iff]
                    omega
      · simp only [hwire, false_and, and_false, exists_false, iff_false]
        revert hwire
        cases phase <;> simp [verdict, agentPhases, wirePhases]

end ProbeAgent
