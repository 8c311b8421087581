import ProbeAgent.RunProgress
import ProbeAgent.PyValue
import ProbeAgent.LastIndex
import Mathlib.Data.Rat.Floor

/-!
# Whose each timed-out call is (`_attribute_call_timeouts`)

A timed-out call is judged by the last timeout record in its window, which is the
time between its two stamps with ten milliseconds of slack on either side, as doubles
have it.  Calls run back to back, so a record of the call before or after can fall into
the window.

`own_evidence_iff` says when that matters: each call is judged by the last record made
during it, and as unknown if there is none, exactly when every other record in its
window is followed by one of its own.
-/

namespace ProbeAgent

open PyText LastIndex Rounding

/-- A call of a result, by the fields read here; a missing field is None. -/
structure CallRecord where
  index : Json
  outcome : Json
  startedAt : Json
  endedAt : Json

/-- `call.get("outcome") == "timeout"`. -/
def CallRecord.timedOut (call : CallRecord) : Bool :=
  match call.outcome with
  | .str s => s == py "timeout"
  | _ => false

/-- What a record says besides its verdict and when it was made. -/
structure Evidence where
  phase : Phase
  method : PyStr
  url : PyStr
  target : Target
  tcp : Option TcpInfo

/-- An entry of the attribution's `calls`. -/
structure Judged where
  callIndex : Json
  verdict : Verdict
  reason : String
  evidence : Option Evidence

/-- The entry a record makes, or its absence. -/
def Judged.of (callIndex : Json) : Option TimeoutRecord → Judged
  | some t => ⟨callIndex, t.verdict, t.reason, some ⟨t.phase, t.method, t.url, t.target, t.tcp⟩⟩
  | none => ⟨callIndex, .unknown, "the timeout was not observed on a connection", none⟩

structure Attribution where
  verdict : Verdict
  calls : List Judged
  target : Option Target

/-- How a run's verdict is drawn from its calls': the first that applies wins. -/
def verdictOrder : List Verdict :=
  [.endpoint, .unknown, .network, .agent]

/-- `0.01`. -/
def slack : ℚ := double (1 / 100)

/-- A datetime with an offset, by the microseconds since the epoch.  Its own year is one
of 1 to 9999. -/
structure Aware where
  micros : ℤ
  inYears : |micros| ≤ 253402387200 * 10 ^ 6

/-- A datetime.  One without an offset stands for a local time, and what its timestamp is
depends on the machine. -/
inductive Datetime
  | aware (d : Aware)
  | naive (timestamp : ℚ)

def Datetime.timestamp : Datetime → ℚ
  | aware d => double (d.micros / 10 ^ 6)
  | naive timestamp => timestamp

section Attribute

-- `datetime.fromisoformat(str(value))`, which is none where it raises ValueError
variable (fromisoformat : Json → Option Datetime)

/-- `_parse_iso`. -/
def parseIso (value : Json) : Option ℚ :=
  (fromisoformat value).map Datetime.timestamp

/-- The instant is between the stamps of the call, give or take the slack. -/
def inWindow (call : CallRecord) (at_ : ℚ) : Bool :=
  match parseIso fromisoformat call.startedAt, parseIso fromisoformat call.endedAt with
  | some started, some ended =>
      decide (double (started - slack) ≤ at_ ∧ at_ ≤ double (ended + slack))
  | _, _ => false

def judge (timeouts : List TimeoutRecord) (call : CallRecord) : Judged :=
  .of call.index (timeouts.filter fun t => inWindow fromisoformat call t.at_).getLast?

/-- Who each timed-out call's stall belongs to, and the run's verdict. -/
def attributeCallTimeouts (calls : List CallRecord) (timeouts : List TimeoutRecord) :
    Except PyExc (Option Attribution) :=
  match calls.filter CallRecord.timedOut with
  | [] => .ok none
  | timedOut =>
      let judged := timedOut.map (judge fromisoformat timeouts)
      match verdictOrder.find? fun v => judged.any fun j => decide (j.verdict = v) with
      | none => .error .stopIteration
      | some runVerdict =>
          let target := judged.findSome? fun j =>
            if j.verdict = .network then j.evidence.map Evidence.target else none
          .ok (some ⟨runVerdict, judged, if runVerdict = .network then target else none⟩)

end Attribute

/-! ## The record a call is judged by -/

/-- The instant truncated to milliseconds, as the executor's stamps have it. -/
def truncMs (q : ℚ) : ℚ := ⌊q * 1000⌋ / 1000

/-- The stamp is that of the instant, truncated to milliseconds. -/
def StampOf (fromisoformat : Json → Option Datetime) (value : Json) (q : ℚ) : Prop :=
  ∃ d, fromisoformat value = some (.aware d) ∧ d.micros = ⌊q * 1000⌋ * 1000

/-- Where the window of a call that started then opens. -/
def windowStart (q : ℚ) : ℚ := double (double (truncMs q) - slack)

/-- Where the window of a call that ended then shuts. -/
def windowEnd (q : ℚ) : ℚ := double (double (truncMs q) + slack)

/-- Where the record is that the call is judged by. -/
def judgedBy (fromisoformat : Json → Option Datetime) (timeouts : List TimeoutRecord)
    (call : CallRecord) : Option Nat :=
  lastIndex (fun k => (timeouts[k]?).any (fun t => inWindow fromisoformat call t.at_) = true)
    timeouts.length

/-- Where the last record is that was made during the call of that number. -/
def lastMade (madeDuring : Nat → Nat) (timeouts : List TimeoutRecord) (i : Nat) : Option Nat :=
  lastIndex (fun k => madeDuring k = i) timeouts.length

/-- The calls of a result ran one after another, their stamps are the real instants
truncated to milliseconds, and each record was made during one of them. -/
structure Observed (fromisoformat : Json → Option Datetime) (calls : List CallRecord)
    (timeouts : List TimeoutRecord) (began ended : Nat → ℚ) (madeDuring : Nat → Nat) : Prop where
  lasts : ∀ i, i < calls.length → began i ≤ ended i
  sequential : ∀ i, i + 1 < calls.length → ended i ≤ began (i + 1)
  startedAt : ∀ (i : Nat) call, calls[i]? = some call →
    StampOf fromisoformat call.startedAt (began i)
  endedAt : ∀ (i : Nat) call, calls[i]? = some call →
    StampOf fromisoformat call.endedAt (ended i)
  made : ∀ (k : Nat) t, timeouts[k]? = some t →
    madeDuring k < calls.length ∧ began (madeDuring k) ≤ t.at_ ∧ t.at_ ≤ ended (madeDuring k)

/-- Each timed-out call is judged by the last record made during it, and by none if
there is none. -/
def JudgedByOwn (fromisoformat : Json → Option Datetime) (calls : List CallRecord)
    (timeouts : List TimeoutRecord) (madeDuring : Nat → Nat) : Prop :=
  ∀ (i : Nat) call, calls[i]? = some call → call.timedOut = true →
    judgedBy fromisoformat timeouts call = lastMade madeDuring timeouts i

/-- In the window of each timed-out call, every record made during another call is
followed by one of its own. -/
def OthersFollowed (calls : List CallRecord) (timeouts : List TimeoutRecord)
    (began ended : Nat → ℚ) (madeDuring : Nat → Nat) : Prop :=
  ∀ (i : Nat) call, calls[i]? = some call → call.timedOut = true →
    ∀ (k : Nat) t, timeouts[k]? = some t →
      windowStart (began i) ≤ t.at_ → t.at_ ≤ windowEnd (ended i) →
      madeDuring k ≠ i → ∃ m, k < m ∧ m < timeouts.length ∧ madeDuring m = i

theorem truncMs_le (q : ℚ) : truncMs q ≤ q := by
  have hfloor := Int.floor_le (q * 1000)
  rw [truncMs, div_le_iff₀ (by norm_num)]
  exact hfloor

theorem lt_truncMs_add (q : ℚ) : q < truncMs q + 1 / 1000 := by
  have hfloor := Int.lt_floor_add_one (q * 1000)
  have hsplit : truncMs q + 1 / 1000 = ((⌊q * 1000⌋ : ℚ) + 1) / 1000 := by
    rw [truncMs]
    ring
  rw [hsplit, lt_div_iff₀ (by norm_num)]
  exact hfloor

section Stamps

variable {fromisoformat : Json → Option Datetime} {value : Json} {q : ℚ}

theorem truncMs_eq_of_micros {micros : ℤ} (h : micros = ⌊q * 1000⌋ * 1000) :
    truncMs q = micros / 10 ^ 6 := by
  rw [truncMs, h]
  push_cast
  ring

theorem StampOf.parseIso (h : StampOf fromisoformat value q) :
    parseIso fromisoformat value = some (double (truncMs q)) := by
  obtain ⟨d, hd, hmicros⟩ := h
  rw [ProbeAgent.parseIso, hd, Option.map_some, Datetime.timestamp, truncMs_eq_of_micros hmicros]

/-- The stamps of a datetime are below the 38th power of two. -/
theorem StampOf.truncMs_lt (h : StampOf fromisoformat value q) : |truncMs q| < 2 ^ (38 : ℤ) := by
  obtain ⟨d, -, hmicros⟩ := h
  have hyears : |(d.micros : ℚ)| ≤ 253402387200 * 10 ^ 6 := by exact_mod_cast d.inYears
  rw [truncMs_eq_of_micros hmicros, abs_div, abs_of_pos (by norm_num : (0 : ℚ) < 10 ^ 6),
    div_lt_iff₀ (by norm_num)]
  norm_num at hyears ⊢
  linarith

/-- The two roundings take less from the slack than the stamps' truncation leaves of it. -/
theorem StampOf.window (h : StampOf fromisoformat value q) :
    windowStart q ≤ truncMs q - 1 / 200 ∧ truncMs q + 1 / 200 ≤ windowEnd q := by
  have hstamp := abs_lt.mp h.truncMs_lt
  have hfirst := abs_le.mp (abs_double_sub_le h.truncMs_lt (by decide))
  have hslack : slack = 5764607523034235 / 2 ^ 59 := by decide +kernel
  norm_num at hstamp hfirst hslack
  have hstart : |double (truncMs q) - slack| < 2 ^ (39 : ℤ) := by
    rw [abs_lt]
    norm_num
    constructor <;> linarith
  have hend : |double (truncMs q) + slack| < 2 ^ (39 : ℤ) := by
    rw [abs_lt]
    norm_num
    constructor <;> linarith
  have hstart' := abs_le.mp (abs_double_sub_le hstart (by decide))
  have hend' := abs_le.mp (abs_double_sub_le hend (by decide))
  norm_num at hstart' hend'
  unfold windowStart windowEnd
  constructor <;> linarith

theorem StampOf.windowStart_le (h : StampOf fromisoformat value q) : windowStart q ≤ q := by
  have hstart := h.window.1
  have htrunc := truncMs_le q
  linarith

theorem StampOf.le_windowEnd (h : StampOf fromisoformat value q) : q ≤ windowEnd q := by
  have hend := h.window.2
  have htrunc := lt_truncMs_add q
  linarith

/-- The window of a call, by the real instants. -/
theorem inWindow_iff {call : CallRecord} {began ended : ℚ}
    (hbegan : StampOf fromisoformat call.startedAt began)
    (hended : StampOf fromisoformat call.endedAt ended) (at_ : ℚ) :
    inWindow fromisoformat call at_ = true ↔ windowStart began ≤ at_ ∧ at_ ≤ windowEnd ended := by
  rw [inWindow, hbegan.parseIso, hended.parseIso]
  exact decide_eq_true_iff

end Stamps

/-! ## The verdict of a run -/

/-- The precedence among the verdicts of a run's calls. -/
def precedence (verdicts : List Verdict) : Verdict :=
  if .endpoint ∈ verdicts then .endpoint
  else if .unknown ∈ verdicts then .unknown
  else if .network ∈ verdicts then .network
  else .agent

theorem precedence_congr {vs ws : List Verdict} (h : ∀ v, v ∈ vs ↔ v ∈ ws) :
    precedence vs = precedence ws := by
  simp only [precedence, h]

theorem precedence_mem {verdicts : List Verdict} (h : verdicts ≠ []) :
    precedence verdicts ∈ verdicts := by
  unfold precedence
  split_ifs with hendpoint hunknown hnetwork
  · exact hendpoint
  · exact hunknown
  · exact hnetwork
  · obtain ⟨v, hv⟩ := List.exists_mem_of_ne_nil verdicts h
    cases v with
    | endpoint => exact absurd hv hendpoint
    | unknown => exact absurd hv hunknown
    | network => exact absurd hv hnetwork
    | agent => exact hv

/-- The search in the order finds the verdict that takes precedence. -/
theorem verdictOrder_find? {judged : List Judged} (h : judged ≠ []) :
    (verdictOrder.find? fun v => judged.any fun j => decide (j.verdict = v)) =
      some (precedence (judged.map Judged.verdict)) := by
  have hany : ∀ v, (judged.any fun j => decide (j.verdict = v)) =
      decide (v ∈ judged.map Judged.verdict) := by
    intro v
    rw [Bool.eq_iff_iff, List.any_eq_true, decide_eq_true_iff, List.mem_map]
    simp
  have hsome : judged.map Judged.verdict ≠ [] := by simpa using h
  have hmem := precedence_mem hsome
  simp only [verdictOrder, hany]
  generalize judged.map Judged.verdict = verdicts at hmem ⊢
  unfold precedence at hmem ⊢
  split_ifs at hmem ⊢ with hendpoint hunknown hnetwork
  · simp [hendpoint]
  · simp [hendpoint, hunknown]
  · simp [hendpoint, hunknown, hnetwork]
  · simp [hendpoint, hunknown, hnetwork, hmem]

/-- The target of the first entry against the network. -/
def networkTarget (judged : List Judged) : Option Target :=
  judged.findSome? fun j => if j.verdict = .network then j.evidence.map Evidence.target else none

/-- What the attribution of a run with timed-out calls is. -/
theorem attributeCallTimeouts_eq (fromisoformat : Json → Option Datetime) (calls : List CallRecord)
    (timeouts : List TimeoutRecord) :
    attributeCallTimeouts fromisoformat calls timeouts =
      .ok (if calls.filter CallRecord.timedOut = [] then none
        else
          let judged := (calls.filter CallRecord.timedOut).map (judge fromisoformat timeouts)
          let verdict := precedence (judged.map Judged.verdict)
          some ⟨verdict, judged, if verdict = .network then networkTarget judged else none⟩) := by
  unfold attributeCallTimeouts
  cases htimed : calls.filter CallRecord.timedOut with
  | nil => rfl
  | cons call rest =>
      have hsome : (call :: rest).map (judge fromisoformat timeouts) ≠ [] := by simp
      simp only [verdictOrder_find? hsome, reduceCtorEq, if_false]
      rfl

/-! ## The windows of the calls -/

section Windows

variable {fromisoformat : Json → Option Datetime} {calls : List CallRecord}
  {timeouts : List TimeoutRecord} {began ended : Nat → ℚ} {madeDuring : Nat → Nat}

/-- A record made during a call is in its window. -/
theorem Observed.own_inWindow (h : Observed fromisoformat calls timeouts began ended madeDuring)
    {i k : Nat} {call : CallRecord} (hcall : calls[i]? = some call) (hk : k < timeouts.length)
    (hmade : madeDuring k = i) :
    (timeouts[k]?).any (fun t => inWindow fromisoformat call t.at_) = true := by
  have hstart := h.startedAt i call hcall
  have hend := h.endedAt i call hcall
  rw [List.getElem?_eq_getElem hk, Option.any_some, inWindow_iff hstart hend]
  obtain ⟨-, hbegan, hended⟩ := h.made k _ (List.getElem?_eq_getElem hk)
  rw [hmade] at hbegan hended
  exact ⟨hstart.windowStart_le.trans hbegan, hended.trans hend.le_windowEnd⟩

/-- The entry of a call is made of the record it is judged by. -/
theorem judge_eq (timeouts : List TimeoutRecord) (call : CallRecord) :
    judge fromisoformat timeouts call =
      .of call.index ((judgedBy fromisoformat timeouts call).bind fun k => timeouts[k]?) := by
  rw [judge, getLast?_filter, judgedBy]

/-- The attribution does not raise, and has an entry for each timed-out call, in their
order. -/
theorem attributeCallTimeouts_calls (fromisoformat : Json → Option Datetime)
    (calls : List CallRecord) (timeouts : List TimeoutRecord) :
    ∃ out, attributeCallTimeouts fromisoformat calls timeouts = .ok out ∧
      ((out.map Attribution.calls).getD []) =
        (calls.filter CallRecord.timedOut).map (judge fromisoformat timeouts) := by
  refine ⟨_, attributeCallTimeouts_eq fromisoformat calls timeouts, ?_⟩
  split
  · rename_i hnone
    rw [hnone]
    rfl
  · rfl

/-- **Its own evidence.** The entries of the timed-out calls are made of the records
they are judged by; and these are, for each, the last one made during it, or none,
exactly if every record of another call in its window is followed by one of its own. -/
theorem own_evidence_iff (h : Observed fromisoformat calls timeouts began ended madeDuring) :
    (∃ out, attributeCallTimeouts fromisoformat calls timeouts = .ok out ∧
      (out.map Attribution.calls).getD [] =
        (calls.filter CallRecord.timedOut).map fun call =>
          .of call.index ((judgedBy fromisoformat timeouts call).bind fun k => timeouts[k]?)) ∧
    (JudgedByOwn fromisoformat calls timeouts madeDuring ↔
      OthersFollowed calls timeouts began ended madeDuring) := by
  constructor
  · obtain ⟨out, hout, hcalls⟩ := attributeCallTimeouts_calls fromisoformat calls timeouts
    refine ⟨out, hout, hcalls.trans ?_⟩
    exact List.map_congr_left fun call _ => judge_eq timeouts call
  · refine forall_congr' fun i => forall_congr' fun call => forall_congr' fun hcall =>
      forall_congr' fun _ => ?_
    rw [judgedBy, lastMade, lastIndex_eq_iff _ _ (fun k hk => h.own_inWindow hcall hk)]
    constructor
    · intro hfollowed k t ht hbegan hended hother
      obtain ⟨hk, -⟩ := List.getElem?_eq_some_iff.mp ht
      refine hfollowed k hk ?_ hother
      rw [ht, Option.any_some, inWindow_iff (h.startedAt i call hcall) (h.endedAt i call hcall)]
      exact ⟨hbegan, hended⟩
    · intro hfollowed k hk hwindow hother
      have ht := List.getElem?_eq_getElem hk
      rw [ht, Option.any_some,
        inWindow_iff (h.startedAt i call hcall) (h.endedAt i call hcall)] at hwindow
      exact hfollowed k _ ht hwindow.1 hwindow.2 hother

end Windows

section Sample

/-- `datetime.fromisoformat` on the three stamps below. -/
def sampleFromisoformat : Json → Option Datetime
  | .str s =>
      if s = py "2026-05-01T12:00:00.000Z" then some (.aware ⟨1777636800000000, by decide⟩)
      else if s = py "2026-05-01T12:00:01.000Z" then some (.aware ⟨1777636801000000, by decide⟩)
      else if s = py "2026-05-01T12:00:02.000Z" then some (.aware ⟨1777636802000000, by decide⟩)
      else none
  | _ => none

/-- Two calls of a second each, back to back, both timed out. -/
def sampleCalls : List CallRecord :=
  [⟨.int 0, .str (py "timeout"), .str (py "2026-05-01T12:00:00.000Z"),
      .str (py "2026-05-01T12:00:01.000Z")⟩,
    ⟨.int 1, .str (py "timeout"), .str (py "2026-05-01T12:00:01.000Z"),
      .str (py "2026-05-01T12:00:02.000Z")⟩]

def sampleBegan : Nat → ℚ := fun i => 1777636800 + i

/-- A timer that expires while the response is awaited. -/
def sampleTimeout (now : ℚ) : TimeoutRecord :=
  ⟨now, .awaitingResponse, .endpoint,
    "the endpoint acknowledged everything sent and the path lost nothing", py "GET",
    py "http://api.example.com/", ⟨py "api.example.com", 80, false⟩, none⟩

theorem sampleCalls_observed (timeouts : List TimeoutRecord) (madeDuring : Nat → Nat)
    (hmade : ∀ (k : Nat) t, timeouts[k]? = some t → madeDuring k < 2 ∧
      sampleBegan (madeDuring k) ≤ t.at_ ∧ t.at_ ≤ sampleBegan (madeDuring k + 1)) :
    Observed sampleFromisoformat sampleCalls timeouts sampleBegan (fun i => sampleBegan (i + 1))
      madeDuring := by
  refine ⟨?_, ?_, ?_, ?_, hmade⟩
  · intro i _
    simp [sampleBegan]
  · intro i _
    exact le_rfl
  · intro i call hcall
    rcases i with _ | _ | i
    · cases hcall
      exact ⟨_, rfl, by decide +kernel⟩
    · cases hcall
      exact ⟨_, rfl, by decide +kernel⟩
    · cases hcall
  · intro i call hcall
    rcases i with _ | _ | i
    · cases hcall
      exact ⟨_, rfl, by decide +kernel⟩
    · cases hcall
      exact ⟨_, rfl, by decide +kernel⟩
    · cases hcall

/-- The first call's timer expires on a connection at the very end of the call, the
second call's where no hook is. -/
theorem judged_by_call_before :
    ¬∀ fromisoformat calls timeouts began ended madeDuring,
      Observed fromisoformat calls timeouts began ended madeDuring →
        JudgedByOwn fromisoformat calls timeouts madeDuring := by
  intro h
  have hobserved := sampleCalls_observed [sampleTimeout 1777636801] (fun _ => 0) (by
    intro k t ht
    rcases k with _ | k
    · cases ht
      decide +kernel
    · cases ht)
  have hjudged := h _ _ _ _ _ _ hobserved 1 _ rfl rfl
  revert hjudged
  decide +kernel

/-- Both timers expire on a connection, at the very end of their calls. -/
def sampleTimeouts : List TimeoutRecord :=
  [sampleTimeout 1777636801, sampleTimeout 1777636802]

theorem own_evidence_iff_both_recorded :
    (∃ out, attributeCallTimeouts sampleFromisoformat sampleCalls sampleTimeouts = .ok out ∧
      (out.map Attribution.calls).getD [] =
        (sampleCalls.filter CallRecord.timedOut).map fun call =>
          .of call.index
            ((judgedBy sampleFromisoformat sampleTimeouts call).bind fun k => sampleTimeouts[k]?)) ∧
    (JudgedByOwn sampleFromisoformat sampleCalls sampleTimeouts id ↔
      OthersFollowed sampleCalls sampleTimeouts sampleBegan (fun i => sampleBegan (i + 1)) id) :=
  own_evidence_iff (sampleCalls_observed sampleTimeouts id (by
    intro k t ht
    rcases k with _ | _ | k
    · cases ht
      decide +kernel
    · cases ht
      decide +kernel
    · cases ht))

end Sample

end ProbeAgent
