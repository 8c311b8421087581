import ProbeAgent.Attribution
import ProbeAgent.SurvivedExpiry

/-!
# Whose a run's timeout is

The run's verdict is drawn from its timed-out calls' by `_attribute_call_timeouts`, and
for a run that outlives its budget `_run_budget_timeout` takes it from the snapshot.

* `run_verdict_of_calls`: the first always gives a verdict, by a precedence that no
  order of the calls changes, and a target exactly with a verdict against the network.
* `stand_in_agrees_iff`: the two agree exactly when no timer that expired before, as the
  last one in the window of its call, speaks for what ranks before the stall, and the
  stalled call gets a record of its own or another call has one that speaks for the same.
-/

namespace ProbeAgent

open PyText Runs

/-! ## Where the records come from -/

/-- The hook puts the record down for the timer of the request. -/
def TimeoutRecord.MadeFor (t : TimeoutRecord) (r : Request) : Prop :=
  ∃ (p : RunProgress) (now : ℚ) (tcp : Option TcpInfo),
    p.request = some r ∧ (p.onTimeout now tcp).timeouts = p.timeouts ++ [t]

/-- Every record was put down by the hook. -/
def RunProgress.Recorded (p : RunProgress) : Prop :=
  ∀ t ∈ p.timeouts, ∃ r, t.MadeFor r

/-- The record of a run whose hooks were called in this order. -/
def RunProgress.hooks (p : RunProgress) (events : List HookEvent) : RunProgress :=
  events.foldl RunProgress.hook p

/-- A request whose timer has not expired before gets an entry. -/
theorem RunProgress.onTimeout_of_fresh {p : RunProgress} {r : Request}
    (hr : p.request = some r) (hfresh : r.timedOut = false) (now : ℚ) (tcp : Option TcpInfo) :
    ∃ t, (p.onTimeout now tcp).timeouts = p.timeouts ++ [t] ∧ t.at_ = now ∧
      t.verdict = (verdict p.phase tcp).1 := by
  rw [onTimeout, hr]
  simp only [hfresh]
  exact ⟨_, rfl, rfl, rfl⟩

/-- Otherwise nothing is put down. -/
theorem RunProgress.onTimeout_of_not_fresh {p : RunProgress}
    (h : ∀ r, p.request = some r → r.timedOut = true) (now : ℚ) (tcp : Option TcpInfo) :
    p.onTimeout now tcp = p := by
  unfold onTimeout
  split
  · rfl
  · rename_i r hr
    rw [if_pos (h r hr)]

theorem RunProgress.onTimeout_timeouts (p : RunProgress) (now : ℚ) (tcp : Option TcpInfo) :
    (p.onTimeout now tcp).timeouts = p.timeouts ∨
      ∃ t r, (p.onTimeout now tcp).timeouts = p.timeouts ++ [t] ∧ t.MadeFor r := by
  by_cases h : ∀ r, p.request = some r → r.timedOut = true
  · exact .inl (by rw [onTimeout_of_not_fresh h])
  · push Not at h
    obtain ⟨r, hr, hfresh⟩ := h
    obtain ⟨t, ht, -⟩ := onTimeout_of_fresh hr (Bool.eq_false_iff.mpr hfresh) now tcp
    exact .inr ⟨t, r, ht, p, now, tcp, hr, ht⟩

namespace TimeoutRecord

variable {t : TimeoutRecord} {r : Request}

/-- A record says where its request went. -/
theorem MadeFor.target (h : t.MadeFor r) : t.target = r.target := by
  obtain ⟨p, now, tcp, hr, ht⟩ := h
  rw [RunProgress.onTimeout, hr] at ht
  simp only at ht
  split at ht
  · simp at ht
  · rw [List.append_cancel_left_eq, List.cons.injEq] at ht
    rw [← ht.1]

/-- A record's verdict is that on its phase and its report. -/
theorem MadeFor.verdict (h : t.MadeFor r) :
    t.verdict = (ProbeAgent.verdict t.phase t.tcp).1 := by
  obtain ⟨p, now, tcp, hr, ht⟩ := h
  rw [RunProgress.onTimeout, hr] at ht
  simp only at ht
  split at ht
  · simp at ht
  · rw [List.append_cancel_left_eq, List.cons.injEq] at ht
    rw [← ht.1]

end TimeoutRecord

/-- A hook puts down at most one record. -/
theorem RunProgress.hook_timeouts_cases (p : RunProgress) (e : HookEvent) :
    (p.hook e).timeouts = p.timeouts ∨
      ∃ t r, (p.hook e).timeouts = p.timeouts ++ [t] ∧ t.MadeFor r := by
  cases e with
  | request => exact .inl rfl
  | addressExpired now tcp => exact p.onTimeout_timeouts now tcp
  | headers conn head now =>
      simp only [hook]
      split
      · rcases p.close_cases conn now with hsame | ⟨-, -, htimeouts⟩
        · exact .inl (by rw [hsame])
        · exact .inl htimeouts
      · exact .inl rfl
  | expired now tcp => exact p.onTimeout_timeouts now tcp
  | closed conn now =>
      rcases p.close_cases conn now with hsame | ⟨-, -, htimeouts⟩
      · exact .inl (by rw [hook, hsame])
      · exact .inl htimeouts
  | _ => exact .inl (hook_timeouts trivial)

theorem RunProgress.Recorded.hook {p : RunProgress} (h : p.Recorded) (e : HookEvent) :
    (p.hook e).Recorded := by
  intro t ht
  rcases p.hook_timeouts_cases e with hsame | ⟨t', r, hnew, hmade⟩
  · rw [hsame] at ht
    exact h t ht
  · rw [hnew] at ht
    rcases List.mem_append.mp ht with ht | ht
    · exact h t ht
    · rw [List.mem_singleton.mp ht]
      exact ⟨r, hmade⟩

/-- Whatever the hooks are called for, they put every record down. -/
theorem RunProgress.Recorded.hooks {p : RunProgress} (h : p.Recorded) (events : List HookEvent) :
    (p.hooks events).Recorded := by
  induction events generalizing p with
  | nil => exact h
  | cons e events ih => exact ih (h.hook e)

/-! ## The verdict of a run that completes -/

section Attributed

variable (fromisoformat : Json → Option Datetime)

theorem judge_callIndex (timeouts : List TimeoutRecord) (call : CallRecord) :
    (judge fromisoformat timeouts call).callIndex = call.index := by
  unfold judge
  cases (timeouts.filter fun t => inWindow fromisoformat call t.at_).getLast? <;> rfl

/-- Only a record makes an entry against the network, and it names a target. -/
theorem judge_network {timeouts : List TimeoutRecord} {call : CallRecord}
    (h : (judge fromisoformat timeouts call).verdict = .network) :
    ∃ t ∈ timeouts, inWindow fromisoformat call t.at_ = true ∧ t.verdict = .network ∧
      (judge fromisoformat timeouts call).evidence.map Evidence.target = some t.target := by
  unfold judge at h ⊢
  cases hlast : (timeouts.filter fun t => inWindow fromisoformat call t.at_).getLast? with
  | none =>
      rw [hlast] at h
      cases h
  | some t =>
      rw [hlast] at h
      have hmem := List.mem_of_getLast? hlast
      rw [List.mem_filter] at hmem
      exact ⟨t, hmem.1, hmem.2, h, rfl⟩

/-- The target is that of a record against the network. -/
theorem networkTarget_eq_some {timeouts : List TimeoutRecord} {timedOut : List CallRecord}
    {target : Target}
    (h : networkTarget (timedOut.map (judge fromisoformat timeouts)) = some target) :
    ∃ call ∈ timedOut, ∃ t ∈ timeouts, inWindow fromisoformat call t.at_ = true ∧
      t.verdict = .network ∧ target = t.target := by
  obtain ⟨j, hj, hsome⟩ := List.exists_of_findSome?_eq_some h
  obtain ⟨call, hcall, rfl⟩ := List.mem_map.mp hj
  split at hsome
  · rename_i hnetwork
    obtain ⟨t, ht, hwindow, hverdict, hevidence⟩ := judge_network fromisoformat hnetwork
    rw [hevidence] at hsome
    exact ⟨call, hcall, t, ht, hwindow, hverdict, (Option.some.inj hsome).symm⟩
  · cases hsome

theorem networkTarget_isSome {timeouts : List TimeoutRecord} {timedOut : List CallRecord}
    (h : .network ∈ (timedOut.map (judge fromisoformat timeouts)).map Judged.verdict) :
    (networkTarget (timedOut.map (judge fromisoformat timeouts))).isSome := by
  obtain ⟨j, hj, hnetwork⟩ := List.mem_map.mp h
  obtain ⟨call, -, rfl⟩ := List.mem_map.mp hj
  obtain ⟨t, -, -, -, hevidence⟩ := judge_network fromisoformat hnetwork
  rw [networkTarget, List.findSome?_isSome_iff]
  exact ⟨_, hj, by rw [if_pos hnetwork, hevidence]; rfl⟩

/-- **The run's verdict.** For every result and every list of records the hooks put
down: there is an attribution exactly if a call timed out; it has an entry for each
such call, in their order; its verdict goes by the precedence, whatever the order of
the calls; and it has a target exactly if the verdict is against the network, that of a
request with that verdict. -/
theorem run_verdict_of_calls (calls : List CallRecord) (submitted : ℚ)
    (events : List HookEvent) :
    let timeouts := (RunProgress.hooks { phaseSince := submitted } events).timeouts
    ∃ out, attributeCallTimeouts fromisoformat calls timeouts = .ok out ∧
      (out = none ↔ ∀ call ∈ calls, call.timedOut = false) ∧
      ∀ a, out = some a →
        a.calls.map Judged.callIndex =
          (calls.filter CallRecord.timedOut).map CallRecord.index ∧
        a.verdict = precedence (a.calls.map Judged.verdict) ∧
        (∀ calls' : List CallRecord, calls'.Perm calls →
          ∃ a', attributeCallTimeouts fromisoformat calls' timeouts = .ok (some a') ∧
            a'.verdict = a.verdict) ∧
        (a.target.isSome ↔ a.verdict = .network) ∧
        ∀ target, a.target = some target →
          ∃ call ∈ calls, call.timedOut = true ∧
            ∃ t ∈ timeouts, inWindow fromisoformat call t.at_ = true ∧
              ∃ r, t.MadeFor r ∧ t.verdict = .network ∧ target = r.target := by
  intro timeouts
  have hrecorded : ∀ t ∈ timeouts, ∃ r, t.MadeFor r :=
    RunProgress.Recorded.hooks (p := { phaseSince := submitted }) (fun t ht => by cases ht) events
  refine ⟨_, attributeCallTimeouts_eq fromisoformat calls timeouts, ?_, ?_⟩
  · simp only [ite_eq_left_iff, reduceCtorEq, imp_false, not_not, List.filter_eq_nil_iff,
      Bool.not_eq_true]
  · intro a ha
    split at ha
    · cases ha
    · rename_i hsome
      cases ha
      refine ⟨?_, rfl, ?_, ?_, ?_⟩
      · rw [List.map_map]
        exact List.map_congr_left fun call _ => judge_callIndex fromisoformat timeouts call
      · intro calls' hperm
        have htimed := hperm.filter CallRecord.timedOut
        have hsome' : calls'.filter CallRecord.timedOut ≠ [] := by
          intro hnil
          rw [hnil] at htimed
          exact hsome (List.nil_perm.mp htimed)
        rw [attributeCallTimeouts_eq, if_neg hsome']
        refine ⟨_, rfl, precedence_congr fun v => ?_⟩
        exact ((htimed.map _).map _).mem_iff
      · simp only
        split_ifs with hnetwork
        · refine iff_of_true (networkTarget_isSome fromisoformat ?_) hnetwork
          rw [← hnetwork]
          exact precedence_mem (by simpa using hsome)
        · exact iff_of_false (by simp) hnetwork
      · intro target htarget
        simp only at htarget
        split_ifs at htarget
        obtain ⟨call, hcall, t, ht, hwindow, hverdict, heq⟩ :=
          networkTarget_eq_some fromisoformat htarget
        obtain ⟨hmem, htimed⟩ := List.mem_filter.mp hcall
        obtain ⟨r, hr⟩ := hrecorded t ht
        exact ⟨call, hmem, htimed, t, ht, hwindow, r, hr, hverdict, heq.trans hr.target⟩

end Attributed

/-! ## The verdict of a run that outlives its budget -/

/-- The attribution of a stand-in result. -/
structure StandIn where
  verdict : Verdict
  reason : String
  target : Option Target

/-- `_run_budget_timeout`, by the attribution it carries. -/
def runBudgetTimeout (stall : Option Stall) : Option StandIn :=
  stall.map fun s =>
    ⟨s.verdict, s.reason, if s.verdict = .network then s.request.map Prod.fst else none⟩

/-- The verdict on a run that stands here. -/
def RunProgress.stallVerdict (p : RunProgress) (tcp : Option TcpInfo) : Verdict :=
  (verdict p.phase (if p.request.isSome then tcp else none)).1

/-- The run has begun: there is something to say of where it stands. -/
def RunProgress.Begun (p : RunProgress) : Prop :=
  ¬(p.phase = .starting ∧ p.requestsCompleted = 0)

/-- The stalled call is named, and no timer of its request has expired before. -/
def RunProgress.Fresh (p : RunProgress) : Prop :=
  ∃ r, p.request = some r ∧ r.timedOut = false

/-- The place of a verdict in the order. -/
def Verdict.rank : Verdict → Nat
  | endpoint => 0
  | unknown => 1
  | network => 2
  | agent => 3

theorem Verdict.rank_injective : Function.Injective Verdict.rank := by
  intro v w h
  cases v <;> cases w <;> first | rfl | cases h

/-- What takes precedence is there, and nothing there ranks before it. -/
theorem precedence_eq_iff {verdicts : List Verdict} (h : verdicts ≠ []) (v : Verdict) :
    precedence verdicts = v ↔ v ∈ verdicts ∧ ∀ w ∈ verdicts, v.rank ≤ w.rank := by
  have hleast : ∀ w ∈ verdicts, (precedence verdicts).rank ≤ w.rank := by
    intro w hw
    unfold precedence
    split_ifs with hendpoint hunknown hnetwork
    · exact Nat.zero_le _
    · cases w with
      | endpoint => exact absurd hw hendpoint
      | _ => decide
    · cases w with
      | endpoint => exact absurd hw hendpoint
      | unknown => exact absurd hw hunknown
      | _ => decide
    · cases w with
      | endpoint => exact absurd hw hendpoint
      | unknown => exact absurd hw hunknown
      | network => exact absurd hw hnetwork
      | agent => decide
  constructor
  · rintro rfl
    exact ⟨precedence_mem h, hleast⟩
  · rintro ⟨hv, hfirst⟩
    exact Verdict.rank_injective (Nat.le_antisymm (hleast v hv) (hfirst _ (precedence_mem h)))

section StandIn

variable (fromisoformat : Json → Option Datetime)

/-- What there is to go by for a call: the last record in its window, if any. -/
inductive LastSeen (timeouts : List TimeoutRecord) (call : CallRecord) :
    Option TimeoutRecord → Prop
  | seen {before after : List TimeoutRecord} {t : TimeoutRecord} :
      timeouts = before ++ t :: after → inWindow fromisoformat call t.at_ = true →
      (∀ u ∈ after, inWindow fromisoformat call u.at_ = false) → LastSeen timeouts call (some t)
  | unseen :
      (∀ t ∈ timeouts, inWindow fromisoformat call t.at_ = false) → LastSeen timeouts call none

/-- Who answers for a timer that expired in that phase, with that report of the kernel;
nobody can say where no expiry was seen. -/
def speaksFor : Option TimeoutRecord → Verdict
  | some t => (verdict t.phase t.tcp).1
  | none => .unknown

/-- A call that ends in a timeout of its own at that instant. -/
structure EndsInTimeout (call : CallRecord) (at_ : ℚ) : Prop where
  timedOut : call.timedOut = true
  startedAt : ∃ began, StampOf fromisoformat call.startedAt began ∧ began ≤ at_
  endedAt : StampOf fromisoformat call.endedAt at_

/-- The stand-in's verdict, for a run that stands at `p`, is the one the run would have
had if the stalled call had ended in a timeout of its own. -/
def StandInAgrees (earlier : List CallRecord) (stalled : CallRecord) (p : RunProgress)
    (now at_ : ℚ) (tcp : Option TcpInfo) : Prop :=
  ∃ standIn a, runBudgetTimeout (p.snapshot now tcp) = some standIn ∧
    attributeCallTimeouts fromisoformat (earlier ++ [stalled]) (p.onTimeout at_ tcp).timeouts =
      .ok (some a) ∧
    standIn.verdict = a.verdict

/-- Nothing that is on record before the stall ranks before it, and something has its
rank: the stall itself, if its timer still can expire for the first time, or what is on
record for a timed-out call. -/
structure StallRanksFirst (earlier : List CallRecord) (stalled : CallRecord)
    (p : RunProgress) (at_ : ℚ) (tcp : Option TcpInfo) : Prop where
  begun : p.Begun
  /-- A call in whose window the stall itself falls is judged by that. -/
  first : ∀ call ∈ earlier ++ [stalled], call.timedOut = true →
    ¬(p.Fresh ∧ inWindow fromisoformat call at_ = true) →
    ∀ seen, LastSeen fromisoformat p.timeouts call seen →
      (p.stallVerdict tcp).rank ≤ (speaksFor seen).rank
  had : p.Fresh ∨ ∃ call ∈ earlier ++ [stalled], call.timedOut = true ∧
    ∃ seen, LastSeen fromisoformat p.timeouts call seen ∧ speaksFor seen = p.stallVerdict tcp

variable {fromisoformat}
variable {stalled call : CallRecord} {at_ : ℚ} {timeouts : List TimeoutRecord} {p : RunProgress}

/-- The relation says what the filter of the code finds. -/
theorem lastSeen_iff {seen : Option TimeoutRecord} :
    LastSeen fromisoformat timeouts call seen ↔
      (timeouts.filter fun t => inWindow fromisoformat call t.at_).getLast? = seen := by
  constructor
  · rintro (⟨rfl, hwindow, hafter⟩ | hnone)
    · rename_i before after t
      have hnil : (after.filter fun t => inWindow fromisoformat call t.at_) = [] :=
        List.filter_eq_nil_iff.mpr fun u hu => by simp [hafter u hu]
      simp only [List.filter_append, List.filter_cons, hwindow, hnil, if_true]
      exact List.getLast?_concat
    · rw [List.filter_eq_nil_iff.mpr fun t ht => by simp [hnone t ht]]
      rfl
  · rintro rfl
    cases hlast : (timeouts.filter fun t => inWindow fromisoformat call t.at_).getLast? with
    | none =>
        rw [List.getLast?_eq_none_iff, List.filter_eq_nil_iff] at hlast
        exact .unseen fun t ht => Bool.eq_false_iff.mpr (hlast t ht)
    | some t =>
        obtain ⟨kept, hkept⟩ := List.getLast?_eq_some_iff.mp hlast
        obtain ⟨before, rest, rfl, -, hrest⟩ := List.filter_eq_append_iff.mp hkept
        obtain ⟨skipped, after, rfl, -, hwindow, hafter⟩ := List.filter_eq_cons_iff.mp hrest
        refine .seen (List.append_assoc before skipped (t :: after)).symm hwindow fun u hu => ?_
        exact Bool.eq_false_iff.mpr (List.filter_eq_nil_iff.mp hafter u hu)

theorem exists_lastSeen (fromisoformat : Json → Option Datetime)
    (timeouts : List TimeoutRecord) (call : CallRecord) :
    ∃ seen, LastSeen fromisoformat timeouts call seen :=
  ⟨_, lastSeen_iff.mpr rfl⟩

theorem EndsInTimeout.inWindow (h : EndsInTimeout fromisoformat stalled at_) :
    inWindow fromisoformat stalled at_ = true := by
  obtain ⟨began, hstart, hle⟩ := h.startedAt
  rw [inWindow_iff hstart h.endedAt]
  exact ⟨hstart.windowStart_le.trans hle, h.endedAt.le_windowEnd⟩

/-- A call in whose window the stall's own record falls is judged by it. -/
theorem judge_verdict_of_stall (hfresh : p.Fresh)
    (hwindow : inWindow fromisoformat call at_ = true) (tcp : Option TcpInfo) :
    (judge fromisoformat (p.onTimeout at_ tcp).timeouts call).verdict = p.stallVerdict tcp := by
  obtain ⟨r, hr, htimed⟩ := hfresh
  obtain ⟨t, htimeouts, hat, hverdict⟩ := RunProgress.onTimeout_of_fresh hr htimed at_ tcp
  rw [← hat] at hwindow
  simp [judge, htimeouts, hwindow, Judged.of, hverdict, RunProgress.stallVerdict, hr]

/-- Any other call is judged by what was on record before. -/
theorem judge_verdict_of_lastSeen (hrecorded : p.Recorded)
    (hother : ¬(p.Fresh ∧ inWindow fromisoformat call at_ = true)) (tcp : Option TcpInfo)
    {seen : Option TimeoutRecord} (hseen : LastSeen fromisoformat p.timeouts call seen) :
    (judge fromisoformat (p.onTimeout at_ tcp).timeouts call).verdict = speaksFor seen := by
  have hkept : ((p.onTimeout at_ tcp).timeouts.filter fun t =>
      inWindow fromisoformat call t.at_) =
        p.timeouts.filter fun t => inWindow fromisoformat call t.at_ := by
    by_cases hfresh : p.Fresh
    · obtain ⟨r, hr, htimed⟩ := id hfresh
      obtain ⟨t, htimeouts, hat, -⟩ := RunProgress.onTimeout_of_fresh hr htimed at_ tcp
      have hout : inWindow fromisoformat call t.at_ = false := by
        rw [hat]
        exact Bool.eq_false_iff.mpr fun hwindow => hother ⟨hfresh, hwindow⟩
      simp [htimeouts, hout]
    · have hall : ∀ r, p.request = some r → r.timedOut = true := by
        intro r hr
        by_contra hnot
        exact hfresh ⟨r, hr, Bool.eq_false_iff.mpr hnot⟩
      rw [RunProgress.onTimeout_of_not_fresh hall]
  rw [judge, hkept, lastSeen_iff.mp hseen]
  cases hseen with
  | unseen _ => rfl
  | @seen before after t hsplit _ _ =>
      have hmem : t ∈ p.timeouts := by
        rw [hsplit]
        exact List.mem_append_right before List.mem_cons_self
      obtain ⟨r, hmade⟩ := hrecorded t hmem
      exact hmade.verdict

/-- The stand-in's verdict is the stall's, once the run has begun. -/
theorem runBudgetTimeout_snapshot (p : RunProgress) (now : ℚ) (tcp : Option TcpInfo) :
    (runBudgetTimeout (p.snapshot now tcp)).map StandIn.verdict =
      if p.phase = .starting ∧ p.requestsCompleted = 0 then none
      else some (p.stallVerdict tcp) := by
  unfold RunProgress.snapshot
  by_cases h : p.phase = .starting ∧ p.requestsCompleted = 0
  · rw [if_pos h, if_pos h]
    rfl
  · rw [if_neg h, if_neg h]
    rfl

/-- The verdicts agree where what takes precedence among the calls is the stall's. -/
theorem standInAgrees_iff (htimed : stalled.timedOut = true) (earlier : List CallRecord)
    (p : RunProgress) (now : ℚ) (tcp : Option TcpInfo) :
    StandInAgrees fromisoformat earlier stalled p now at_ tcp ↔
      p.Begun ∧
        precedence (((earlier ++ [stalled]).filter CallRecord.timedOut).map fun call =>
            (judge fromisoformat (p.onTimeout at_ tcp).timeouts call).verdict) =
          p.stallVerdict tcp := by
  have hsome : (earlier ++ [stalled]).filter CallRecord.timedOut ≠ [] :=
    List.ne_nil_of_mem (List.mem_filter.mpr ⟨by simp, htimed⟩)
  have hstall := runBudgetTimeout_snapshot p now tcp
  unfold StandInAgrees RunProgress.Begun
  rw [attributeCallTimeouts_eq, if_neg hsome]
  constructor
  · rintro ⟨standIn, a, hstandIn, ha, hagree⟩
    rw [hstandIn, Option.map_some] at hstall
    split_ifs at hstall with hbegun
    refine ⟨hbegun, ?_⟩
    rw [← Option.some.inj hstall, hagree]
    cases ha
    rw [List.map_map]
    rfl
  · rintro ⟨hbegun, hprecedence⟩
    rw [if_neg hbegun, Option.map_eq_some_iff] at hstall
    obtain ⟨standIn, hstandIn, hverdict⟩ := hstall
    refine ⟨standIn, _, hstandIn, rfl, ?_⟩
    rw [hverdict, ← hprecedence]
    simp only [List.map_map]
    rfl

/-- **The stand-in and the completed run.** For every history of hooks and of earlier
calls, and wherever the run stalls: the two verdicts agree exactly when the run has begun,
no timed-out call has for its last record one whose phase and report speak for what ranks
before the stall, and the stalled call gets a record or some call has one that speaks for
what the stall does. -/
theorem stand_in_agrees_iff (h : EndsInTimeout fromisoformat stalled at_)
    (earlier : List CallRecord) (submitted : ℚ) (events : List HookEvent) (now : ℚ)
    (tcp : Option TcpInfo) :
    let p := RunProgress.hooks { phaseSince := submitted } events
    StandInAgrees fromisoformat earlier stalled p now at_ tcp ↔
      StallRanksFirst fromisoformat earlier stalled p at_ tcp := by
  intro p
  have hrecorded : p.Recorded :=
    RunProgress.Recorded.hooks (p := { phaseSince := submitted }) (fun t ht => by cases ht) events
  have hstalled : stalled ∈ (earlier ++ [stalled]).filter CallRecord.timedOut :=
    List.mem_filter.mpr ⟨by simp, h.timedOut⟩
  rw [standInAgrees_iff h.timedOut,
    precedence_eq_iff (List.ne_nil_of_mem (List.mem_map_of_mem hstalled))]
  constructor
  · rintro ⟨hbegun, hmem, hfirst⟩
    refine ⟨hbegun, fun call hcall htimed hother seen hseen => ?_, ?_⟩
    · rw [← judge_verdict_of_lastSeen hrecorded hother tcp hseen]
      exact hfirst _ (List.mem_map_of_mem (List.mem_filter.mpr ⟨hcall, htimed⟩))
    · by_cases hfresh : p.Fresh
      · exact .inl hfresh
      · obtain ⟨call, hcall, hverdict⟩ := List.mem_map.mp hmem
        obtain ⟨hcall, htimed⟩ := List.mem_filter.mp hcall
        obtain ⟨seen, hseen⟩ := exists_lastSeen fromisoformat p.timeouts call
        have hother : ¬(p.Fresh ∧ inWindow fromisoformat call at_ = true) :=
          fun hboth => hfresh hboth.1
        rw [judge_verdict_of_lastSeen hrecorded hother tcp hseen] at hverdict
        exact .inr ⟨call, hcall, htimed, seen, hseen, hverdict⟩
  · rintro ⟨hbegun, hfirst, hhad⟩
    refine ⟨hbegun, ?_, fun v hv => ?_⟩
    · by_cases hfresh : p.Fresh
      · exact List.mem_map.mpr ⟨stalled, hstalled, judge_verdict_of_stall hfresh h.inWindow tcp⟩
      · obtain ⟨call, hcall, htimed, seen, hseen, hverdict⟩ := hhad.resolve_left hfresh
        have hother : ¬(p.Fresh ∧ inWindow fromisoformat call at_ = true) :=
          fun hboth => hfresh hboth.1
        refine List.mem_map.mpr ⟨call, List.mem_filter.mpr ⟨hcall, htimed⟩, ?_⟩
        rw [judge_verdict_of_lastSeen hrecorded hother tcp hseen, hverdict]
    · obtain ⟨call, hcall, rfl⟩ := List.mem_map.mp hv
      obtain ⟨hcall, htimed⟩ := List.mem_filter.mp hcall
      by_cases hown : p.Fresh ∧ inWindow fromisoformat call at_ = true
      · rw [judge_verdict_of_stall hown.1 hown.2]
      · obtain ⟨seen, hseen⟩ := exists_lastSeen fromisoformat p.timeouts call
        rw [judge_verdict_of_lastSeen hrecorded hown tcp hseen]
        exact hfirst call hcall htimed hown seen hseen

end StandIn

section Sample

/-- The kernel's report of a connection on which everything is acknowledged. -/
def cleanReport : TcpInfo :=
  { state := some .established, retransmits := some 0, backoff := some 0, unacked := some 0
    lost := some 0, totalRetrans := some 0, rtt := some 10, minRtt := some 10
    lastDataRecv := some 0, lastAckRecv := some 0, bytesReceived := some 0
    dataSegsIn := some 1, rcvOoopack := some 0, dsackDups := some 0 }

/-- The report of a connection that is not accepted. -/
def synReport : TcpInfo :=
  { cleanReport with state := some .synSent }

def sampleEnded : CallRecord :=
  ⟨.int 0, .str (py "timeout"), .str (py "2026-05-01T12:00:00.000Z"),
    .str (py "2026-05-01T12:00:01.000Z")⟩

/-- The call after it, which lasts until the budget is spent. -/
def sampleStalled : CallRecord :=
  ⟨.int 1, .str (py "timeout"), .str (py "2026-05-01T12:00:01.000Z"),
    .str (py "2026-05-01T12:00:02.000Z")⟩

theorem sampleStalled_endsInTimeout :
    EndsInTimeout sampleFromisoformat sampleStalled 1777636802 :=
  ⟨rfl, ⟨1777636801, ⟨_, rfl, by decide +kernel⟩, by norm_num⟩, ⟨_, rfl, by decide +kernel⟩⟩

/-- A request whose timer expires while its response is awaited, and one that stands in
its connect. -/
def sampleHistory : List HookEvent :=
  [.request sampleConnection (py "GET") (py "/") 1777636800, .sent 40 1777636800,
    .connecting 5 1777636800, .connected 1777636800 1777636800, .requested 1777636800,
    .expired 1777636801 (some cleanReport), .closed 1 1777636801,
    .request { sampleConnection with id := 2 } (py "GET") (py "/") 1777636801,
    .sent 40 1777636801, .connecting 5 1777636801]

theorem sampleHistory_run :
    Run HookStep (Tracked.start 1777636800)
      (trace Tracked.act (Tracked.start 1777636800) sampleHistory) :=
  .cons ⟨rfl, rfl⟩ (.cons ⟨rfl, rfl⟩ (.cons ⟨rfl, rfl⟩ (.cons ⟨rfl, rfl⟩ (.cons ⟨rfl, rfl⟩
    (.cons ⟨rfl, rfl⟩ (.cons ⟨rfl, rfl⟩ (.cons ⟨rfl, rfl⟩ (.cons ⟨rfl, rfl⟩
      (.cons ⟨rfl, rfl⟩ (.nil _))))))))))

/-- The first call is the endpoint's, and the run stalls where its second connects. -/
theorem stand_in_forgets_earlier_call :
    ¬∀ fromisoformat earlier stalled submitted run, Run HookStep (Tracked.start submitted) run →
      ∀ now at_ tcp, EndsInTimeout fromisoformat stalled at_ →
        StandInAgrees fromisoformat earlier stalled
          (lastState (Tracked.start submitted) run).progress now at_ tcp := by
  intro h
  have hagrees := h sampleFromisoformat [sampleEnded] sampleStalled _ _ sampleHistory_run 1777636802
    1777636802 (some synReport) sampleStalled_endsInTimeout
  rw [standInAgrees_iff rfl] at hagrees
  obtain ⟨-, hprecedence⟩ := hagrees
  revert hprecedence
  decide +kernel

/-- The second call goes on to wait for its response, on a clean connection too. -/
theorem stand_in_agrees_iff_second_call :
    StandInAgrees sampleFromisoformat [sampleEnded] sampleStalled
        (RunProgress.hooks { phaseSince := 1777636800 } (sampleHistory ++
          [.connected 1777636801 1777636801, .requested 1777636801]))
        1777636802 1777636802 (some cleanReport) ↔
      StallRanksFirst sampleFromisoformat [sampleEnded] sampleStalled
        (RunProgress.hooks { phaseSince := 1777636800 } (sampleHistory ++
          [.connected 1777636801 1777636801, .requested 1777636801]))
        1777636802 (some cleanReport) :=
  stand_in_agrees_iff sampleStalled_endsInTimeout [sampleEnded] 1777636800 _ _ _

end Sample

end ProbeAgent
