import ProbeAgent.RunProgress
import ProbeAgent.TornReads

/-!
# Reading the record from another thread (`RunProgress.snapshot`)

The run's thread assigns `phase`, `phase_since`, `request` and `requests_completed` one
after another, in operations of one to four assignments; the thread that enforces the
budget reads them one after another, with no lock.  A read is placed by the number of
assignments before it, so any positions in the order of the reads are an interleaving.

What is read held between two operations exactly when the reads see the assignments of
the first operations and of no later one (`snapshot_whole`); and there are
interleavings where they do not.
-/

namespace ProbeAgent

open PyText TornReads

/-- The attributes of the record that a snapshot combines. -/
inductive Attr
  | phase
  | phaseSince
  | request
  | requestsCompleted
deriving DecidableEq

abbrev Attr.Value : Attr → Type
  | phase => Phase
  | phaseSince => ℚ
  | request => Option Request
  | requestsCompleted => Nat

abbrev ProgressCells := Cells Attr.Value

abbrev ProgressAssign := Assign Attr.Value

/-- The attributes of a record. -/
def RunProgress.cells (p : RunProgress) : ProgressCells
  | .phase => p.phase
  | .phaseSince => p.phaseSince
  | .request => p.request
  | .requestsCompleted => p.requestsCompleted

/-! ## The run's thread -/

/-- `self.phase = …`. -/
def setPhase (phase : Phase) : ProgressAssign := ⟨.phase, phase⟩

def setPhaseSince (now : ℚ) : ProgressAssign := ⟨.phaseSince, now⟩

def setRequest (r : Option Request) : ProgressAssign := ⟨.request, r⟩

def setRequestsCompleted (n : Nat) : ProgressAssign := ⟨.requestsCompleted, n⟩

/-- The operations of the run's thread on these attributes. -/
inductive Update
  /-- A call of `enter`. -/
  | enter (phase : Phase) (now : ℚ)
  /-- The `request` hook puts a new request. -/
  | newRequest (r : Request)
  /-- The `close` hook of the connection with this id. -/
  | close (conn : Nat) (now : ℚ)

/-- The assignments of `enter`. -/
def enterAssigns (s : ProgressCells) (phase : Phase) (now : ℚ) : List ProgressAssign :=
  if phase ≠ (s .phase : Phase) then [setPhase phase, setPhaseSince now] else []

/-- The request in flight is one of that connection. -/
def ownsRequest (s : ProgressCells) (conn : Nat) : Bool :=
  match (s .request : Option Request) with
  | none => false
  | some r => r.connId == conn

namespace Update

/-- The assignments of an operation, in their order. -/
def assigns (s : ProgressCells) : Update → List ProgressAssign
  | enter phase now => enterAssigns s phase now
  | newRequest r => [setRequest (some r)]
  | close conn now =>
      if ownsRequest s conn then
        [setRequest none, setRequestsCompleted ((s .requestsCompleted : Nat) + 1)] ++
          enterAssigns s .betweenRequests now
      else []

/-- The attributes after an operation. -/
def apply (s : ProgressCells) (u : Update) : ProgressCells :=
  writeAll s (u.assigns s)

end Update

/-- The operations of a thread, as their assignments. -/
def performed : ProgressCells → List Update → List (List ProgressAssign)
  | _, [] => []
  | s, u :: us => u.assigns s :: performed (u.apply s) us

/-- What `enter`, the `request` hook and the `close` hook do to the record. -/
def RunProgress.update (p : RunProgress) : Update → RunProgress
  | .enter phase now => p.enter phase now
  | .newRequest r => { p with request := some r }
  | .close conn now => p.close conn now

theorem cells_enter (p : RunProgress) (phase : Phase) (now : ℚ) :
    (p.enter phase now).cells = writeAll p.cells (enterAssigns p.cells phase now) := by
  have hphase : (p.cells .phase : Phase) = p.phase := rfl
  unfold RunProgress.enter enterAssigns
  rw [hphase]
  split
  · funext a
    cases a <;> rfl
  · rfl

/-- The assignments of an operation do what it does to the record. -/
theorem cells_update (p : RunProgress) (u : Update) : (p.update u).cells = u.apply p.cells := by
  cases u with
  | enter phase now => exact cells_enter p phase now
  | newRequest r =>
      funext a
      cases a <;> rfl
  | close conn now =>
      have howns : ownsRequest p.cells conn = p.request.any fun r => r.connId == conn := by
        cases hr : p.request <;> simp [ownsRequest, RunProgress.cells, hr]
      rw [Update.apply, Update.assigns, howns, RunProgress.update, RunProgress.close]
      cases hr : p.request with
      | none => simp
      | some r =>
          by_cases hconn : r.connId = conn
          · simp only [hconn, if_true, Option.any_some, beq_self_eq_true]
            have hcleared : ({ p with
                request := none
                requestsCompleted := p.requestsCompleted + 1 } : RunProgress).cells =
                writeAll p.cells
                  [setRequest none, setRequestsCompleted (p.requestsCompleted + 1)] := by
              funext a
              cases a <;> rfl
            rw [cells_enter, hcleared, writeAll_append]
            rfl
          · simp [hconn]

/-! ## The reads -/

/-- The positions of the reads of a snapshot, each by the number of assignments before
it; `check` is the first read of `requests_completed`, made in the starting phase. -/
structure Reads where
  phase : Nat
  phaseSince : Nat
  request : Nat
  check : Nat
  requestsCompleted : Nat
  phase_le : phase ≤ phaseSince
  phaseSince_le : phaseSince ≤ request
  request_le : request ≤ check
  check_le : check ≤ requestsCompleted

/-- The combination a snapshot reports. -/
structure Reported where
  phase : Phase
  phaseSince : ℚ
  request : Option Request
  requestsCompleted : Nat
deriving DecidableEq

/-- The combination that holds of these attributes. -/
def reported (s : ProgressCells) : Reported :=
  ⟨s .phase, s .phaseSince, s .request, s .requestsCompleted⟩

/-- `snapshot`, by what it reads. -/
def readSnapshot (s : ProgressCells) (ws : List ProgressAssign) (at_ : Reads) :
    Option Reported :=
  let phase : Phase := cellsAt s ws at_.phase .phase
  let since : ℚ := cellsAt s ws at_.phaseSince .phaseSince
  let request : Option Request := cellsAt s ws at_.request .request
  if phase = .starting ∧ (cellsAt s ws at_.check .requestsCompleted : Nat) = 0 then none
  else some ⟨phase, since, request, cellsAt s ws at_.requestsCompleted .requestsCompleted⟩

/-- All reads at one instant, so many assignments into the run. -/
def Reads.atOnce (i : Nat) : Reads where
  phase := i
  phaseSince := i
  request := i
  check := i
  requestsCompleted := i
  phase_le := le_rfl
  phaseSince_le := le_rfl
  request_le := le_rfl
  check_le := le_rfl

/-- The stall made of what was read. -/
def Reported.stall (o : Reported) (now : ℚ) (tcp : Option TcpInfo) : Stall :=
  let tcp := if o.request.isSome then tcp else none
  { phase := o.phase
    phaseMs := ms o.phaseSince now
    requestsCompleted := o.requestsCompleted
    verdict := (verdict o.phase tcp).1
    reason := (verdict o.phase tcp).2
    request := o.request.map fun r =>
      (r.target, tcp,
        ⟨r.method, r.url, ms r.started now, r.dnsMs, r.connectMs, r.tlsMs, r.firstByteMs,
          r.bytesReceived⟩) }

/-- A snapshot whose reads are made at one instant is that of the record there. -/
theorem snapshot_eq_stall (p : RunProgress) (now : ℚ) (tcp : Option TcpInfo) :
    p.snapshot now tcp =
      (readSnapshot p.cells [] (.atOnce 0)).map fun out => out.stall now tcp := by
  by_cases h : p.phase = .starting ∧ p.requestsCompleted = 0
  · have hread : readSnapshot p.cells [] (.atOnce 0) = none := if_pos h
    rw [hread, RunProgress.snapshot, if_pos h]
    rfl
  · have hread : readSnapshot p.cells [] (.atOnce 0) =
        some ⟨p.phase, p.phaseSince, p.request, p.requestsCompleted⟩ := if_neg h
    rw [hread, RunProgress.snapshot, if_neg h]
    rfl

/-- Where an attribute is read that goes into the report. -/
def Reads.of (at_ : Reads) : Attr → Nat
  | .phase => at_.phase
  | .phaseSince => at_.phaseSince
  | .request => at_.request
  | .requestsCompleted => at_.requestsCompleted

/-- What is read, attribute by attribute. -/
def readCells (s : ProgressCells) (ws : List ProgressAssign) (at_ : Reads) : ProgressCells :=
  fun a => cellsAt s ws (at_.of a) a

theorem eq_of_readSnapshot {s : ProgressCells} {ws : List ProgressAssign} {at_ : Reads}
    {out : Reported} (h : readSnapshot s ws at_ = some out) :
    out = reported (readCells s ws at_) := by
  unfold readSnapshot at h
  simp only at h
  split at h
  · cases h
  · exact (Option.some.inj h).symm

theorem reported_congr {s t : ProgressCells} : reported s = reported t ↔ ∀ a, s a = t a := by
  constructor
  · intro h a
    rw [reported, reported, Reported.mk.injEq] at h
    cases a with
    | phase => exact h.1
    | phaseSince => exact h.2.1
    | request => exact h.2.2.1
    | requestsCompleted => exact h.2.2.2
  · intro h
    rw [funext h]

/-! ## Between two operations -/

/-- The attributes after operations. -/
def afterUpdates (s : ProgressCells) (us : List Update) : ProgressCells :=
  us.foldl Update.apply s

theorem writeAll_performed (s : ProgressCells) (us : List Update) :
    writeAll s (performed s us).flatten = afterUpdates s us := by
  induction us generalizing s with
  | nil => rfl
  | cons u us ih =>
      rw [performed, List.flatten_cons, writeAll_append]
      exact ih (u.apply s)

theorem take_performed (s : ProgressCells) (us : List Update) (k : Nat) :
    (performed s us).take k = performed s (us.take k) := by
  induction us generalizing s k with
  | nil => simp [performed]
  | cons u us ih =>
      cases k with
      | zero => rfl
      | succ k => rw [performed, List.take_succ_cons, List.take_succ_cons, performed, ih]

/-- At a boundary the attributes are as the operations before it left them. -/
theorem cellsAt_performed (s : ProgressCells) (us : List Update) (k : Nat) :
    cellsAt s (performed s us).flatten (boundary (performed s us) k) =
      afterUpdates s (us.take k) := by
  rw [cellsAt_boundary, take_performed, writeAll_performed]

section Whole

variable (s : ProgressCells) (us : List Update) (at_ : Reads)

/-- Of the assignments to each attribute, its read sees those of the first `k` operations
and no others. -/
def SeesFirst (k : Nat) : Prop :=
  ∀ a, SameSight a (performed s us).flatten (at_.of a) (boundary (performed s us) k)

/-- No attribute is assigned a value that it had before. -/
def Distinct : Prop :=
  ∀ a, (s a :: written a (performed s us).flatten).Nodup

theorem readCells_of_seesFirst {k : Nat} (h : SeesFirst s us at_ k) (a : Attr) :
    readCells s (performed s us).flatten at_ a = afterUpdates s (us.take k) a := by
  rw [readCells, (h a).cellsAt_eq s, cellsAt_performed]

theorem seesFirst_of_readCells (hdistinct : Distinct s us) {k : Nat}
    (h : ∀ a, readCells s (performed s us).flatten at_ a = afterUpdates s (us.take k) a) :
    SeesFirst s us at_ k := by
  intro a
  refine sameSight_of_cellsAt_eq (hdistinct a) ?_
  rw [cellsAt_performed]
  exact h a

/-- The hooks enter a phase on the wire only with a request. -/
def Update.Hooked (s : ProgressCells) : Update → Prop
  | .enter phase _ => phase ∈ wirePhases → (s .request : Option Request) ≠ none
  | _ => True

def AllHooked : ProgressCells → List Update → Prop
  | _, [] => True
  | s, u :: us => u.Hooked s ∧ AllHooked (u.apply s) us

/-- A run on the wire has a request. -/
def WireNamed (s : ProgressCells) : Prop :=
  (s .phase : Phase) ∈ wirePhases → (s .request : Option Request) ≠ none

/-- `enter` leaves its phase and the request there was. -/
theorem writeAll_enterAssigns {s t : ProgressCells} (hphase : t .phase = s .phase)
    (phase : Phase) (now : ℚ) :
    writeAll t (enterAssigns s phase now) .phase = phase ∧
      writeAll t (enterAssigns s phase now) .request = t .request := by
  unfold enterAssigns
  split
  · exact ⟨rfl, rfl⟩
  · rename_i h
    rw [not_not] at h
    exact ⟨hphase.trans h.symm, rfl⟩

theorem WireNamed.apply {s : ProgressCells} (hs : WireNamed s) {u : Update} (hu : u.Hooked s) :
    WireNamed (u.apply s) := by
  cases u with
  | enter phase now =>
      obtain ⟨hphase, hrequest⟩ := writeAll_enterAssigns (s := s) rfl phase now
      intro hwire
      rw [Update.apply, Update.assigns] at hwire ⊢
      rw [hphase] at hwire
      rw [hrequest]
      exact hu hwire
  | newRequest r =>
      intro _
      exact Option.some_ne_none r
  | close conn now =>
      intro hwire
      rw [Update.apply, Update.assigns] at hwire ⊢
      split at hwire
      · -- the phase is the one between requests
        have hkept : writeAll s [setRequest none,
            setRequestsCompleted ((s .requestsCompleted : Nat) + 1)] .phase = s .phase := rfl
        rw [writeAll_append, (writeAll_enterAssigns hkept .betweenRequests now).1] at hwire
        exact absurd hwire (by decide)
      · rename_i howns
        rw [if_neg howns]
        exact hs hwire

theorem WireNamed.afterUpdates {s : ProgressCells} (hs : WireNamed s) {us : List Update}
    (hus : AllHooked s us) (k : Nat) : WireNamed (afterUpdates s (us.take k)) := by
  induction us generalizing s k with
  | nil => simpa [ProbeAgent.afterUpdates] using hs
  | cons u us ih =>
      cases k with
      | zero => exact hs
      | succ k => exact ih (hs.apply hus.1) hus.2 k

/-- **Snapshots that are whole.** For every sequence of operations and every interleaving
of the reads: a snapshot that sees the assignments of the first operations and of no
later one reports a combination that held between two operations, and, if the hooks
enter the wire only with a request, no phase on the wire without one; and where no
attribute is assigned a value it had before, no other snapshot does. -/
theorem snapshot_whole :
    ((∃ k, SeesFirst s us at_ k) →
      ∀ out, readSnapshot s (performed s us).flatten at_ = some out →
        (∃ k, out = reported (afterUpdates s (us.take k))) ∧
        (WireNamed s → AllHooked s us → out.phase ∈ wirePhases → out.request ≠ none)) ∧
    (Distinct s us →
      ∀ out, readSnapshot s (performed s us).flatten at_ = some out →
        (∃ k, out = reported (afterUpdates s (us.take k))) → ∃ k, SeesFirst s us at_ k) := by
  constructor
  · rintro ⟨k, hk⟩ out hout
    have heq : out = reported (afterUpdates s (us.take k)) := by
      rw [eq_of_readSnapshot hout, reported_congr]
      exact readCells_of_seesFirst s us at_ hk
    refine ⟨⟨k, heq⟩, fun hs hus => ?_⟩
    rw [heq]
    exact hs.afterUpdates hus k
  · rintro hdistinct out hout ⟨k, hk⟩
    rw [eq_of_readSnapshot hout, reported_congr] at hk
    exact ⟨k, seesFirst_of_readCells s us at_ hdistinct hk⟩

end Whole

section Sample

def sampleRequest : Request :=
  { connId := 1, method := py "GET", url := py "http://api.example.com/"
    host := py "api.example.com", name := py "api.example.com", port := 80, tls := false
    started := 0 }

/-- A request goes out and its response is awaited. -/
def sampleUpdates : List Update :=
  [.newRequest sampleRequest, .enter .sending 1, .enter .awaitingResponse 2]

def sampleProgress : ProgressCells := ({ phaseSince := 0 } : RunProgress).cells

/-- Between the two assignments of the last `enter`, the record combines the new phase with
the start of the old one, as no operation leaves it. -/
theorem torn_combination (k : Nat) :
    (⟨.awaitingResponse, 1, some sampleRequest, 0⟩ : Reported) ≠
      reported (afterUpdates sampleProgress (sampleUpdates.take k)) := by
  rcases k with _ | _ | _ | k
  · decide +kernel
  · decide +kernel
  · decide +kernel
  · rw [List.take_of_length_le (by simp [sampleUpdates])]
    decide +kernel

/-- The snapshot is taken between the two assignments of an `enter`. -/
theorem torn_inside_enter :
    ¬∀ s us at_ out, readSnapshot s (performed s us).flatten at_ = some out →
      ∃ k, out = reported (afterUpdates s (us.take k)) := by
  intro h
  obtain ⟨k, hk⟩ := h sampleProgress sampleUpdates (.atOnce 4)
    ⟨.awaitingResponse, 1, some sampleRequest, 0⟩ (by decide +kernel)
  exact torn_combination k hk

/-- Reads that straddle the last `enter`: the phase and its start are read before the
assignments to them, the rest after both. -/
def sampleReads : Reads where
  phase := 3
  phaseSince := 4
  request := 5
  check := 5
  requestsCompleted := 5
  phase_le := by decide
  phaseSince_le := by decide
  request_le := by decide
  check_le := by decide

theorem sampleUpdates_distinct : Distinct sampleProgress sampleUpdates := by
  intro a
  cases a <;> decide +kernel

/-- The reads that straddle the `enter` see the first operations and no later one; the
reads at one instant within it do not. -/
theorem snapshot_whole_straddling :
    (∃ k, SeesFirst sampleProgress sampleUpdates sampleReads k) ∧
      ¬∃ k, SeesFirst sampleProgress sampleUpdates (.atOnce 4) k := by
  constructor
  · exact (snapshot_whole sampleProgress sampleUpdates sampleReads).2 sampleUpdates_distinct
      ⟨.sending, 1, some sampleRequest, 0⟩ (by decide +kernel) ⟨2, by decide +kernel⟩
  · intro hsees
    obtain ⟨⟨k, hk⟩, -⟩ := (snapshot_whole sampleProgress sampleUpdates (.atOnce 4)).1 hsees
      ⟨.awaitingResponse, 1, some sampleRequest, 0⟩ (by decide +kernel)
    exact torn_combination k hk

end Sample

end ProbeAgent
