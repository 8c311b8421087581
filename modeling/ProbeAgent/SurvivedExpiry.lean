import ProbeAgent.StalledRun

/-!
# What the record of an ended request says

One request, followed through `http.client` moment by moment: the first send opens
the connection, `create_connection` tries the addresses in turn, the handshake
follows, the bytes are written, the response is awaited and read.  Two things are
remembered of the way: whether a connect of the request has returned, and what the
kernel reported at the first expiry the request survived.

A record or a snapshot says that the connection was never accepted when it stands
in the phase `connecting` with the verdict `network`.  `never_accepted_iff` says in
which runs that is said of a request one of whose connects had returned.
-/

namespace ProbeAgent

open PyText Runs

/-- Where one request is in `http.client`. -/
inductive Wire
  /-- `request` has been called, and nothing sent. -/
  | called
  /-- The first send has found the connection closed. -/
  | opening
  | resolving
  /-- The next address is about to be tried. -/
  | addressed
  | connecting
  /-- A connect has returned: without TLS, the chunk is being written. -/
  | connected
  | handshaking
  /-- The handshake is over, and the chunk is being written. -/
  | secured
  /-- A chunk is being written on an open connection. -/
  | sending
  | awaiting
  | reading
  | finished
deriving DecidableEq

/-- What can come next on that connection. -/
inductive Wire.Step (c : Connection) : Wire → HookEvent → Wire → Prop
  | sendClosed {count now} : Step c called (.sent count now) opening
  /-- The connection was kept alive. -/
  | sendOpen {count now} : Step c called (.sent count now) sending
  | sendMore {count now} : Step c sending (.sent count now) sending
  | resolve {now} : Step c opening (.resolving now) resolving
  | resolved {since now} : Step c resolving (.resolved since now) addressed
  | tryAddress {fd now} : Step c addressed (.connecting fd now) connecting
  /-- The address before was refused. -/
  | afterRefusal {fd now} : Step c connecting (.connecting fd now) connecting
  | goOn {now tcp} : Step c connecting (.addressExpired now tcp) addressed
  | accept {since now} : Step c connecting (.connected since now) connected
  | handshake {now} : c.https = true → Step c connected (.handshaking now) handshaking
  | handshaken {since now} : Step c handshaking (.handshaken since now) secured
  /-- The next chunk, the one the connection was opened for being written. -/
  | sendPlain {count now} : c.https = false → Step c connected (.sent count now) sending
  | sendSecured {count now} : Step c secured (.sent count now) sending
  | requested {now} : Step c sending (.requested now) awaiting
  | requestedPlain {now} : c.https = false → Step c connected (.requested now) awaiting
  | requestedSecured {now} : Step c secured (.requested now) awaiting
  | receiveHead {count now} : Step c awaiting (.received count now) awaiting
  | headers {head now} :
      Step c awaiting (.headers c.id head now) (if head.bodyLeft then reading else finished)
  | receiveBody {count now} : Step c reading (.received count now) reading
  | bodyRead : Step c reading .bodyRead finished
  | expire {w now tcp} :
      w ∈ [sending, connecting, handshaking, secured, awaiting, reading] →
        Step c w (.expired now tcp) finished
  | expirePlain {now tcp} : c.https = false → Step c connected (.expired now tcp) finished
  | abandon {w} : w ≠ finished → Step c w .abandoned finished
  | closeOwn {w now} : w ≠ finished → Step c w (.closed c.id now) finished
  | closeOther {w conn now} : w ≠ finished → c.id ≠ conn → Step c w (.closed conn now) w

/-- A request, the record of its run, and what is remembered of its way. -/
structure Sent where
  exchange : Exchange
  wire : Wire
  progress : RunProgress
  /-- A connect of the request has returned. -/
  accepted : Bool
  /-- What the kernel reported at the first expiry the request survived. -/
  survived : Option (Option TcpInfo)

/-- The request has just been called, in a run with that record. -/
def Sent.start (p : RunProgress) (c : Connection) (method path : PyStr) (now : ℚ) : Sent where
  exchange := ⟨c, method, path, p.timeouts.length⟩
  wire := .called
  progress := p.newRequest c method path now
  accepted := false
  survived := none

/-- What is remembered when the event is over. -/
def HookEvent.accepts : HookEvent → Bool
  | .connected _ _ => true
  | _ => false

def HookEvent.survives : HookEvent → Option (Option TcpInfo)
  | .addressExpired _ tcp => some tcp
  | _ => none

/-- One moment of the request. -/
def SentStep (s : Sent) (e : HookEvent) (t : Sent) : Prop :=
  s.wire.Step s.exchange.connection e t.wire ∧
    t.exchange = s.exchange ∧
    t.progress = s.progress.hook e ∧
    t.accepted = (s.accepted || e.accepts) ∧
    t.survived = s.survived.or e.survives

/-! ## The request as part of its run -/

def Wire.flight (x : Exchange) : Wire → Flight
  | called => .opened x
  | awaiting => .awaiting x
  | reading => .reading x
  | finished => .idle
  | _ => .sending x

def Sent.tracked (s : Sent) : Tracked :=
  ⟨s.wire.flight s.exchange, s.progress⟩

/-- A moment of the request is one of the run. -/
theorem SentStep.hookStep {s t : Sent} {e : HookEvent} (hst : SentStep s e t) :
    HookStep s.tracked e t.tracked := by
  obtain ⟨hwire, hexchange, hprogress, -, -⟩ := hst
  refine ⟨?_, hprogress⟩
  simp only [Sent.tracked, hexchange]
  generalize s.wire = w at hwire
  generalize t.wire = w' at hwire
  cases hwire with
  | headers =>
      simp only [Wire.flight, Flight.next, if_true]
      split <;> rfl
  | expire hw =>
      revert hw
      cases w <;> simp [Wire.flight, Flight.next, Flight.inFlight]
  | closeOwn hw =>
      cases w <;> simp_all [Wire.flight, Flight.next, Flight.exchange]
  | closeOther hw hc =>
      cases w <;> simp_all [Wire.flight, Flight.next, Flight.exchange]
  | _ =>
      rfl

/-! ## What is said of the request -/

/-- The connection is said never to have been accepted. -/
def NeverAccepted (phase : Phase) (verdict : Verdict) : Prop :=
  phase = .connecting ∧ verdict = .network

/-- A snapshot says so only if no connect of the request has returned. -/
def Sent.SnapshotTrue (s : Sent) : Prop :=
  ∀ now tcp stall, s.progress.snapshot now tcp = some stall →
    NeverAccepted stall.phase stall.verdict → s.accepted = false

/-- The entries made since the request was called. -/
def Sent.entries (s : Sent) : List TimeoutRecord :=
  s.progress.timeouts.drop s.exchange.records

/-- A timer expires and ends the request. -/
def HookEvent.Expires : HookEvent → Prop
  | .expired _ _ => True
  | _ => False

/-- When a timer has ended the request, its record says so only if no connect of it
had returned by then. -/
def RecordTrue (s : Sent) (e : HookEvent) (t : Sent) : Prop :=
  e.Expires → ∀ r ∈ t.entries, NeverAccepted r.phase r.verdict → s.accepted = false

/-- When a timer has ended the request, its record is the one made at that expiry. -/
def RecordOfEnd (s : Sent) (e : HookEvent) (t : Sent) : Prop :=
  e.Expires → t.entries = t.progress.timeouts.drop s.progress.timeouts.length

/-- A timer ends the request, a connect of which has returned, and the record was made
at an expiry it survived, or is made in the write that follows the connect; in either
case with a report of the kernel. -/
def HookEvent.Misplaced (s : Sent) : HookEvent → Prop
  | .expired _ tcp =>
      s.accepted = true ∧
        match s.survived with
        | some report => report ≠ none
        | none => s.wire = .connected ∧ tcp ≠ none
  | _ => False

/-- A timer ends a request that has survived an expiry. -/
def HookEvent.Late (s : Sent) : HookEvent → Prop
  | .expired _ _ => s.survived ≠ none
  | _ => False

/-! ## What every moment keeps -/

/-- Where the request is, the run is in the phase that belongs to it. -/
def Wire.Phased (phase : Phase) : Wire → Prop
  | connecting => phase = .connecting
  | connected => phase = .connecting
  | called => True
  | addressed => True
  | finished => True
  | _ => phase ≠ .connecting

/-- No connect has returned yet. -/
def Wire.Early : Wire → Prop
  | called => True
  | opening => True
  | resolving => True
  | addressed => True
  | connecting => True
  | _ => False

/-- The record names the request until a response closes the connection, and has an
entry of it exactly if it survived an expiry. -/
structure Sent.Kept (s : Sent) : Prop where
  named : s.wire ≠ .reading → s.wire ≠ .finished → ∃ r, s.progress.request = some r
  own : ∀ r, s.progress.request = some r → s.wire ≠ .finished →
    r.connId = s.exchange.connection.id ∧ r.timedOut = s.survived.isSome
  phased : s.wire.Phased s.progress.phase
  early : s.wire.Early → s.accepted = false
  no_entry : s.survived = none → s.wire ≠ .finished →
    s.progress.timeouts.length = s.exchange.records
  entry : ∀ report, s.survived = some report →
    ∃ r, s.entries = [r] ∧ r.phase = .connecting ∧ r.verdict = (verdict .connecting report).1

/-- A connecting stall is the network's exactly with a report of the kernel. -/
theorem verdict_connecting_iff (tcp : Option TcpInfo) :
    (verdict .connecting tcp).1 = .network ↔ tcp ≠ none := by
  cases tcp with
  | none =>
      simp [verdict, agentPhases]
  | some tcp =>
      simp [verdict, agentPhases, wirePhases]

/-! ## The hooks, by what they do to the request -/

/-- The events that neither begin nor end a request nor put a timeout on record. -/
def HookEvent.Plain : HookEvent → Prop
  | .request .. => False
  | .addressExpired _ _ => False
  | .headers .. => False
  | .expired _ _ => False
  | .closed _ _ => False
  | _ => True

/-- What the hook writes on the request. -/
def HookEvent.note : HookEvent → Request → Request
  | .resolved since now => fun r => { r with dnsMs := some (ms since now) }
  | .connecting fd _ => fun r => { r with fd := fd }
  | .connected since now => fun r => { r with connectMs := some (ms since now) }
  | .handshaken since now => fun r => { r with tlsMs := some (ms since now) }
  | .received count now => fun r =>
      { r with
        firstByteMs := r.firstByteMs.or (some (ms r.started now))
        bytesReceived := r.bytesReceived + count }
  | _ => id

/-- The phase the hook enters when the run has a request. -/
def HookEvent.enters : HookEvent → Option Phase
  | .sent _ _ => some .sending
  | .resolving _ => some .resolving
  | .connecting _ _ => some .connecting
  | .handshaking _ => some .tlsHandshake
  | .requested _ => some .awaitingResponse
  | .received _ _ => some .receiving
  | .storing _ => some .storingBodies
  | _ => none

@[simp] theorem HookEvent.note_connId (e : HookEvent) (r : Request) :
    (e.note r).connId = r.connId := by
  cases e <;> rfl

@[simp] theorem HookEvent.note_timedOut (e : HookEvent) (r : Request) :
    (e.note r).timedOut = r.timedOut := by
  cases e <;> rfl

section Hooks

variable {p : RunProgress} {e : HookEvent}

theorem HookEvent.survives_of_plain (he : e.Plain) : e.survives = none := by
  cases e with
  | addressExpired => cases he
  | _ => rfl

theorem RunProgress.hook_request (he : e.Plain) :
    (p.hook e).request = p.request.map e.note := by
  cases hr : p.request with
  | none =>
      cases e with
      | request => cases he
      | addressExpired => cases he
      | headers => cases he
      | expired => cases he
      | closed => cases he
      | _ =>
          simp [hook, getaddrinfo, getaddrinfoDone, connect, connectDone, wrapSocket,
            wrapSocketDone, onSent, onReceived, stepped, noted, hr]
  | some r =>
      cases e with
      | request => cases he
      | addressExpired => cases he
      | headers => cases he
      | expired => cases he
      | closed => cases he
      | _ =>
          simp [hook, getaddrinfo, getaddrinfoDone, connect, connectDone, wrapSocket,
            wrapSocketDone, onSent, onReceived, stepped, noted, hr, HookEvent.note]

theorem RunProgress.hook_timeouts (he : e.Plain) : (p.hook e).timeouts = p.timeouts := by
  cases hr : p.request with
  | none =>
      cases e with
      | request => cases he
      | addressExpired => cases he
      | headers => cases he
      | expired => cases he
      | closed => cases he
      | _ =>
          simp [hook, getaddrinfo, getaddrinfoDone, connect, connectDone, wrapSocket,
            wrapSocketDone, onSent, onReceived, stepped, noted, hr]
  | some r =>
      cases e with
      | request => cases he
      | addressExpired => cases he
      | headers => cases he
      | expired => cases he
      | closed => cases he
      | _ =>
          simp [hook, getaddrinfo, getaddrinfoDone, connect, connectDone, wrapSocket,
            wrapSocketDone, onSent, onReceived, stepped, noted, hr]

/-- Without a request the phase may stay. -/
theorem RunProgress.hook_phase (he : e.Plain) :
    (p.hook e).phase = e.enters.getD p.phase ∨
      (p.request = none ∧ (p.hook e).phase = p.phase) := by
  cases hr : p.request with
  | none =>
      cases e with
      | request => cases he
      | addressExpired => cases he
      | headers => cases he
      | expired => cases he
      | closed => cases he
      | _ =>
          simp [hook, getaddrinfo, getaddrinfoDone, connect, connectDone, wrapSocket,
            wrapSocketDone, onSent, onReceived, stepped, noted, hr, HookEvent.enters]
  | some r =>
      cases e with
      | request => cases he
      | addressExpired => cases he
      | headers => cases he
      | expired => cases he
      | closed => cases he
      | _ =>
          simp [hook, getaddrinfo, getaddrinfoDone, connect, connectDone, wrapSocket,
            wrapSocketDone, onSent, onReceived, stepped, noted, hr, HookEvent.enters]

/-- Closing a connection leaves the record alone or takes its request for finished. -/
theorem RunProgress.close_cases (p : RunProgress) (conn : Nat) (now : ℚ) :
    p.close conn now = p ∨
      (p.close conn now).request = none ∧ (p.close conn now).phase = .betweenRequests ∧
        (p.close conn now).timeouts = p.timeouts := by
  unfold close
  split
  · exact .inl rfl
  · split
    · exact .inr (by simp)
    · exact .inl rfl

theorem RunProgress.close_of_other {conn : Nat} (now : ℚ)
    (h : ∀ r, p.request = some r → r.connId ≠ conn) : p.close conn now = p := by
  unfold close
  split
  · rfl
  · rename_i r hr
    rw [if_neg (h r hr)]

end Hooks

/-! ## One moment -/

section Moment

variable {s t : Sent} {e : HookEvent} {w w' : Wire} {c : Connection}

/-- No step leads out of `finished`. -/
theorem Wire.Step.not_finished (h : Step c w e w') : w ≠ .finished := by
  cases h with
  | expire hmem =>
      rintro rfl
      simp at hmem
  | abandon hunfinished => exact hunfinished
  | closeOwn hunfinished => exact hunfinished
  | closeOther hunfinished => exact hunfinished
  | _ => nofun

/-- No request is begun on the way, and nothing stored. -/
theorem Wire.Step.within (h : Step c w e w') :
    (∀ c method path now, e ≠ .request c method path now) ∧ ∀ now, e ≠ .storing now := by
  cases h <;> exact ⟨nofun, nofun⟩

/-- The phase a plain event enters belongs to where it leads. -/
theorem Wire.Step.phased (h : Step c w e w') (he : e.Plain) {phase : Phase}
    (hphased : w.Phased phase) : w'.Phased (e.enters.getD phase) := by
  cases h with
  | headers => cases he
  | goOn => cases he
  | expire => cases he
  | expirePlain => cases he
  | closeOwn => cases he
  | closeOther => cases he
  | resolved => trivial
  | accept => exact hphased
  | handshaken => exact hphased
  | bodyRead => trivial
  | abandon => trivial
  | _ => simp [Phased, HookEvent.enters]

/-- Connects return on the way out of the early part, and there only. -/
theorem Wire.Step.early (h : Step c w e w') (hearly : w'.Early) :
    w.Early ∧ e.accepts = false := by
  cases h with
  | headers =>
      split at hearly <;> cases hearly
  | closeOther => exact ⟨hearly, rfl⟩
  | sendClosed => exact ⟨trivial, rfl⟩
  | resolve => exact ⟨trivial, rfl⟩
  | resolved => exact ⟨trivial, rfl⟩
  | tryAddress => exact ⟨trivial, rfl⟩
  | afterRefusal => exact ⟨trivial, rfl⟩
  | goOn => exact ⟨trivial, rfl⟩
  | _ => cases hearly

theorem Wire.Step.of_reading (h : Step c .reading e w') : w' = .reading ∨ w' = .finished := by
  cases h with
  | receiveBody => exact .inl rfl
  | closeOther => exact .inl rfl
  | _ => exact .inr rfl

theorem Wire.Step.of_expired {now : ℚ} {tcp : Option TcpInfo}
    (h : Step c w (.expired now tcp) w') : w' = .finished := by
  cases h <;> rfl

theorem Wire.Step.of_headers {conn : Nat} {head : ResponseHead} {now : ℚ}
    (h : Step c w (.headers conn head now) w') :
    w' = .finished ∨ w' = .reading ∧ w = .awaiting := by
  cases h
  split
  · exact .inr ⟨rfl, rfl⟩
  · exact .inl rfl

theorem Wire.Step.of_closed {conn : Nat} {now : ℚ} (h : Step c w (.closed conn now) w') :
    c.id = conn ∧ w' = .finished ∨ c.id ≠ conn ∧ w' = w := by
  cases h with
  | closeOwn => exact .inl ⟨rfl, rfl⟩
  | closeOther _ hc => exact .inr ⟨hc, rfl⟩

theorem Wire.Step.of_accepts (h : Step c w e w') (he : e.accepts = true) :
    w' = .connected := by
  cases h with
  | accept => rfl
  | _ => cases he

theorem SentStep.early (hst : SentStep s e t) (hs : s.Kept) :
    t.wire.Early → t.accepted = false := by
  intro hearly
  obtain ⟨hwire, -, -, haccepted, -⟩ := hst
  obtain ⟨hbefore, haccepts⟩ := hwire.early hearly
  rw [haccepted, hs.early hbefore, haccepts, Bool.or_false]

/-- A plain event changes neither the entries nor whose request is recorded. -/
theorem Sent.Kept.plain (hs : s.Kept) (hst : SentStep s e t) (he : e.Plain) : t.Kept := by
  have hearly := hst.early hs
  obtain ⟨hwire, hexchange, hprogress, -, hsurvived⟩ := hst
  have hunfinished := hwire.not_finished
  have hrequest : t.progress.request = s.progress.request.map e.note := by
    rw [hprogress, RunProgress.hook_request he]
  have htimeouts : t.progress.timeouts = s.progress.timeouts := by
    rw [hprogress, RunProgress.hook_timeouts he]
  have hreport : t.survived = s.survived := by
    rw [hsurvived, HookEvent.survives_of_plain he, Option.or_none]
  have hreading : s.wire = .reading → t.wire = .reading ∨ t.wire = .finished := fun h => by
    rw [h] at hwire
    exact hwire.of_reading
  refine ⟨?_, ?_, ?_, hearly, ?_, ?_⟩
  · intro hnotReading hnotOver
    have hbefore : s.wire ≠ .reading := fun h => by
      rcases hreading h with h | h
      · exact hnotReading h
      · exact hnotOver h
    obtain ⟨r, hr⟩ := hs.named hbefore hunfinished
    exact ⟨e.note r, by rw [hrequest, hr, Option.map_some]⟩
  · intro r' hr' _
    rw [hrequest] at hr'
    obtain ⟨r, hr, hnote⟩ := Option.map_eq_some_iff.mp hr'
    rw [← hnote, HookEvent.note_connId, HookEvent.note_timedOut, hreport, hexchange]
    exact hs.own r hr hunfinished
  · rw [hprogress]
    rcases RunProgress.hook_phase (p := s.progress) he with h | ⟨hnone, h⟩
    · rw [h]
      exact hwire.phased he hs.phased
    · -- the request is gone, so the body is being read
      have hgone : s.wire = .reading := by
        by_contra hbefore
        obtain ⟨r, hr⟩ := hs.named hbefore hunfinished
        rw [hnone] at hr
        cases hr
      have hphased := hs.phased
      rw [hgone] at hphased
      rw [h]
      rcases hreading hgone with h | h
      · rw [h]
        exact hphased
      · rw [h]
        trivial
  · intro hnone _
    rw [hreport] at hnone
    rw [htimeouts, hexchange]
    exact hs.no_entry hnone hunfinished
  · intro report hsome
    rw [hreport] at hsome
    rw [Sent.entries, htimeouts, hexchange]
    exact hs.entry report hsome

/-- Where the record stays as it is, or takes the request for finished, and the request
has got as far as its body or is over. -/
theorem Sent.Kept.closing (hs : s.Kept) (hunfinished : s.wire ≠ .finished)
    (hlate : t.wire = .finished ∨ t.wire = .reading ∧ s.wire = .awaiting)
    (hexchange : t.exchange = s.exchange) (hsurvived : t.survived = s.survived)
    (hprogress : t.progress = s.progress ∨ t.progress.request = none ∧
      t.progress.phase = .betweenRequests ∧ t.progress.timeouts = s.progress.timeouts) :
    t.Kept := by
  have htimeouts : t.progress.timeouts = s.progress.timeouts := by
    rcases hprogress with h | ⟨-, -, h⟩
    · rw [h]
    · exact h
  refine ⟨?_, ?_, ?_, ?_, ?_, ?_⟩
  · intro hnotReading hnotOver
    rcases hlate with h | ⟨h, -⟩
    · exact absurd h hnotOver
    · exact absurd h hnotReading
  · intro r hr _
    rcases hprogress with h | ⟨h, -⟩
    · rw [h] at hr
      rw [hexchange, hsurvived]
      exact hs.own r hr hunfinished
    · rw [h] at hr
      cases hr
  · rcases hlate with h | ⟨h, hbefore⟩
    · rw [h]
      trivial
    · have hphased := hs.phased
      rw [hbefore] at hphased
      rw [h]
      rcases hprogress with h | ⟨-, h, -⟩
      · rw [h]
        exact hphased
      · rw [h]
        exact nofun
  · intro hearly
    rcases hlate with h | ⟨h, -⟩
    · rw [h] at hearly
      cases hearly
    · rw [h] at hearly
      cases hearly
  · intro hnone _
    rw [hsurvived] at hnone
    rw [htimeouts, hexchange]
    exact hs.no_entry hnone hunfinished
  · intro report hsome
    rw [hsurvived] at hsome
    rw [Sent.entries, htimeouts, hexchange]
    exact hs.entry report hsome

/-- The entry an expiry makes for a request that has none. -/
theorem Sent.Kept.first_entry (hs : s.Kept) (hunfinished : s.wire ≠ .finished)
    (hnone : s.survived = none) {r : Request} (hr : s.progress.request = some r) (now : ℚ)
    (tcp : Option TcpInfo) :
    ∃ entry, (s.progress.onTimeout now tcp).timeouts = s.progress.timeouts ++ [entry] ∧
      (s.progress.onTimeout now tcp).timeouts.drop s.exchange.records = [entry] ∧
      entry.phase = s.progress.phase ∧ entry.verdict = (verdict s.progress.phase tcp).1 ∧
      (s.progress.onTimeout now tcp).request = some { r with timedOut := true } := by
  have htimed : r.timedOut = false := by
    rw [(hs.own r hr hunfinished).2, hnone, Option.isSome_none]
  have hlength := hs.no_entry hnone hunfinished
  simp only [RunProgress.onTimeout, hr, htimed]
  refine ⟨_, rfl, ?_, rfl, rfl, rfl⟩
  rw [← hlength]
  exact List.drop_left

/-- A request that has its entry gets no other. -/
theorem Sent.Kept.onTimeout_of_survived (hs : s.Kept) (hunfinished : s.wire ≠ .finished)
    {report : Option TcpInfo} (hreport : s.survived = some report) (now : ℚ)
    (tcp : Option TcpInfo) : s.progress.onTimeout now tcp = s.progress := by
  cases hr : s.progress.request with
  | none =>
      simp [RunProgress.onTimeout, hr]
  | some r =>
      have htimed : r.timedOut = true := by
        rw [(hs.own r hr hunfinished).2, hreport, Option.isSome_some]
      simp [RunProgress.onTimeout, hr, htimed]

/-- An expiry survived on one address leaves the request with its entry. -/
theorem Sent.Kept.goOn (hs : s.Kept) {now : ℚ} {tcp : Option TcpInfo}
    (hst : SentStep s (.addressExpired now tcp) t) : t.Kept := by
  have hearly := hst.early hs
  obtain ⟨hwire, hexchange, hprogress, -, hsurvived⟩ := hst
  have hphased := hs.phased
  generalize hw : s.wire = w at hwire hphased
  generalize hw' : t.wire = w' at hwire
  cases hwire
  have hunfinished : s.wire ≠ .finished := by simp [hw]
  obtain ⟨r, hr⟩ := hs.named (by simp [hw]) hunfinished
  have hown := hs.own r hr hunfinished
  rw [RunProgress.hook] at hprogress
  cases hbefore : s.survived with
  | none =>
      obtain ⟨entry, -, hentries, hphase, hverdict, hrequest⟩ :=
        hs.first_entry hunfinished hbefore hr now tcp
      have hreport : t.survived = some tcp := by
        rw [hsurvived, hbefore]
        rfl
      refine ⟨?_, ?_, ?_, hearly, ?_, ?_⟩
      · intro _ _
        exact ⟨_, by rw [hprogress, hrequest]⟩
      · intro r' hr' _
        rw [hprogress, hrequest, Option.some.injEq] at hr'
        rw [← hr', hreport, hexchange]
        exact ⟨hown.1, rfl⟩
      · rw [hw']
        trivial
      · intro hnone
        rw [hreport] at hnone
        cases hnone
      · intro report hsome
        rw [hreport, Option.some.injEq] at hsome
        refine ⟨entry, ?_, hphase.trans hphased, ?_⟩
        · rw [Sent.entries, hprogress, hexchange]
          exact hentries
        · rw [hverdict, ← hsome]
          rw [show s.progress.phase = .connecting from hphased]
  | some report =>
      rw [hs.onTimeout_of_survived hunfinished hbefore] at hprogress
      have hreport : t.survived = s.survived := by
        rw [hsurvived, hbefore]
        rfl
      refine ⟨?_, ?_, ?_, hearly, ?_, ?_⟩
      · intro _ _
        exact ⟨r, by rw [hprogress, hr]⟩
      · intro r' hr' _
        rw [hprogress] at hr'
        rw [hreport, hexchange]
        exact hs.own r' hr' hunfinished
      · rw [hw']
        trivial
      · intro hnone
        rw [hreport, hbefore] at hnone
        cases hnone
      · intro report' hsome
        rw [hreport] at hsome
        rw [Sent.entries, hprogress, hexchange]
        exact hs.entry report' hsome

/-- A timer that ends the request. -/
theorem Sent.Kept.expired (hs : s.Kept) {now : ℚ} {tcp : Option TcpInfo}
    (hst : SentStep s (.expired now tcp) t) : t.Kept := by
  have hearly := hst.early hs
  obtain ⟨hwire, hexchange, hprogress, -, hsurvived⟩ := hst
  have hend := hwire.of_expired
  have hsurvived : t.survived = s.survived := hsurvived.trans Option.or_none
  refine ⟨?_, ?_, ?_, hearly, ?_, ?_⟩
  · exact fun _ h => absurd hend h
  · exact fun _ _ h => absurd hend h
  · rw [hend]
    trivial
  · exact fun _ h => absurd hend h
  · intro report hsome
    rw [hsurvived] at hsome
    rw [Sent.entries, hprogress, RunProgress.hook,
      hs.onTimeout_of_survived hwire.not_finished hsome, hexchange]
    exact hs.entry report hsome

/-- **One moment.** -/
theorem Sent.Kept.step (hst : SentStep s e t) (hs : s.Kept) : t.Kept := by
  cases e with
  | request c method path now =>
      exact absurd rfl (hst.1.within.1 c method path now)
  | storing now =>
      exact absurd rfl (hst.1.within.2 now)
  | addressExpired now tcp =>
      exact hs.goOn hst
  | expired now tcp =>
      exact hs.expired hst
  | headers conn head now =>
      obtain ⟨hwire, hexchange, hprogress, -, hsurvived⟩ := hst
      have hsurvived : t.survived = s.survived := hsurvived.trans Option.or_none
      refine hs.closing hwire.not_finished hwire.of_headers hexchange hsurvived ?_
      rw [hprogress, RunProgress.hook]
      split
      · exact RunProgress.close_cases _ conn now
      · exact .inl rfl
  | closed conn now =>
      have hearly := hst.early hs
      obtain ⟨hwire, hexchange, hprogress, -, hsurvived⟩ := hst
      have hsurvived : t.survived = s.survived := hsurvived.trans Option.or_none
      rw [RunProgress.hook] at hprogress
      have hunfinished := hwire.not_finished
      rcases hwire.of_closed with ⟨-, hend⟩ | ⟨hother, hsame⟩
      · refine hs.closing hunfinished (.inl hend) hexchange hsurvived ?_
        rw [hprogress]
        exact RunProgress.close_cases _ conn now
      · -- another connection of the client: nothing happens to the request
        have hprogress : t.progress = s.progress := by
          rw [hprogress, RunProgress.close_of_other now]
          intro r hr
          rw [(hs.own r hr hunfinished).1]
          exact hother
        refine ⟨?_, ?_, ?_, hearly, ?_, ?_⟩
        · rw [hsame, hprogress]
          exact hs.named
        · rw [hsame, hprogress, hexchange, hsurvived]
          exact hs.own
        · rw [hsame, hprogress]
          exact hs.phased
        · rw [hsame, hprogress, hexchange, hsurvived]
          exact hs.no_entry
        · rw [Sent.entries, hprogress, hexchange, hsurvived]
          exact hs.entry
  | _ =>
      exact hs.plain hst trivial

theorem Sent.kept_start (p : RunProgress) (c : Connection) (method path : PyStr) (now : ℚ) :
    (Sent.start p c method path now).Kept := by
  refine ⟨?_, ?_, trivial, fun _ => rfl, fun _ _ => rfl, ?_⟩
  · intro _ _
    exact ⟨_, rfl⟩
  · intro r hr _
    cases hr
    exact ⟨rfl, rfl⟩
  · intro report hsome
    simp [Sent.start] at hsome

/-! ## Snapshots -/

/-- While no connect has returned, every snapshot is right. -/
theorem Sent.snapshotTrue_of_not_accepted (h : s.accepted = false) : s.SnapshotTrue :=
  fun _ _ _ _ _ => h

/-- A report of the kernel that says nothing. -/
def blankReport : TcpInfo :=
  ⟨none, none, none, none, none, none, none, none, none, none, none, none, none, none⟩

theorem snapshot_of_connecting {p : RunProgress} (hphase : p.phase = .connecting) {r : Request}
    (hr : p.request = some r) :
    ∃ stall, p.snapshot 0 (some blankReport) = some stall ∧
      NeverAccepted stall.phase stall.verdict := by
  rw [RunProgress.snapshot, if_neg (by simp [hphase])]
  refine ⟨_, rfl, hphase, ?_⟩
  simp only [hr, hphase, Option.isSome_some, if_true]
  exact (verdict_connecting_iff _).mpr (Option.some_ne_none _)

/-- Right after a connect, a snapshot says that the connection was never accepted. -/
theorem SentStep.not_snapshotTrue_of_accepts (hst : SentStep s e t) (hs : s.Kept)
    (he : e.accepts = true) : ¬t.SnapshotTrue := by
  have ht := hs.step hst
  obtain ⟨hwire, -, -, haccepted, -⟩ := hst
  have hconnected := hwire.of_accepts he
  have hphase := ht.phased
  rw [hconnected] at hphase
  have hphase : t.progress.phase = .connecting := hphase
  obtain ⟨r, hr⟩ := ht.named (by simp [hconnected]) (by simp [hconnected])
  obtain ⟨stall, hstall, hsaid⟩ := snapshot_of_connecting hphase hr
  intro htrue
  have hfalse := htrue 0 _ stall hstall hsaid
  rw [haccepted, he, Bool.or_true] at hfalse
  cases hfalse

/-! ## Records -/

/-- Once a connect has returned, the phase `connecting` lasts until the next hook. -/
theorem Sent.Kept.connecting_iff (hs : s.Kept) (haccepted : s.accepted = true)
    (hunfinished : s.wire ≠ .finished) :
    s.progress.phase = .connecting ↔ s.wire = .connected := by
  have hlate : ¬s.wire.Early := fun h => by
    rw [hs.early h] at haccepted
    cases haccepted
  have hphased := hs.phased
  revert hunfinished hlate hphased
  cases s.wire with
  | connected => exact fun _ _ h => iff_of_true h rfl
  | finished => exact fun h => absurd rfl h
  | handshaking => exact fun _ _ h => iff_of_false h nofun
  | secured => exact fun _ _ h => iff_of_false h nofun
  | sending => exact fun _ _ h => iff_of_false h nofun
  | awaiting => exact fun _ _ h => iff_of_false h nofun
  | reading => exact fun _ _ h => iff_of_false h nofun
  | _ => exact fun _ h => absurd trivial h

/-- The record of an ended request is right unless it was misplaced. -/
theorem SentStep.recordTrue_iff (hst : SentStep s e t) (hs : s.Kept) :
    RecordTrue s e t ↔ ¬e.Misplaced s := by
  cases e with
  | expired now tcp =>
      obtain ⟨hwire, hexchange, hprogress, -, -⟩ := hst
      have hunfinished := hwire.not_finished
      have hentries : t.entries =
          (s.progress.onTimeout now tcp).timeouts.drop s.exchange.records := by
        rw [Sent.entries, hprogress, hexchange, RunProgress.hook]
      simp only [RecordTrue, HookEvent.Expires, HookEvent.Misplaced, true_implies, hentries]
      cases hsurvived : s.survived with
      | some report =>
          -- the entry is the one of the survived expiry
          obtain ⟨r, hr, hphase, hverdict⟩ := hs.entry report hsurvived
          rw [hs.onTimeout_of_survived hunfinished hsurvived]
          rw [Sent.entries] at hr
          simp only [hr, List.mem_singleton, forall_eq, NeverAccepted, hphase, hverdict,
            verdict_connecting_iff, true_and]
          cases s.accepted <;> simp
      | none =>
          cases hrequest : s.progress.request with
          | none =>
              -- the body is being read, and the request is no longer named
              have hreading : s.wire = .reading := by
                by_contra hbefore
                obtain ⟨r, hr⟩ := hs.named hbefore hunfinished
                rw [hrequest] at hr
                cases hr
              have hnothing : s.progress.onTimeout now tcp = s.progress := by
                simp [RunProgress.onTimeout, hrequest]
              rw [hnothing, ← hs.no_entry hsurvived hunfinished, List.drop_length]
              simp [hreading]
          | some r =>
              obtain ⟨entry, -, hfirst, hphase, hverdict, -⟩ :=
                hs.first_entry hunfinished hsurvived hrequest now tcp
              simp only [hfirst, List.mem_singleton, forall_eq, NeverAccepted, hphase, hverdict]
              cases haccepted : s.accepted with
              | false =>
                  simp
              | true =>
                  rw [← hs.connecting_iff haccepted hunfinished]
                  by_cases hconnecting : s.progress.phase = .connecting
                  · simp [hconnecting, verdict_connecting_iff]
                  · simp [hconnecting]
  | _ =>
      simp [RecordTrue, HookEvent.Expires, HookEvent.Misplaced]

/-- The record of an ended request is of that end unless the request survived an
expiry before. -/
theorem SentStep.recordOfEnd_iff (hst : SentStep s e t) (hs : s.Kept) :
    RecordOfEnd s e t ↔ ¬e.Late s := by
  cases e with
  | expired now tcp =>
      obtain ⟨hwire, hexchange, hprogress, -, -⟩ := hst
      have hunfinished := hwire.not_finished
      simp only [RecordOfEnd, HookEvent.Expires, HookEvent.Late, true_implies, not_not,
        Sent.entries, hexchange]
      cases hsurvived : s.survived with
      | none =>
          rw [hs.no_entry hsurvived hunfinished]
          exact iff_of_true rfl rfl
      | some report =>
          obtain ⟨r, hr, -⟩ := hs.entry report hsurvived
          rw [Sent.entries] at hr
          rw [hprogress, RunProgress.hook, hs.onTimeout_of_survived hunfinished hsurvived, hr,
            List.drop_length]
          simp
  | _ =>
      simp [RecordOfEnd, HookEvent.Expires, HookEvent.Late]

end Moment

/-! ## Runs -/

/-- **Never accepted.** Over every run of one request: a snapshot says that the
connection was never accepted only while no connect of the request has returned, at
every instant, exactly when none returns; the record of an ended request says so only
if none had returned exactly when no expiry was misplaced; and that record is of the
expiry that ended the request exactly when it had survived none before. -/
theorem never_accepted_iff {p : RunProgress} {c : Connection} {method path : PyStr} {now : ℚ}
    {run : List (HookEvent × Sent)} (hrun : Run SentStep (Sent.start p c method path now) run) :
    ((∀ s ∈ statesOf (Sent.start p c method path now) run, s.SnapshotTrue) ↔
        Along (fun _ e _ => e.accepts = false) (Sent.start p c method path now) run) ∧
      (Along RecordTrue (Sent.start p c method path now) run ↔
        Along (fun s e _ => ¬e.Misplaced s) (Sent.start p c method path now) run) ∧
      (Along RecordOfEnd (Sent.start p c method path now) run ↔
        Along (fun s e _ => ¬e.Late s) (Sent.start p c method path now) run) := by
  have hstart := Sent.kept_start p c method path now
  have htrue : (Sent.start p c method path now).SnapshotTrue :=
    Sent.snapshotTrue_of_not_accepted rfl
  refine ⟨?_, ?_, ?_⟩
  · rw [← along_target_iff, and_iff_right htrue]
    refine along_iff (fun s => s.Kept ∧ s.accepted = false) ?_ ?_ hrun ⟨hstart, rfl⟩
    · intro s e t hst hs haccepts
      refine ⟨hs.1.step hst, ?_⟩
      rw [hst.2.2.2.1, hs.2, haccepts, Bool.or_false]
    · intro s e t hst hs
      constructor
      · intro htrue
        rw [← Bool.not_eq_true]
        exact fun haccepts => hst.not_snapshotTrue_of_accepts hs.1 haccepts htrue
      · intro haccepts
        refine Sent.snapshotTrue_of_not_accepted ?_
        rw [hst.2.2.2.1, hs.2, haccepts, Bool.or_false]
  · exact along_iff Sent.Kept (fun hst hs _ => hs.step hst)
      (fun hst hs => hst.recordTrue_iff hs) hrun hstart
  · exact along_iff Sent.Kept (fun hst hs _ => hs.step hst)
      (fun hst hs => hst.recordOfEnd_iff hs) hrun hstart

section Sample

/-- The first of two addresses times out, the second answers, and the response never
begins. -/
def sampleSurvival : List (HookEvent × Wire) :=
  [(.sent 40 1, .opening), (.resolving 1, .resolving), (.resolved 1 1, .addressed),
    (.connecting 7 1, .connecting), (.addressExpired 2 (some blankReport), .addressed),
    (.connecting 8 2, .connecting), (.connected 2 3, .connected), (.requested 3, .awaiting),
    (.expired 4 (some blankReport), .finished)]

/-- The run the events lead to. -/
def Sent.act (s : Sent) (m : HookEvent × Wire) : Sent :=
  ⟨s.exchange, m.2, s.progress.hook m.1, s.accepted || m.1.accepts,
    s.survived.or m.1.survives⟩

def sampleSent : Sent :=
  Sent.start { phaseSince := 0 } sampleConnection (py "GET") (py "/") 1

theorem sentStep_act {s : Sent} {m : HookEvent × Wire}
    (h : s.wire.Step s.exchange.connection m.1 m.2) : SentStep s m.1 (s.act m) :=
  ⟨h, rfl, rfl, rfl, rfl⟩

/-- The moments of a list of events. -/
def sentTrace (s : Sent) : List (HookEvent × Wire) → List (HookEvent × Sent)
  | [] => []
  | m :: ms => (m.1, s.act m) :: sentTrace (s.act m) ms

theorem sampleSurvival_run : Run SentStep sampleSent (sentTrace sampleSent sampleSurvival) :=
  .cons (sentStep_act .sendClosed) (.cons (sentStep_act .resolve)
    (.cons (sentStep_act .resolved) (.cons (sentStep_act .tryAddress)
      (.cons (sentStep_act .goOn) (.cons (sentStep_act .tryAddress)
        (.cons (sentStep_act .accept) (.cons (sentStep_act (.requestedPlain rfl))
          (.cons (sentStep_act (.expire (by simp [Sent.act])))
            (.nil _)))))))))

/-- The connection that was said never to have been accepted had taken the request. -/
theorem recorded_at_survived_expiry :
    ¬∀ p c method path now run, Run SentStep (Sent.start p c method path now) run →
      (∀ s ∈ statesOf (Sent.start p c method path now) run, s.SnapshotTrue) ∧
        Along RecordTrue (Sent.start p c method path now) run ∧
        Along RecordOfEnd (Sent.start p c method path now) run := by
  intro h
  obtain ⟨-, hrecords, -⟩ := h _ _ _ _ _ _ sampleSurvival_run
  obtain ⟨-, -, -, -, -, -, -, -, hlast, -⟩ := hrecords
  have haccepted := hlast trivial _ List.mem_cons_self ⟨rfl, rfl⟩
  cases haccepted

theorem never_accepted_iff_survived :
    ((∀ s ∈ statesOf sampleSent (sentTrace sampleSent sampleSurvival), s.SnapshotTrue) ↔
        Along (fun _ e _ => e.accepts = false) sampleSent
          (sentTrace sampleSent sampleSurvival)) ∧
      (Along RecordTrue sampleSent (sentTrace sampleSent sampleSurvival) ↔
        Along (fun s e _ => ¬e.Misplaced s) sampleSent (sentTrace sampleSent sampleSurvival)) ∧
      (Along RecordOfEnd sampleSent (sentTrace sampleSent sampleSurvival) ↔
        Along (fun s e _ => ¬e.Late s) sampleSent (sentTrace sampleSent sampleSurvival)) :=
  never_accepted_iff sampleSurvival_run

end Sample

end ProbeAgent
