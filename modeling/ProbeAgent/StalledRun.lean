import ProbeAgent.RunProgress
import ProbeAgent.Runs

/-!
# Where a stalled run is said to be

From the first send of a request until its response has been read, the record is
to name that request, in a phase of its own, and a timer that expires is to be put
on record.  Two moments of `http.client` can end that.

* A response that closes the connection: `getresponse` calls `close` before the
  body is read, and the hook on `close` takes the request for finished.
* A connect that times out on one address and succeeds on the next: the request
  has its one record already when its timer expires for good.

`stall_placed_iff` says that nothing else does, over all runs of the hooks.
-/

namespace ProbeAgent

open PyText Runs

/-- The record of the request is the exchange's. -/
structure Request.Of (r : Request) (x : Exchange) : Prop where
  connId : r.connId = x.connection.id
  method : r.method = x.method
  url : r.url = x.connection.url x.path
  target : r.target = ⟨x.connection.host, x.connection.port, x.connection.https⟩

/-- The entry is about the exchange. -/
structure TimeoutRecord.Of (t : TimeoutRecord) (x : Exchange) : Prop where
  method : t.method = x.method
  url : t.url = x.connection.url x.path
  target : t.target = ⟨x.connection.host, x.connection.port, x.connection.https⟩

/-- The record is right about the exchange: it names its request, in a phase of the
request, so that a stall here is not the agent's and a timer that expires here is on
record. -/
structure Placed (x : Exchange) (p : RunProgress) : Prop where
  named : ∃ r, p.request = some r ∧ r.Of x
  not_between : p.phase ≠ .betweenRequests
  not_storing : p.phase ≠ .storingBodies
  stall : ∀ now tcp, ∃ stall, p.snapshot now tcp = some stall ∧ stall.verdict ≠ .agent
  recorded : ∀ now tcp, ∃ t, (p.onTimeout now tcp).timeouts[x.records]? = some t ∧ t.Of x

/-- A timer that expires here gets an entry of its own, saying where and when. -/
def RecordsAnew (x : Exchange) (p : RunProgress) : Prop :=
  ∀ now tcp, ∃ t, (p.onTimeout now tcp).timeouts = p.timeouts ++ [t] ∧ t.Of x ∧
    t.at_ = now ∧ t.phase = p.phase

/-- The response closes the connection and has a body to be read. -/
def HookEvent.ClosesUnread : HookEvent → Prop
  | .headers _ head _ => head.willClose = true ∧ head.bodyLeft = true
  | _ => False

/-- A timer of the exchange under way expires, and the request goes on. -/
def HookEvent.Survived (f : Flight) : HookEvent → Prop
  | .addressExpired _ _ => f.inFlight ≠ none
  | _ => False

/-! ## The record of an exchange -/

section Records

variable {anew : Prop} {x : Exchange} {p p' : RunProgress} {r r' : Request}

/-- The phases of a request, from its first send on. -/
def requestPhases : List Phase :=
  [.resolving, .connecting, .tlsHandshake, .sending, .awaitingResponse, .receiving]

/-- The record follows the exchange: `r` is its request, and the entries made since
it began are none, or its own one.  Under `anew` there is none yet. -/
structure Follows (anew : Prop) (x : Exchange) (p : RunProgress) (r : Request) : Prop where
  current : p.request = some r
  of : r.Of x
  none_yet : r.timedOut = false → p.timeouts.length = x.records
  its_own : r.timedOut = true → ∃ t, p.timeouts[x.records]? = some t ∧ t.Of x
  fresh : anew → r.timedOut = false

theorem Follows.congr (h : Follows anew x p r) (hcurrent : p'.request = some r')
    (hof : r'.Of x) (htimed : r'.timedOut = r.timedOut) (htimeouts : p'.timeouts = p.timeouts) :
    Follows anew x p' r' := by
  refine ⟨hcurrent, hof, ?_, ?_, ?_⟩
  · rw [htimed, htimeouts]
    exact h.none_yet
  · rw [htimed, htimeouts]
    exact h.its_own
  · rw [htimed]
    exact h.fresh

/-- A new request is followed from the start. -/
theorem follows_newRequest (anew : Prop) (p : RunProgress) (c : Connection) (method path : PyStr)
    (now : ℚ) :
    ∃ r, Follows anew ⟨c, method, path, p.timeouts.length⟩ (p.newRequest c method path now) r :=
  ⟨_, rfl, ⟨rfl, rfl, rfl, rfl⟩, fun _ => rfl, nofun, fun _ => rfl⟩

/-- What an expiry puts on record for an exchange without an entry. -/
theorem Follows.timeouts_of_fresh (h : Follows anew x p r) (hfresh : r.timedOut = false)
    (now : ℚ) (tcp : Option TcpInfo) :
    ∃ t, (p.onTimeout now tcp).timeouts = p.timeouts ++ [t] ∧ t.Of x ∧ t.at_ = now ∧
      t.phase = p.phase ∧ (p.onTimeout now tcp).request = some { r with timedOut := true } := by
  simp only [RunProgress.onTimeout, h.current, hfresh]
  exact ⟨_, rfl, ⟨h.of.method, h.of.url, h.of.target⟩, rfl, rfl, rfl⟩

theorem Follows.onTimeout_of_timedOut (h : Follows anew x p r) (htimed : r.timedOut = true)
    (now : ℚ) (tcp : Option TcpInfo) : p.onTimeout now tcp = p := by
  simp [RunProgress.onTimeout, h.current, htimed]

/-- After an expiry the entry of the exchange is there, old or new. -/
theorem Follows.recorded (h : Follows anew x p r) (now : ℚ) (tcp : Option TcpInfo) :
    ∃ t, (p.onTimeout now tcp).timeouts[x.records]? = some t ∧ t.Of x := by
  cases htimed : r.timedOut with
  | false =>
      obtain ⟨t, htimeouts, hof, -⟩ := h.timeouts_of_fresh htimed now tcp
      refine ⟨t, ?_, hof⟩
      rw [htimeouts, ← h.none_yet htimed]
      exact List.getElem?_concat_length
  | true =>
      rw [h.onTimeout_of_timedOut htimed]
      exact h.its_own htimed

/-- A survived expiry leaves the exchange with its entry. -/
theorem Follows.survive (h : Follows anew x p r) (now : ℚ) (tcp : Option TcpInfo) :
    ∃ r', Follows False x (p.onTimeout now tcp) r' ∧ r'.timedOut = true := by
  cases htimed : r.timedOut with
  | false =>
      obtain ⟨-, -, -, -, -, hcurrent⟩ := h.timeouts_of_fresh htimed now tcp
      refine ⟨{ r with timedOut := true }, ?_, rfl⟩
      refine ⟨hcurrent, ⟨h.of.connId, h.of.method, h.of.url, h.of.target⟩, nofun, ?_, False.elim⟩
      exact fun _ => h.recorded now tcp
  | true =>
      rw [h.onTimeout_of_timedOut htimed]
      exact ⟨r, ⟨h.current, h.of, h.none_yet, h.its_own, False.elim⟩, htimed⟩

/-! ## One hook -/

/-- The events an exchange under way can see without its record losing it.  Under
`anew`, a survived expiry is not one of them. -/
def HookEvent.Spares (anew : Prop) (x : Exchange) : HookEvent → Prop
  | .request .. => False
  | .expired .. => False
  | .storing _ => False
  | .addressExpired .. => ¬anew
  | .closed c _ => x.connection.id ≠ c
  | .headers _ head _ => head.willClose = false
  | _ => True

theorem Follows.stepped (h : Follows anew x p r) (note : Request → Request) (phase : Phase)
    (now : ℚ) (hof : (note r).Of x) (htimed : (note r).timedOut = r.timedOut) :
    ∃ r', Follows anew x (p.stepped note phase now) r' := by
  refine ⟨note r, h.congr ?_ hof htimed ?_⟩
  · simp [RunProgress.stepped, h.current]
  · simp [RunProgress.stepped, h.current]

/-- A step of the connection puts the run in the step's phase. -/
theorem Follows.stepped_phase (h : Follows anew x p r) (note : Request → Request) {phase : Phase}
    (hphase : phase ∈ requestPhases) (now : ℚ) :
    (p.stepped note phase now).phase ∈ requestPhases := by
  simpa [RunProgress.stepped, h.current] using hphase

theorem Follows.noted (h : Follows anew x p r) (note : Request → Request) (hof : (note r).Of x)
    (htimed : (note r).timedOut = r.timedOut) : ∃ r', Follows anew x (p.noted note) r' := by
  refine ⟨note r, h.congr ?_ hof htimed rfl⟩
  simp [RunProgress.noted, h.current]

theorem Follows.onSent (h : Follows anew x p r) (count : Nat) (now : ℚ) :
    Follows anew x (p.onSent count now) r := by
  refine h.congr ?_ h.of rfl ?_
  · simp [RunProgress.onSent, h.current]
  · simp [RunProgress.onSent, h.current]

theorem Follows.onReceived (h : Follows anew x p r) (count : Nat) (now : ℚ) :
    ∃ r', Follows anew x (p.onReceived count now) r' := by
  have hcurrent : (p.onReceived count now).request =
      some { r with
        firstByteMs := r.firstByteMs.or (some (ms r.started now))
        bytesReceived := r.bytesReceived + count } := by
    simp [RunProgress.onReceived, h.current]
  refine ⟨_, h.congr hcurrent ?_ rfl ?_⟩
  · exact ⟨h.of.connId, h.of.method, h.of.url, h.of.target⟩
  · simp [RunProgress.onReceived, h.current]

/-- Closing another connection is not taken for the end of the exchange. -/
theorem Follows.close (h : Follows anew x p r) {c : Nat} (hc : x.connection.id ≠ c) (now : ℚ) :
    p.close c now = p := by
  simp [RunProgress.close, h.current, h.of.connId, hc]

/-- A hook that spares the exchange keeps its record. -/
theorem Follows.hook (h : Follows anew x p r) {e : HookEvent} (he : e.Spares anew x) :
    ∃ r', Follows anew x (p.hook e) r' := by
  have hof : ∀ r' : Request, r'.connId = r.connId → r'.method = r.method → r'.url = r.url →
      r'.target = r.target → r'.Of x := fun r' hid hmethod hurl htarget =>
    ⟨hid.trans h.of.connId, hmethod.trans h.of.method, hurl.trans h.of.url,
      htarget.trans h.of.target⟩
  cases e with
  | request c method path now =>
      cases he
  | sent count now =>
      exact ⟨r, h.onSent count now⟩
  | resolving now =>
      exact h.stepped id .resolving now h.of rfl
  | resolved since now =>
      exact h.noted _ (hof _ rfl rfl rfl rfl) rfl
  | connecting fd now =>
      exact h.stepped _ .connecting now (hof _ rfl rfl rfl rfl) rfl
  | connected since now =>
      exact h.noted _ (hof _ rfl rfl rfl rfl) rfl
  | addressExpired now tcp =>
      obtain ⟨r', h', -⟩ := h.survive now tcp
      exact ⟨r', { h' with fresh := fun hanew => absurd hanew he }⟩
  | handshaking now =>
      exact h.stepped id .tlsHandshake now h.of rfl
  | handshaken since now =>
      exact h.noted _ (hof _ rfl rfl rfl rfl) rfl
  | requested now =>
      exact ⟨r, h.congr (by simp [RunProgress.hook, h.current]) h.of rfl
        (by simp [RunProgress.hook])⟩
  | received count now =>
      exact h.onReceived count now
  | headers c head now =>
      refine ⟨r, ?_⟩
      rwa [RunProgress.hook, he]
  | bodyRead =>
      exact ⟨r, h⟩
  | expired now tcp =>
      cases he
  | abandoned =>
      exact ⟨r, h⟩
  | closed c now =>
      refine ⟨r, ?_⟩
      rwa [RunProgress.hook, h.close he]
  | storing now =>
      cases he

/-- ... and leaves the run in a phase of the request. -/
theorem Follows.hook_phase (h : Follows anew x p r) {e : HookEvent} (he : e.Spares anew x)
    (hphase : p.phase ∈ requestPhases) : (p.hook e).phase ∈ requestPhases := by
  cases e with
  | request c method path now =>
      cases he
  | sent count now =>
      simp [RunProgress.hook, RunProgress.onSent, h.current, requestPhases]
  | resolving now =>
      exact h.stepped_phase _ (by decide) now
  | resolved since now =>
      exact hphase
  | connecting fd now =>
      exact h.stepped_phase _ (by decide) now
  | connected since now =>
      exact hphase
  | addressExpired now tcp =>
      rw [RunProgress.hook, RunProgress.onTimeout_phase]
      exact hphase
  | handshaking now =>
      exact h.stepped_phase _ (by decide) now
  | handshaken since now =>
      exact hphase
  | requested now =>
      simp [RunProgress.hook, requestPhases]
  | received count now =>
      simp [RunProgress.hook, RunProgress.onReceived, h.current, requestPhases]
  | headers c head now =>
      rwa [RunProgress.hook, he]
  | bodyRead =>
      exact hphase
  | expired now tcp =>
      cases he
  | abandoned =>
      exact hphase
  | closed c now =>
      rwa [RunProgress.hook, h.close he]
  | storing now =>
      cases he

/-- The first send puts the run in a phase of the request. -/
theorem Follows.sent_phase (h : Follows anew x p r) (count : Nat) (now : ℚ) :
    (p.hook (.sent count now)).phase ∈ requestPhases := by
  simp [RunProgress.hook, RunProgress.onSent, h.current, requestPhases]

/-- Where the record follows an exchange from its first send on, it is right. -/
theorem Follows.placed (h : Follows anew x p r) (hphase : p.phase ∈ requestPhases) :
    Placed x p := by
  have hagent : p.phase ∉ agentPhases := by
    revert hphase
    cases p.phase <;> decide
  refine ⟨⟨r, h.current, h.of⟩, ?_, ?_, fun now tcp => ?_, h.recorded⟩
  · rintro hbetween
    simp [hbetween, agentPhases] at hagent
  · rintro hstoring
    simp [hstoring, agentPhases] at hagent
  · have hstarting : p.phase ≠ .starting := by
      rintro hstarting
      simp [hstarting, requestPhases] at hphase
    rw [RunProgress.snapshot, if_neg (fun hnone => hstarting hnone.1)]
    exact ⟨_, rfl, fun hverdict => hagent ((verdict_agent_iff _ _).mp hverdict)⟩

end Records

/-! ## One moment of a run -/

/-- The record follows the exchange under way, and from its first send on the run is
in a phase of the request. -/
structure Held (anew : Prop) (s : Tracked) : Prop where
  follows : ∀ x, s.flight.exchange = some x → ∃ r, Follows anew x s.progress r
  phase : ∀ x, s.flight.inFlight = some x → s.progress.phase ∈ requestPhases

theorem held_of_idle (anew : Prop) {s : Tracked} (h : s.flight = .idle) : Held anew s := by
  refine ⟨?_, ?_⟩
  · simp [h, Flight.exchange]
  · simp [h, Flight.inFlight]

theorem Flight.exchange_of_inFlight {f : Flight} {x : Exchange} (h : f.inFlight = some x) :
    f.exchange = some x := by
  cases f with
  | idle =>
      cases h
  | opened y =>
      cases h
  | sending y =>
      exact h
  | awaiting y =>
      exact h
  | reading y =>
      exact h

/-- What an event can do to the thread: the exchange is over, a new one begins, or
the one under way sees an event that spares its record. -/
inductive Flight.Moves (anew : Prop) (n : Nat) (e : HookEvent) : Flight → Flight → Prop
  | ends {f : Flight} : Moves anew n e f .idle
  | begins {c : Connection} {method path : PyStr} {now : ℚ} :
      e = .request c method path now → Moves anew n e .idle (.opened ⟨c, method, path, n⟩)
  | goesOn {f f' : Flight} {x : Exchange} :
      f.exchange = some x → f'.exchange = some x → e.Spares anew x →
      (f'.inFlight = some x → f.inFlight = some x ∨ ∃ count now, e = .sent count now) →
      Moves anew n e f f'

theorem Flight.moves_of_stays {anew : Prop} {n : Nat} {e : HookEvent} (f : Flight)
    (he : ∀ x, f.exchange = some x → e.Spares anew x) : Moves anew n e f f := by
  cases hx : f.exchange with
  | none =>
      cases f with
      | idle =>
          exact .ends
      | _ =>
          cases hx
  | some x =>
      exact .goesOn hx hx (he x hx) Or.inl

theorem Flight.next_moves {f f' : Flight} {n : Nat} {e : HookEvent} (anew : Prop)
    (h : f.next n e = some f') (hclose : ¬e.ClosesUnread) (hsurvive : anew → ¬e.Survived f) :
    Moves anew n e f f' := by
  cases e with
  | request c method path now =>
      cases f with
      | idle =>
          cases h
          exact .begins rfl
      | _ =>
          cases h
  | sent count now =>
      cases f with
      | opened x =>
          cases h
          exact .goesOn rfl rfl trivial (fun _ => .inr ⟨count, now, rfl⟩)
      | sending x =>
          cases h
          exact moves_of_stays _ (fun _ _ => trivial)
      | _ =>
          cases h
  | addressExpired now tcp =>
      cases f with
      | idle =>
          cases h
          exact .ends
      | sending x =>
          cases h
          refine moves_of_stays _ (fun _ _ hanew => hsurvive hanew ?_)
          simp [HookEvent.Survived, inFlight]
      | _ =>
          cases h
  | requested now =>
      cases f with
      | sending x =>
          cases h
          exact .goesOn rfl rfl trivial (fun _ => .inl rfl)
      | _ =>
          cases h
  | headers c head now =>
      cases f with
      | awaiting x =>
          simp only [next] at h
          split at h
          · cases h
            split
            · rename_i hleft
              refine .goesOn rfl rfl ?_ (fun _ => .inl rfl)
              simpa [HookEvent.ClosesUnread, HookEvent.Spares, hleft] using hclose
            · exact .ends
          · cases h
      | _ =>
          cases h
  | bodyRead =>
      cases f with
      | reading x =>
          cases h
          exact .ends
      | _ =>
          cases h
  | expired now tcp =>
      simp only [next] at h
      split at h
      · cases h
        exact .ends
      · cases h
  | abandoned =>
      cases h
      exact .ends
  | closed c now =>
      simp only [next] at h
      split at h
      · rename_i x hx
        cases h
        split
        · exact .ends
        · rename_i hc
          refine moves_of_stays _ (fun y hy => ?_)
          rw [hx, Option.some.injEq] at hy
          rwa [← hy]
      · cases h
        rename_i hx
        exact moves_of_stays _ (fun y hy => by rw [hx] at hy; cases hy)
  | storing now =>
      cases f with
      | idle =>
          cases h
          exact .ends
      | _ =>
          cases h
  | _ =>
      cases h
      exact moves_of_stays _ (fun _ _ => trivial)

/-- **One moment.** It keeps the record of the exchange under way unless a response
closes the connection with its body unread. -/
theorem held_step {anew : Prop} {s t : Tracked} {e : HookEvent} (hst : HookStep s e t)
    (hs : Held anew s) (hclose : ¬e.ClosesUnread) (hsurvive : anew → ¬e.Survived s.flight) :
    Held anew t := by
  obtain ⟨hnext, hprogress⟩ := hst
  have hmoves := Flight.next_moves anew hnext hclose hsurvive
  obtain ⟨f, p⟩ := s
  obtain ⟨f', p'⟩ := t
  cases hmoves with
  | ends =>
      exact held_of_idle anew rfl
  | begins he =>
      refine ⟨fun y hy => ?_, nofun⟩
      cases hy
      simp only at hprogress
      rw [hprogress, he]
      exact follows_newRequest anew p _ _ _ _
  | @goesOn _ _ x hx hx' hspares hfirst =>
      obtain ⟨r, hr⟩ := hs.follows x hx
      refine ⟨fun y hy => ?_, fun y hy => ?_⟩
      · rw [hx', Option.some.injEq] at hy
        rw [hprogress, ← hy]
        exact hr.hook hspares
      · have hxy := Flight.exchange_of_inFlight hy
        rw [hx', Option.some.injEq] at hxy
        rw [← hxy] at hy
        rw [hprogress]
        rcases hfirst hy with hinflight | ⟨count, now, he⟩
        · exact hr.hook_phase hspares (hs.phase x hinflight)
        · rw [he]
          exact hr.sent_phase count now

/-- After a response that closes the connection with its body unread, the record
does not name the request. -/
theorem not_placed_of_closesUnread {anew : Prop} {s t : Tracked} {e : HookEvent}
    (hst : HookStep s e t) (hs : Held anew s) (he : e.ClosesUnread) :
    ∃ x, t.flight.inFlight = some x ∧ ¬Placed x t.progress := by
  obtain ⟨hnext, hprogress⟩ := hst
  cases e with
  | headers c head now =>
      cases hf : s.flight with
      | awaiting x =>
          obtain ⟨r, hr⟩ := hs.follows x (by rw [hf]; rfl)
          rw [hf] at hnext
          simp only [Flight.next, he.2, if_true] at hnext
          split at hnext
          · rename_i hc
            refine ⟨x, by rw [← Option.some.inj hnext]; rfl, fun hplaced => ?_⟩
            obtain ⟨r', hcurrent, -⟩ := hplaced.named
            rw [hprogress, RunProgress.hook, if_pos he.1] at hcurrent
            simp [RunProgress.close, hr.current, hr.of.connId, hc] at hcurrent
          · cases hnext
      | _ =>
          rw [hf] at hnext
          cases hnext
  | _ =>
      cases he

/-- After a survived expiry a further one gets no entry of its own. -/
theorem not_recordsAnew_of_survived {anew : Prop} {s t : Tracked} {e : HookEvent}
    (hst : HookStep s e t) (hs : Held anew s) (he : e.Survived s.flight) :
    ∃ x, t.flight.inFlight = some x ∧ ¬RecordsAnew x t.progress := by
  obtain ⟨hnext, hprogress⟩ := hst
  cases e with
  | addressExpired now tcp =>
      cases hf : s.flight with
      | sending x =>
          obtain ⟨r, hr⟩ := hs.follows x (by rw [hf]; rfl)
          rw [hf] at hnext
          refine ⟨x, by rw [← Option.some.inj hnext]; rfl, fun hrecords => ?_⟩
          obtain ⟨r', hr', htimed⟩ := hr.survive now tcp
          obtain ⟨entry, htimeouts, -⟩ := hrecords now tcp
          rw [hprogress, RunProgress.hook, hr'.onTimeout_of_timedOut htimed] at htimeouts
          simp at htimeouts
      | idle =>
          simp [HookEvent.Survived, hf, Flight.inFlight] at he
      | _ =>
          rw [hf] at hnext
          cases hnext
  | _ =>
      cases he

/-! ## Runs -/

/-- The record is right about the exchange under way, if there is one. -/
def Tracked.Placed (s : Tracked) : Prop :=
  ∀ x, s.flight.inFlight = some x → ProbeAgent.Placed x s.progress

/-- A timer that expires now gets an entry of its own. -/
def Tracked.RecordsAnew (s : Tracked) : Prop :=
  ∀ x, s.flight.inFlight = some x → ProbeAgent.RecordsAnew x s.progress

theorem Held.placed {anew : Prop} {s : Tracked} (hs : Held anew s) : s.Placed := by
  intro x hx
  obtain ⟨r, hr⟩ := hs.follows x (Flight.exchange_of_inFlight hx)
  exact hr.placed (hs.phase x hx)

theorem Held.recordsAnew {s : Tracked} (hs : Held True s) : s.RecordsAnew := by
  intro x hx now tcp
  obtain ⟨r, hr⟩ := hs.follows x (Flight.exchange_of_inFlight hx)
  obtain ⟨t, htimeouts, hof, hat, hphase, -⟩ := hr.timeouts_of_fresh (hr.fresh trivial) now tcp
  exact ⟨t, htimeouts, hof, hat, hphase⟩

/-- **Stalls are placed right.** Over every run of the hooks, the record is right at
every instant exactly when no response closes the connection with its body unread;
and every timer that expires gets an entry of its own exactly when, besides, no
expiry is survived. -/
theorem stall_placed_iff {submitted : ℚ} {run : List (HookEvent × Tracked)}
    (hrun : Run HookStep (Tracked.start submitted) run) :
    ((∀ s ∈ statesOf (Tracked.start submitted) run, s.Placed) ↔
        Along (fun _ e _ => ¬e.ClosesUnread) (Tracked.start submitted) run) ∧
      ((∀ s ∈ statesOf (Tracked.start submitted) run, s.Placed ∧ s.RecordsAnew) ↔
        Along (fun s e _ => ¬e.ClosesUnread ∧ ¬e.Survived s.flight)
          (Tracked.start submitted) run) := by
  have hstart : ∀ anew, Held anew (Tracked.start submitted) := fun anew => held_of_idle anew rfl
  rw [← along_target_iff, ← along_target_iff]
  constructor
  · rw [and_iff_right (hstart False).placed]
    refine along_iff (Held False) ?_ ?_ hrun (hstart False)
    · intro s e t hst hs hclose
      exact held_step hst hs hclose False.elim
    · intro s e t hst hs
      constructor
      · intro hplaced hcloses
        obtain ⟨x, hx, hnot⟩ := not_placed_of_closesUnread hst hs hcloses
        exact hnot (hplaced x hx)
      · intro hclose
        exact (held_step hst hs hclose False.elim).placed
  · rw [and_iff_right ⟨(hstart True).placed, (hstart True).recordsAnew⟩]
    refine along_iff (Held True) ?_ ?_ hrun (hstart True)
    · intro s e t hst hs hspared
      exact held_step hst hs hspared.1 (fun _ => hspared.2)
    · intro s e t hst hs
      constructor
      · rintro ⟨hplaced, hrecords⟩
        refine ⟨fun hcloses => ?_, fun hsurvived => ?_⟩
        · obtain ⟨x, hx, hnot⟩ := not_placed_of_closesUnread hst hs hcloses
          exact hnot (hplaced x hx)
        · obtain ⟨x, hx, hnot⟩ := not_recordsAnew_of_survived hst hs hsurvived
          exact hnot (hrecords x hx)
      · intro hspared
        have ht := held_step hst hs hspared.1 (fun _ => hspared.2)
        exact ⟨ht.placed, ht.recordsAnew⟩

section Sample

/-- The run the events lead to. -/
def Tracked.act (s : Tracked) (e : HookEvent) : Tracked :=
  ⟨(s.flight.next s.progress.timeouts.length e).getD s.flight, s.progress.hook e⟩

def sampleConnection : Connection :=
  ⟨1, py "api.example.com", 80, false⟩

/-- A request is sent and its response begins, with a body of two bytes. -/
def sampleEvents (checkClose : Bool) : List HookEvent :=
  [.request sampleConnection (py "GET") (py "/") 1, .sent 40 1, .requested 2, .received 17 3,
    .headers 1 ⟨false, 200, checkClose, false, some 2⟩ 3]

theorem sampleEvents_run (checkClose : Bool) :
    Run HookStep (Tracked.start 0)
      (trace Tracked.act (Tracked.start 0) (sampleEvents checkClose)) :=
  .cons ⟨rfl, rfl⟩ (.cons ⟨rfl, rfl⟩ (.cons ⟨rfl, rfl⟩ (.cons ⟨rfl, rfl⟩
    (.cons ⟨rfl, rfl⟩ (.nil _)))))

/-- A response with `Connection: close` and a body. -/
theorem request_forgotten_on_close :
    ¬∀ submitted run, Run HookStep (Tracked.start submitted) run →
      ∀ s ∈ statesOf (Tracked.start submitted) run, s.Placed ∧ s.RecordsAnew := by
  intro h
  have hall := h 0 _ (sampleEvents_run true)
  rw [← along_target_iff] at hall
  obtain ⟨-, -, -, -, -, hlast, -⟩ := hall
  obtain ⟨r, hcurrent, -⟩ := (hlast.1 ⟨sampleConnection, py "GET", py "/", 0⟩ rfl).named
  cases hcurrent

theorem stall_placed_iff_keep_alive :
    ((∀ s ∈ statesOf (Tracked.start 0)
          (trace Tracked.act (Tracked.start 0) (sampleEvents false)), s.Placed) ↔
        Along (fun _ e _ => ¬e.ClosesUnread) (Tracked.start 0)
          (trace Tracked.act (Tracked.start 0) (sampleEvents false))) ∧
      ((∀ s ∈ statesOf (Tracked.start 0)
          (trace Tracked.act (Tracked.start 0) (sampleEvents false)),
        s.Placed ∧ s.RecordsAnew) ↔
        Along (fun s e _ => ¬e.ClosesUnread ∧ ¬e.Survived s.flight) (Tracked.start 0)
          (trace Tracked.act (Tracked.start 0) (sampleEvents false))) :=
  stall_placed_iff (sampleEvents_run false)

end Sample

end ProbeAgent
