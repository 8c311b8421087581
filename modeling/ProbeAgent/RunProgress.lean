import ProbeAgent.TcpState
import ProbeAgent.PyText
import ProbeAgent.Rounding

/-!
# How far a run has got (`services/run_progress.py`)

The record a run keeps of itself through hooks on `socket`, `ssl` and
`http.client`, and what is read off it when a timer expires.  Clock readings are
the rationals the doubles stand for, and what is computed from them is rounded as
doubles are; `tcp_state.read` is given by what it returned at that moment.

An `Exchange` is what `http.client` itself knows of a request whose response has
not been read to its end.  `Flight.next` follows the control flow of the library,
so a run of `HookStep` is a sequence of hook calls it can make.
-/

namespace ProbeAgent

open PyText Rounding

/-- `int` of a double: rounded towards zero. -/
def truncate (q : ℚ) : Int :=
  q.num.tdiv q.den

/-- `_ms`: whole milliseconds between two clock readings. -/
def ms (since now : ℚ) : Int :=
  truncate (double (double (now - since) * 1000))

/-- A `HTTPConnection` as the hooks see it. -/
structure Connection where
  id : Nat
  host : PyStr
  port : Nat
  https : Bool
deriving DecidableEq

def Connection.hostPart (c : Connection) : PyStr :=
  if c.port = (if c.https then 443 else 80) then c.host
  else c.host ++ py ":" ++ py (toString c.port)

/-- The URL recorded for a request on the connection. -/
def Connection.url (c : Connection) (path : PyStr) : PyStr :=
  py (if c.https then "https" else "http") ++ py "://" ++ c.hostPart ++ path

/-- `_Request`: a call's own request, a redirect hop, or a retry. -/
structure Request where
  connId : Nat
  method : PyStr
  url : PyStr
  host : PyStr
  name : PyStr
  port : Nat
  tls : Bool
  fd : Int := -1
  timedOut : Bool := false
  started : ℚ
  dnsMs : Option Int := none
  connectMs : Option Int := none
  tlsMs : Option Int := none
  firstByteMs : Option Int := none
  bytesReceived : Nat := 0
deriving DecidableEq

/-- `_target`. -/
structure Target where
  host : PyStr
  port : Nat
  tls : Bool
deriving DecidableEq

def Request.target (r : Request) : Target :=
  ⟨r.name, r.port, r.tls⟩

/-- An entry of `timeouts`. -/
structure TimeoutRecord where
  at_ : ℚ
  phase : Phase
  verdict : Verdict
  reason : String
  method : PyStr
  url : PyStr
  target : Target
  tcp : Option TcpInfo
deriving DecidableEq

structure RunProgress where
  phase : Phase := .starting
  phaseSince : ℚ
  requestsCompleted : Nat := 0
  request : Option Request := none
  ingress : Nat := 0
  egress : Nat := 0
  timeouts : List TimeoutRecord := []
deriving DecidableEq

/-- The request of a stall, as `snapshot` reports it. -/
structure StallRequest where
  method : PyStr
  url : PyStr
  elapsedMs : Int
  dnsMs : Option Int
  connectMs : Option Int
  tlsMs : Option Int
  ttfbMs : Option Int
  bytesReceived : Nat
deriving DecidableEq

structure Stall where
  phase : Phase
  phaseMs : Int
  requestsCompleted : Nat
  verdict : Verdict
  reason : String
  /-- The target, the kernel's report and the request, when there is one. -/
  request : Option (Target × Option TcpInfo × StallRequest)
deriving DecidableEq

namespace RunProgress

def enter (p : RunProgress) (phase : Phase) (now : ℚ) : RunProgress :=
  if phase ≠ p.phase then { p with phase := phase, phaseSince := now } else p

/-- Where the run is, read at one instant of it: `tcp` is what the kernel says of
the request's descriptor. -/
def snapshot (p : RunProgress) (now : ℚ) (tcp : Option TcpInfo) : Option Stall :=
  if p.phase = .starting ∧ p.requestsCompleted = 0 then none
  else
    let tcp := if p.request.isSome then tcp else none
    some
      { phase := p.phase
        phaseMs := ms p.phaseSince now
        requestsCompleted := p.requestsCompleted
        verdict := (verdict p.phase tcp).1
        reason := (verdict p.phase tcp).2
        request := p.request.map fun r =>
          (r.target, tcp,
            ⟨r.method, r.url, ms r.started now, r.dnsMs, r.connectMs, r.tlsMs, r.firstByteMs,
              r.bytesReceived⟩) }

/-- Called where a request's timer expires on the run's thread. -/
def onTimeout (p : RunProgress) (now : ℚ) (tcp : Option TcpInfo) : RunProgress :=
  match p.request with
  | none => p
  | some r =>
      if r.timedOut then p
      else
        { p with
          request := some { r with timedOut := true }
          timeouts := p.timeouts ++
            [{ at_ := now
               phase := p.phase
               verdict := (verdict p.phase tcp).1
               reason := (verdict p.phase tcp).2
               method := r.method
               url := r.url
               target := r.target
               tcp := tcp }] }

/-- Called for every chunk written to the wire, before it is written. -/
def onSent (p : RunProgress) (count : Nat) (now : ℚ) : RunProgress :=
  let p := { p with egress := p.egress + count }
  if p.request.isSome then p.enter .sending now else p

/-- Called for every chunk read off the wire. -/
def onReceived (p : RunProgress) (count : Nat) (now : ℚ) : RunProgress :=
  let p := { p with ingress := p.ingress + count }
  match p.request with
  | none => p
  | some r =>
      let r := { r with
        firstByteMs := r.firstByteMs.or (some (ms r.started now))
        bytesReceived := r.bytesReceived + count }
      { p with request := some r }.enter .receiving now

/-- A hook on a step of the connection: `note` is what it writes on the request
before the phase is entered. -/
def stepped (p : RunProgress) (note : Request → Request) (phase : Phase) (now : ℚ) :
    RunProgress :=
  match p.request with
  | none => p
  | some r => { p with request := some (note r) }.enter phase now

/-- The same hook when the step is over. -/
def noted (p : RunProgress) (note : Request → Request) : RunProgress :=
  { p with request := p.request.map note }

/-- `getaddrinfo`, up to the original it wraps. -/
def getaddrinfo (p : RunProgress) (now : ℚ) : RunProgress :=
  p.stepped id .resolving now

def getaddrinfoDone (p : RunProgress) (since now : ℚ) : RunProgress :=
  p.noted fun r => { r with dnsMs := some (ms since now) }

/-- `connect`, up to the original it wraps. -/
def connect (p : RunProgress) (fd : Int) (now : ℚ) : RunProgress :=
  p.stepped (fun r => { r with fd := fd }) .connecting now

def connectDone (p : RunProgress) (since now : ℚ) : RunProgress :=
  p.noted fun r => { r with connectMs := some (ms since now) }

/-- `wrap_socket`, up to the original it wraps. -/
def wrapSocket (p : RunProgress) (now : ℚ) : RunProgress :=
  p.stepped id .tlsHandshake now

def wrapSocketDone (p : RunProgress) (since now : ℚ) : RunProgress :=
  p.noted fun r => { r with tlsMs := some (ms since now) }

/-- `HTTPConnection.request`, up to the original it wraps. -/
def newRequest (p : RunProgress) (c : Connection) (method path : PyStr) (now : ℚ) :
    RunProgress :=
  { p with
    request := some
      { connId := c.id
        method := method
        url := c.url path
        host := c.hostPart
        name := c.host
        port := c.port
        tls := c.https
        started := now } }

/-- `HTTPConnection.close`. -/
def close (p : RunProgress) (conn : Nat) (now : ℚ) : RunProgress :=
  match p.request with
  | none => p
  | some r =>
      if r.connId = conn then
        { p with request := none, requestsCompleted := p.requestsCompleted + 1 }.enter
          .betweenRequests now
      else p

section Fields

variable (p : RunProgress) (phase : Phase) (now : ℚ)

@[simp] theorem enter_phase : (p.enter phase now).phase = phase := by
  unfold enter
  split
  · rfl
  · rename_i h
    exact (not_not.mp h).symm

@[simp] theorem enter_request : (p.enter phase now).request = p.request := by
  unfold enter
  split <;> rfl

@[simp] theorem enter_timeouts : (p.enter phase now).timeouts = p.timeouts := by
  unfold enter
  split <;> rfl

end Fields

@[simp] theorem onTimeout_phase (p : RunProgress) (now : ℚ) (tcp : Option TcpInfo) :
    (p.onTimeout now tcp).phase = p.phase := by
  unfold onTimeout
  repeat' split
  all_goals rfl

end RunProgress

/-! ## The moments of a run in `http.client` -/

/-- What `HTTPResponse.begin` makes of the status line and the headers. -/
structure ResponseHead where
  /-- The answer to HEAD. -/
  toHead : Bool
  status : Nat
  /-- `_check_close`: `Connection: close`, or HTTP/1.0 without keep-alive. -/
  checkClose : Bool
  chunked : Bool
  contentLength : Option Nat
deriving DecidableEq

/-- The status of a response that has no body: 204, 304, or an informational one. -/
def ResponseHead.noContent (h : ResponseHead) : Bool :=
  h.status == 204 || h.status == 304 || (decide (100 ≤ h.status) && decide (h.status < 200))

def ResponseHead.length (h : ResponseHead) : Option Nat :=
  if h.noContent || h.toHead then some 0 else if h.chunked then none else h.contentLength

def ResponseHead.willClose (h : ResponseHead) : Bool :=
  h.checkClose || (!h.chunked && h.length.isNone)

/-- Something of the body is still to be read when the headers have been.  `read` looks
at `chunked` before the length, so chunks are read whatever the status says. -/
def ResponseHead.bodyLeft (h : ResponseHead) : Bool :=
  !h.toHead && (h.chunked || h.length != some 0)

/-- The moments of a tracked run at which its thread passes through a hook, enters
or leaves `http.client`, or stores the bodies of a finished run. -/
inductive HookEvent
  /-- `request` is called. -/
  | request (c : Connection) (method path : PyStr) (now : ℚ)
  /-- A chunk is about to be written. -/
  | sent (count : Nat) (now : ℚ)
  | resolving (now : ℚ)
  | resolved (since now : ℚ)
  | connecting (fd : Int) (now : ℚ)
  | connected (since now : ℚ)
  /-- A connect times out and `create_connection` goes on to the next address. -/
  | addressExpired (now : ℚ) (tcp : Option TcpInfo)
  | handshaking (now : ℚ)
  | handshaken (since now : ℚ)
  /-- `request` returns. -/
  | requested (now : ℚ)
  | received (count : Nat) (now : ℚ)
  /-- The headers are parsed, and `getresponse` closes the connection if it is to
  be closed. -/
  | headers (conn : Nat) (head : ResponseHead) (now : ℚ)
  /-- The last of the body has been read. -/
  | bodyRead
  /-- A timer expires and ends the request. -/
  | expired (now : ℚ) (tcp : Option TcpInfo)
  /-- Another exception ends the request, or the response is dropped unread. -/
  | abandoned
  /-- The client closes a connection. -/
  | closed (conn : Nat) (now : ℚ)
  /-- The executor has returned, and the bodies are stored. -/
  | storing (now : ℚ)

/-- What the hook at this moment does to the record. -/
def RunProgress.hook (p : RunProgress) : HookEvent → RunProgress
  | .request c method path now => p.newRequest c method path now
  | .sent count now => p.onSent count now
  | .resolving now => p.getaddrinfo now
  | .resolved since now => p.getaddrinfoDone since now
  | .connecting fd now => p.connect fd now
  | .connected since now => p.connectDone since now
  | .addressExpired now tcp => p.onTimeout now tcp
  | .handshaking now => p.wrapSocket now
  | .handshaken since now => p.wrapSocketDone since now
  | .requested now => p.enter .awaitingResponse now
  | .received count now => p.onReceived count now
  | .headers conn head now => if head.willClose then p.close conn now else p
  | .bodyRead => p
  | .expired now tcp => p.onTimeout now tcp
  | .abandoned => p
  | .closed conn now => p.close conn now
  | .storing now => p.enter .storingBodies now

/-- A request whose response has not been read to its end: the connection it went
out on, what it asked for, and the number of timeouts recorded before it. -/
structure Exchange where
  connection : Connection
  method : PyStr
  path : PyStr
  records : Nat
deriving DecidableEq

/-- Where the run's thread is in `http.client`. -/
inductive Flight
  | idle
  /-- `request` has been called, and nothing sent. -/
  | opened (x : Exchange)
  /-- From the first send, connecting included, until `request` returns. -/
  | sending (x : Exchange)
  /-- The status line and the headers are awaited. -/
  | awaiting (x : Exchange)
  /-- The body is being read. -/
  | reading (x : Exchange)
deriving DecidableEq

namespace Flight

/-- The exchange from its first send until its response has been read. -/
def inFlight : Flight → Option Exchange
  | idle => none
  | opened _ => none
  | sending x => some x
  | awaiting x => some x
  | reading x => some x

/-- The exchange from the call of `request` on. -/
def exchange : Flight → Option Exchange
  | idle => none
  | opened x => some x
  | sending x => some x
  | awaiting x => some x
  | reading x => some x

/-- Where the thread is after the event; none if it cannot come here.  `records` is
the number of timeouts on record. -/
def next (f : Flight) (records : Nat) (e : HookEvent) : Option Flight :=
  match e with
  | .request c method path _ =>
      match f with
      | idle => some (opened ⟨c, method, path, records⟩)
      | _ => none
  | .sent _ _ =>
      match f with
      | opened x => some (sending x)
      | sending x => some (sending x)
      | _ => none
  | .addressExpired _ _ =>
      match f with
      | idle => some idle
      | sending x => some (sending x)
      | _ => none
  | .requested _ =>
      match f with
      | sending x => some (awaiting x)
      | _ => none
  | .headers c head _ =>
      match f with
      | awaiting x =>
          if x.connection.id = c then some (if head.bodyLeft then reading x else idle) else none
      | _ => none
  | .bodyRead =>
      match f with
      | reading _ => some idle
      | _ => none
  | .expired _ _ =>
      match f.inFlight with
      | some _ => some idle
      | none => none
  | .abandoned => some idle
  | .closed c _ =>
      match f.exchange with
      | some x => some (if x.connection.id = c then idle else f)
      | none => some f
  | .storing _ =>
      match f with
      | idle => some idle
      | _ => none
  | _ => some f

end Flight

/-- A tracked run: where its thread is, and the record it keeps. -/
structure Tracked where
  flight : Flight
  progress : RunProgress

/-- The record is made when the job is submitted. -/
def Tracked.start (now : ℚ) : Tracked :=
  ⟨.idle, { phaseSince := now }⟩

/-- One moment of a tracked run. -/
def HookStep (s : Tracked) (e : HookEvent) (t : Tracked) : Prop :=
  s.flight.next s.progress.timeouts.length e = some t.flight ∧
    t.progress = s.progress.hook e

end ProbeAgent
