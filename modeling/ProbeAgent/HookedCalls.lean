import ProbeAgent.EgressGuard
import ProbeAgent.Instrument
import ProbeAgent.Isolation
import ProbeAgent.Platform

/-!
# The hooks around the calls of a run (`wire_metrics.install`, `run_progress.install`)

The executor and `http.client` are a client of `socket`, `ssl` and of the methods of
`http.client` that are hooked.  A hook calls the original it wraps and notes on the way what
it sees, in the byte counter and in the record of the thread; the egress guard may refuse.

Whatever is installed, in whatever order, the client ends as it does under the policy alone:
what it is answered, what is raised at it and what becomes of the network
(`hooks_transparent`).  And while a run is measured both its totals of bytes in grow by what
`read`, `readline` and `readinto` return, and both its totals of bytes out by the size of what
`send` is called with (`totals_exact`); what is read by another method of the file object is
not counted.
-/

namespace ProbeAgent

open PyText Instrument

/-- How a `_CountingReader` is read. -/
inductive ReadOp
  | read (size : Option Int)
  | readline (limit : Option Int)
  | readinto (room : Nat)

/-- The calls of the run's thread that reach an original. -/
inductive NetCall
  | getaddrinfo (host : Option PyStr)
  | connect (fd : Int) (address : SockAddr)
  | wrapSocket
  /-- `HTTPResponse.__init__` of this response. -/
  | responseInit (response : Nat)
  /-- A read of the file object of the response. -/
  | read (response : Nat) (op : ReadOp)
  /-- Another method of it, which `_CountingReader.__getattr__` passes on. -/
  | passedOn (response : Nat)

/-- The methods of `HTTPConnection` whose originals make further calls. -/
inductive NetScope
  | request (c : Connection) (method path : PyStr)
  /-- `bytes` is whether the data is `bytes` or a `bytearray`. -/
  | send (size : Nat) (bytes : Bool)
  | close (conn : Nat)

/-- What they return, and what a run of the executor returns. -/
inductive NetValue
  | none
  | addresses (ips : List PyStr)
  | data (data : Bytes)
  | count (n : Nat)
  /-- The result, and the files the executor has left. -/
  | ran (result : Json) (files : Disk)

/-- `len(data)`, or the `n` of `readinto`. -/
def NetValue.received : NetValue → Nat
  | data bytes => bytes.length
  | count n => n
  | _ => 0

/-- What the hooks of a thread read and write: the byte counter, the record that is kept, if
one is, the responses whose file object is a `_CountingReader`, and the number of clock
readings made. -/
structure HookCells where
  counter : WireCounter
  progress : Option RunProgress
  wrapped : Nat → Bool
  ticks : Nat := 0

/-- The originals, on a network in some state. -/
structure Network (σ : Type) where
  call : NetCall → Bare σ PyExc NetValue
  /-- The response has been made. -/
  opened : σ → Nat → Prop
  /-- `tcp_state.read`. -/
  tcp : σ → Int → Option TcpInfo
  opened_of_init : ∀ id w j, opened (call (.responseInit id) w).2 j →
    opened w j ∨ j = id ∧ ∃ v, (call (.responseInit id) w).1 = .ok v
  opened_of_other : ∀ c w j, (∀ id, c ≠ .responseInit id) →
    opened (call c w).2 j → opened w j
  opened_of_read : ∀ id op w v, (call (.read id op) w).1 = .ok v → opened w id

/-- What a thread does beside its cells. -/
abbrev NetAct (σ α : Type) := Hooked HookCells σ PyExc α

section Hooks

variable {σ : Type} (clock : Nat → ℚ) (tcp : σ → Int → Option TcpInfo)

/-- The hook of `run_progress` for an event at the time of the next clock reading. -/
def HookCells.note (t : HookCells) (e : ℚ → HookEvent) : HookCells :=
  { t with progress := t.progress.map fun p => p.hook (e (clock t.ticks)), ticks := t.ticks + 1 }

/-- `p is not None and p.request is not None`. -/
def HookCells.inRequest (t : HookCells) : Bool :=
  (t.progress.bind fun p => p.request).isSome

/-- `run_progress.on_timeout`. -/
def HookCells.onTimeout (t : HookCells) (w : σ) : HookCells :=
  t.note clock fun now =>
    .expired now ((t.progress.bind fun p => p.request).bind fun r => tcp w r.fd)

/-- `except TimeoutError: run_progress.on_timeout(); raise`. -/
def timedOut (e : PyExc) : NetAct σ NetValue := do
  if e.isTimeoutError then
    Hooked.record fun (t : HookCells) w => t.onTimeout clock tcp w
    Hooked.raise e
  else
    Hooked.raise e

/-- `time.monotonic()`, kept for later. -/
def readClock (f : ℚ → NetAct σ NetValue) : NetAct σ NetValue := do
  let t0 ← Hooked.look fun (t : HookCells) _ => clock t.ticks
  Hooked.record fun (t : HookCells) _ => { t with ticks := t.ticks + 1 }
  f t0

/-- `run_progress.install.getaddrinfo`. -/
def progressGetaddrinfo (orig : NetAct σ NetValue) : NetAct σ NetValue := do
  if ← Hooked.look fun (t : HookCells) _ => t.inRequest then
    Hooked.record fun (t : HookCells) _ => t.note clock .resolving
    readClock clock fun t0 =>
      orig.ensuring (Hooked.record fun (t : HookCells) _ => t.note clock (.resolved t0))
  else
    orig

/-- `run_progress.install.connect`. -/
def progressConnect (fd : Int) (orig : NetAct σ NetValue) : NetAct σ NetValue := do
  if ← Hooked.look fun (t : HookCells) _ => t.inRequest then
    Hooked.record fun (t : HookCells) _ => t.note clock (.connecting fd)
    readClock clock fun t0 => do
      let result ← orig.attempt (timedOut clock tcp)
      Hooked.record fun (t : HookCells) _ => t.note clock (.connected t0)
      return result
  else
    orig

/-- `run_progress.install.wrap_socket`. -/
def progressWrapSocket (orig : NetAct σ NetValue) : NetAct σ NetValue := do
  if ← Hooked.look fun (t : HookCells) _ => t.inRequest then
    Hooked.record fun (t : HookCells) _ => t.note clock .handshaking
    readClock clock fun t0 => do
      let result ← orig.attempt (timedOut clock tcp)
      Hooked.record fun (t : HookCells) _ => t.note clock (.handshaken t0)
      return result
  else
    orig

/-- `run_progress.install.request`. -/
def progressRequest (c : Connection) (method path : PyStr) (orig : NetAct σ NetValue) :
    NetAct σ NetValue := do
  if ← Hooked.look fun (t : HookCells) _ => t.progress.isSome then
    Hooked.record fun (t : HookCells) _ => t.note clock (.request c method path)
    let result ← orig
    Hooked.record fun (t : HookCells) _ => t.note clock .requested
    return result
  else
    orig

/-- `run_progress.install.close`. -/
def progressClose (conn : Nat) (orig : NetAct σ NetValue) : NetAct σ NetValue := do
  Hooked.record fun (t : HookCells) _ => t.note clock (.closed conn)
  orig

/-- `c.egress += len(data)`. -/
def HookCells.countSent (t : HookCells) (count : Nat) : HookCells :=
  { t with counter := { t.counter with egress := t.counter.egress + count } }

/-- `if c.active: c.ingress += len(data)`. -/
def HookCells.countReceived (t : HookCells) (count : Nat) : HookCells :=
  if t.counter.active then
    { t with counter := { t.counter with ingress := t.counter.ingress + count } }
  else t

/-- `wire_metrics.install.patched_send`. -/
def patchedSend (size : Nat) (bytes : Bool) (orig : NetAct σ NetValue) : NetAct σ NetValue := do
  if ← Hooked.look fun (t : HookCells) _ => t.counter.active && bytes then
    Hooked.record fun (t : HookCells) _ => t.countSent size
    Hooked.record fun (t : HookCells) _ => t.note clock (.sent size)
    orig.attempt (timedOut clock tcp)
  else
    orig.attempt (timedOut clock tcp)

/-- `wire_metrics.install.patched_resp_init`. -/
def patchedRespInit (response : Nat) (orig : NetAct σ NetValue) : NetAct σ NetValue := do
  let result ← orig
  Hooked.record fun (t : HookCells) _ =>
    if t.counter.active then { t with wrapped := Function.update t.wrapped response true } else t
  return result

/-- `_CountingReader.read`, `readline` and `readinto`. -/
def countingRead (orig : NetAct σ NetValue) : NetAct σ NetValue := do
  let data ← orig.attempt (timedOut clock tcp)
  if data.received ≠ 0 then
    Hooked.record fun (t : HookCells) _ => t.note clock (.received data.received)
    Hooked.record fun (t : HookCells) _ => t.countReceived data.received
    return data
  else
    return data

end Hooks

/-! ## What is installed -/

/-- `EgressBlocked`. -/
def egressBlocked : PyExc := .library "EgressBlocked"

section Installed

variable {σ : Type} (caseMap : CaseMap) (clock : Nat → ℚ) (network : Network σ)

/-- `_guarded_getaddrinfo`, on a thread whose flag this is. -/
def guardGetaddrinfo (guarded : Bool) (host : Option PyStr) (orig : NetAct σ NetValue) :
    NetAct σ NetValue := do
  match ← orig with
  | .addresses ips =>
      if guarded && answerIsBlocked caseMap host ips then Hooked.raise egressBlocked
      else return .addresses ips
  | result => return result

/-- `_guarded_connect`. -/
def guardConnect (guarded : Bool) (address : SockAddr) (orig : NetAct σ NetValue) :
    NetAct σ NetValue :=
  if guarded && targetIsBlocked address then Hooked.raise egressBlocked else orig

/-- A call through the layers around it, the outermost first. -/
def throughLayers (guard progress : NetAct σ NetValue → NetAct σ NetValue) :
    List Layer → NetAct σ NetValue → NetAct σ NetValue
  | [], orig => orig
  | .guard :: rest, orig => guard (throughLayers guard progress rest orig)
  | .progress :: rest, orig => progress (throughLayers guard progress rest orig)

/-- What has been installed: the layers around the socket calls, the outermost first, and
whether `wire_metrics.install` has run. -/
structure Hooks where
  layers : List Layer
  metrics : Bool

/-- `run_progress.install` has run. -/
def Hooks.progress (hooks : Hooks) : Bool :=
  hooks.layers.contains .progress

/-- A call as it is made, on a thread whose flag of the guard this is. -/
def hookedCall (hooks : Hooks) (guarded : Bool) : NetCall → NetAct σ NetValue
  | .getaddrinfo host =>
      throughLayers (guardGetaddrinfo caseMap guarded host) (progressGetaddrinfo clock) hooks.layers
        (Hooked.lift (network.call (.getaddrinfo host)))
  | .connect fd address =>
      throughLayers (guardConnect guarded address) (progressConnect clock network.tcp fd)
        hooks.layers (Hooked.lift (network.call (.connect fd address)))
  | .wrapSocket =>
      if hooks.progress then
        progressWrapSocket clock network.tcp (Hooked.lift (network.call .wrapSocket))
      else Hooked.lift (network.call .wrapSocket)
  | .responseInit response =>
      if hooks.metrics then
        patchedRespInit response (Hooked.lift (network.call (.responseInit response)))
      else Hooked.lift (network.call (.responseInit response))
  | .read response op => do
      if ← Hooked.look fun (t : HookCells) _ => t.wrapped response then
        countingRead clock network.tcp (Hooked.lift (network.call (.read response op)))
      else
        Hooked.lift (network.call (.read response op))
  | .passedOn response => Hooked.lift (network.call (.passedOn response))

/-- A method as it is called: the body is what the original does. -/
def hookedScope (hooks : Hooks) : NetScope → NetAct σ NetValue → NetAct σ NetValue
  | .request c method path, body =>
      if hooks.progress then progressRequest clock c method path body else body
  | .send size bytes, body =>
      if hooks.metrics then patchedSend clock network.tcp size bytes body else body
  | .close conn, body =>
      if hooks.progress then progressClose clock conn body else body

/-- An answer under the policy. -/
def policedAnswer (guarded : Bool) (host : Option PyStr) (q : Bare σ PyExc NetValue) :
    Bare σ PyExc NetValue := fun w =>
  match q w with
  | (.ok (.addresses ips), w') =>
      if guarded && answerIsBlocked caseMap host ips then (.error egressBlocked, w')
      else (.ok (.addresses ips), w')
  | out => out

/-- A connect under the policy. -/
def policedConnect (guarded : Bool) (address : SockAddr) (q : Bare σ PyExc NetValue) :
    Bare σ PyExc NetValue :=
  if guarded && targetIsBlocked address then Bare.raise egressBlocked else q

/-- The originals under the policy alone. -/
def policed (guarded : Bool) : NetCall → Bare σ PyExc NetValue
  | .getaddrinfo host => policedAnswer caseMap guarded host (network.call (.getaddrinfo host))
  | .connect fd address => policedConnect guarded address (network.call (.connect fd address))
  | c => network.call c

/-- The executor and `http.client`: a program over these calls and methods. -/
abbrev NetClient := Client NetCall NetScope PyExc NetValue

end Installed

/-! ## The client under the hooks -/

section Transparent

variable {σ : Type} {caseMap : CaseMap} {clock : Nat → ℚ}
  {tcp : σ → Int → Option TcpInfo} {p : NetAct σ NetValue} {q : Bare σ PyExc NetValue}

theorem blind_timedOut (e : PyExc) : (timedOut clock tcp e).Blind (.raise e) := by
  unfold timedOut
  split
  · exact Hooked.blind_record (Hooked.blind_raise e)
  · exact Hooked.blind_raise e

theorem blind_readClock {f : ℚ → NetAct σ NetValue} (h : ∀ t0, (f t0).Blind q) :
    (readClock clock f).Blind q :=
  Hooked.blind_look fun t0 => Hooked.blind_record (h t0)

/-- Noting afterwards that a call has returned. -/
theorem blind_noted (h : p.Blind q) (f : NetValue → HookCells → σ → HookCells) :
    (p >>= fun r => Hooked.record (f r) >>= fun _ => pure r : NetAct σ NetValue).Blind q :=
  h.andThen fun r => Hooked.blind_record (Hooked.blind_pure r)

theorem progressGetaddrinfo_blind (h : p.Blind q) : (progressGetaddrinfo clock p).Blind q := by
  refine Hooked.blind_look fun tracked => ?_
  split
  · exact Hooked.blind_record (blind_readClock fun t0 => h.ensuring)
  · exact h

theorem progressConnect_blind (fd : Int) (h : p.Blind q) :
    (progressConnect clock tcp fd p).Blind q := by
  refine Hooked.blind_look fun tracked => ?_
  split
  · refine Hooked.blind_record (blind_readClock fun t0 => ?_)
    exact blind_noted (h.attempt blind_timedOut) _
  · exact h

theorem progressWrapSocket_blind (h : p.Blind q) :
    (progressWrapSocket clock tcp p).Blind q := by
  refine Hooked.blind_look fun tracked => ?_
  split
  · refine Hooked.blind_record (blind_readClock fun t0 => ?_)
    exact blind_noted (h.attempt blind_timedOut) _
  · exact h

theorem progressRequest_blind (c : Connection) (method path : PyStr) (h : p.Blind q) :
    (progressRequest clock c method path p).Blind q := by
  refine Hooked.blind_look fun tracked => ?_
  split
  · exact Hooked.blind_record (blind_noted h _)
  · exact h

theorem patchedSend_blind (size : Nat) (bytes : Bool) (h : p.Blind q) :
    (patchedSend clock tcp size bytes p).Blind q := by
  refine Hooked.blind_look fun counted => ?_
  split
  · exact Hooked.blind_record (Hooked.blind_record (h.attempt blind_timedOut))
  · exact h.attempt blind_timedOut

theorem countingRead_blind (h : p.Blind q) : (countingRead clock tcp p).Blind q := by
  refine (h.attempt blind_timedOut).andThen fun data => ?_
  split
  · exact Hooked.blind_record (Hooked.blind_record (Hooked.blind_pure data))
  · exact Hooked.blind_pure data

theorem guardGetaddrinfo_blind (guarded : Bool) (host : Option PyStr) (h : p.Blind q) :
    (guardGetaddrinfo caseMap guarded host p).Blind (policedAnswer caseMap guarded host q) := by
  intro t w
  have hp := h t w
  unfold policedAnswer
  rw [← hp]
  change ((Hooked.seq p _ t w).1, (Hooked.seq p _ t w).2.2) = _
  unfold Hooked.seq
  cases hrun : p t w with
  | mk r rest =>
      obtain ⟨t', w'⟩ := rest
      cases r with
      | error e => rfl
      | ok v =>
          cases v with
          | addresses ips =>
              by_cases hblocked : (guarded && answerIsBlocked caseMap host ips) = true
              · simp only [if_pos hblocked]
                rfl
              · simp only [if_neg hblocked]
                rfl
          | _ => rfl

theorem guardConnect_blind (guarded : Bool) (address : SockAddr) (h : p.Blind q) :
    (guardConnect guarded address p).Blind (policedConnect guarded address q) := by
  unfold guardConnect policedConnect
  split
  · exact Hooked.blind_raise _
  · exact h

/-- Through layers of which the inner ones keep an action and the guard brings it under the
policy, once and for all. -/
theorem throughLayers_blind {guard progress : NetAct σ NetValue → NetAct σ NetValue}
    {police : Bare σ PyExc NetValue → Bare σ PyExc NetValue}
    (hprogress : ∀ p q, Hooked.Blind p q → (progress p).Blind q)
    (hguard : ∀ p q, Hooked.Blind p q → (guard p).Blind (police q))
    (hagain : ∀ q, police (police q) = police q) (h : p.Blind q) (layers : List Layer) :
    (throughLayers guard progress layers p).Blind
      (if layers.contains .guard then police q else q) := by
  induction layers with
  | nil => exact h
  | cons layer layers ih =>
      cases layer with
      | progress => exact hprogress _ _ ih
      | guard =>
          have hone := hguard _ _ ih
          split at hone
          · rw [hagain] at hone
            exact hone
          · exact hone

theorem policedAnswer_again (guarded : Bool) (host : Option PyStr)
    (q : Bare σ PyExc NetValue) :
    policedAnswer caseMap guarded host (policedAnswer caseMap guarded host q) =
      policedAnswer caseMap guarded host q := by
  funext w
  unfold policedAnswer
  obtain ⟨r, w'⟩ := q w
  cases r with
  | error e => rfl
  | ok v =>
      cases v with
      | addresses ips =>
          by_cases hblocked : (guarded && answerIsBlocked caseMap host ips) = true
          · simp only [if_pos hblocked]
          · simp only [if_neg hblocked]
      | _ => rfl

theorem policedConnect_again (guarded : Bool) (address : SockAddr)
    (q : Bare σ PyExc NetValue) :
    policedConnect guarded address (policedConnect guarded address q) =
      policedConnect guarded address q := by
  unfold policedConnect
  split <;> rfl

theorem policedAnswer_unguarded (host : Option PyStr) (q : Bare σ PyExc NetValue) :
    policedAnswer caseMap false host q = q := by
  funext w
  unfold policedAnswer
  split
  · rename_i ips w' hrun
    rw [hrun]
    rfl
  · rfl

variable {network : Network σ} {hooks : Hooks} {guarded : Bool}

/-- Through layers, where the guard polices the threads whose flag is set. -/
theorem throughLayers_policed {guard progress : NetAct σ NetValue → NetAct σ NetValue}
    (police : Bool → Bare σ PyExc NetValue → Bare σ PyExc NetValue)
    (hprogress : ∀ p q, Hooked.Blind p q → (progress p).Blind q)
    (hguard : ∀ p q, Hooked.Blind p q → (guard p).Blind (police guarded q))
    (hagain : ∀ q, police guarded (police guarded q) = police guarded q)
    (hoff : ∀ q, police false q = q) (h : p.Blind q) (layers : List Layer) :
    (throughLayers guard progress layers p).Blind
      (police (guarded && layers.contains .guard) q) := by
  have hlayers := throughLayers_blind hprogress hguard hagain h layers
  cases hcontains : layers.contains .guard with
  | false =>
      rw [hcontains, if_neg Bool.false_ne_true] at hlayers
      rw [Bool.and_false, hoff]
      exact hlayers
  | true =>
      rw [hcontains, if_pos rfl] at hlayers
      rw [Bool.and_true]
      exact hlayers

/-- A hooked call is the original under the policy, where the guard is installed. -/
theorem hookedCall_blind (c : NetCall) :
    (hookedCall caseMap clock network hooks guarded c).Blind
      (policed caseMap network (guarded && hooks.layers.contains .guard) c) := by
  cases c with
  | getaddrinfo host =>
      exact throughLayers_policed (fun guarded => policedAnswer caseMap guarded host)
        (fun _ _ => progressGetaddrinfo_blind) (fun _ _ => guardGetaddrinfo_blind guarded host)
        (policedAnswer_again guarded host) (policedAnswer_unguarded host) Hooked.blind_lift
        hooks.layers
  | connect fd address =>
      exact throughLayers_policed (fun guarded => policedConnect guarded address)
        (fun _ _ => progressConnect_blind fd) (fun _ _ => guardConnect_blind guarded address)
        (policedConnect_again guarded address) (fun _ => rfl) Hooked.blind_lift hooks.layers
  | wrapSocket =>
      rw [hookedCall]
      split
      · exact progressWrapSocket_blind Hooked.blind_lift
      · exact Hooked.blind_lift
  | responseInit response =>
      rw [hookedCall]
      split
      · exact blind_noted Hooked.blind_lift _
      · exact Hooked.blind_lift
  | read response op =>
      refine Hooked.blind_look fun wrapped => ?_
      split
      · exact countingRead_blind Hooked.blind_lift
      · exact Hooked.blind_lift
  | passedOn response => exact Hooked.blind_lift

theorem hookedScope_blind (s : NetScope) (h : p.Blind q) :
    (hookedScope clock network hooks s p).Blind q := by
  cases s with
  | request c method path =>
      rw [hookedScope]
      split
      · exact progressRequest_blind c method path h
      · exact h
  | send size bytes =>
      rw [hookedScope]
      split
      · exact patchedSend_blind size bytes h
      · exact h
  | close conn =>
      rw [hookedScope]
      split
      · exact Hooked.blind_record h
      · exact h

/-- A client under the hooks is the client under the policy. -/
theorem client_blind (client : NetClient) :
    (client.hooked (hookedCall caseMap clock network hooks guarded)
      (hookedScope clock network hooks)).Blind
      (client.run (policed caseMap network (guarded && hooks.layers.contains .guard))) :=
  Client.hooked_blind hookedCall_blind (fun s _ _ => hookedScope_blind s) client

end Transparent

/-- **The hooks are transparent.** Whatever is installed, in whatever order, and whatever is
on record: a client ends under the hooks as it does on the originals under the policy, and
leaves the same network. -/
theorem hooks_transparent {σ : Type} (caseMap : CaseMap) (clock : Nat → ℚ)
    (network : Network σ) (hooks : Hooks) (guarded : Bool) (client : NetClient)
    (t : HookCells) (w : σ) :
    let out := client.hooked (hookedCall caseMap clock network hooks guarded)
      (hookedScope clock network hooks) t w
    (out.1, out.2.2) =
      client.run (policed caseMap network (guarded && hooks.layers.contains .guard)) w :=
  client_blind client t w

/-! ## What is counted -/

section Counting

variable {σ : Type} {caseMap : CaseMap} {clock : Nat → ℚ} {network : Network σ}
  {hooks : Hooks} {guarded : Bool}

/-- Inside `measure` and `track`: every response there is was made under the hook. -/
structure Measured (network : Network σ) (t : HookCells) (w : σ) : Prop where
  active : t.counter.active = true
  tracked : t.progress.isSome = true
  wrapped : ∀ id, network.opened w id → t.wrapped id = true

/-- What `read`, `readline` and `readinto` return. -/
def bytesRead : NetCall → Except PyExc NetValue → Nat
  | .read _ _, r => Hooked.worthOf NetValue.received r
  | _, _ => 0

/-- The size of the bytes or the bytearray `send` is called with; other data is not counted. -/
def bytesHanded : NetScope → Nat
  | .send size true => size
  | _ => 0

/-- A total that grows by so much for each byte received and for each byte sent, and by
nothing else. -/
structure IsTotal (perReceived perSent : Nat) (m : HookCells → Nat) : Prop where
  note : ∀ (clock : Nat → ℚ) t (e : ℚ → HookEvent),
    (∀ now, (e now).bytesIn = 0 ∧ (e now).bytesOut = 0) → m (t.note clock e) = m t
  received : ∀ (clock : Nat → ℚ) t n, t.counter.active = true → t.progress.isSome = true →
    m ((t.note clock (.received n)).countReceived n) = m t + perReceived * n
  sent : ∀ (clock : Nat → ℚ) t n, t.progress.isSome = true →
    m ((t.countSent n).note clock (.sent n)) = m t + perSent * n
  ticks : ∀ t n, m { t with ticks := n } = m t
  wrapped : ∀ t f, m { t with wrapped := f } = m t

/-- A total of the record. -/
def HookCells.ofRecord (t : HookCells) (total : RunProgress → Nat) : Nat :=
  match t.progress with
  | none => 0
  | some p => total p

/-- The totals a completed result carries. -/
def HookCells.wireIngress (t : HookCells) : Nat := t.counter.ingress

def HookCells.wireEgress (t : HookCells) : Nat := t.counter.egress

/-- The totals a stand-in result carries. -/
def HookCells.recordIngress (t : HookCells) : Nat := t.ofRecord RunProgress.ingress

def HookCells.recordEgress (t : HookCells) : Nat := t.ofRecord RunProgress.egress

theorem wireIngress_isTotal : IsTotal 1 0 HookCells.wireIngress where
  note _ _ _ _ := rfl
  received clock t n hactive _ := by
    rw [HookCells.countReceived, HookCells.note, if_pos hactive, Nat.one_mul]
    rfl
  sent _ t n _ := by
    rw [Nat.zero_mul]
    rfl
  ticks _ _ := rfl
  wrapped _ _ := rfl

theorem wireEgress_isTotal : IsTotal 0 1 HookCells.wireEgress where
  note _ _ _ _ := rfl
  received clock t n hactive _ := by
    rw [HookCells.countReceived, HookCells.note, if_pos hactive, Nat.zero_mul]
    rfl
  sent _ t n _ := by
    rw [Nat.one_mul]
    rfl
  ticks _ _ := rfl
  wrapped _ _ := rfl

/-- What an event is worth to a total of the record. -/
theorem ofRecord_note (total : RunProgress → Nat) (worth : HookEvent → Nat)
    (hworth : ∀ p e, total (p.hook e) = total p + worth e) (clock : Nat → ℚ) (t : HookCells)
    (e : ℚ → HookEvent) (htracked : t.progress.isSome = true) :
    (t.note clock e).ofRecord total = t.ofRecord total + worth (e (clock t.ticks)) := by
  obtain ⟨p, hp⟩ := Option.isSome_iff_exists.mp htracked
  rw [HookCells.note, HookCells.ofRecord, HookCells.ofRecord, hp]
  exact hworth p (e (clock t.ticks))

/-- The record's totals are those of the events it is noted. -/
theorem ofRecord_isTotal (total : RunProgress → Nat) (worth : HookEvent → Nat)
    (hworth : ∀ p e, total (p.hook e) = total p + worth e) {perReceived perSent : Nat}
    (hzero : ∀ e, e.bytesIn = 0 ∧ e.bytesOut = 0 → worth e = 0)
    (hreceived : ∀ n now, worth (.received n now) = perReceived * n)
    (hsent : ∀ n now, worth (.sent n now) = perSent * n) :
    IsTotal perReceived perSent fun t => t.ofRecord total where
  note clock t e he := by
    cases htracked : t.progress with
    | none =>
        rw [HookCells.note, HookCells.ofRecord, HookCells.ofRecord, htracked]
        rfl
    | some p =>
        rw [ofRecord_note total worth hworth clock t e (by rw [htracked]; rfl),
          hzero _ (he _), Nat.add_zero]
  received clock t n hactive htracked := by
    have hnote : (t.note clock (.received n)).counter.active = true := hactive
    rw [HookCells.countReceived, if_pos hnote, ← hreceived n (clock t.ticks)]
    exact ofRecord_note total worth hworth clock t (.received n) htracked
  sent clock t n htracked := by
    rw [← hsent n (clock t.ticks)]
    exact ofRecord_note total worth hworth clock (t.countSent n) (.sent n) htracked
  ticks _ _ := rfl
  wrapped _ _ := rfl

theorem recordIngress_isTotal : IsTotal 1 0 HookCells.recordIngress :=
  ofRecord_isTotal RunProgress.ingress HookEvent.bytesIn (fun p e => (hook_bytes p e).1)
    (fun _ h => h.1) (fun n _ => (Nat.one_mul n).symm) fun n _ => (Nat.zero_mul n).symm

theorem recordEgress_isTotal : IsTotal 0 1 HookCells.recordEgress :=
  ofRecord_isTotal RunProgress.egress HookEvent.bytesOut (fun p e => (hook_bytes p e).2)
    (fun _ h => h.2) (fun n _ => (Nat.zero_mul n).symm) fun n _ => (Nat.one_mul n).symm

variable {perReceived perSent : Nat} {m : HookCells → Nat} {p : NetAct σ NetValue}
  {g : σ → Nat}

theorem Measured.note {t : HookCells} {w : σ} (h : Measured network t w) (e : ℚ → HookEvent) :
    Measured network (t.note clock e) w :=
  ⟨h.active, by simpa [HookCells.note] using h.tracked, h.wrapped⟩

theorem Measured.countSent {t : HookCells} {w : σ} (h : Measured network t w) (count : Nat) :
    Measured network (t.countSent count) w :=
  ⟨h.active, h.tracked, h.wrapped⟩

/-- A hook that notes anything but bytes. -/
theorem noted_same (hm : IsTotal perReceived perSent m) {e : HookCells → σ → ℚ → HookEvent}
    (he : ∀ t w now, (e t w now).bytesIn = 0 ∧ (e t w now).bytesOut = 0) (t : HookCells) (w : σ)
    (h : Measured network t w) :
    Measured network (t.note clock (e t w)) w ∧ m (t.note clock (e t w)) = m t :=
  ⟨h.note _, hm.note clock t _ (he t w)⟩

theorem quiet_timedOut (hm : IsTotal perReceived perSent m) (e : PyExc) :
    (timedOut clock network.tcp e).Quiet (Measured network) m := by
  unfold timedOut
  split
  · exact (Hooked.quiet_record (noted_same hm fun _ _ _ => ⟨rfl, rfl⟩)).bind fun _ =>
      Hooked.quiet_raise e
  · exact Hooked.quiet_raise e

theorem adds_readClock (hm : IsTotal perReceived perSent m) {f : ℚ → NetAct σ NetValue}
    (h : ∀ t0, (f t0).Adds (Measured network) m g) :
    (readClock clock f).Adds (Measured network) m g :=
  Hooked.adds_look fun t0 => Hooked.adds_record
    (fun t _ hI => ⟨⟨hI.active, hI.tracked, hI.wrapped⟩, hm.ticks t _⟩) (h t0)

theorem adds_noted (hm : IsTotal perReceived perSent m) (h : p.Adds (Measured network) m g)
    {e : ℚ → HookEvent} (he : ∀ now, (e now).bytesIn = 0 ∧ (e now).bytesOut = 0) :
    (p >>= fun r => Hooked.record (fun (t : HookCells) _ => t.note clock e) >>= fun _ =>
      pure r : NetAct σ NetValue).Adds (Measured network) m g :=
  h.andQuiet fun r => (Hooked.quiet_record (noted_same hm fun _ _ => he)).bind fun _ =>
    Hooked.quiet_pure r

theorem progressGetaddrinfo_adds (hm : IsTotal perReceived perSent m)
    (h : p.Adds (Measured network) m g) :
    (progressGetaddrinfo clock p).Adds (Measured network) m g := by
  refine Hooked.adds_look fun tracked => ?_
  split
  · refine Hooked.adds_record (noted_same hm fun _ _ _ => ⟨rfl, rfl⟩)
      (adds_readClock hm fun t0 => ?_)
    exact h.ensuring (Hooked.quiet_record (noted_same hm fun _ _ _ => ⟨rfl, rfl⟩))
  · exact h

theorem progressConnect_adds (hm : IsTotal perReceived perSent m) (fd : Int)
    (h : p.Adds (Measured network) m g) :
    (progressConnect clock network.tcp fd p).Adds (Measured network) m g := by
  refine Hooked.adds_look fun tracked => ?_
  split
  · refine Hooked.adds_record (noted_same hm fun _ _ _ => ⟨rfl, rfl⟩)
      (adds_readClock hm fun t0 => ?_)
    exact adds_noted hm (h.attempt (quiet_timedOut hm)) fun _ => ⟨rfl, rfl⟩
  · exact h

theorem progressWrapSocket_adds (hm : IsTotal perReceived perSent m)
    (h : p.Adds (Measured network) m g) :
    (progressWrapSocket clock network.tcp p).Adds (Measured network) m g := by
  refine Hooked.adds_look fun tracked => ?_
  split
  · refine Hooked.adds_record (noted_same hm fun _ _ _ => ⟨rfl, rfl⟩)
      (adds_readClock hm fun t0 => ?_)
    exact adds_noted hm (h.attempt (quiet_timedOut hm)) fun _ => ⟨rfl, rfl⟩
  · exact h

theorem guardGetaddrinfo_adds (host : Option PyStr) (h : p.Adds (Measured network) m g) :
    (guardGetaddrinfo caseMap guarded host p).Adds (Measured network) m g := by
  refine h.andQuiet fun r => ?_
  cases r with
  | addresses ips =>
      dsimp only
      split
      · exact Hooked.quiet_raise _
      · exact Hooked.quiet_pure _
  | _ => exact Hooked.quiet_pure _

theorem guardConnect_adds (address : SockAddr)
    (h : p.Adds (Measured network) m fun _ => 0) :
    (guardConnect guarded address p).Adds (Measured network) m fun _ => 0 := by
  unfold guardConnect
  split
  · exact (Hooked.quiet_raise _).adds
  · exact h

theorem throughLayers_adds {guard progress : NetAct σ NetValue → NetAct σ NetValue}
    (hprogress : ∀ p : NetAct σ NetValue, p.Adds (Measured network) m (fun _ => 0) →
      (progress p).Adds (Measured network) m fun _ => 0)
    (hguard : ∀ p : NetAct σ NetValue, p.Adds (Measured network) m (fun _ => 0) →
      (guard p).Adds (Measured network) m fun _ => 0)
    (h : p.Adds (Measured network) m fun _ => 0) (layers : List Layer) :
    (throughLayers guard progress layers p).Adds (Measured network) m fun _ => 0 := by
  induction layers with
  | nil => exact h
  | cons layer layers ih =>
      cases layer with
      | progress => exact hprogress _ ih
      | guard => exact hguard _ ih

/-- An original that makes no response. -/
theorem adds_original {c : NetCall} (hc : ∀ id, c ≠ .responseInit id) :
    (Hooked.lift (network.call c) : NetAct σ NetValue).Adds (Measured network) m fun _ => 0 :=
  Hooked.adds_lift fun _ w hI =>
    ⟨hI.active, hI.tracked, fun id hid => hI.wrapped id (network.opened_of_other c w id hc hid)⟩

/-- A read through a `_CountingReader` adds what it returns. -/
theorem countingRead_adds (hm : IsTotal perReceived perSent m) (response : Nat) (op : ReadOp) :
    (countingRead clock network.tcp (Hooked.lift (network.call (.read response op)))).Adds
      (Measured network) m
      fun w =>
        perReceived * bytesRead (.read response op) (network.call (.read response op) w).1 := by
  have hread : (Hooked.attempt (Hooked.lift (network.call (.read response op)))
      (timedOut clock network.tcp)).Adds (Measured network) m fun _ => 0 :=
    Hooked.Adds.attempt (adds_original nofun) (quiet_timedOut hm)
  have hblind : (Hooked.attempt (Hooked.lift (network.call (.read response op)) :
      NetAct σ NetValue) (timedOut clock network.tcp)).Blind (network.call (.read response op)) :=
    Hooked.Blind.attempt Hooked.blind_lift blind_timedOut
  have hgains : (countingRead clock network.tcp
      (Hooked.lift (network.call (.read response op)))).Adds (Measured network) m fun w =>
        Hooked.worthOf (fun v => perReceived * v.received)
          (network.call (.read response op) w).1 := by
    refine Hooked.Adds.andGains hread hblind fun data t w hI => ?_
    by_cases hdata : data.received ≠ 0
    · rw [if_pos hdata]
      refine ⟨?_, hm.received clock t _ hI.active hI.tracked, rfl⟩
      have hnote : Measured network (t.note clock (.received data.received)) w := hI.note _
      change Measured network ((t.note clock (.received data.received)).countReceived
        data.received) w
      rw [HookCells.countReceived, if_pos hnote.active]
      exact ⟨hnote.active, hnote.tracked, hnote.wrapped⟩
    · rw [if_neg hdata]
      rw [not_not] at hdata
      exact ⟨hI, by rw [hdata]; rfl, rfl⟩
  exact hgains.congr fun w => Hooked.worthOf_mul perReceived NetValue.received _

/-- Making a response adds nothing, and its file object is wrapped. -/
theorem patchedRespInit_adds (hm : IsTotal perReceived perSent m) (response : Nat) :
    (patchedRespInit response (Hooked.lift (network.call (.responseInit response)))).Adds
      (Measured network) m fun _ => 0 := by
  intro t w hI
  have hopened := network.opened_of_init response w
  change Measured network (Hooked.seq (Hooked.lift (network.call (.responseInit response))) _
      t w).2.1 (Hooked.seq (Hooked.lift (network.call (.responseInit response))) _ t w).2.2 ∧
    m (Hooked.seq (Hooked.lift (network.call (.responseInit response))) _ t w).2.1 = m t + 0
  unfold Hooked.seq Hooked.lift
  cases hrun : network.call (.responseInit response) w with
  | mk r w' =>
      rw [hrun] at hopened
      cases r with
      | error e =>
          refine ⟨⟨hI.active, hI.tracked, fun id hid => ?_⟩, rfl⟩
          rcases hopened id hid with hid | ⟨-, v, hv⟩
          · exact hI.wrapped id hid
          · cases hv
      | ok v =>
          change Measured network (if t.counter.active = true then _ else t) w' ∧
            m (if t.counter.active = true then _ else t) = m t + 0
          rw [if_pos hI.active]
          refine ⟨⟨hI.active, hI.tracked, fun id hid => ?_⟩, hm.wrapped t _⟩
          change Function.update t.wrapped response true id = true
          rcases hopened id hid with hid | ⟨rfl, -⟩
          · by_cases hsame : id = response
            · rw [hsame, Function.update_self]
            · rw [Function.update_of_ne hsame]
              exact hI.wrapped id hid
          · exact Function.update_self _ _ _

/-- A read is hooked where the file object of the response has been wrapped. -/
theorem hookedCall_read (response : Nat) (op : ReadOp) (t : HookCells) (w : σ) :
    hookedCall caseMap clock network hooks guarded (.read response op) t w =
      if t.wrapped response = true then
        countingRead clock network.tcp (Hooked.lift (network.call (.read response op))) t w
      else Hooked.lift (network.call (.read response op)) t w := by
  change (if t.wrapped response = true then _ else _ : NetAct σ NetValue) t w = _
  split <;> rfl

/-- A hooked call adds what it reads. -/
theorem hookedCall_adds (hm : IsTotal perReceived perSent m) (hmetrics : hooks.metrics = true)
    (c : NetCall) :
    (hookedCall caseMap clock network hooks guarded c).Adds (Measured network) m
      fun w => perReceived * bytesRead c
        (policed caseMap network (guarded && hooks.layers.contains .guard) c w).1 := by
  cases c with
  | getaddrinfo host =>
      exact throughLayers_adds (fun _ => progressGetaddrinfo_adds hm)
        (fun _ => guardGetaddrinfo_adds host) (adds_original (c := .getaddrinfo host) nofun)
        hooks.layers
  | connect fd address =>
      exact throughLayers_adds (fun _ => progressConnect_adds hm fd)
        (fun _ => guardConnect_adds address) (adds_original (c := .connect fd address) nofun)
        hooks.layers
  | wrapSocket =>
      rw [hookedCall]
      split
      · exact progressWrapSocket_adds hm (adds_original nofun)
      · exact adds_original nofun
  | responseInit response =>
      rw [hookedCall, if_pos hmetrics]
      exact patchedRespInit_adds hm response
  | read response op =>
      intro t w hI
      rw [hookedCall_read]
      split
      · exact countingRead_adds hm response op t w hI
      · -- a response whose file object is not wrapped has not been made
        rename_i hwrapped
        obtain ⟨hI', hm'⟩ := adds_original (m := m) (c := .read response op) nofun t w hI
        refine ⟨hI', hm'.trans (congrArg (m t + ·) ?_)⟩
        cases hend : (network.call (.read response op) w).1 with
        | error e =>
            change 0 = perReceived *
              bytesRead (.read response op) (network.call (.read response op) w).1
            rw [hend]
            rfl
        | ok v =>
            exact absurd (hI.wrapped response (network.opened_of_read response op w v hend))
              hwrapped
  | passedOn response => exact adds_original nofun

/-- A hooked method adds what it is handed, and what its body adds. -/
theorem hookedScope_adds (hm : IsTotal perReceived perSent m) (hmetrics : hooks.metrics = true)
    (s : NetScope) (h : p.Adds (Measured network) m g) :
    (hookedScope clock network hooks s p).Adds (Measured network) m
      fun w => perSent * bytesHanded s + g w := by
  cases s with
  | request c method path =>
      refine Hooked.Adds.congr ?_ fun w => (Nat.zero_add (g w)).symm
      rw [hookedScope]
      split
      · refine Hooked.adds_look fun tracked => ?_
        split
        · exact Hooked.adds_record (noted_same hm fun _ _ _ => ⟨rfl, rfl⟩)
            (adds_noted hm h fun _ => ⟨rfl, rfl⟩)
        · exact h
      · exact h
  | send size bytes =>
      rw [hookedScope, if_pos hmetrics]
      refine Hooked.adds_look_of (a := bytes) (fun t w hI => by rw [hI.active]; rfl) ?_
      have hsent : (p.attempt (timedOut clock network.tcp)).Adds (Measured network) m g :=
        h.attempt (quiet_timedOut hm)
      cases bytes with
      | false => exact hsent.congr fun w => (Nat.zero_add (g w)).symm
      | true =>
          -- the two notes of the hook, taken together
          have hcounted := Hooked.adds_record_of (I := Measured network) (m := m)
            (x := fun t _ => (t.countSent size).note clock (.sent size))
            (f := fun _ => p.attempt (timedOut clock network.tcp)) (g := g)
            (fun t w hI => ⟨(hI.countSent size).note _, hm.sent clock t size hI.tracked⟩) hsent
          exact hcounted
  | close conn =>
      refine Hooked.Adds.congr ?_ fun w => (Nat.zero_add (g w)).symm
      rw [hookedScope]
      split
      · exact Hooked.adds_record (noted_same hm fun _ _ _ => ⟨rfl, rfl⟩) h
      · exact h

/-- A client that is measured. -/
theorem client_adds (hm : IsTotal perReceived perSent m) (hmetrics : hooks.metrics = true)
    (client : NetClient) :
    (client.hooked (hookedCall caseMap clock network hooks guarded)
      (hookedScope clock network hooks)).Adds (Measured network) m
      (client.gains (policed caseMap network (guarded && hooks.layers.contains .guard))
        (fun c r => perReceived * bytesRead c r) fun s => perSent * bytesHanded s) :=
  Client.hooked_adds hookedCall_blind (fun s _ _ => hookedScope_blind s)
    (hookedCall_adds hm hmetrics) (fun s _ _ => hookedScope_adds hm hmetrics s) client

end Counting

/-- What the reads of a client return, on these originals. -/
def NetClient.received {σ : Type} (orig : NetCall → Bare σ PyExc NetValue) (client : NetClient)
    (w : σ) : Nat :=
  client.gains orig bytesRead (fun _ => 0) w

/-- The size of what it calls `send` with. -/
def NetClient.handed {σ : Type} (orig : NetCall → Bare σ PyExc NetValue) (client : NetClient)
    (w : σ) : Nat :=
  client.gains orig (fun _ _ => 0) bytesHanded w

section Exact

variable {σ : Type} {caseMap : CaseMap} {clock : Nat → ℚ} {network : Network σ}
  {hooks : Hooks} {guarded : Bool}

theorem client_received {m : HookCells → Nat} (hm : IsTotal 1 0 m)
    (hmetrics : hooks.metrics = true) (client : NetClient) :
    (client.hooked (hookedCall caseMap clock network hooks guarded)
      (hookedScope clock network hooks)).Adds (Measured network) m
      (NetClient.received (policed caseMap network (guarded && hooks.layers.contains .guard))
        client) :=
  (client_adds hm hmetrics client).congr fun w => by
    simp only [Nat.one_mul, Nat.zero_mul, NetClient.received]

theorem client_handed {m : HookCells → Nat} (hm : IsTotal 0 1 m)
    (hmetrics : hooks.metrics = true) (client : NetClient) :
    (client.hooked (hookedCall caseMap clock network hooks guarded)
      (hookedScope clock network hooks)).Adds (Measured network) m
      (NetClient.handed (policed caseMap network (guarded && hooks.layers.contains .guard))
        client) :=
  (client_adds hm hmetrics client).congr fun w => by
    simp only [Nat.one_mul, Nat.zero_mul, NetClient.handed]

end Exact

/-- **The totals of a measured run are exact.** While a run is measured and tracked, both its
totals of bytes in have grown by what `read`, `readline` and `readinto` return to the client
under the policy, and both its totals of bytes out by the size of the bytes and bytearrays it
calls `send` with. -/
theorem totals_exact {σ : Type} (caseMap : CaseMap) (clock : Nat → ℚ)
    (network : Network σ) (hooks : Hooks) (guarded : Bool) (hmetrics : hooks.metrics = true)
    (client : NetClient) {t : HookCells} {w : σ} (h : Measured network t w) :
    let out := client.hooked (hookedCall caseMap clock network hooks guarded)
      (hookedScope clock network hooks) t w
    let policy := policed caseMap network (guarded && hooks.layers.contains .guard)
    (out.2.1.wireIngress = t.wireIngress + client.received policy w ∧
      out.2.1.recordIngress = t.recordIngress + client.received policy w) ∧
      out.2.1.wireEgress = t.wireEgress + client.handed policy w ∧
      out.2.1.recordEgress = t.recordEgress + client.handed policy w :=
  ⟨⟨(client_received wireIngress_isTotal hmetrics client t w h).2,
      (client_received recordIngress_isTotal hmetrics client t w h).2⟩,
    (client_handed wireEgress_isTotal hmetrics client t w h).2,
    (client_handed recordEgress_isTotal hmetrics client t w h).2⟩

/-- A network of one response, in the state that it has been made. -/
def sampleNetwork : Network Bool where
  call
    | .responseInit 0, _ => (.ok .none, true)
    | .read 0 _, true => (.ok (.data [0x48, 0x54, 0x54, 0x50]), true)
    | _, made => (.error .timeoutError, made)
  opened made response := made = true ∧ response = 0
  tcp _ _ := none
  opened_of_init := by
    rintro (_ | id) w j ⟨hmade, hj⟩
    · exact .inr ⟨hj, .none, rfl⟩
    · exact .inl ⟨hmade, hj⟩
  opened_of_other := by
    intro c w j hc h
    match c, w with
    | .responseInit 0, _ => exact absurd rfl (hc 0)
    | .responseInit (_ + 1), _ | .getaddrinfo _, _ | .connect _ _, _ => exact h
    | .wrapSocket, _ | .passedOn _, _ => exact h
    | .read 0 _, true | .read 0 _, false | .read (_ + 1) _, _ => exact h
  opened_of_read := by
    intro id op w v h
    match id, w with
    | 0, true => exact ⟨rfl, rfl⟩
    | 0, false => cases h
    | _ + 1, _ => cases h

/-- Something is sent, and the response is made and read once. -/
def sampleClient : NetClient :=
  .scope (.send 18 true) (.done (.ok .none)) fun _ =>
    .call (.responseInit 0) fun _ => .call (.read 0 (.read none)) .done

/-- A thread in its blocks, before its first request. -/
def sampleCells : HookCells where
  counter := { active := true }
  progress := some { phaseSince := 0 }
  wrapped _ := false

theorem totals_exact_one_read :
    let hooks : Hooks := ⟨[.progress, .guard], true⟩
    let out := sampleClient.hooked (hookedCall .ascii (fun n => n) sampleNetwork hooks true)
      (hookedScope (fun n => n) sampleNetwork hooks) sampleCells false
    let policy := policed .ascii sampleNetwork (true && true)
    (out.2.1.wireIngress = sampleCells.wireIngress + sampleClient.received policy false ∧
      out.2.1.recordIngress = sampleCells.recordIngress + sampleClient.received policy false) ∧
      out.2.1.wireEgress = sampleCells.wireEgress + sampleClient.handed policy false ∧
      out.2.1.recordEgress = sampleCells.recordEgress + sampleClient.handed policy false :=
  totals_exact .ascii (fun n => n) sampleNetwork ⟨[.progress, .guard], true⟩ true rfl sampleClient
    ⟨rfl, rfl, fun _ h => nomatch h.1⟩

end ProbeAgent
