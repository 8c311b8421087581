import ProbeAgent.TcpState
import ProbeAgent.PyValue

/-!
# The witness (`tcp_state.reach`)

A second agent opens a few connections to a target and says how the path behaved.
An attempt is given by what the system answered to it: whether the socket was made,
whether the connect and the handshake succeeded, and what the kernel reports of the
connection.  Loss that cannot be told leaves the path as it was, so an agent that can
tell nothing calls the path clean; and the socket is made outside the `try`, so an agent
that has no descriptors left answers nothing at all.  `clean_told_iff` says when.
-/

namespace ProbeAgent

open PyText

/-- An `OSError` of a call, `EgressBlocked` apart. -/
inductive NetError
  | blocked (message : PyStr)
  | os (typeName message : PyStr)
deriving DecidableEq

/-- `str(e)`. -/
def NetError.message : NetError → PyStr
  | blocked message => message
  | os _ message => message

/-- `str(e) or type(e).__name__`. -/
def NetError.text : NetError → PyStr
  | blocked message => message
  | os typeName message => if message.isEmpty then typeName else message

/-- An exception of a call inside the `try`. -/
inductive CallError
  | caught (e : NetError)
  /-- One that is no `OSError`. -/
  | other (e : PyExc)
deriving DecidableEq

/-- The text an attempt that ends so has, where the exception is caught. -/
def CallError.text : CallError → Option PyStr
  | caught e => some e.text
  | other _ => none

/-- What the system answers to one attempt. -/
structure AttemptIO where
  /-- `socket.socket`, which is called outside the `try`. -/
  socket : Except PyExc Unit
  /-- `connect`, with the milliseconds it took. -/
  connect : Except CallError Int
  /-- `wrap_socket`, likewise. -/
  handshake : Except CallError Int
  /-- What `read` returns when the attempt is over. -/
  tcp : Option TcpInfo

/-- An entry of `attempts`. -/
structure AttemptEntry where
  connectMs : Option Int := none
  tlsMs : Option Int := none
  error : Option PyStr := none
  tcp : Option TcpInfo
deriving DecidableEq

inductive ReachPath
  | clean
  | lossy
  | unreachable
  | refused
deriving DecidableEq

structure Reached where
  path : ReachPath
  error : Option PyStr := none
  address : Option PyStr := none
  dnsMs : Option Int := none
  attempts : List AttemptEntry
deriving DecidableEq

/-- How an attempt ends: with its entry and the failure, if it failed. -/
structure Tried where
  entry : AttemptEntry
  failure : Option CallError

/-- Connect and, where asked for, shake hands. -/
def AttemptIO.run (io : AttemptIO) (useTls : Bool) : Tried :=
  match io.connect with
  | .error e => ⟨{ error := e.text, tcp := io.tcp }, some e⟩
  | .ok connectMs =>
      if useTls then
        match io.handshake with
        | .error e =>
            ⟨{ connectMs := some connectMs, error := e.text, tcp := io.tcp }, some e⟩
        | .ok tlsMs =>
            ⟨{ connectMs := some connectMs, tlsMs := some tlsMs, tcp := io.tcp }, none⟩
      else ⟨{ connectMs := some connectMs, tcp := io.tcp }, none⟩

/-- `tcp is not None and lossy(tcp)`. -/
def showsLoss (tcp : Option TcpInfo) : Bool :=
  match tcp with
  | none => false
  | some t => lossy t = some true

section Reach

variable (address : PyStr) (dnsMs : Int) (useTls : Bool)

/-- The loop over the attempts. -/
def reachFrom (path : ReachPath) (results : List AttemptEntry) :
    List AttemptIO → Except PyExc Reached
  | [] => .ok { path, address := some address, dnsMs := some dnsMs, attempts := results }
  | io :: rest =>
      match io.socket with
      | .error e => .error e
      | .ok () =>
          match io.run useTls with
          | ⟨entry, none⟩ =>
              reachFrom (if showsLoss io.tcp then .lossy else path) (results ++ [entry]) rest
          | ⟨_, some (.other e)⟩ => .error e
          | ⟨_, some (.caught (.blocked message))⟩ =>
              .ok { path := .refused, error := some message, attempts := results }
          | ⟨entry, some (.caught (.os _ _))⟩ =>
              .ok
                { path := .unreachable
                  address := some address
                  dnsMs := some dnsMs
                  attempts := results ++ [entry] }

end Reach

/-- Opens connections to a target and reports whether the path is clean: `resolved` is
the first address its name has, or why it has none. -/
def reach (resolved : Except CallError PyStr) (dnsMs : Int) (useTls : Bool)
    (attempts : List AttemptIO) : Except PyExc Reached :=
  match resolved with
  | .error (.other e) => .error e
  | .error (.caught (.blocked message)) =>
      .ok { path := .refused, error := some message, attempts := [] }
  | .error (.caught e) =>
      .ok
        { path := .unreachable
          error := some (py "name did not resolve: " ++ e.message)
          attempts := [] }
  | .ok address => reachFrom address dnsMs useTls .clean [] attempts

/-! ## What an answer says of the attempts -/

/-- What an attempt that ends so is to make of the path: the policy does not let the agent
dial the target, or the target was not reached. -/
def CallError.path : CallError → ReachPath
  | caught (.blocked _) => .refused
  | _ => .unreachable

namespace AttemptIO

/-- The attempt connected, and shook hands where it was asked to. -/
def Connected (io : AttemptIO) (useTls : Bool) : Prop :=
  io.socket = .ok () ∧ (io.run useTls).failure = none

/-- Loss can be told of the attempt, and there was none. -/
def ToldClean (io : AttemptIO) : Prop :=
  ∃ t, io.tcp = some t ∧ ProbeAgent.lossy t = some false

/-- Whether the attempt lost anything cannot be told. -/
def Untold (io : AttemptIO) : Prop :=
  ∀ t, io.tcp = some t → ProbeAgent.lossy t = none

/-- The attempt fails, be it that it has no socket, and is to make that of the path. -/
def FailsAs (io : AttemptIO) (useTls : Bool) (path : ReachPath) : Prop :=
  (∃ e, io.socket = .error e ∧ path = .unreachable) ∨
    (io.socket = .ok () ∧ ∃ e, (io.run useTls).failure = some e ∧ path = e.path)

/-- The attempt has no socket, or a call of it raises what is no `OSError`. -/
def Escapes (io : AttemptIO) (useTls : Bool) : Prop :=
  (∃ e, io.socket = .error e) ∨
    (io.socket = .ok () ∧ ∃ e, (io.run useTls).failure = some (.other e))

theorem not_showsLoss_iff (io : AttemptIO) :
    showsLoss io.tcp = false ↔ io.ToldClean ∨ io.Untold := by
  cases htcp : io.tcp with
  | none =>
      simp [showsLoss, ToldClean, Untold, htcp]
  | some t =>
      rcases hloss : ProbeAgent.lossy t with _ | _ | _ <;>
        simp [showsLoss, ToldClean, Untold, htcp, hloss]

theorem not_toldClean_of_untold {io : AttemptIO} (h : io.Untold) : ¬io.ToldClean := by
  rintro ⟨t, ht, hloss⟩
  rw [h t ht] at hloss
  cases hloss

end AttemptIO

/-- The path once these attempts have connected. -/
def pathAfter (path : ReachPath) (attempts : List AttemptIO) : ReachPath :=
  attempts.foldl (fun path io => if showsLoss io.tcp then .lossy else path) path

theorem pathAfter_eq_clean_iff (path : ReachPath) (attempts : List AttemptIO) :
    pathAfter path attempts = .clean ↔
      path = .clean ∧ ∀ io ∈ attempts, showsLoss io.tcp = false := by
  induction attempts generalizing path with
  | nil =>
      simp [pathAfter]
  | cons io rest ih =>
      have hcons : pathAfter path (io :: rest) =
          pathAfter (if showsLoss io.tcp then .lossy else path) rest := rfl
      rw [hcons, ih]
      cases hloss : showsLoss io.tcp <;> simp [hloss]

section Loop

variable (address : PyStr) (dnsMs : Int) {useTls : Bool}

/-- Attempts that connect leave the loop where they brought the path to. -/
theorem reachFrom_append {pre : List AttemptIO} (hpre : ∀ io ∈ pre, io.Connected useTls)
    (path : ReachPath) (results : List AttemptEntry) (rest : List AttemptIO) :
    reachFrom address dnsMs useTls path results (pre ++ rest) =
      reachFrom address dnsMs useTls (pathAfter path pre)
        (results ++ pre.map fun io => (io.run useTls).entry) rest := by
  induction pre generalizing path results with
  | nil =>
      simp [pathAfter]
  | cons io pre ih =>
      obtain ⟨hsocket, hfailure⟩ := hpre io List.mem_cons_self
      rw [List.cons_append, reachFrom, hsocket]
      cases hrun : io.run useTls with
      | mk entry failure =>
          rw [hrun] at hfailure
          cases hfailure
          simp only
          rw [ih fun io' hio' => hpre io' (List.mem_cons_of_mem _ hio')]
          simp [pathAfter, hrun]

/-- The answer is `clean` or `lossy` only when every attempt has connected. -/
theorem connected_of_reachFrom {path : ReachPath} {results : List AttemptEntry}
    {attempts : List AttemptIO} {out : Reached}
    (h : reachFrom address dnsMs useTls path results attempts = .ok out)
    (hclean : out.path = .clean) : ∀ io ∈ attempts, io.Connected useTls := by
  induction attempts generalizing path results with
  | nil =>
      simp
  | cons io rest ih =>
      rw [reachFrom] at h
      cases hsocket : io.socket with
      | error e =>
          rw [hsocket] at h
          cases h
      | ok u =>
          rw [hsocket] at h
          cases hrun : io.run useTls with
          | mk entry failure =>
              rw [hrun] at h
              cases failure with
              | none =>
                  have hrest := ih h
                  intro io' hio'
                  rcases List.mem_cons.mp hio' with rfl | hio'
                  · exact ⟨hsocket, by rw [hrun]⟩
                  · exact hrest io' hio'
              | some e =>
                  rcases e with (_ | _) | _
                  · cases h
                    cases hclean
                  · cases h
                    cases hclean
                  · cases h

end Loop

/-- Every attempt connects, none shows loss, and of one of them loss cannot be told. -/
def PassesUntold (resolved : Except CallError PyStr) (useTls : Bool)
    (attempts : List AttemptIO) : Prop :=
  (∃ address, resolved = .ok address) ∧
    (∀ io ∈ attempts, io.Connected useTls ∧ (io.ToldClean ∨ io.Untold)) ∧
    ∃ io ∈ attempts, io.Untold

/-- Attempts that connect come to one whose exception is not caught. -/
def RunsIntoEscape (resolved : Except CallError PyStr) (useTls : Bool)
    (attempts : List AttemptIO) : Prop :=
  (∃ address, resolved = .ok address) ∧
    ∃ pre io post, attempts = pre ++ io :: post ∧ (∀ io' ∈ pre, io'.Connected useTls) ∧
      io.Escapes useTls

/-- A clean answer is given only where every attempt connected and was told to be without
loss, and an attempt that fails decides the answer, whatever came before it. -/
structure WitnessesPath (resolved : Except CallError PyStr) (dnsMs : Int) (useTls : Bool)
    (attempts : List AttemptIO) : Prop where
  clean : ∀ out, reach resolved dnsMs useTls attempts = .ok out → out.path = .clean →
    ∀ io ∈ attempts, io.Connected useTls ∧ io.ToldClean
  failed : ∀ address pre io post path, resolved = .ok address → attempts = pre ++ io :: post →
    (∀ io' ∈ pre, io'.Connected useTls) → io.FailsAs useTls path →
      ∃ out, reach resolved dnsMs useTls attempts = .ok out ∧ out.path = path

section Answers

variable (resolved : Except CallError PyStr) (dnsMs : Int) {useTls : Bool}
  {attempts : List AttemptIO}

/-- A clean answer: every attempt connected, and none showed loss. -/
theorem reach_clean_iff :
    (∃ out, reach resolved dnsMs useTls attempts = .ok out ∧ out.path = .clean) ↔
      (∃ address, resolved = .ok address) ∧
        ∀ io ∈ attempts, io.Connected useTls ∧ showsLoss io.tcp = false := by
  cases resolved with
  | error e =>
      rcases e with (_ | _) | _ <;> simp [reach]
  | ok address =>
      simp only [reach, Except.ok.injEq, exists_eq', true_and]
      constructor
      · rintro ⟨out, hout, hclean⟩
        have hconnected := connected_of_reachFrom address dnsMs hout hclean
        have hloop := reachFrom_append address dnsMs hconnected .clean [] []
        rw [List.append_nil] at hloop
        rw [hloop, reachFrom] at hout
        cases hout
        obtain ⟨-, hloss⟩ := (pathAfter_eq_clean_iff _ _).mp hclean
        exact fun io hio => ⟨hconnected io hio, hloss io hio⟩
      · intro h
        have hloop := reachFrom_append address dnsMs
          (fun io hio => (h io hio).1) .clean [] []
        rw [List.append_nil] at hloop
        rw [hloop, reachFrom]
        refine ⟨_, rfl, (pathAfter_eq_clean_iff _ _).mpr ⟨rfl, fun io hio => (h io hio).2⟩⟩

/-- A failed attempt whose exception is caught decides the answer, whatever came before
it. -/
theorem reach_of_failed {address : PyStr} {pre post : List AttemptIO} {io : AttemptIO}
    {path : ReachPath} (hpre : ∀ io' ∈ pre, io'.Connected useTls)
    (hfails : io.FailsAs useTls path) (hcaught : ¬io.Escapes useTls) :
    ∃ out, reach (.ok address) dnsMs useTls (pre ++ io :: post) = .ok out ∧
      out.path = path := by
  rcases hfails with ⟨e, hsocket, -⟩ | ⟨hsocket, e, hfailure, rfl⟩
  · exact absurd (.inl ⟨e, hsocket⟩) hcaught
  · rw [reach, reachFrom_append _ _ hpre, reachFrom, hsocket]
    cases hrun : io.run useTls with
    | mk entry failure =>
        rw [hrun] at hfailure
        cases hfailure
        rcases e with (_ | _) | e
        · exact ⟨_, rfl, rfl⟩
        · exact ⟨_, rfl, rfl⟩
        · exact absurd (.inr ⟨hsocket, e, by rw [hrun]⟩) hcaught

/-- An exception that is not caught leaves `reach`. -/
theorem reach_of_escape {address : PyStr} {pre post : List AttemptIO} {io : AttemptIO}
    (hpre : ∀ io' ∈ pre, io'.Connected useTls) (hescapes : io.Escapes useTls) :
    ∃ e, reach (.ok address) dnsMs useTls (pre ++ io :: post) = .error e := by
  rw [reach, reachFrom_append _ _ hpre, reachFrom]
  rcases hescapes with ⟨e, hsocket⟩ | ⟨hsocket, e, hfailure⟩
  · rw [hsocket]
    exact ⟨e, rfl⟩
  · rw [hsocket]
    cases hrun : io.run useTls with
    | mk entry failure =>
        rw [hrun] at hfailure
        cases hfailure
        exact ⟨e, rfl⟩

/-- An attempt that escapes is one that fails. -/
theorem AttemptIO.Escapes.failsAs {io : AttemptIO} (h : io.Escapes useTls) :
    io.FailsAs useTls .unreachable := by
  rcases h with ⟨e, hsocket⟩ | ⟨hsocket, e, hfailure⟩
  · exact .inl ⟨e, hsocket, rfl⟩
  · exact .inr ⟨hsocket, _, hfailure, rfl⟩

end Answers

/-- **Only a path seen to be clean.** Whatever the attempts were: a clean answer is given
only where each of them connected and was told to be without loss, and a failed one
decides the answer, exactly if they do not all pass with one of them untold, and do not
come to one whose exception is not caught; and what cannot be told never makes a stall the
endpoint's. -/
theorem clean_told_iff (resolved : Except CallError PyStr) (dnsMs : Int) (useTls : Bool)
    (attempts : List AttemptIO) :
    (WitnessesPath resolved dnsMs useTls attempts ↔
      ¬PassesUntold resolved useTls attempts ∧ ¬RunsIntoEscape resolved useTls attempts) ∧
    ∀ phase tcp, (∀ t, tcp = some t → lossy t = none) → (verdict phase tcp).1 ≠ .endpoint := by
  refine ⟨⟨fun hwitness => ⟨?_, ?_⟩, ?_⟩, ?_⟩
  · rintro ⟨hresolved, hpass, io, hio, huntold⟩
    obtain ⟨out, hout, hclean⟩ := (reach_clean_iff resolved dnsMs).mpr
      ⟨hresolved, fun io hio => ⟨(hpass io hio).1, io.not_showsLoss_iff.mpr (hpass io hio).2⟩⟩
    exact AttemptIO.not_toldClean_of_untold huntold (hwitness.clean out hout hclean io hio).2
  · rintro ⟨⟨address, rfl⟩, pre, io, post, rfl, hpre, hescapes⟩
    obtain ⟨out, hout, -⟩ := hwitness.failed address pre io post _ rfl rfl hpre hescapes.failsAs
    obtain ⟨e, herror⟩ := (reach_of_escape dnsMs hpre hescapes :
      ∃ e, reach (.ok address) dnsMs useTls (pre ++ io :: post) = .error e)
    rw [herror] at hout
    cases hout
  · rintro ⟨hpass, hcaught⟩
    refine ⟨fun out hout hclean io hio => ?_, ?_⟩
    · obtain ⟨hresolved, hall⟩ := (reach_clean_iff resolved dnsMs).mp ⟨out, hout, hclean⟩
      have htold : ∀ io ∈ attempts, io.ToldClean ∨ io.Untold := fun io hio =>
        io.not_showsLoss_iff.mp (hall io hio).2
      refine ⟨(hall io hio).1, (htold io hio).resolve_right fun huntold => ?_⟩
      exact hpass ⟨hresolved, fun io hio => ⟨(hall io hio).1, htold io hio⟩, io, hio, huntold⟩
    · rintro address pre io post path rfl rfl hpre hfails
      refine reach_of_failed dnsMs hpre hfails fun hescapes => ?_
      exact hcaught ⟨⟨address, rfl⟩, pre, io, post, rfl, hpre, hescapes⟩
  · intro phase tcp huntold hendpoint
    obtain ⟨t, ht, -, -, -, hloss, -⟩ := (verdict_endpoint_iff _ _).mp hendpoint
    rw [huntold t ht] at hloss
    cases hloss

/-- An agent whose system has no `TCP_INFO`. -/
theorem clean_without_report :
    ¬∀ resolved dnsMs useTls attempts, WitnessesPath resolved dnsMs useTls attempts := by
  intro h
  have htold := (h (.ok (py "192.0.2.1")) 1 false [⟨.ok (), .ok 5, .ok 0, none⟩]).clean _ rfl rfl _
    List.mem_cons_self
  obtain ⟨-, t, ht, -⟩ := htold
  cases ht

end ProbeAgent
