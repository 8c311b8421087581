import ProbeAgent.Attribution
import ProbeAgent.BodyStorage
import ProbeAgent.HookedCalls
import ProbeAgent.RunConfig
import ProbeAgent.Runs

/-!
# A run on its worker (`executor._run_sync`)

A run is made inside `measure`, the egress policy and `track`, on a thread that has made
others before it.  What comes of it is what the executor makes on the plain network under the
policy, with what that reads and sends as its totals and the bodies redacted and stored; the
hooks, and whatever was run on the thread before, have no part in it (`runs_alone`).
-/

namespace ProbeAgent

open PyText Instrument Runs

/-- `JobPayload`, as far as a run reads it. -/
structure JobPayload where
  script : PyStr
  vars : List (PyStr × Json)
  prev : Option Json
  allowBodySave : Bool
  secretValues : List PyStr

/-- `LaceExecutor`: the configuration it has with some extensions, and what it then does with a
script. -/
structure LaceExecutor where
  config : List PyStr → Except PyExc Json
  run : (extensions : List PyStr) → (config : Json) → (script : PyStr) →
    (vars : Option (List (PyStr × Json))) → (prev : Option Json) → NetClient

/-- A call of `_run_sync`, with what the system and the backend answer it. -/
structure Dispatch where
  payload : JobPayload
  bodiesDir : Except PyExc PyStr
  runPrefix : PyStr
  answers : StorageAnswers

/-- What is installed and configured, and what a run is made on. -/
structure RunSetup (σ : Type) where
  caseMap : CaseMap
  clock : Nat → ℚ
  network : Network σ
  hooks : Hooks
  lace : LaceExecutor
  userAgent : PyStr
  egressEnabled : Bool
  storage : Option BodyStorage
  fromisoformat : Json → Option Datetime

/-- The cells of the worker's thread, the flag of the egress policy among them, and the record
of the run while it is not tracked. -/
structure ThreadCells where
  hooks : HookCells
  guarded : Bool
  kept : RunProgress

/-- The network, and what the storage backend has been handed. -/
structure RunWorld (σ : Type) where
  network : σ
  handed : List (PyStr × Bytes)

/-- The result of a run. -/
structure RunResult where
  result : Json
  ingressBytes : Nat
  egressBytes : Nat
  attribution : Option Attribution

abbrev RunAct (σ α : Type) := Hooked ThreadCells (RunWorld σ) PyExc α

/-! ## The blocks of a run -/

section Blocks

variable {σ α : Type}

/-- `with wire_metrics.measure() as wire`, with `wire.ingress` and `wire.egress`. -/
def measure (p : RunAct σ α) : RunAct σ (α × Nat × Nat) :=
  .block (fun t => { t with hooks := { t.hooks with counter := { active := true } } })
    (fun t t' => { t' with hooks := { t'.hooks with counter := t.hooks.counter } }) do
      let a ← p
      let counter ← Hooked.look fun (t : ThreadCells) _ => t.hooks.counter
      return (a, counter.ingress, counter.egress)

/-- `with egress_guard.active()`, or a `nullcontext`. -/
def guardContext (enabled : Bool) (p : RunAct σ α) : RunAct σ α :=
  if enabled then
    .block (fun t => { t with guarded := true }) (fun t t' => { t' with guarded := t.guarded }) p
  else p

/-- `with run_progress.track(progress)`. -/
def track (p : RunAct σ α) : RunAct σ α :=
  .block (fun t => { t with hooks := { t.hooks with progress := some t.kept } })
    (fun t t' =>
      { t' with
        hooks := { t'.hooks with progress := t.hooks.progress }
        kept := t'.hooks.progress.getD t'.kept }) p

/-- The executor under what is installed, on a thread whose flag of the guard this is. -/
def RunSetup.hooked (setup : RunSetup σ) (guarded : Bool) (client : NetClient) :
    NetAct σ NetValue :=
  client.hooked (hookedCall setup.caseMap setup.clock setup.network setup.hooks guarded)
    (hookedScope setup.clock setup.network setup.hooks)

/-- The executor at work. -/
def RunSetup.execute (setup : RunSetup σ) (client : NetClient) : RunAct σ NetValue := fun t w =>
  let out := setup.hooked t.guarded client t.hooks w.network
  (out.1, { t with hooks := out.2.1 }, { w with network := out.2.2 })

end Blocks

/-! ## The run -/

/-- The calls of a result, as `_attribute_call_timeouts` reads them. -/
def callRecords (result : Json) : Except PyExc (List CallRecord) := do
  let calls ← result.get (py "calls")
  let items ← if calls.truthy then calls.iter else .ok []
  items.mapM fun call => do
    return {
      index := ← call.get (py "index")
      outcome := ← call.get (py "outcome")
      startedAt := ← call.get (py "startedAt")
      endedAt := ← call.get (py "endedAt") }

section Run

variable {σ : Type} (setup : RunSetup σ) (d : Dispatch)

/-- `executor.run` as it is called. -/
def RunSetup.prepare : Except PyExc NetClient := do
  let bodiesDir ← d.bodiesDir
  let extensions := activeExtensions d.payload.vars
  let config ← setup.lace.config extensions
  let config ← runConfig config setup.userAgent bodiesDir d.payload.allowBodySave extensions
  return setup.lace.run extensions config d.payload.script
    (if d.payload.vars.isEmpty then none else some d.payload.vars) d.payload.prev

/-- The totals and the attribution put beside the result, which is a dictionary. -/
def RunSetup.attribute (value : NetValue) (ingress egress : Nat) (timeouts : List TimeoutRecord) :
    Except PyExc (RunResult × Disk) := do
  match value with
  | .ran (.obj fields) files =>
      let records ← callRecords (.obj fields)
      let attribution ← attributeCallTimeouts setup.fromisoformat records timeouts
      return (⟨.obj fields, ingress, egress, attribution⟩, files)
  | _ => .error (.typeError "object does not support item assignment")

/-- The bodies are stored, where there is a backend. -/
def RunSetup.store (r : RunResult) (files : Disk) : Bare (RunWorld σ) PyExc RunResult := fun w =>
  match setup.storage with
  | none => (.ok r, w)
  | some st =>
      let secretValues := d.payload.secretValues
      ((resultAfter st d.answers d.runPrefix secretValues files r.result).map fun result =>
          { r with result := result },
        { w with
          handed := w.handed ++
            (bodiesAfter st d.answers d.runPrefix secretValues files r.result).handed })

/-- `progress.enter(STORING_BODIES)`, where there is a backend. -/
def RunSetup.enterStoring (t : ThreadCells) : ThreadCells :=
  if setup.storage.isSome then
    { t with
      kept := t.kept.hook (.storing (setup.clock t.hooks.ticks))
      hooks := { t.hooks with ticks := t.hooks.ticks + 1 } }
  else t

/-- `_run_sync` from the end of its blocks on. -/
def RunSetup.settle (value : NetValue) (ingress egress : Nat) : RunAct σ RunResult := do
  let timeouts ← Hooked.look fun (t : ThreadCells) _ => t.kept.timeouts
  let (r, files) ← Hooked.ofExcept (setup.attribute value ingress egress timeouts)
  Hooked.record fun (t : ThreadCells) _ => setup.enterStoring t
  Hooked.lift (setup.store d r files)

/-- `_run_sync`. -/
def runSync : RunAct σ RunResult := do
  let client ← Hooked.ofExcept (setup.prepare d)
  let (value, ingress, egress) ←
    measure (guardContext setup.egressEnabled (track (setup.execute client)))
  setup.settle d value ingress egress

end Run

/-! ## What a block leaves behind -/

section Left

variable {σ : Type} {setup : RunSetup σ}

section Blocks

variable {α : Type} {p : RunAct σ α} {r : Except PyExc α} {hooks hooks' : HookCells}
  {guarded : Bool} {kept kept' record : RunProgress} {w w' : RunWorld σ}

theorem track_eq
    (h : p ⟨{ hooks with progress := some kept }, guarded, kept⟩ w =
      (r, ⟨hooks', guarded, kept'⟩, w')) (hrecord : hooks'.progress = some record) :
    track p ⟨hooks, guarded, kept⟩ w =
      (r, ⟨{ hooks' with progress := hooks.progress }, guarded, record⟩, w') := by
  simp only [track, Hooked.block, h, hrecord, Option.getD_some]

theorem guardContext_eq {enabled : Bool}
    (h : p ⟨hooks, enabled, kept⟩ w = (r, ⟨hooks', enabled, kept'⟩, w')) :
    guardContext enabled p ⟨hooks, false, kept⟩ w = (r, ⟨hooks', false, kept'⟩, w') := by
  cases enabled with
  | false => exact h
  | true => simp only [guardContext, if_true, Hooked.block, h]

theorem measure_eq
    (h : p ⟨{ hooks with counter := { active := true } }, guarded, kept⟩ w =
      (r, ⟨hooks', guarded, kept'⟩, w')) :
    measure p ⟨hooks, guarded, kept⟩ w =
      (r.map fun a => (a, hooks'.counter.ingress, hooks'.counter.egress),
        ⟨{ hooks' with counter := hooks.counter }, guarded, kept'⟩, w') := by
  unfold measure Hooked.block
  cases r with
  | error e => rw [Hooked.bind_error h]; rfl
  | ok a => rw [Hooked.bind_ok h]; rfl

end Blocks

/-- The policy the executor runs under. -/
def RunSetup.policy (setup : RunSetup σ) : NetCall → Bare σ PyExc NetValue :=
  policed setup.caseMap setup.network (setup.egressEnabled && setup.hooks.layers.contains .guard)

/-- Between runs nothing is measured, tracked or guarded, and every response there is was made
under the hook. -/
structure Ready (setup : RunSetup σ) (t : ThreadCells) (w : RunWorld σ) : Prop where
  counting : t.hooks.counter.active = false
  tracked : t.hooks.progress = none
  guarded : t.guarded = false
  wrapped : ∀ id, setup.network.opened w.network id → t.hooks.wrapped id = true

theorem hooked_blind (setup : RunSetup σ) (client : NetClient) :
    (setup.hooked setup.egressEnabled client).Blind (client.run setup.policy) :=
  client_blind client

theorem hooked_received {m : HookCells → Nat} (hm : IsTotal 1 0 m)
    (hmetrics : setup.hooks.metrics = true) (client : NetClient) :
    (setup.hooked setup.egressEnabled client).Adds (Measured setup.network) m
      (client.received setup.policy) :=
  client_received hm hmetrics client

theorem hooked_handed {m : HookCells → Nat} (hm : IsTotal 0 1 m)
    (hmetrics : setup.hooks.metrics = true) (client : NetClient) :
    (setup.hooked setup.egressEnabled client).Adds (Measured setup.network) m
      (client.handed setup.policy) :=
  client_handed hm hmetrics client

/-- What the executor does in its blocks: what it would do on the plain network under the
policy, with what that reads and sends; and the thread is left as it was, but for the record of
the run, which has the same totals. -/
theorem measured_execute (hmetrics : setup.hooks.metrics = true) (client : NetClient)
    {t : ThreadCells} {w : RunWorld σ} (hready : Ready setup t w) :
    ∃ t', measure (guardContext setup.egressEnabled (track (setup.execute client))) t w =
        ((client.run setup.policy w.network).1.map fun value =>
            (value, client.received setup.policy w.network, client.handed setup.policy w.network),
          t', { w with network := (client.run setup.policy w.network).2 }) ∧
      Ready setup t' { w with network := (client.run setup.policy w.network).2 } ∧
      t'.kept.ingress = t.kept.ingress + client.received setup.policy w.network ∧
      t'.kept.egress = t.kept.egress + client.handed setup.policy w.network := by
  obtain ⟨hooks, guarded, kept⟩ := t
  obtain rfl : guarded = false := hready.guarded
  have hmeasured : Measured setup.network
      { hooks with counter := { active := true }, progress := some kept } w.network :=
    ⟨rfl, rfl, hready.wrapped⟩
  obtain ⟨⟨r, hooks', w'⟩, hrun⟩ : ∃ out, setup.hooked setup.egressEnabled client
      { hooks with counter := { active := true }, progress := some kept } w.network = out :=
    ⟨_, rfl⟩
  have hblind := hooked_blind setup client
    { hooks with counter := { active := true }, progress := some kept } w.network
  obtain ⟨hafter, hin⟩ :=
    hooked_received wireIngress_isTotal hmetrics client _ _ hmeasured
  obtain ⟨-, hout⟩ := hooked_handed wireEgress_isTotal hmetrics client _ _ hmeasured
  obtain ⟨-, hkept⟩ := hooked_received recordIngress_isTotal hmetrics client _ _ hmeasured
  obtain ⟨-, hsent⟩ := hooked_handed recordEgress_isTotal hmetrics client _ _ hmeasured
  rw [hrun] at hblind hafter hin hout hkept hsent
  obtain ⟨record, hrecord⟩ : ∃ p, hooks'.progress = some p :=
    Option.isSome_iff_exists.mp hafter.tracked
  simp only [HookCells.recordIngress, HookCells.recordEgress, HookCells.ofRecord, hrecord]
    at hkept hsent
  have hexecute : setup.execute client
      ⟨{ hooks with counter := { active := true }, progress := some kept },
        setup.egressEnabled, kept⟩ w =
      (r, ⟨hooks', setup.egressEnabled, kept⟩, { w with network := w' }) := by
    simp only [RunSetup.execute, hrun]
  have hended := measure_eq (guardContext_eq (track_eq hexecute hrecord))
  have hingress : hooks'.counter.ingress = client.received setup.policy w.network :=
    hin.trans (Nat.zero_add _)
  have hegress : hooks'.counter.egress = client.handed setup.policy w.network :=
    hout.trans (Nat.zero_add _)
  rw [hingress, hegress] at hended
  rw [← hblind]
  exact ⟨_, hended, ⟨hready.counting, hready.tracked, rfl, hafter.wrapped⟩, hkept, hsent⟩

end Left

/-! ## A run by itself -/

section Alone

variable {σ : Type} (setup : RunSetup σ) (d : Dispatch)

/-- What comes of a run, with no hook and no thread: the executor on the plain network under the
policy, with what its reads return and the size of what it calls `send` with as its totals, and
then the bodies stored. -/
def RunSetup.alone (timeouts : List TimeoutRecord) : Bare (RunWorld σ) PyExc RunResult := fun w =>
  match setup.prepare d with
  | .error e => (.error e, w)
  | .ok client =>
      let w' := { w with network := (client.run setup.policy w.network).2 }
      match (client.run setup.policy w.network).1 with
      | .error e => (.error e, w')
      | .ok value =>
          match setup.attribute value (client.received setup.policy w.network)
              (client.handed setup.policy w.network) timeouts with
          | .error e => (.error e, w')
          | .ok (r, files) => setup.store d r files w'

/-- A run that ended so, on a thread it leaves in these cells, has come to what it comes to by
itself; and its record has the totals of the result. -/
structure RanAlone (progress : RunProgress) (w : RunWorld σ) (result : Except PyExc RunResult)
    (t' : ThreadCells) (w' : RunWorld σ) : Prop where
  ended : (result, w') = setup.alone d t'.kept.timeouts w
  received : ∀ client, setup.prepare d = .ok client →
    t'.kept.ingress = progress.ingress + client.received setup.policy w.network
  handed : ∀ client, setup.prepare d = .ok client →
    t'.kept.egress = progress.egress + client.handed setup.policy w.network

variable {setup d}

theorem store_network (r : RunResult) (files : Disk) (w : RunWorld σ) :
    (setup.store d r files w).2.network = w.network := by
  unfold RunSetup.store
  split <;> rfl

theorem enterStoring_kept (setup : RunSetup σ) (t : ThreadCells) :
    (setup.enterStoring t).kept.timeouts = t.kept.timeouts ∧
      (setup.enterStoring t).kept.ingress = t.kept.ingress ∧
      (setup.enterStoring t).kept.egress = t.kept.egress := by
  unfold RunSetup.enterStoring
  split
  · exact ⟨RunProgress.enter_timeouts _ _ _, enter_ingress _ _ _, enter_egress _ _ _⟩
  · exact ⟨rfl, rfl, rfl⟩

theorem Ready.enterStoring {t : ThreadCells} {w : RunWorld σ} (h : Ready setup t w) :
    Ready setup (setup.enterStoring t) w := by
  unfold RunSetup.enterStoring
  split
  · exact ⟨h.counting, h.tracked, h.guarded, h.wrapped⟩
  · exact h

theorem settle_eq_error {value : NetValue} {ingress egress : Nat} {t : ThreadCells} {e : PyExc}
    (h : setup.attribute value ingress egress t.kept.timeouts = .error e) (w : RunWorld σ) :
    setup.settle d value ingress egress t w = (.error e, t, w) := by
  refine (Hooked.bind_ok rfl).trans (Hooked.bind_error ?_)
  rw [h]
  rfl

theorem settle_eq_ok {value : NetValue} {ingress egress : Nat} {t : ThreadCells} {r : RunResult}
    {files : Disk} (h : setup.attribute value ingress egress t.kept.timeouts = .ok (r, files))
    (w : RunWorld σ) :
    setup.settle d value ingress egress t w =
      ((setup.store d r files w).1, setup.enterStoring t, (setup.store d r files w).2) := by
  refine (Hooked.bind_ok rfl).trans ((Hooked.bind_ok (a := (r, files)) ?_).trans rfl)
  rw [h]
  rfl

/-- A run that is not made. -/
theorem ranAlone_of_unprepared {e : PyExc} (hprepare : setup.prepare d = .error e)
    (t : ThreadCells) (w : RunWorld σ) : RanAlone setup d t.kept w (.error e) t w := by
  refine ⟨?_, fun client h => ?_, fun client h => ?_⟩
  · rw [RunSetup.alone, hprepare]
  · rw [hprepare] at h
    cases h
  · rw [hprepare] at h
    cases h

/-- A run that is made. -/
theorem ranAlone_of_prepared {client : NetClient} (hprepare : setup.prepare d = .ok client)
    {progress : RunProgress} {t' : ThreadCells} {w w' : RunWorld σ}
    {result : Except PyExc RunResult}
    (hin : t'.kept.ingress = progress.ingress + client.received setup.policy w.network)
    (hout : t'.kept.egress = progress.egress + client.handed setup.policy w.network)
    (hended : (result, w') = setup.alone d t'.kept.timeouts w) :
    RanAlone setup d progress w result t' w' := by
  refine ⟨hended, fun client' h => ?_, fun client' h => ?_⟩
  · rw [hprepare, Except.ok.injEq] at h
    rw [hin, h]
  · rw [hprepare, Except.ok.injEq] at h
    rw [hout, h]

/-- A run from where its blocks have been left. -/
theorem settled_alone {client : NetClient} (hprepare : setup.prepare d = .ok client)
    {progress : RunProgress} {t' : ThreadCells} {w : RunWorld σ} {value : NetValue}
    (hvalue : (client.run setup.policy w.network).1 = .ok value)
    (hready : Ready setup t' { w with network := (client.run setup.policy w.network).2 })
    (hin : t'.kept.ingress = progress.ingress + client.received setup.policy w.network)
    (hout : t'.kept.egress = progress.egress + client.handed setup.policy w.network) :
    let out := setup.settle d value (client.received setup.policy w.network)
      (client.handed setup.policy w.network) t'
      { w with network := (client.run setup.policy w.network).2 }
    RanAlone setup d progress w out.1 out.2.1 out.2.2 ∧ Ready setup out.2.1 out.2.2 := by
  intro out
  cases hattribute : setup.attribute value (client.received setup.policy w.network)
      (client.handed setup.policy w.network) t'.kept.timeouts with
  | error e =>
      have hsettled : out = _ := settle_eq_error hattribute _
      rw [hsettled]
      refine ⟨ranAlone_of_prepared hprepare hin hout ?_, hready⟩
      rw [RunSetup.alone, hprepare]
      simp only [hvalue, hattribute]
  | ok judged =>
      obtain ⟨r, files⟩ := judged
      have hsettled : out = _ := settle_eq_ok hattribute _
      obtain ⟨htimeouts, hin', hout'⟩ := enterStoring_kept setup t'
      have hstoring := hready.enterStoring
      rw [hsettled]
      refine ⟨ranAlone_of_prepared hprepare (hin'.trans hin) (hout'.trans hout) ?_,
        hstoring.counting, hstoring.tracked, hstoring.guarded, ?_⟩
      · rw [htimeouts, RunSetup.alone, hprepare]
        simp only [hvalue, hattribute]
      · rw [store_network]
        exact hstoring.wrapped

/-- **One run.** -/
theorem runSync_alone (hmetrics : setup.hooks.metrics = true) {t : ThreadCells} {w : RunWorld σ}
    (hready : Ready setup t w) :
    RanAlone setup d t.kept w (runSync setup d t w).1 (runSync setup d t w).2.1
        (runSync setup d t w).2.2 ∧
      Ready setup (runSync setup d t w).2.1 (runSync setup d t w).2.2 := by
  cases hprepare : setup.prepare d with
  | error e =>
      have hrun : runSync setup d t w = (.error e, t, w) :=
        Hooked.bind_error (by rw [hprepare]; rfl)
      rw [hrun]
      exact ⟨ranAlone_of_unprepared hprepare t w, hready⟩
  | ok client =>
      obtain ⟨t', hmeasured, hready', hin, hout⟩ := measured_execute hmetrics client hready
      have hbegun : runSync setup d t w = (do
          let (value, ingress, egress) ←
            measure (guardContext setup.egressEnabled (track (setup.execute client)))
          setup.settle d value ingress egress : RunAct σ RunResult) t w :=
        Hooked.bind_ok (by rw [hprepare]; rfl)
      cases hended : (client.run setup.policy w.network).1 with
      | error e =>
          rw [hended] at hmeasured
          have hrun : runSync setup d t w =
              (.error e, t', { w with network := (client.run setup.policy w.network).2 }) :=
            hbegun.trans (Hooked.bind_error hmeasured)
          rw [hrun]
          refine ⟨ranAlone_of_prepared hprepare hin hout ?_, hready'⟩
          rw [RunSetup.alone, hprepare]
          simp only [hended]
      | ok value =>
          rw [hended] at hmeasured
          rw [hbegun.trans (Hooked.bind_ok hmeasured)]
          exact settled_alone hprepare hended hready' hin hout

end Alone

/-! ## The runs of a thread -/

/-- A worker's thread between two runs. -/
structure Thread (σ : Type) where
  cells : ThreadCells
  world : RunWorld σ

/-- What happens on the thread: a run is made and ends with a result, or something else becomes
of the network. -/
inductive ThreadEvent (σ : Type)
  | run (d : Dispatch) (progress : RunProgress) (result : Except PyExc RunResult)
  | meanwhile (network : σ)

section Thread

variable {σ : Type} (setup : RunSetup σ)

def ThreadStep (s : Thread σ) : ThreadEvent σ → Thread σ → Prop
  | .run d progress result, t =>
      runSync setup d { s.cells with kept := progress } s.world = (result, t.cells, t.world)
  | .meanwhile network, t =>
      (∀ id, setup.network.opened network id → setup.network.opened s.world.network id) ∧
        t = { s with world := { s.world with network := network } }

/-- A step that is a run has come to what the run comes to by itself. -/
def RunsAlone (s : Thread σ) (e : ThreadEvent σ) (t : Thread σ) : Prop :=
  ∀ d progress result, e = .run d progress result →
    RanAlone setup d progress s.world result t.cells t.world

variable {setup}

/-- **One step of the thread.** -/
theorem ThreadStep.alone (hmetrics : setup.hooks.metrics = true) {s t : Thread σ}
    {e : ThreadEvent σ} (h : ThreadStep setup s e t) (hready : Ready setup s.cells s.world) :
    RunsAlone setup s e t ∧ Ready setup t.cells t.world := by
  cases e with
  | run d progress result =>
      have hstart : Ready setup { s.cells with kept := progress } s.world :=
        ⟨hready.counting, hready.tracked, hready.guarded, hready.wrapped⟩
      have hone := runSync_alone (d := d) hmetrics hstart
      rw [show runSync setup d { s.cells with kept := progress } s.world = _ from h] at hone
      refine ⟨fun d' progress' result' heq => ?_, hone.2⟩
      cases heq
      exact hone.1
  | meanwhile network =>
      obtain ⟨hopened, rfl⟩ := h
      exact ⟨fun _ _ _ heq => (by cases heq), hready.counting, hready.tracked, hready.guarded,
        fun id hid => hready.wrapped id (hopened id hid)⟩

/-- **A run comes to what it comes to by itself.** Whatever a worker's thread has run before,
and however that ended: a run on it ends as the executor does on the plain network under the
policy, with what its reads return and the size of what it calls `send` with as its totals and
its bodies stored, and leaves the thread as a thread that has run nothing. -/
theorem runs_alone (hmetrics : setup.hooks.metrics = true) {s : Thread σ}
    (hready : Ready setup s.cells s.world) {run : List (ThreadEvent σ × Thread σ)}
    (hrun : Run (ThreadStep setup) s run) :
    Along (RunsAlone setup) s run ∧ ∀ t ∈ statesOf s run, Ready setup t.cells t.world :=
  ⟨along_of_invariant (fun t => Ready setup t.cells t.world)
      (fun hstep h => (hstep.alone hmetrics h).2) (fun hstep h => (hstep.alone hmetrics h).1)
      hrun hready,
    invariant_statesOf (fun t => Ready setup t.cells t.world)
      (fun hstep h => (hstep.alone hmetrics h).2) hrun hready⟩

end Thread

/-- The result of a script without calls. -/
def sampleResult : Json :=
  .obj [(py "outcome", .str (py "success")), (py "calls", .arr [])]

/-- An executor that sends something, reads a response and returns that. -/
def sampleLace : LaceExecutor where
  config _ := .ok (.obj [])
  run _ _ _ _ _ :=
    .scope (.send 18 true) (.done (.ok .none)) fun _ =>
      .call (.responseInit 0) fun _ => .call (.read 0 (.read none)) fun _ =>
        .done (.ok (.ran sampleResult emptyDisk))

def sampleSetup : RunSetup Bool where
  caseMap := .ascii
  clock n := n
  network := sampleNetwork
  hooks := ⟨[.progress, .guard], true⟩
  lace := sampleLace
  userAgent := py "probe/1"
  egressEnabled := true
  storage := none
  fromisoformat _ := none

def sampleRunCall : Dispatch where
  payload := ⟨py "get()", [], none, true, []⟩
  bodiesDir := .ok (py "/tmp/b")
  runPrefix := py "9f"
  answers := sampleAnswers

/-- A thread that has run nothing. -/
def sampleThread : Thread Bool where
  cells := ⟨⟨{}, none, fun _ => false, 0⟩, false, { phaseSince := 0 }⟩
  world := ⟨false, []⟩

theorem runs_alone_fetch :
    ∃ t w, runSync sampleSetup sampleRunCall sampleThread.cells sampleThread.world =
        (.ok ⟨sampleResult, 4, 18, none⟩, t, w) ∧ Ready sampleSetup t w := by
  obtain ⟨⟨result, t, w⟩, hrun⟩ :
      ∃ out, runSync sampleSetup sampleRunCall sampleThread.cells sampleThread.world = out :=
    ⟨_, rfl⟩
  have hrun' : Run (ThreadStep sampleSetup) sampleThread
      [(.run sampleRunCall { phaseSince := 0 } result, ⟨t, w⟩)] := .cons hrun (.nil _)
  have hstart : Ready sampleSetup sampleThread.cells sampleThread.world :=
    ⟨rfl, rfl, rfl, fun _ h => absurd h.1 Bool.false_ne_true⟩
  obtain ⟨hones, hready⟩ := runs_alone rfl hstart hrun'
  have hended := (hones.1 sampleRunCall { phaseSince := 0 } result rfl).ended
  refine ⟨t, w, ?_, hready ⟨t, w⟩ (List.mem_cons_of_mem _ List.mem_cons_self)⟩
  rw [hrun]
  exact congrArg (fun r => (r, t, w)) (Prod.mk.inj hended).1

end ProbeAgent
