import ProbeAgent.RunProgress
import Mathlib.Data.List.Basic
import Mathlib.Data.List.Nodup
import Mathlib.Logic.Function.Basic

/-!
# The runs of the worker threads (`executor._run_sync`, `wire_metrics`, `run_progress`)

The hooks on `http.client` are installed for the whole process.  What they write to is
found through four attributes of thread-local objects: the byte counter, the record that
is kept, the record handed over for the next run, and the flag of the egress guard.  A
run sets them in `with` blocks and puts them back in the `finally` of each.

A `WorkerStep` is one step of one thread.  An `HookEvent` is two of them where bytes are
counted: `patched_send` adds to the counter and then calls `run_progress.on_sent`,
`_CountingReader` calls `run_progress.on_received` and then adds to the counter.  Between
them, as between any two steps, other threads may take theirs.

Entering a block either raises before anything is set or completes.
-/

namespace ProbeAgent

/-- Which `RunProgress` object it is. -/
abbrev RecordId := Nat

/-- `wire_metrics._Counter`. -/
structure WireCounter where
  active : Bool := false
  ingress : Nat := 0
  egress : Nat := 0
deriving DecidableEq

/-- The thread-local attributes of one thread: `wire_metrics._local.counter`,
`run_progress._local.progress` and `.assigned`, `egress_guard._local.active`. -/
structure WorkerCells where
  counter : WireCounter := {}
  progress : Option RecordId := none
  assigned : Option RecordId := none
  guarded : Bool := false
deriving DecidableEq

/-- The record a run keeps, and the `_Result` of its `measure` block once that is over:
the bytes in and out. -/
structure KeptRun where
  progress : RecordId
  wire : Option (Nat × Nat) := none
deriving DecidableEq

/-- How far `_run_sync` has got, with what each block entered put aside. -/
inductive RunStage
  /-- Before the `with` statement. -/
  | preparing
  /-- `measure()` entered. -/
  | measuring (counter : WireCounter)
  /-- `guard_ctx` entered: `active()`, or a `nullcontext`, which puts nothing aside. -/
  | guarding (counter : WireCounter) (guarded : Option Bool)
  /-- `track(progress)` entered: `executor.run` is under way. -/
  | inside (counter : WireCounter) (guarded : Option Bool) (progress : Option RecordId)
  /-- `track` left, or its entry failed. -/
  | untracked (counter : WireCounter) (guarded : Option Bool) (raised : Bool)
  /-- `guard_ctx` left, or its entry failed. -/
  | unguarded (counter : WireCounter) (raised : Bool)
  /-- The `with` statement is over. -/
  | finishing (raised stored : Bool)
deriving DecidableEq

/-- Where a thread is.  A run that `execute_probe` submits is made in an `assign` block,
which put `previous` aside; `outer` is none for a call of `_run_sync` outside one. -/
inductive Place
  | idle
  | handed (previous : Option RecordId)
  | running (outer : Option (Option RecordId)) (run : KeptRun) (stage : RunStage)
  | returned (previous : Option RecordId)
deriving DecidableEq

/-- Where `_run_sync` can be called, with the `assign` block around. -/
def Place.awaits : Place → Option (Option (Option RecordId))
  | idle => some none
  | handed previous => some (some previous)
  | _ => none

/-- Where the thread is when `_run_sync` is over. -/
def Place.after : Option (Option RecordId) → Place
  | none => idle
  | some previous => returned previous

/-- HTTP happens here: that of the run inside its blocks, that of the agent outside. -/
def Place.doesHttp : Place → Bool
  | running _ _ .preparing => true
  | running _ _ (.inside _ _ _) => true
  | running _ _ (.finishing _ _) => true
  | running _ _ _ => false
  | _ => true

/-- Storing the bodies is not a hook: `_run_sync` does it. -/
def HookEvent.isHook : HookEvent → Bool
  | storing _ => false
  | _ => true

/-- The hook that is under way when its first half has been done. -/
def HookEvent.due : HookEvent → Option HookEvent
  | sent count now => some (sent count now)
  | received count now => some (received count now)
  | _ => none

/-- What a step does to the records. -/
inductive RecordEdit
  | keep
  /-- `RunProgress()`. -/
  | make (now : ℚ)
  | on (r : RecordId) (e : HookEvent)

namespace WorkerCells

/-- `c.egress += len(data)`, while counting. -/
def countSent (c : WorkerCells) (count : Nat) : WorkerCells :=
  if c.counter.active then
    { c with counter := { c.counter with egress := c.counter.egress + count } }
  else c

/-- `c.ingress += len(data)`, while counting. -/
def countReceived (c : WorkerCells) (count : Nat) : WorkerCells :=
  if c.counter.active then
    { c with counter := { c.counter with ingress := c.counter.ingress + count } }
  else c

/-- The hook of `run_progress` on the record of this thread, if it keeps one. -/
def recorded (c : WorkerCells) (e : HookEvent) : RecordEdit :=
  match c.progress with
  | none => .keep
  | some r => .on r e

/-- The first half of a hook. -/
def hookStart (c : WorkerCells) : HookEvent → WorkerCells × RecordEdit
  | .sent count _ => (c.countSent count, .keep)
  | e => (c, c.recorded e)

/-- The second. -/
def hookEnd (c : WorkerCells) : HookEvent → WorkerCells × RecordEdit
  | .sent count now => (c, if c.counter.active then c.recorded (.sent count now) else .keep)
  | .received count _ => (c.countReceived count, .keep)
  | _ => (c, .keep)

end WorkerCells

structure Worker where
  cells : WorkerCells := {}
  place : Place := .idle
  /-- The hook whose second half is due. -/
  half : Option HookEvent := none
  /-- The runs that are over, the last one first. -/
  past : List KeptRun := []

/-- A step of a thread. -/
inductive WorkerMove
  /-- `execute_probe` makes a record, and the worker that takes the job assigns it. -/
  | hand (now : ℚ)
  /-- `_run_sync` is called. -/
  | call (now : ℚ)
  /-- What is under way raises. -/
  | fail
  | measure
  | guard
  | track
  | hook (e : HookEvent)
  | hookEnd
  /-- `executor.run` is over, and `track` with it. -/
  | untrack (raised : Bool)
  | unguard
  | unmeasure
  | store (now : ℚ)
  /-- `_run_sync` is over. -/
  | finish
  | unassign

/-- One step of one thread: `enabled` is `_egress_enabled`, `fresh` a new record. -/
inductive WorkerStep (enabled : Bool) (fresh : RecordId) :
    Worker → WorkerMove → Worker → RecordEdit → Prop
  | hand {cells : WorkerCells} {past : List KeptRun} (now : ℚ) :
      WorkerStep enabled fresh ⟨cells, .idle, none, past⟩ (.hand now)
        ⟨{ cells with assigned := some fresh }, .handed cells.assigned, none, past⟩ (.make now)
  | call {cells : WorkerCells} {place : Place} {past : List KeptRun}
      {outer : Option (Option RecordId)} (now : ℚ) (h : place.awaits = some outer) :
      WorkerStep enabled fresh ⟨cells, place, none, past⟩ (.call now)
        ⟨cells, .running outer { progress := cells.assigned.getD fresh } .preparing, none, past⟩
        (if cells.assigned.isSome then .keep else .make now)
  | failPreparing {cells : WorkerCells} {outer : Option (Option RecordId)} {run : KeptRun}
      {past : List KeptRun} :
      WorkerStep enabled fresh ⟨cells, .running outer run .preparing, none, past⟩ .fail
        ⟨cells, .running outer run (.finishing true false), none, past⟩ .keep
  | failMeasuring {cells : WorkerCells} {outer : Option (Option RecordId)} {run : KeptRun}
      {counter : WireCounter} {past : List KeptRun} :
      WorkerStep enabled fresh ⟨cells, .running outer run (.measuring counter), none, past⟩ .fail
        ⟨cells, .running outer run (.unguarded counter true), none, past⟩ .keep
  | failGuarding {cells : WorkerCells} {outer : Option (Option RecordId)} {run : KeptRun}
      {counter : WireCounter} {guarded : Option Bool} {past : List KeptRun} :
      WorkerStep enabled fresh ⟨cells, .running outer run (.guarding counter guarded), none, past⟩
        .fail ⟨cells, .running outer run (.untracked counter guarded true), none, past⟩ .keep
  | failFinishing {cells : WorkerCells} {outer : Option (Option RecordId)} {run : KeptRun}
      {raised stored : Bool} {past : List KeptRun} :
      WorkerStep enabled fresh ⟨cells, .running outer run (.finishing raised stored), none, past⟩
        .fail ⟨cells, .running outer run (.finishing true stored), none, past⟩ .keep
  | measure {cells : WorkerCells} {outer : Option (Option RecordId)} {run : KeptRun}
      {past : List KeptRun} :
      WorkerStep enabled fresh ⟨cells, .running outer run .preparing, none, past⟩ .measure
        ⟨{ cells with counter := { active := true } },
          .running outer run (.measuring cells.counter), none, past⟩ .keep
  | guard {cells : WorkerCells} {outer : Option (Option RecordId)} {run : KeptRun}
      {counter : WireCounter} {past : List KeptRun} :
      WorkerStep enabled fresh ⟨cells, .running outer run (.measuring counter), none, past⟩ .guard
        ⟨{ cells with guarded := enabled || cells.guarded },
          .running outer run
            (.guarding counter (if enabled then some cells.guarded else none)), none, past⟩ .keep
  | track {cells : WorkerCells} {outer : Option (Option RecordId)} {run : KeptRun}
      {counter : WireCounter} {guarded : Option Bool} {past : List KeptRun} :
      WorkerStep enabled fresh ⟨cells, .running outer run (.guarding counter guarded), none, past⟩
        .track
        ⟨{ cells with progress := some run.progress },
          .running outer run (.inside counter guarded cells.progress), none, past⟩ .keep
  | hook {cells : WorkerCells} {place : Place} {past : List KeptRun} (e : HookEvent)
      (hplace : place.doesHttp = true) (he : e.isHook = true) :
      WorkerStep enabled fresh ⟨cells, place, none, past⟩ (.hook e)
        ⟨(cells.hookStart e).1, place, e.due, past⟩ (cells.hookStart e).2
  | hookEnd {cells : WorkerCells} {place : Place} {past : List KeptRun} {e : HookEvent} :
      WorkerStep enabled fresh ⟨cells, place, some e, past⟩ .hookEnd
        ⟨(cells.hookEnd e).1, place, none, past⟩ (cells.hookEnd e).2
  | untrack {cells : WorkerCells} {outer : Option (Option RecordId)} {run : KeptRun}
      {counter : WireCounter} {guarded : Option Bool} {previous : Option RecordId}
      {past : List KeptRun} (raised : Bool) :
      WorkerStep enabled fresh
        ⟨cells, .running outer run (.inside counter guarded previous), none, past⟩
        (.untrack raised)
        ⟨{ cells with progress := previous },
          .running outer run (.untracked counter guarded raised), none, past⟩ .keep
  | unguard {cells : WorkerCells} {outer : Option (Option RecordId)} {run : KeptRun}
      {counter : WireCounter} {guarded : Option Bool} {raised : Bool} {past : List KeptRun} :
      WorkerStep enabled fresh
        ⟨cells, .running outer run (.untracked counter guarded raised), none, past⟩ .unguard
        ⟨{ cells with guarded := guarded.getD cells.guarded },
          .running outer run (.unguarded counter raised), none, past⟩ .keep
  | unmeasure {cells : WorkerCells} {outer : Option (Option RecordId)} {run : KeptRun}
      {counter : WireCounter} {raised : Bool} {past : List KeptRun} :
      WorkerStep enabled fresh
        ⟨cells, .running outer run (.unguarded counter raised), none, past⟩ .unmeasure
        ⟨{ cells with counter := counter },
          .running outer
            { run with wire := some (cells.counter.ingress, cells.counter.egress) }
            (.finishing raised false), none, past⟩ .keep
  | store {cells : WorkerCells} {outer : Option (Option RecordId)} {run : KeptRun}
      {past : List KeptRun} (now : ℚ) :
      WorkerStep enabled fresh
        ⟨cells, .running outer run (.finishing false false), none, past⟩ (.store now)
        ⟨cells, .running outer run (.finishing false true), none, past⟩
        (.on run.progress (.storing now))
  | finish {cells : WorkerCells} {outer : Option (Option RecordId)} {run : KeptRun}
      {raised stored : Bool} {past : List KeptRun} :
      WorkerStep enabled fresh
        ⟨cells, .running outer run (.finishing raised stored), none, past⟩ .finish
        ⟨cells, .after outer, none, run :: past⟩ .keep
  | unassign {cells : WorkerCells} {previous : Option RecordId} {past : List KeptRun} :
      WorkerStep enabled fresh ⟨cells, .returned previous, none, past⟩ .unassign
        ⟨{ cells with assigned := previous }, .idle, none, past⟩ .keep

/-! ## All threads -/

/-- The threads and the `RunProgress` objects made so far. -/
structure Workers (T : Type) where
  workers : T → Worker := fun _ => {}
  records : RecordId → RunProgress := fun _ => { phaseSince := 0 }
  made : RecordId := 0

variable {T : Type}

/-- The records after an edit. -/
def RecordEdit.apply (fresh : RecordId) (records : RecordId → RunProgress) :
    RecordEdit → RecordId → RunProgress
  | keep => records
  | make now => Function.update records fresh { phaseSince := now }
  | on r e => Function.update records r ((records r).hook e)

/-- The number of records after it. -/
def RecordEdit.madeAfter (fresh : RecordId) : RecordEdit → RecordId
  | make _ => fresh + 1
  | _ => fresh

variable [DecidableEq T]

/-- The state after a step of one thread. -/
def Workers.put (s : Workers T) (t : T) (w : Worker) (edit : RecordEdit) : Workers T where
  workers := Function.update s.workers t w
  records := edit.apply s.made s.records
  made := edit.madeAfter s.made

/-- The steps of all threads, in the order in which they are taken. -/
inductive Leads (enabled : Bool) (s : Workers T) : List (T × WorkerMove) → Workers T → Prop
  | refl : Leads enabled s [] s
  | step {trace : List (T × WorkerMove)} {s' : Workers T} {t : T} {m : WorkerMove} {w : Worker}
      {edit : RecordEdit} (h : Leads enabled s trace s')
      (hstep : WorkerStep enabled s'.made (s'.workers t) m w edit) :
      Leads enabled s (trace ++ [(t, m)]) (s'.put t w edit)

end ProbeAgent
