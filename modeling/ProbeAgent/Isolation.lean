import ProbeAgent.WorkerThreads
import Mathlib.Data.List.Forall2
import Mathlib.Data.List.Induction
import Mathlib.Algebra.GroupWithZero.Nat

/-!
# Runs do not contaminate each other

A `Diary` is written from the steps of one thread alone: for each of its runs the hooks
called inside the block of the run, as the record and as the byte counter see them.
Whatever the other threads do, the record of a run and the totals of its `measure` block
are what the diary of its thread says (`runs_isolated`).
-/

namespace ProbeAgent

/-- What a run's thread did in the blocks of the run: the calls its record has seen, the
step into storing the bodies included, and those the byte counter has seen. -/
structure RunLog where
  /-- When the record was made. -/
  made : ℚ
  recorded : List HookEvent := []
  counted : List HookEvent := []

def HookEvent.bytesIn : HookEvent → Nat
  | received count _ => count
  | _ => 0

def HookEvent.bytesOut : HookEvent → Nat
  | sent count _ => count
  | _ => 0

def bytesIn (events : List HookEvent) : Nat :=
  (events.map HookEvent.bytesIn).sum

def bytesOut (events : List HookEvent) : Nat :=
  (events.map HookEvent.bytesOut).sum

namespace RunLog

/-- The record of the run. -/
def record (log : RunLog) : RunProgress :=
  log.recorded.foldl RunProgress.hook { phaseSince := log.made }

/-- The totals of its `measure` block. -/
def wire (log : RunLog) : Nat × Nat :=
  (bytesIn log.counted, bytesOut log.counted)

def seenByRecord (log : RunLog) (e : HookEvent) : RunLog :=
  { log with recorded := log.recorded ++ [e] }

def seenByCounter (log : RunLog) (e : HookEvent) : RunLog :=
  { log with counted := log.counted ++ [e] }

/-- The first half of a hook. -/
def started (log : RunLog) : HookEvent → RunLog
  | .sent count now => log.seenByCounter (.sent count now)
  | .received count now => log.seenByRecord (.received count now)
  | e => (log.seenByRecord e).seenByCounter e

/-- The second. -/
def ended (log : RunLog) : HookEvent → RunLog
  | .sent count now => log.seenByRecord (.sent count now)
  | .received count now => log.seenByCounter (.received count now)
  | _ => log

end RunLog

/-- The runs of one thread, the last one first. -/
structure Diary where
  logs : List RunLog := []
  /-- When the record was made that the next run is handed. -/
  handedAt : Option ℚ := none
  /-- The thread is inside the blocks of a run. -/
  opened : Bool := false
  /-- The hook under way there. -/
  half : Option HookEvent := none

namespace Diary

def amend (d : Diary) (f : RunLog → RunLog) : Diary :=
  match d.logs with
  | [] => d
  | log :: logs => { d with logs := f log :: logs }

def note (d : Diary) : WorkerMove → Diary
  | .hand now => { d with handedAt := some now }
  | .call now =>
      { d with logs := { made := d.handedAt.getD now } :: d.logs, handedAt := none }
  | .track => { d with opened := true }
  | .hook e =>
      if d.opened then { d.amend (·.started e) with half := e.due } else d
  | .hookEnd =>
      match d.half with
      | none => d
      | some e => { d.amend (·.ended e) with half := none }
  | .untrack _ => { d with opened := false }
  | .store now => d.amend (·.seenByRecord (.storing now))
  | _ => d

end Diary

section Traces

variable {T : Type} [DecidableEq T]

/-- The steps of one thread. -/
def ownMoves (t : T) (trace : List (T × WorkerMove)) : List WorkerMove :=
  (trace.filter fun e => e.1 = t).map Prod.snd

/-- Its diary. -/
def diaryOf (t : T) (trace : List (T × WorkerMove)) : Diary :=
  (ownMoves t trace).foldl Diary.note {}

theorem diaryOf_append_self (t : T) (trace : List (T × WorkerMove)) (m : WorkerMove) :
    diaryOf t (trace ++ [(t, m)]) = (diaryOf t trace).note m := by
  simp [diaryOf, ownMoves]

theorem diaryOf_append_of_ne {t u : T} (h : u ≠ t) (trace : List (T × WorkerMove))
    (m : WorkerMove) : diaryOf t (trace ++ [(u, m)]) = diaryOf t trace := by
  simp [diaryOf, ownMoves, h]

end Traces

/-! ## The two ledgers of a record -/

section Ledgers

@[simp] theorem enter_ingress (p : RunProgress) (phase : Phase) (now : ℚ) :
    (p.enter phase now).ingress = p.ingress := by
  unfold RunProgress.enter
  split <;> rfl

@[simp] theorem enter_egress (p : RunProgress) (phase : Phase) (now : ℚ) :
    (p.enter phase now).egress = p.egress := by
  unfold RunProgress.enter
  split <;> rfl

theorem close_bytes (p : RunProgress) (conn : Nat) (now : ℚ) :
    (p.close conn now).ingress = p.ingress ∧ (p.close conn now).egress = p.egress := by
  unfold RunProgress.close
  repeat' split
  all_goals simp

theorem onTimeout_bytes (p : RunProgress) (now : ℚ) (tcp : Option TcpInfo) :
    (p.onTimeout now tcp).ingress = p.ingress ∧ (p.onTimeout now tcp).egress = p.egress := by
  unfold RunProgress.onTimeout
  repeat' split
  all_goals simp

theorem stepped_bytes (p : RunProgress) (note : Request → Request) (phase : Phase) (now : ℚ) :
    (p.stepped note phase now).ingress = p.ingress ∧
      (p.stepped note phase now).egress = p.egress := by
  unfold RunProgress.stepped
  split <;> simp

/-- A hook adds the bytes of its own event to the record, and no others. -/
theorem hook_bytes (p : RunProgress) (e : HookEvent) :
    (p.hook e).ingress = p.ingress + e.bytesIn ∧ (p.hook e).egress = p.egress + e.bytesOut := by
  cases e with
  | sent count now =>
      simp only [RunProgress.hook, RunProgress.onSent]
      split <;> simp [HookEvent.bytesIn, HookEvent.bytesOut]
  | received count now =>
      simp only [RunProgress.hook, RunProgress.onReceived]
      split <;> simp [HookEvent.bytesIn, HookEvent.bytesOut]
  | headers conn head now =>
      simp only [RunProgress.hook]
      split
      · exact close_bytes p conn now
      · exact ⟨rfl, rfl⟩
  | closed conn now => exact close_bytes p conn now
  | addressExpired now tcp => exact onTimeout_bytes p now tcp
  | expired now tcp => exact onTimeout_bytes p now tcp
  | resolving now => exact stepped_bytes p _ _ now
  | connecting fd now => exact stepped_bytes p _ _ now
  | handshaking now => exact stepped_bytes p _ _ now
  | requested now =>
      simp [RunProgress.hook, HookEvent.bytesIn, HookEvent.bytesOut]
  | storing now => simp [RunProgress.hook, HookEvent.bytesIn, HookEvent.bytesOut]
  | _ => exact ⟨rfl, rfl⟩

theorem RunLog.record_bytes (log : RunLog) :
    log.record.ingress = bytesIn log.recorded ∧ log.record.egress = bytesOut log.recorded := by
  unfold RunLog.record bytesIn bytesOut
  induction log.recorded using List.reverseRecOn with
  | nil => exact ⟨rfl, rfl⟩
  | append_singleton events e ih =>
      have hbytes := hook_bytes (events.foldl RunProgress.hook { phaseSince := log.made }) e
      simp [hbytes, ih]

end Ledgers

/-! ## What a thread's own steps determine -/

section Matching

/-- The counter of a run inside its `measure` block. -/
def RunLog.counter (log : RunLog) : WireCounter :=
  ⟨true, log.wire.1, log.wire.2⟩

@[simp] theorem record_seenByRecord (log : RunLog) (e : HookEvent) :
    (log.seenByRecord e).record = log.record.hook e := by
  simp [RunLog.record, RunLog.seenByRecord]

@[simp] theorem record_seenByCounter (log : RunLog) (e : HookEvent) :
    (log.seenByCounter e).record = log.record := rfl

@[simp] theorem wire_seenByRecord (log : RunLog) (e : HookEvent) :
    (log.seenByRecord e).wire = log.wire := rfl

@[simp] theorem wire_seenByCounter (log : RunLog) (e : HookEvent) :
    (log.seenByCounter e).wire = (log.wire.1 + e.bytesIn, log.wire.2 + e.bytesOut) := by
  simp [RunLog.wire, RunLog.seenByCounter, bytesIn, bytesOut]

/-- What the record has seen is what the counter has seen, up to the hook under way. -/
def Balanced (log : RunLog) : Option HookEvent → Prop
  | none => log.recorded = log.counted
  | some (.sent count now) => log.counted = log.recorded ++ [.sent count now]
  | some (.received count now) => log.recorded = log.counted ++ [.received count now]
  | some _ => False

variable (records : RecordId → RunProgress)

/-- The record of a run and the totals of its `measure` block are those of the log. -/
def Told (run : KeptRun) (log : RunLog) : Prop :=
  records run.progress = log.record ∧ ∀ wire, run.wire = some wire → wire = log.wire

/-- The record of a run is the one assigned, if the call is made in an `assign` block. -/
inductive Hands : Option (Option RecordId) → RecordId → Option RecordId → Prop
  | direct {r : RecordId} : Hands none r none
  | assigned {r : RecordId} : Hands (some none) r (some r)

/-- The thread stands where its diary says, and its attributes are those of the place. -/
inductive Matches (enabled : Bool) : Worker → Diary → Prop
  | idle {half : Option HookEvent} {past : List KeptRun} {logs : List RunLog}
      (hpast : List.Forall₂ (Told records) past logs) :
      Matches enabled ⟨{}, .idle, half, past⟩ ⟨logs, none, false, none⟩
  | handed {r : RecordId} {now : ℚ} {half : Option HookEvent} {past : List KeptRun}
      {logs : List RunLog} (hr : records r = { phaseSince := now })
      (hpast : List.Forall₂ (Told records) past logs) :
      Matches enabled ⟨{ assigned := some r }, .handed none, half, past⟩
        ⟨logs, some now, false, none⟩
  | returned {r : RecordId} {half : Option HookEvent} {past : List KeptRun}
      {logs : List RunLog} (hpast : List.Forall₂ (Told records) past logs) :
      Matches enabled ⟨{ assigned := some r }, .returned none, half, past⟩
        ⟨logs, none, false, none⟩
  | preparing {outer : Option (Option RecordId)} {r : RecordId} {assigned : Option RecordId}
      {made : ℚ} {half : Option HookEvent} {past : List KeptRun} {logs : List RunLog}
      (hands : Hands outer r assigned) (hr : records r = ({ made := made } : RunLog).record)
      (hpast : List.Forall₂ (Told records) past logs) :
      Matches enabled
        ⟨{ assigned := assigned }, .running outer { progress := r } .preparing, half, past⟩
        ⟨{ made := made } :: logs, none, false, none⟩
  | measuring {outer : Option (Option RecordId)} {r : RecordId} {assigned : Option RecordId}
      {made : ℚ} {past : List KeptRun} {logs : List RunLog}
      (hands : Hands outer r assigned) (hr : records r = ({ made := made } : RunLog).record)
      (hpast : List.Forall₂ (Told records) past logs) :
      Matches enabled
        ⟨{ assigned := assigned, counter := { active := true } },
          .running outer { progress := r } (.measuring {}), none, past⟩
        ⟨{ made := made } :: logs, none, false, none⟩
  | guarding {outer : Option (Option RecordId)} {r : RecordId} {assigned : Option RecordId}
      {made : ℚ} {past : List KeptRun} {logs : List RunLog}
      (hands : Hands outer r assigned) (hr : records r = ({ made := made } : RunLog).record)
      (hpast : List.Forall₂ (Told records) past logs) :
      Matches enabled
        ⟨{ assigned := assigned, counter := { active := true }, guarded := enabled },
          .running outer { progress := r }
            (.guarding {} (if enabled then some false else none)), none, past⟩
        ⟨{ made := made } :: logs, none, false, none⟩
  | inside {outer : Option (Option RecordId)} {r : RecordId} {assigned : Option RecordId}
      {half : Option HookEvent} {past : List KeptRun} {log : RunLog} {logs : List RunLog}
      (hands : Hands outer r assigned) (hr : records r = log.record)
      (hbalanced : Balanced log half) (hpast : List.Forall₂ (Told records) past logs) :
      Matches enabled
        ⟨{ assigned := assigned, counter := log.counter, guarded := enabled,
           progress := some r },
          .running outer { progress := r }
            (.inside {} (if enabled then some false else none) none), half, past⟩
        ⟨log :: logs, none, true, half⟩
  | untracked {outer : Option (Option RecordId)} {r : RecordId} {assigned : Option RecordId}
      {raised : Bool} {past : List KeptRun} {log : RunLog} {logs : List RunLog}
      (hands : Hands outer r assigned) (hr : records r = log.record)
      (hpast : List.Forall₂ (Told records) past logs) :
      Matches enabled
        ⟨{ assigned := assigned, counter := log.counter, guarded := enabled },
          .running outer { progress := r }
            (.untracked {} (if enabled then some false else none) raised), none, past⟩
        ⟨log :: logs, none, false, none⟩
  | unguarded {outer : Option (Option RecordId)} {r : RecordId} {assigned : Option RecordId}
      {raised : Bool} {past : List KeptRun} {log : RunLog} {logs : List RunLog}
      (hands : Hands outer r assigned) (hr : records r = log.record)
      (hpast : List.Forall₂ (Told records) past logs) :
      Matches enabled
        ⟨{ assigned := assigned, counter := log.counter },
          .running outer { progress := r } (.unguarded {} raised), none, past⟩
        ⟨log :: logs, none, false, none⟩
  | finishing {outer : Option (Option RecordId)} {run : KeptRun} {assigned : Option RecordId}
      {raised stored : Bool} {half : Option HookEvent} {past : List KeptRun} {log : RunLog}
      {logs : List RunLog} (hands : Hands outer run.progress assigned)
      (htold : Told records run log) (hpast : List.Forall₂ (Told records) past logs) :
      Matches enabled
        ⟨{ assigned := assigned }, .running outer run (.finishing raised stored), half, past⟩
        ⟨log :: logs, none, false, none⟩

end Matching

/-- The records of a thread's runs, and the one it has been handed for the next. -/
def Worker.ids (w : Worker) : List RecordId :=
  match w.place with
  | .handed _ => w.cells.assigned.toList ++ w.past.map KeptRun.progress
  | .running _ run _ => run.progress :: w.past.map KeptRun.progress
  | _ => w.past.map KeptRun.progress

section Frames

variable {enabled : Bool} {records records' : RecordId → RunProgress} {w w' : Worker}
  {d : Diary} {m : WorkerMove} {edit : RecordEdit} {fresh : RecordId}

theorem told_congr {past : List KeptRun} {logs : List RunLog}
    (h : List.Forall₂ (Told records) past logs)
    (heq : ∀ r ∈ past.map KeptRun.progress, records' r = records r) :
    List.Forall₂ (Told records') past logs := by
  induction h with
  | nil => exact .nil
  | cons htold _ ih =>
      rw [List.map_cons, List.forall_mem_cons] at heq
      exact .cons ⟨heq.1.trans htold.1, htold.2⟩ (ih heq.2)

/-- Nothing but the records of its own runs bears on a thread. -/
theorem Matches.congr (h : Matches records enabled w d)
    (heq : ∀ r ∈ w.ids, records' r = records r) : Matches records' enabled w d := by
  cases h with
  | idle hpast => exact .idle (told_congr hpast heq)
  | returned hpast => exact .returned (told_congr hpast heq)
  | handed hr hpast =>
      obtain ⟨heq, hrest⟩ := List.forall_mem_cons.mp heq
      exact .handed (heq.trans hr) (told_congr hpast hrest)
  | preparing hands hr hpast =>
      obtain ⟨heq, hrest⟩ := List.forall_mem_cons.mp heq
      exact .preparing hands (heq.trans hr) (told_congr hpast hrest)
  | measuring hands hr hpast =>
      obtain ⟨heq, hrest⟩ := List.forall_mem_cons.mp heq
      exact .measuring hands (heq.trans hr) (told_congr hpast hrest)
  | guarding hands hr hpast =>
      obtain ⟨heq, hrest⟩ := List.forall_mem_cons.mp heq
      exact .guarding hands (heq.trans hr) (told_congr hpast hrest)
  | inside hands hr hbalanced hpast =>
      obtain ⟨heq, hrest⟩ := List.forall_mem_cons.mp heq
      exact .inside hands (heq.trans hr) hbalanced (told_congr hpast hrest)
  | untracked hands hr hpast =>
      obtain ⟨heq, hrest⟩ := List.forall_mem_cons.mp heq
      exact .untracked hands (heq.trans hr) (told_congr hpast hrest)
  | unguarded hands hr hpast =>
      obtain ⟨heq, hrest⟩ := List.forall_mem_cons.mp heq
      exact .unguarded hands (heq.trans hr) (told_congr hpast hrest)
  | finishing hands htold hpast =>
      obtain ⟨heq, hrest⟩ := List.forall_mem_cons.mp heq
      exact .finishing hands ⟨heq.trans htold.1, htold.2⟩ (told_congr hpast hrest)

/-- A hook does nothing where neither ledger is open. -/
theorem hookStart_of_closed {c : WorkerCells} (hcounter : c.counter.active = false)
    (hprogress : c.progress = none) (e : HookEvent) : c.hookStart e = (c, .keep) := by
  cases e <;>
    simp [WorkerCells.hookStart, WorkerCells.countSent, WorkerCells.recorded, hcounter, hprogress]

theorem hookEnd_of_closed {c : WorkerCells} (hcounter : c.counter.active = false)
    (e : HookEvent) : c.hookEnd e = (c, .keep) := by
  cases e <;> simp [WorkerCells.hookEnd, WorkerCells.countReceived, hcounter]

end Frames

/-! ## The hooks inside the blocks of a run -/

section Inside

variable (assigned : Option RecordId) (guarded : Bool) (r : RecordId)

/-- The attributes of a thread inside the blocks of the run with that log. -/
def insideCells (log : RunLog) : WorkerCells :=
  { assigned := assigned, counter := log.counter, guarded := guarded, progress := some r }

/-- The edit takes the record of the log before to the one of the log after. -/
def KeepsUp (edit : RecordEdit) (log log' : RunLog) : Prop :=
  (edit = .keep ∧ log'.record = log.record) ∨
    ∃ e, edit = .on r e ∧ log'.record = log.record.hook e

/-- The first half of a hook, in step with the log. -/
theorem hookStart_inside {log : RunLog} (hbalanced : Balanced log none) (e : HookEvent) :
    ((insideCells assigned guarded r log).hookStart e).1 =
        insideCells assigned guarded r (log.started e) ∧
      KeepsUp r ((insideCells assigned guarded r log).hookStart e).2 log (log.started e) ∧
      Balanced (log.started e) e.due := by
  have hbalanced : log.recorded = log.counted := hbalanced
  cases e with
  | sent count now =>
      refine ⟨?_, .inl ⟨rfl, rfl⟩, ?_⟩
      · simp [WorkerCells.hookStart, WorkerCells.countSent, insideCells, RunLog.started,
          HookEvent.bytesIn, HookEvent.bytesOut, RunLog.counter]
      · simp [Balanced, HookEvent.due, RunLog.started, RunLog.seenByCounter, hbalanced]
  | received count now =>
      refine ⟨rfl, .inr ⟨_, rfl, record_seenByRecord _ _⟩, ?_⟩
      simp [Balanced, HookEvent.due, RunLog.started, RunLog.seenByRecord, hbalanced]
  | _ =>
      refine ⟨?_, .inr ⟨_, rfl, ?_⟩, ?_⟩
      · simp [WorkerCells.hookStart, insideCells, RunLog.started,
          HookEvent.bytesIn, HookEvent.bytesOut, RunLog.counter]
      · simp [RunLog.started]
      · simp [Balanced, HookEvent.due, RunLog.started, RunLog.seenByRecord,
          RunLog.seenByCounter, hbalanced]

/-- The second half. -/
theorem hookEnd_inside {log : RunLog} {e : HookEvent} (hbalanced : Balanced log (some e)) :
    ((insideCells assigned guarded r log).hookEnd e).1 =
        insideCells assigned guarded r (log.ended e) ∧
      KeepsUp r ((insideCells assigned guarded r log).hookEnd e).2 log (log.ended e) ∧
      Balanced (log.ended e) none := by
  cases e with
  | sent count now =>
      have hbalanced : log.counted = log.recorded ++ [.sent count now] := hbalanced
      refine ⟨rfl, .inr ⟨_, rfl, record_seenByRecord _ _⟩, ?_⟩
      simp [Balanced, RunLog.ended, RunLog.seenByRecord, hbalanced]
  | received count now =>
      have hbalanced : log.recorded = log.counted ++ [.received count now] := hbalanced
      refine ⟨?_, .inl ⟨rfl, rfl⟩, ?_⟩
      · simp [WorkerCells.hookEnd, WorkerCells.countReceived, insideCells, RunLog.ended,
          HookEvent.bytesIn, HookEvent.bytesOut, RunLog.counter]
      · simp [Balanced, RunLog.ended, RunLog.seenByCounter, hbalanced]
  | _ => exact hbalanced.elim

end Inside

/-! ## One step -/

section Steps

variable {enabled : Bool} {records : RecordId → RunProgress} {w w' : Worker}
  {d : Diary} {m : WorkerMove} {edit : RecordEdit} {fresh : RecordId}

/-- A step makes a record that becomes the thread's own, or writes to one of its own. -/
theorem step_ids (h : Matches records enabled w d) (hstep : WorkerStep enabled fresh w m w' edit) :
    (w'.ids = fresh :: w.ids ∧ ∃ now, edit = .make now) ∨
      w'.ids = w.ids ∧ (edit = .keep ∨ ∃ r e, r ∈ w.ids ∧ edit = .on r e) := by
  cases hstep with
  | hand now => exact .inl ⟨rfl, now, rfl⟩
  | call now hawaits =>
      cases h with
      | idle => exact .inl ⟨rfl, now, rfl⟩
      | handed => exact .inr ⟨rfl, .inl rfl⟩
      | _ => cases hawaits
  | hook e hplace he =>
      cases h with
      | idle => exact .inr ⟨rfl, .inl (by rw [hookStart_of_closed rfl rfl])⟩
      | handed =>
          rw [hookStart_of_closed rfl rfl]
          exact .inr ⟨rfl, .inl rfl⟩
      | returned => exact .inr ⟨rfl, .inl (by rw [hookStart_of_closed rfl rfl])⟩
      | preparing => exact .inr ⟨rfl, .inl (by rw [hookStart_of_closed rfl rfl])⟩
      | finishing => exact .inr ⟨rfl, .inl (by rw [hookStart_of_closed rfl rfl])⟩
      | inside hands hr hbalanced hpast =>
          refine .inr ⟨rfl, ?_⟩
          rcases (hookStart_inside _ _ _ hbalanced e).2.1 with ⟨hkeep, -⟩ | ⟨e', hon, -⟩
          · exact .inl hkeep
          · exact .inr ⟨_, e', List.mem_cons_self, hon⟩
      | _ => cases hplace
  | hookEnd =>
      rename_i cells place past e
      cases h with
      | handed =>
          rw [hookEnd_of_closed rfl]
          exact .inr ⟨rfl, .inl rfl⟩
      | inside hands hr hbalanced hpast =>
          refine .inr ⟨rfl, ?_⟩
          rcases (hookEnd_inside _ _ _ hbalanced).2.1 with ⟨hkeep, -⟩ | ⟨e', hon, -⟩
          · exact .inl hkeep
          · exact .inr ⟨_, e', List.mem_cons_self, hon⟩
      | _ => exact .inr ⟨rfl, .inl (by rw [hookEnd_of_closed rfl])⟩
  | store now => exact .inr ⟨rfl, .inr ⟨_, _, List.mem_cons_self, rfl⟩⟩
  | finish =>
      rename_i outer run raised stored past
      refine .inr ⟨?_, .inl rfl⟩
      cases outer <;> rfl
  | _ => exact .inr ⟨rfl, .inl rfl⟩

/-- An edit of a record that is none of these leaves them alone. -/
theorem apply_of_notMem {ids : List RecordId} (hfresh : fresh ∉ ids)
    (hon : ∀ r e, edit = .on r e → r ∉ ids) {r : RecordId} (hr : r ∈ ids) :
    edit.apply fresh records r = records r := by
  cases edit with
  | keep => rfl
  | make now => exact Function.update_of_ne (ne_of_mem_of_not_mem hr hfresh) _ _
  | on r' e => exact Function.update_of_ne (ne_of_mem_of_not_mem hr (hon r' e rfl)) _ _

theorem KeepsUp.apply {r : RecordId} {log log' : RunLog} (h : KeepsUp r edit log log')
    (hr : records r = log.record) : edit.apply fresh records r = log'.record := by
  rcases h with ⟨rfl, hlog⟩ | ⟨e, rfl, hlog⟩
  · exact hr.trans hlog.symm
  · rw [RecordEdit.apply, Function.update_self, hr, hlog]

theorem KeepsUp.told {r : RecordId} {log log' : RunLog} {past : List KeptRun}
    {logs : List RunLog} (h : KeepsUp r edit log log')
    (hr : r ∉ past.map KeptRun.progress) (hpast : List.Forall₂ (Told records) past logs) :
    List.Forall₂ (Told (edit.apply fresh records)) past logs := by
  refine told_congr hpast fun r' hr' => ?_
  rcases h with ⟨rfl, -⟩ | ⟨e, rfl, -⟩
  · rfl
  · exact Function.update_of_ne (ne_of_mem_of_not_mem hr' hr) _ _

/-- The first entry of a hook. -/
theorem Matches.hookStarts {cells : WorkerCells} {place : Place} {past : List KeptRun}
    (h : Matches records enabled ⟨cells, place, none, past⟩ d) (e : HookEvent)
    (hplace : place.doesHttp = true)
    (hnodup : Worker.ids ⟨cells, place, none, past⟩ |>.Nodup) :
    Matches ((cells.hookStart e).2.apply fresh records) enabled
      ⟨(cells.hookStart e).1, place, e.due, past⟩ (d.note (.hook e)) := by
  cases h with
  | idle hpast =>
      rw [hookStart_of_closed rfl rfl]
      exact .idle hpast
  | handed hr hpast =>
      rw [hookStart_of_closed rfl rfl]
      exact .handed hr hpast
  | returned hpast =>
      rw [hookStart_of_closed rfl rfl]
      exact .returned hpast
  | preparing hands hr hpast =>
      rw [hookStart_of_closed rfl rfl]
      exact .preparing hands hr hpast
  | finishing hands htold hpast =>
      rw [hookStart_of_closed rfl rfl]
      exact .finishing hands htold hpast
  | inside hands hr hbalanced hpast =>
      obtain ⟨hcells, hkeeps, hbalanced'⟩ := hookStart_inside _ enabled _ hbalanced e
      rw [insideCells] at hcells
      rw [hcells]
      exact .inside hands (hkeeps.apply hr) hbalanced'
        (hkeeps.told (List.nodup_cons.mp hnodup).1 hpast)
  | _ => cases hplace

/-- And the second. -/
theorem Matches.hookEnds {cells : WorkerCells} {place : Place} {past : List KeptRun}
    {e : HookEvent} (h : Matches records enabled ⟨cells, place, some e, past⟩ d)
    (hnodup : Worker.ids ⟨cells, place, some e, past⟩ |>.Nodup) :
    Matches ((cells.hookEnd e).2.apply fresh records) enabled
      ⟨(cells.hookEnd e).1, place, none, past⟩ (d.note .hookEnd) := by
  cases h with
  | idle hpast =>
      rw [hookEnd_of_closed rfl]
      exact .idle hpast
  | handed hr hpast =>
      rw [hookEnd_of_closed rfl]
      exact .handed hr hpast
  | returned hpast =>
      rw [hookEnd_of_closed rfl]
      exact .returned hpast
  | preparing hands hr hpast =>
      rw [hookEnd_of_closed rfl]
      exact .preparing hands hr hpast
  | finishing hands htold hpast =>
      rw [hookEnd_of_closed rfl]
      exact .finishing hands htold hpast
  | inside hands hr hbalanced hpast =>
      obtain ⟨hcells, hkeeps, hbalanced'⟩ := hookEnd_inside _ enabled _ hbalanced
      rw [insideCells] at hcells
      rw [hcells]
      exact .inside hands (hkeeps.apply hr) hbalanced'
        (hkeeps.told (List.nodup_cons.mp hnodup).1 hpast)

/-- What a step does to the thread and its diary. -/
theorem step_matches (h : Matches records enabled w d)
    (hstep : WorkerStep enabled fresh w m w' edit) (hfresh : fresh ∉ w.ids)
    (hnodup : w.ids.Nodup) :
    Matches (edit.apply fresh records) enabled w' (d.note m) := by
  have hmake : ∀ {past : List KeptRun} {logs : List RunLog} (now : ℚ),
      fresh ∉ past.map KeptRun.progress → List.Forall₂ (Told records) past logs →
        List.Forall₂ (Told (RecordEdit.apply fresh records (.make now))) past logs :=
    fun now hfresh hpast => told_congr hpast fun r hr =>
      Function.update_of_ne (ne_of_mem_of_not_mem hr hfresh) _ _
  cases hstep with
  | hand now =>
      cases h with
      | idle hpast => exact .handed (Function.update_self _ _ _) (hmake now hfresh hpast)
  | call now hawaits =>
      cases h with
      | idle hpast =>
          cases hawaits
          exact .preparing .direct (Function.update_self _ _ _) (hmake now hfresh hpast)
      | handed hr hpast =>
          cases hawaits
          exact .preparing .assigned hr hpast
      | _ => cases hawaits
  | failPreparing =>
      cases h with
      | preparing hands hr hpast => exact .finishing hands ⟨hr, nofun⟩ hpast
  | failMeasuring =>
      cases h with
      | measuring hands hr hpast => exact .unguarded hands hr hpast
  | failGuarding =>
      cases h with
      | guarding hands hr hpast => exact .untracked hands hr hpast
  | failFinishing =>
      cases h with
      | finishing hands htold hpast => exact .finishing hands htold hpast
  | measure =>
      cases h with
      | preparing hands hr hpast => exact .measuring hands hr hpast
  | guard =>
      cases h with
      | measuring hands hr hpast => simpa using .guarding hands hr hpast
  | track =>
      cases h with
      | guarding hands hr hpast => exact .inside hands hr (show Balanced _ none from rfl) hpast
  | hook e hplace he => exact h.hookStarts e hplace hnodup
  | hookEnd => exact h.hookEnds hnodup
  | untrack raised =>
      cases h with
      | inside hands hr hbalanced hpast => exact .untracked hands hr hpast
  | unguard =>
      cases h with
      | untracked hands hr hpast =>
          cases enabled with
          | false => exact .unguarded hands hr hpast
          | true => exact .unguarded hands hr hpast
  | unmeasure =>
      cases h with
      | unguarded hands hr hpast =>
          refine .finishing hands ⟨hr, fun wire hwire => ?_⟩ hpast
          cases hwire
          rfl
  | store now =>
      cases h with
      | finishing hands htold hpast =>
          refine .finishing hands ⟨?_, htold.2⟩ ?_
          · rw [RecordEdit.apply, Function.update_self, htold.1, record_seenByRecord]
          · exact told_congr hpast fun r hr => Function.update_of_ne
              (ne_of_mem_of_not_mem hr (List.nodup_cons.mp hnodup).1) _ _
  | finish =>
      cases h with
      | finishing hands htold hpast =>
          cases hands with
          | direct => exact .idle (.cons htold hpast)
          | assigned => exact .returned (.cons htold hpast)
  | unassign =>
      cases h with
      | returned hpast => exact .idle hpast

end Steps

/-! ## Every interleaving -/

section Runs

variable {T : Type} [DecidableEq T] {enabled : Bool} {s s' : Workers T}
  {trace : List (T × WorkerMove)}

/-- Every thread stands where its own steps have led it, and no record is shared. -/
structure Isolated (enabled : Bool) (s : Workers T) (diaries : T → Diary) : Prop where
  holds : ∀ t, Matches s.records enabled (s.workers t) (diaries t)
  made : ∀ t, ∀ r ∈ (s.workers t).ids, r < s.made
  nodup : ∀ t, (s.workers t).ids.Nodup
  disjoint : ∀ t u, t ≠ u → List.Disjoint (s.workers t).ids (s.workers u).ids

theorem isolated_step {diaries : T → Diary} (h : Isolated enabled s diaries) {t : T}
    {m : WorkerMove} {w : Worker} {edit : RecordEdit}
    (hstep : WorkerStep enabled s.made (s.workers t) m w edit) :
    Isolated enabled (s.put t w edit)
      (Function.update diaries t ((diaries t).note m)) := by
  have hfresh : ∀ u, s.made ∉ (s.workers u).ids := fun u hmem => (h.made u _ hmem).false
  have hids := step_ids (h.holds t) hstep
  have hsub : ∀ r ∈ w.ids, r ∈ (s.workers t).ids ∨ r = s.made := by
    intro r hr
    rcases hids with ⟨hids, -⟩ | ⟨hids, -⟩
    · rw [hids] at hr
      exact (List.mem_cons.mp hr).symm
    · exact .inl (hids ▸ hr)
  have hmade : s.made ≤ (s.put t w edit).made := by
    cases edit <;> simp [Workers.put, RecordEdit.madeAfter]
  have hapart : ∀ u, u ≠ t → List.Disjoint w.ids (s.workers u).ids := by
    intro u hu r hr hr'
    rcases hsub r hr with hown | rfl
    · exact h.disjoint t u hu.symm hown hr'
    · exact hfresh u hr'
  refine ⟨fun u => ?_, fun u r hr => ?_, fun u => ?_, fun u v huv => ?_⟩
  · by_cases hu : u = t
    · subst hu
      simpa [Workers.put] using step_matches (h.holds u) hstep (hfresh u) (h.nodup u)
    · -- the edit is of a record of `t`, or of a new one
      have hkept : ∀ r ∈ (s.workers u).ids, edit.apply s.made s.records r = s.records r := by
        refine fun r => apply_of_notMem (hfresh u) fun r' e hedit => ?_
        rcases hids with ⟨-, now, hmake⟩ | ⟨-, hkeep | ⟨r'', e', hmem, hon⟩⟩
        · exact absurd (hedit.symm.trans hmake) nofun
        · exact absurd (hedit.symm.trans hkeep) nofun
        · cases hedit.symm.trans hon
          exact h.disjoint t u (Ne.symm hu) hmem
      simpa [Workers.put, hu] using (h.holds u).congr hkept
  · by_cases hu : u = t
    · subst hu
      simp only [Workers.put, Function.update_self] at hr
      rcases hids with ⟨hids, now, rfl⟩ | ⟨hids, -⟩
      · rw [hids, List.mem_cons] at hr
        rcases hr with rfl | hr
        · exact Nat.lt_succ_self _
        · exact (h.made u r hr).trans (Nat.lt_succ_self _)
      · exact (h.made u r (hids ▸ hr)).trans_le hmade
    · simp only [Workers.put, Function.update_of_ne hu] at hr
      exact (h.made u r hr).trans_le hmade
  · by_cases hu : u = t
    · subst hu
      simp only [Workers.put, Function.update_self]
      rcases hids with ⟨hids, -⟩ | ⟨hids, -⟩
      · rw [hids]
        exact List.nodup_cons.mpr ⟨hfresh u, h.nodup u⟩
      · rw [hids]
        exact h.nodup u
    · simpa [Workers.put, Function.update_of_ne hu] using h.nodup u
  · simp only [Workers.put, Function.update_apply]
    split
    · rename_i hu
      rw [if_neg (fun hv => huv (hu.trans hv.symm))]
      exact hapart v (fun hv => huv (hu.trans hv.symm))
    · rename_i hu
      split
      · exact List.disjoint_symm (hapart u hu)
      · exact h.disjoint u v huv

theorem isolated_leads (h : Leads enabled {} trace s) :
    Isolated enabled s fun t => diaryOf t trace := by
  induction h with
  | refl =>
      exact ⟨fun t => .idle .nil, fun t r hr => (List.not_mem_nil hr).elim,
        fun t => List.nodup_nil, fun t u _ => List.disjoint_nil_left _⟩
  | @step trace s' t m w edit _ hstep ih =>
      have hdiaries : (fun u => diaryOf u (trace ++ [(t, m)])) =
          Function.update (fun u => diaryOf u trace) t ((diaryOf t trace).note m) := by
        funext u
        by_cases hu : u = t
        · subst hu
          rw [Function.update_self, diaryOf_append_self]
        · rw [Function.update_of_ne hu, diaryOf_append_of_ne (Ne.symm hu)]
      rw [hdiaries]
      exact isolated_step ih hstep

/-- The runs of a thread, the one under way included. -/
def Worker.runs (w : Worker) : List KeptRun :=
  match w.place with
  | .running _ run _ => run :: w.past
  | _ => w.past

theorem Matches.runs {records : RecordId → RunProgress} {w : Worker} {d : Diary}
    (h : Matches records enabled w d) : List.Forall₂ (Told records) w.runs d.logs := by
  cases h with
  | idle hpast => exact hpast
  | handed hr hpast => exact hpast
  | returned hpast => exact hpast
  | preparing hands hr hpast => exact .cons ⟨hr, nofun⟩ hpast
  | measuring hands hr hpast => exact .cons ⟨hr, nofun⟩ hpast
  | guarding hands hr hpast => exact .cons ⟨hr, nofun⟩ hpast
  | inside hands hr hbalanced hpast => exact .cons ⟨hr, nofun⟩ hpast
  | untracked hands hr hpast => exact .cons ⟨hr, nofun⟩ hpast
  | unguarded hands hr hpast => exact .cons ⟨hr, nofun⟩ hpast
  | finishing hands htold hpast => exact .cons htold hpast

/-- The counter and the record agree, up to the chunk of the hook under way. -/
def LedgersAgree (half : Option HookEvent) (counter : WireCounter) (record : RunProgress) : Prop :=
  match half with
  | none => counter.ingress = record.ingress ∧ counter.egress = record.egress
  | some e =>
      counter.ingress + e.bytesIn = record.ingress ∧
        counter.egress = record.egress + e.bytesOut

theorem Balanced.agree {log : RunLog} {half : Option HookEvent} (h : Balanced log half) :
    LedgersAgree half log.counter log.record := by
  obtain ⟨hin, hout⟩ := log.record_bytes
  generalize log.record = p at hin hout ⊢
  cases half with
  | none =>
      have h : log.recorded = log.counted := h
      simp [LedgersAgree, RunLog.counter, RunLog.wire, hin, hout, h]
  | some e =>
      cases e with
      | sent count now =>
          have h : log.counted = log.recorded ++ [.sent count now] := h
          simp [LedgersAgree, RunLog.counter, RunLog.wire, hin, hout, h, bytesIn, bytesOut,
            HookEvent.bytesIn, HookEvent.bytesOut]
      | received count now =>
          have h : log.recorded = log.counted ++ [.received count now] := h
          simp [LedgersAgree, RunLog.counter, RunLog.wire, hin, hout, h, bytesIn, bytesOut,
            HookEvent.bytesIn, HookEvent.bytesOut]
      | _ => exact h.elim

theorem Matches.agree {records : RecordId → RunProgress} {w : Worker} {d : Diary}
    (h : Matches records enabled w d) {outer : Option (Option RecordId)} {run : KeptRun}
    {counter : WireCounter} {guarded : Option Bool} {previous : Option RecordId}
    (hplace : w.place = .running outer run (.inside counter guarded previous)) :
    LedgersAgree w.half w.cells.counter (records run.progress) := by
  cases h with
  | inside hands hr hbalanced hpast =>
      cases hplace
      rw [hr]
      exact hbalanced.agree
  | _ => cases hplace

/-! ## The attributes are put back -/

/-- The steps that begin and end a job, and those that begin and end a run. -/
inductive Brackets : WorkerMove → WorkerMove → Prop
  | job (now : ℚ) : Brackets (.hand now) .unassign
  | run (now : ℚ) : Brackets (.call now) .finish

theorem Hands.unique {outer : Option (Option RecordId)} {r : RecordId}
    {assigned assigned' : Option RecordId} (h : Hands outer r assigned)
    (h' : Hands outer r assigned') : assigned = assigned' := by
  cases h with
  | direct =>
      cases h'
      rfl
  | assigned =>
      cases h'
      rfl

/-- The thread is in a run with that record. -/
def Worker.InRun (w : Worker) (outer : Option (Option RecordId)) (r : RecordId) : Prop :=
  ∃ run stage, w.place = .running outer run stage ∧ run.progress = r

/-- Only its last step ends a run. -/
theorem inRun_step {w w' : Worker} {m : WorkerMove} {edit : RecordEdit} {fresh : RecordId}
    {outer : Option (Option RecordId)} {r : RecordId} (h : w.InRun outer r)
    (hstep : WorkerStep enabled fresh w m w' edit) (hm : m ≠ .finish) : w'.InRun outer r := by
  obtain ⟨run, stage, hplace, hr⟩ := h
  cases hstep with
  | finish => exact absurd rfl hm
  | call now hawaits =>
      cases hplace
      cases hawaits
  | hand => cases hplace
  | unassign => cases hplace
  | hook => exact ⟨run, stage, hplace, hr⟩
  | hookEnd => exact ⟨run, stage, hplace, hr⟩
  | _ =>
      cases hplace
      exact ⟨_, _, rfl, hr⟩

theorem inRun_leads {t : T} {outer : Option (Option RecordId)} {r : RecordId}
    (h : (s.workers t).InRun outer r) (hleads : Leads enabled s trace s')
    (hopen : (t, .finish) ∉ trace) : (s'.workers t).InRun outer r := by
  induction hleads with
  | refl => exact h
  | @step trace s' u m w edit _ hstep ih =>
      rw [List.mem_append, not_or, List.mem_singleton] at hopen
      have hin := ih hopen.1
      by_cases hu : t = u
      · subst hu
        simp only [Workers.put, Function.update_self]
        exact inRun_step hin hstep fun hm => hopen.2 (by rw [hm])
      · simpa only [Workers.put, Function.update_of_ne hu] using hin

/-- A thread in a run, or between two jobs, has the attributes its place says. -/
theorem Matches.cells_of_finishing {records : RecordId → RunProgress} {w : Worker} {d : Diary}
    (h : Matches records enabled w d) {outer : Option (Option RecordId)} {run : KeptRun}
    {raised stored : Bool} (hplace : w.place = .running outer run (.finishing raised stored)) :
    ∃ assigned, Hands outer run.progress assigned ∧ w.cells = { assigned := assigned } := by
  cases h with
  | finishing hands htold hpast =>
      cases hplace
      exact ⟨_, hands, rfl⟩
  | _ => cases hplace

theorem Leads.trans {s'' : Workers T} {more : List (T × WorkerMove)}
    (h : Leads enabled s trace s') (h' : Leads enabled s' more s'') :
    Leads enabled s (trace ++ more) s'' := by
  induction h' with
  | refl => rwa [List.append_nil]
  | step _ hstep ih =>
      rw [← List.append_assoc]
      exact .step ih hstep

/-- When a run or a job is over, the thread's attributes are what they were before. -/
theorem cells_restored (h : Leads enabled {} trace s) {t : T} {opening closing : WorkerMove}
    (hbrackets : Brackets opening closing) {w w' : Worker} {edit edit' : RecordEdit}
    {during : List (T × WorkerMove)}
    (hopen : WorkerStep enabled s.made (s.workers t) opening w edit)
    (hduring : Leads enabled (s.put t w edit) during s') (hnot : (t, closing) ∉ during)
    (hclose : WorkerStep enabled s'.made (s'.workers t) closing w' edit') :
    w'.cells = (s.workers t).cells := by
  have hbefore := (isolated_leads h).holds t
  have hafter := (isolated_leads ((h.step hopen).trans hduring)).holds t
  generalize diaryOf t trace = d at hbefore
  generalize diaryOf t ((trace ++ [(t, opening)]) ++ during) = d' at hafter
  cases hbrackets with
  | job now =>
      generalize s.workers t = w₀ at hopen hbefore
      generalize s'.workers t = w₁ at hclose hafter
      cases hopen
      cases hclose
      cases hbefore
      cases hafter
      rfl
  | run now =>
      have hin : ∀ outer r, w.InRun outer r → (s'.workers t).InRun outer r := by
        intro outer r hw
        refine inRun_leads ?_ hduring hnot
        simpa only [Workers.put, Function.update_self] using hw
      generalize s.workers t = w₀ at hopen hbefore
      generalize s'.workers t = w₁ at hclose hafter hin
      cases hclose with
      | finish =>
          obtain ⟨assigned, hands, hcells⟩ := hafter.cells_of_finishing rfl
          cases hcells
          cases hopen with
          | call now hawaits =>
              obtain ⟨run, stage, hplace, hr⟩ := hin _ _ ⟨_, _, rfl, rfl⟩
              cases hplace
              rw [hr] at hands
              cases hbefore with
              | idle =>
                  cases hawaits
                  rw [hands.unique .direct]
              | handed =>
                  cases hawaits
                  rw [hands.unique .assigned]
                  rfl
              | _ => cases hawaits

/-- Whatever the other threads do, the record of every run of a thread and the totals of its
`measure` block are those of the thread's own diary; inside the block the two ledgers agree
but for the hook under way; and a run, like the job around it, puts everything back. -/
theorem runs_isolated (h : Leads enabled {} trace s) (t : T) :
    List.Forall₂ (Told s.records) (s.workers t).runs (diaryOf t trace).logs ∧
    (∀ outer run counter guarded previous,
      (s.workers t).place = .running outer run (.inside counter guarded previous) →
        LedgersAgree (s.workers t).half (s.workers t).cells.counter
          (s.records run.progress)) ∧
    ∀ opening closing w edit during s' w' edit', Brackets opening closing →
      WorkerStep enabled s.made (s.workers t) opening w edit →
      Leads enabled (s.put t w edit) during s' → (t, closing) ∉ during →
      WorkerStep enabled s'.made (s'.workers t) closing w' edit' →
        w'.cells = (s.workers t).cells := by
  have hmatches := (isolated_leads h).holds t
  refine ⟨hmatches.runs, fun outer run counter guarded previous hplace => hmatches.agree hplace,
    fun opening closing w edit during s' w' edit' hbrackets hopen hduring hnot hclose => ?_⟩
  exact cells_restored h hbrackets hopen hduring hnot hclose

end Runs

/-- Two workers: one has taken a job and reads a chunk, the other sends one beside it. -/
def sampleTrace : List (Bool × WorkerMove) :=
  [(true, .hand 0), (true, .call 1), (false, .call 1), (true, .measure), (true, .guard),
    (true, .track), (false, .hook (.sent 9 2)), (false, .hookEnd), (true, .hook (.received 5 2))]

theorem sampleTrace_leads : ∃ s : Workers Bool, Leads true {} sampleTrace s ∧
    (s.workers true).place =
      .running (some none) { progress := 0 } (.inside {} (some false) none) ∧
    (s.workers true).half = some (.received 5 2) ∧
    (s.records 0).ingress = 5 ∧ (s.workers true).cells.counter.ingress = 0 := by
  refine ⟨_, .step (.step (.step (.step (.step (.step (.step (.step (.step .refl (.hand 0))
    (.call 1 rfl)) (.call 1 rfl)) .measure) .guard) .track) (.hook _ rfl rfl)) .hookEnd)
    (.hook _ rfl rfl), ?_, ?_, ?_, ?_⟩
  · rfl
  · rfl
  · rfl
  · rfl

theorem runs_isolated_reading : ∃ s : Workers Bool, Leads true {} sampleTrace s ∧
    List.Forall₂ (Told s.records) (s.workers true).runs (diaryOf true sampleTrace).logs ∧
    LedgersAgree (some (.received 5 2)) (s.workers true).cells.counter (s.records 0) := by
  obtain ⟨s, hleads, hplace, hhalf, -, -⟩ := sampleTrace_leads
  obtain ⟨htold, hagree, -⟩ := runs_isolated hleads true
  exact ⟨s, hleads, htold, hhalf ▸ hagree _ _ _ _ _ hplace⟩

/-- The two ledgers do not agree at every instant: a chunk is on record before it is
counted. -/
theorem chunk_recorded_before_counted :
    ¬∀ (trace : List (Bool × WorkerMove)) (s : Workers Bool) (t : Bool)
      (outer : Option (Option RecordId)) (run : KeptRun) (counter : WireCounter)
      (guarded : Option Bool) (previous : Option RecordId), Leads true {} trace s →
      (s.workers t).place = .running outer run (.inside counter guarded previous) →
        (s.workers t).cells.counter.ingress = (s.records run.progress).ingress ∧
          (s.workers t).cells.counter.egress = (s.records run.progress).egress := by
  intro hall
  obtain ⟨s, hleads, hplace, -, hrecord, hcounter⟩ := sampleTrace_leads
  have hsame := (hall _ s true _ _ _ _ _ hleads hplace).1
  rw [hcounter, hrecord] at hsame
  cases hsame

end ProbeAgent
