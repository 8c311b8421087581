import ProbeAgent.PyValue
import ProbeAgent.Runs

/-!
# Jobs, the probe pool and the event loop (`services/executor.py`)

`execute_probe` hands a job to the pool and waits for it on the event loop, under a
budget.  A job is seen from two sides.  The worker takes it off the queue unless its
future was cancelled, sets the `started` flag, runs the script and ends.  The loop
waits for the future, and either resumes with its outcome or, once the deadline has
passed, gets to handle it: it cancels the future, waits a moment for the flag, and
answers.

`Pool.next` makes a step relation of the two sides and the queue, for any number of
jobs.  The loop is that of Python 3.13, where `wait_for` is a `timeout`
block around the future: a deadline handled after the future is done, but before the
task resumes, still cancels the task.
-/

namespace ProbeAgent

open Runs

/-- How a run ends: the result it returns, or the exception it raises. -/
abbrev RunOutcome := Except PyExc Json

/-- What the future of the loop is given of an outcome: a `StopIteration` cannot be raised
into it, and `set_exception` makes another exception of it. -/
def inFuture : RunOutcome → RunOutcome
  | .error .stopIteration =>
      .error (.runtimeError ("StopIteration interacts badly with generators " ++
        "and cannot be raised into a Future"))
  | o => o

/-- The worker's side of a job. -/
inductive Stage
  | queued
  /-- Its future was cancelled before a worker took it. -/
  | cancelled
  /-- A worker has taken it: the future is running, and the flag not yet set. -/
  | taken
  /-- The `started` flag is set. -/
  | started
  /-- The script is running. -/
  | running
  | ended (o : RunOutcome)

/-- The answer to a dispatch. -/
inductive Answer
  | result (r : Json)
  | raised (e : PyExc)
  /-- `_run_budget_timeout`. -/
  | standIn
  /-- `AgentAtCapacity`, a 503. -/
  | atCapacity

/-- The event loop's side of a job. -/
inductive LoopSide
  /-- `wait_for` on the future. -/
  | waiting
  /-- The future has its outcome, and the task is to be resumed with it. -/
  | delivered (o : RunOutcome)
  /-- The deadline has been handled, and the future is to be cancelled. -/
  | expiring
  /-- `started.wait(0.1)`. -/
  | checking
  | answered (a : Answer)

structure Job where
  budgetMs : Option Nat
  stage : Stage := .queued
  loop : LoopSide := .waiting
  /-- Where the worker's side stood when the deadline passed. -/
  deadline : Option Stage := none

namespace Stage

/-- A worker has taken the job. -/
def WasTaken : Stage → Prop
  | queued => False
  | cancelled => False
  | _ => True

/-- The `started` flag is set. -/
def FlagSet : Stage → Prop
  | started => True
  | running => True
  | ended _ => True
  | _ => False

/-- The run has started and not yet ended. -/
def UnderWay : Stage → Prop
  | taken => True
  | started => True
  | running => True
  | _ => False

instance : DecidablePred FlagSet
  | queued => isFalse id
  | cancelled => isFalse id
  | taken => isFalse id
  | started => isTrue trivial
  | running => isTrue trivial
  | ended _ => isTrue trivial

instance : DecidablePred UnderWay
  | queued => isFalse id
  | cancelled => isFalse id
  | taken => isTrue trivial
  | started => isTrue trivial
  | running => isTrue trivial
  | ended _ => isFalse id

end Stage

/-- What can happen to one job. -/
inductive JobEvent
  /-- A worker takes it off the queue. -/
  | take
  | setStarted
  | beginScript
  | finish (o : RunOutcome)
  /-- The outcome reaches the future the task waits for. -/
  | deliver
  | resume
  /-- The deadline passes. -/
  | lapse
  /-- The loop handles the deadline that has passed. -/
  | expire
  | cancel
  /-- The wait sees the flag. -/
  | seeStarted
  /-- The wait gives up, the flag unset. -/
  | giveUp

/-- One step of a job; none if it cannot be made. -/
def Job.next (job : Job) : JobEvent → Option Job
  | .take =>
      match job.stage with
      | .queued => some { job with stage := .taken }
      | _ => none
  | .setStarted =>
      match job.stage with
      | .taken => some { job with stage := .started }
      | _ => none
  | .beginScript =>
      match job.stage with
      | .started => some { job with stage := .running }
      | _ => none
  | .finish o =>
      match job.stage with
      | .running => some { job with stage := .ended o }
      | _ => none
  | .deliver =>
      match job.loop, job.stage with
      | .waiting, .ended o => some { job with loop := .delivered (inFuture o) }
      | _, _ => none
  | .resume =>
      match job.loop with
      | .delivered (.ok r) => some { job with loop := .answered (.result r) }
      | .delivered (.error e) =>
          -- under a budget the future is awaited inside `try … except TimeoutError`
          if job.budgetMs.isSome ∧ e.isTimeoutError then some { job with loop := .checking }
          else some { job with loop := .answered (.raised e) }
      | _ => none
  | .lapse =>
      match job.budgetMs, job.deadline, job.loop with
      | some _, none, .waiting => some { job with deadline := some job.stage }
      | some _, none, .delivered _ => some { job with deadline := some job.stage }
      | _, _, _ => none
  | .expire =>
      match job.deadline, job.loop with
      | some _, .waiting => some { job with loop := .expiring }
      | some _, .delivered _ => some { job with loop := .expiring }
      | _, _ => none
  | .cancel =>
      match job.loop, job.stage with
      | .expiring, .queued => some { job with loop := .checking, stage := .cancelled }
      | .expiring, _ => some { job with loop := .checking }
      | _, _ => none
  | .seeStarted =>
      match job.loop with
      | .checking =>
          if job.stage.FlagSet then some { job with loop := .answered .standIn } else none
      | _ => none
  | .giveUp =>
      match job.loop with
      | .checking =>
          if job.stage.FlagSet then none else some { job with loop := .answered .atCapacity }
      | _ => none

/-- The jobs dispatched so far, and the queue of the pool. -/
structure Pool where
  jobs : List Job := []
  queue : List Nat := []

/-- What can happen to the pool and the loop. -/
inductive PoolEvent
  | submit (budgetMs : Option Nat)
  /-- An idle worker takes the first item off the queue. -/
  | fetch
  | job (j : Nat) (e : JobEvent)

namespace Pool

/-- The workers in use. -/
def busy (s : Pool) : Nat :=
  s.jobs.countP fun job => decide job.stage.UnderWay

/-- One step of a pool of that many workers; none if it cannot be made. -/
def next (workers : Nat) (s : Pool) : PoolEvent → Option Pool
  | .submit budgetMs =>
      some { jobs := s.jobs ++ [{ budgetMs := budgetMs }], queue := s.queue ++ [s.jobs.length] }
  | .fetch =>
      match s.queue with
      | [] => none
      | j :: rest =>
          if s.busy < workers then
            match (s.jobs[j]?).bind fun job => job.next .take with
            | some job => some { jobs := s.jobs.set j job, queue := rest }
            -- `set_running_or_notify_cancel` is False: the item is dropped
            | none => some { s with queue := rest }
          else none
  | .job _ .take => none
  | .job j e =>
      ((s.jobs[j]?).bind fun job => job.next e).map fun job => { s with jobs := s.jobs.set j job }

end Pool

/-- One step of the pool and the loop. -/
def PoolStep (workers : Nat) (s : Pool) (e : PoolEvent) (t : Pool) : Prop :=
  s.next workers e = some t

/-! ## What a step does to one job -/

section OneJob

variable {workers : Nat} {s t : Pool} {j i : Nat} {job job' : Job}

/-- An event of one job changes that job only. -/
theorem step_job {je : JobEvent} (hst : PoolStep workers s (.job i je) t) :
    ∃ job job', s.jobs[i]? = some job ∧ job.next je = some job' ∧ t.jobs = s.jobs.set i job' := by
  have hnext : ((s.jobs[i]?).bind fun job => job.next je).map
      (fun job => ({ s with jobs := s.jobs.set i job } : Pool)) = some t := by
    cases je with
    | take =>
        cases hst
    | _ =>
        exact hst
  obtain ⟨job', hjob', ht⟩ := Option.map_eq_some_iff.mp hnext
  obtain ⟨job, hjob, hje⟩ := Option.bind_eq_some_iff.mp hjob'
  exact ⟨job, job', hjob, hje, by rw [← ht]⟩

/-- A fetch takes the job at the head of the queue, or drops it. -/
theorem step_fetch (hst : PoolStep workers s .fetch t) :
    (∃ i job job', s.jobs[i]? = some job ∧ job.next .take = some job' ∧
        t.jobs = s.jobs.set i job') ∨ t.jobs = s.jobs := by
  simp only [PoolStep, Pool.next] at hst
  split at hst
  · cases hst
  · rename_i i rest hqueue
    split at hst
    · cases htake : (s.jobs[i]?).bind fun job => job.next .take with
      | some job' =>
          obtain ⟨job, hjob, hnext⟩ := Option.bind_eq_some_iff.mp htake
          rw [htake] at hst
          cases hst
          exact .inl ⟨i, job, job', hjob, hnext, rfl⟩
      | none =>
          rw [htake] at hst
          cases hst
          exact .inr rfl
    · cases hst

theorem getElem?_set_of_some (hi : s.jobs[i]? = some job) :
    (s.jobs.set i job')[j]? = if i = j then some job' else s.jobs[j]? := by
  obtain ⟨hlt, -⟩ := List.getElem?_eq_some_iff.mp hi
  rw [List.getElem?_set]
  simp [hlt]

/-- The job makes a step of its own, by an event of its own or by being fetched, or
is left as it is. -/
theorem job_after_step {e : PoolEvent} (hst : PoolStep workers s e t)
    (hjob : s.jobs[j]? = some job) :
    (∃ je job', job.next je = some job' ∧ t.jobs[j]? = some job' ∧
        (e = .job j je ∨ (e = .fetch ∧ je = .take))) ∨
      (t.jobs[j]? = some job ∧ ∀ je, e ≠ .job j je) := by
  cases e with
  | submit budgetMs =>
      cases hst
      refine .inr ⟨?_, nofun⟩
      obtain ⟨hlt, -⟩ := List.getElem?_eq_some_iff.mp hjob
      rw [List.getElem?_append_left hlt]
      exact hjob
  | fetch =>
      rcases step_fetch hst with ⟨i, job₁, job', hi, hnext, ht⟩ | ht
      · rw [ht, getElem?_set_of_some hi]
        by_cases hij : i = j
        · rw [hij, hjob, Option.some.injEq] at hi
          rw [← hi] at hnext
          exact .inl ⟨.take, job', hnext, by simp [hij], .inr ⟨rfl, rfl⟩⟩
        · exact .inr ⟨by simp [hij, hjob], nofun⟩
      · rw [ht]
        exact .inr ⟨hjob, nofun⟩
  | job i je =>
      obtain ⟨job₁, job', hi, hnext, ht⟩ := step_job hst
      rw [ht, getElem?_set_of_some hi]
      by_cases hij : i = j
      · rw [hij, hjob, Option.some.injEq] at hi
        rw [← hi] at hnext
        exact .inl ⟨je, job', hnext, by simp [hij], .inl (by rw [hij])⟩
      · refine .inr ⟨by simp [hij, hjob], fun je' hje => ?_⟩
        cases hje
        exact hij rfl

/-- A job that was not there before has just been submitted. -/
theorem job_before_step {e : PoolEvent} (hst : PoolStep workers s e t)
    (hnone : s.jobs[j]? = none) (hjob : t.jobs[j]? = some job) :
    ∃ budgetMs, job = { budgetMs := budgetMs } := by
  have hset : ∀ i job₁ job', s.jobs[i]? = some job₁ → t.jobs ≠ s.jobs.set i job' := by
    intro i job₁ job' hi ht
    rw [ht, getElem?_set_of_some hi] at hjob
    by_cases hij : i = j
    · rw [hij, hnone] at hi
      cases hi
    · simp [hij, hnone] at hjob
  cases e with
  | submit budgetMs =>
      cases hst
      refine ⟨budgetMs, ?_⟩
      have hle := List.getElem?_eq_none_iff.mp hnone
      rw [List.getElem?_append_right hle] at hjob
      have hmem := List.mem_of_getElem? hjob
      simpa using hmem
  | fetch =>
      rcases step_fetch hst with ⟨i, job₁, job', hi, -, ht⟩ | ht
      · exact absurd ht (hset i job₁ job' hi)
      · rw [ht, hnone] at hjob
        cases hjob
  | job i je =>
      obtain ⟨job₁, job', hi, -, ht⟩ := step_job hst
      exact absurd ht (hset i job₁ job' hi)

/-- A property of single jobs that a new job has and every step keeps is kept by the
pool. -/
theorem forall_jobs_step {I : Job → Prop} (hnew : ∀ budgetMs, I { budgetMs := budgetMs })
    {e : PoolEvent}
    (hkeep : ∀ (j : Nat) je job job', s.jobs[j]? = some job → (e = .job j je ∨ je = .take) →
      job.next je = some job' → I job → I job')
    (hst : PoolStep workers s e t) (hs : ∀ (j : Nat) job, s.jobs[j]? = some job → I job) :
    ∀ (j : Nat) job, t.jobs[j]? = some job → I job := by
  intro j job' hjob'
  cases hjob : s.jobs[j]? with
  | none =>
      obtain ⟨budgetMs, rfl⟩ := job_before_step hst hjob hjob'
      exact hnew budgetMs
  | some job =>
      rcases job_after_step hst hjob with ⟨je, job₁, hnext, ht, he⟩ | ⟨ht, -⟩
      · rw [hjob', Option.some.injEq] at ht
        rw [ht]
        exact hkeep j je job job₁ hjob (he.imp_right And.right) hnext (hs j job hjob)
      · rw [hjob', Option.some.injEq] at ht
        rw [ht]
        exact hs j job hjob

end OneJob

end ProbeAgent
