import ProbeAgent.Executor

/-!
# What a dispatch is answered with

A job with a budget is to be answered with its run's own result or exception when
the run ends first, and with the stand-in only when the deadline falls on a run
under way.  A refused job is never to run.

* `own_outcome_iff`: the answer is right exactly when none of four things happened
  to the job: its run raised a `TimeoutError` of its own before the deadline, which is
  caught with that of the budget, or a `StopIteration`, of which the loop makes another
  exception; a deadline was handled that had passed after the run had ended; a worker
  took the job after the deadline and before the cancellation, and its flag was seen.
* `refused_never_runs_iff`: refused jobs never run exactly when no wait gives up on a
  job that a worker has taken without having set its flag yet.
-/

namespace ProbeAgent

open Runs

/-! ## One step of a job -/

/-- The steps of the worker's side. -/
inductive Stage.Works : Stage → JobEvent → Stage → Prop
  | take : Works .queued .take .taken
  | setStarted : Works .taken .setStarted .started
  | beginScript : Works .started .beginScript .running
  | finish (o : RunOutcome) : Works .running (.finish o) (.ended o)

/-- All that a step can do to a job. -/
inductive Job.Moves (job : Job) : JobEvent → Job → Prop
  | works {e : JobEvent} {stage : Stage} :
      job.stage.Works e stage → Moves job e { job with stage := stage }
  | deliver {o : RunOutcome} : job.loop = .waiting → job.stage = .ended o →
      Moves job .deliver { job with loop := .delivered (inFuture o) }
  | resume_result {r : Json} : job.loop = .delivered (.ok r) →
      Moves job .resume { job with loop := .answered (.result r) }
  | resume_raise {e : PyExc} : job.loop = .delivered (.error e) →
      ¬(job.budgetMs.isSome ∧ e.isTimeoutError) →
      Moves job .resume { job with loop := .answered (.raised e) }
  | resume_timeout {e : PyExc} : job.loop = .delivered (.error e) →
      job.budgetMs.isSome ∧ e.isTimeoutError → Moves job .resume { job with loop := .checking }
  | lapse : job.budgetMs.isSome → job.deadline = none →
      (job.loop = .waiting ∨ ∃ o, job.loop = .delivered o) →
      Moves job .lapse { job with deadline := some job.stage }
  | expire : job.deadline.isSome → (job.loop = .waiting ∨ ∃ o, job.loop = .delivered o) →
      Moves job .expire { job with loop := .expiring }
  | cancel_queued : job.loop = .expiring → job.stage = .queued →
      Moves job .cancel { job with loop := .checking, stage := .cancelled }
  | cancel_taken : job.loop = .expiring → job.stage ≠ .queued →
      Moves job .cancel { job with loop := .checking }
  | seeStarted : job.loop = .checking → job.stage.FlagSet →
      Moves job .seeStarted { job with loop := .answered .standIn }
  | giveUp : job.loop = .checking → ¬job.stage.FlagSet →
      Moves job .giveUp { job with loop := .answered .atCapacity }

theorem Job.moves {job job' : Job} {e : JobEvent} (h : job.next e = some job') :
    job.Moves e job' := by
  cases e with
  | take =>
      simp only [next] at h
      split at h
      · rename_i hstage
        cases h
        exact .works (by rw [hstage]; exact .take)
      · cases h
  | setStarted =>
      simp only [next] at h
      split at h
      · rename_i hstage
        cases h
        exact .works (by rw [hstage]; exact .setStarted)
      · cases h
  | beginScript =>
      simp only [next] at h
      split at h
      · rename_i hstage
        cases h
        exact .works (by rw [hstage]; exact .beginScript)
      · cases h
  | finish o =>
      simp only [next] at h
      split at h
      · rename_i hstage
        cases h
        exact .works (by rw [hstage]; exact .finish o)
      · cases h
  | deliver =>
      simp only [next] at h
      split at h
      · rename_i hloop hstage
        cases h
        exact .deliver hloop hstage
      · cases h
  | resume =>
      simp only [next] at h
      split at h
      · rename_i hloop
        cases h
        exact .resume_result hloop
      · rename_i hloop
        split at h
        · rename_i htimeout
          cases h
          exact .resume_timeout hloop htimeout
        · rename_i hother
          cases h
          exact .resume_raise hloop hother
      · cases h
  | lapse =>
      simp only [next] at h
      split at h
      · rename_i hbudget hdeadline hloop
        cases h
        exact .lapse (by rw [hbudget]; rfl) hdeadline (.inl hloop)
      · rename_i hbudget hdeadline hloop
        cases h
        exact .lapse (by rw [hbudget]; rfl) hdeadline (.inr ⟨_, hloop⟩)
      · cases h
  | expire =>
      simp only [next] at h
      split at h
      · rename_i hdeadline hloop
        cases h
        exact .expire (by rw [hdeadline]; rfl) (.inl hloop)
      · rename_i hdeadline hloop
        cases h
        exact .expire (by rw [hdeadline]; rfl) (.inr ⟨_, hloop⟩)
      · cases h
  | cancel =>
      simp only [next] at h
      split at h
      · rename_i hloop hstage
        cases h
        exact .cancel_queued hloop hstage
      · rename_i hloop hstage
        cases h
        exact .cancel_taken hloop hstage
      · cases h
  | seeStarted =>
      simp only [next] at h
      split at h
      · rename_i hloop
        split at h
        · rename_i hflag
          cases h
          exact .seeStarted hloop hflag
        · cases h
      · cases h
  | giveUp =>
      simp only [next] at h
      split at h
      · rename_i hloop
        split at h
        · cases h
        · rename_i hflag
          cases h
          exact .giveUp hloop hflag
      · cases h

/-! ## What holds of every job -/

/-- Of a stage at the deadline and a later one: no future is cancelled before the
deadline, and a run that has ended stays so. -/
structure Stage.Since (past stage : Stage) : Prop where
  not_cancelled : past ≠ .cancelled
  ended : ∀ o, past = .ended o → stage = .ended o

theorem Stage.Works.since {past stage stage' : Stage} {e : JobEvent}
    (h : stage.Works e stage') (hpast : past.Since stage) : past.Since stage' := by
  refine ⟨hpast.not_cancelled, fun o ho => ?_⟩
  have hended := hpast.ended o ho
  rw [hended] at h
  cases h

theorem Stage.Works.flagSet {stage stage' : Stage} {e : JobEvent} (h : stage.Works e stage')
    (hflag : stage.FlagSet) : stage'.FlagSet := by
  cases h with
  | take =>
      cases hflag
  | setStarted =>
      trivial
  | beginScript =>
      trivial
  | finish o =>
      trivial

theorem Stage.Works.ne_queued {stage stage' : Stage} {e : JobEvent} (h : stage.Works e stage') :
    stage' ≠ .queued := by
  cases h <;> nofun

theorem Stage.Works.ne_cancelled {stage stage' : Stage} {e : JobEvent}
    (h : stage.Works e stage') : stage' ≠ .cancelled := by
  cases h <;> nofun

/-- The deadline has been handled, and the future was cancelled. -/
def Job.Expired (job : Job) : Prop :=
  job.deadline.isSome ∧ job.stage ≠ .queued

/-- What the run ended with, where the task is to be resumed with that. -/
def Job.EndedAs (job : Job) (o : RunOutcome) : Prop :=
  ∃ own, job.stage = .ended own ∧ inFuture own = o

/-- The run raised an exception. -/
def Job.Failed (job : Job) : Prop :=
  ∃ e, job.stage = .ended (.error e)

/-- How the two sides of a job stand to each other. -/
def Job.Sides (job : Job) : Prop :=
  match job.loop with
  | .waiting => job.stage ≠ .cancelled
  | .delivered o => job.EndedAs o
  | .expiring => job.deadline.isSome
  | .checking => job.Failed ∨ job.Expired
  | .answered (.result r) => job.EndedAs (.ok r)
  | .answered (.raised e) => job.EndedAs (.error e)
  | .answered .standIn => job.stage.FlagSet ∧ (job.Failed ∨ job.Expired)
  | .answered .atCapacity => ∃ past, job.deadline = some past ∧ (∀ o, past ≠ .ended o) ∧
      job.stage ≠ .queued

/-- The two sides of a job agree, and its deadline passed at a stage it can have come
from. -/
structure Job.Consistent (job : Job) : Prop where
  dated : ∀ past, job.deadline = some past → past.Since job.stage
  sides : job.Sides

/-- An outcome reaches the task as it is, unless it is a `StopIteration`. -/
theorem inFuture_eq_error {o : RunOutcome} {e : PyExc} (h : inFuture o = .error e) :
    (o = .error e ∧ e ≠ .stopIteration) ∨
      (o = .error .stopIteration ∧ ∃ message, e = .runtimeError message) := by
  unfold inFuture at h
  split at h
  · cases h
    exact .inr ⟨rfl, _, rfl⟩
  · rename_i hother
    exact .inl ⟨h, fun he => hother (by rw [h, he])⟩

theorem Job.EndedAs.failed {job : Job} {e : PyExc} (h : job.EndedAs (.error e)) : job.Failed := by
  obtain ⟨own, hstage, hown⟩ := h
  rcases inFuture_eq_error hown with ⟨rfl, -⟩ | ⟨rfl, -⟩
  · exact ⟨_, hstage⟩
  · exact ⟨_, hstage⟩

theorem consistent_new (budgetMs : Option Nat) : Job.Consistent { budgetMs := budgetMs } :=
  ⟨nofun, nofun⟩

theorem Job.Failed.not_works {job : Job} {e : JobEvent} {stage : Stage} (h : job.Failed) :
    ¬job.stage.Works e stage := by
  obtain ⟨err, hstage⟩ := h
  rw [hstage]
  nofun

/-- The worker's side keeps the two sides consistent. -/
theorem Job.Consistent.works {job : Job} {e : JobEvent} {stage : Stage} (h : job.Consistent)
    (hworks : job.stage.Works e stage) : ({ job with stage := stage } : Job).Consistent := by
  have hended : ∀ o, job.stage ≠ .ended o := by
    intro o ho
    rw [ho] at hworks
    cases hworks
  have hexpired : job.Failed ∨ job.Expired → ({ job with stage := stage } : Job).Expired :=
    fun hchecked => ⟨(hchecked.resolve_left fun hfailed => hfailed.not_works hworks).1,
      hworks.ne_queued⟩
  refine ⟨fun past hpast => hworks.since (h.dated past hpast), ?_⟩
  have hsides := h.sides
  unfold Sides at hsides ⊢
  cases hloop : job.loop with
  | waiting =>
      exact hworks.ne_cancelled
  | delivered o =>
      rw [hloop] at hsides
      obtain ⟨own, hstage, -⟩ := hsides
      exact absurd hstage (hended own)
  | expiring =>
      rw [hloop] at hsides
      exact hsides
  | checking =>
      rw [hloop] at hsides
      exact .inr (hexpired hsides)
  | answered a =>
      rw [hloop] at hsides
      cases a with
      | result r =>
          obtain ⟨own, hstage, -⟩ := hsides
          exact absurd hstage (hended own)
      | raised err =>
          obtain ⟨own, hstage, -⟩ := hsides
          exact absurd hstage (hended own)
      | standIn =>
          exact ⟨hworks.flagSet hsides.1, .inr (hexpired hsides.2)⟩
      | atCapacity =>
          obtain ⟨past, hdeadline, hpast, -⟩ := hsides
          exact ⟨past, hdeadline, hpast, hworks.ne_queued⟩

/-- Until the task is resumed, the future has not been cancelled. -/
theorem Job.Consistent.not_cancelled {job : Job} (h : job.Consistent)
    (hloop : job.loop = .waiting ∨ ∃ o, job.loop = .delivered o) : job.stage ≠ .cancelled := by
  have hsides := h.sides
  rcases hloop with hloop | ⟨o, hloop⟩
  · rw [Sides, hloop] at hsides
    exact hsides
  · rw [Sides, hloop] at hsides
    obtain ⟨own, hstage, -⟩ := hsides
    rw [hstage]
    nofun

/-- Every step keeps the two sides of a job consistent. -/
theorem Job.Moves.consistent {job job' : Job} {e : JobEvent} (hm : job.Moves e job')
    (h : job.Consistent) : job'.Consistent := by
  have hsides := h.sides
  cases hm with
  | works hworks =>
      exact h.works hworks
  | deliver hloop hstage =>
      exact ⟨h.dated, _, hstage, rfl⟩
  | resume_result hloop =>
      rw [Sides, hloop] at hsides
      exact ⟨h.dated, hsides⟩
  | resume_raise hloop _ =>
      rw [Sides, hloop] at hsides
      exact ⟨h.dated, hsides⟩
  | resume_timeout hloop _ =>
      rw [Sides, hloop] at hsides
      exact ⟨h.dated, .inl hsides.failed⟩
  | lapse _ _ hloop =>
      refine ⟨fun past hpast => ?_, ?_⟩
      · cases hpast
        exact ⟨h.not_cancelled hloop, fun o ho => ho⟩
      · unfold Sides at hsides ⊢
        rcases hloop with hloop | ⟨o, hloop⟩
        · rw [hloop] at hsides
          simp only [hloop]
          exact hsides
        · rw [hloop] at hsides
          simp only [hloop]
          exact hsides
  | expire hdeadline _ =>
      exact ⟨h.dated, hdeadline⟩
  | cancel_queued hloop hstage =>
      rw [Sides, hloop] at hsides
      refine ⟨fun past hpast => ⟨(h.dated past hpast).not_cancelled, fun o ho => ?_⟩,
        .inr ⟨hsides, nofun⟩⟩
      have hended := (h.dated past hpast).ended o ho
      rw [hstage] at hended
      cases hended
  | cancel_taken hloop hstage =>
      rw [Sides, hloop] at hsides
      exact ⟨h.dated, .inr ⟨hsides, hstage⟩⟩
  | seeStarted hloop hflag =>
      rw [Sides, hloop] at hsides
      exact ⟨h.dated, hflag, hsides⟩
  | giveUp hloop hflag =>
      rw [Sides, hloop] at hsides
      refine ⟨h.dated, ?_⟩
      rcases hsides with ⟨err, hstage⟩ | ⟨hsome, hqueued⟩
      · rw [hstage] at hflag
        exact absurd trivial hflag
      · obtain ⟨past, hpast⟩ := Option.isSome_iff_exists.mp hsome
        refine ⟨past, hpast, fun o ho => ?_, hqueued⟩
        rw [(h.dated past hpast).ended o ho] at hflag
        exact absurd trivial hflag

/-! ## The run's own outcome -/

/-- The run has ended, and no deadline had passed before that. -/
def Job.FinishedFirst (job : Job) (o : RunOutcome) : Prop :=
  job.stage = .ended o ∧ (job.deadline = none ∨ job.deadline = some (.ended o))

/-- The answer is the run's own result or exception if it ended first, and the
stand-in only if the deadline passed while the run was under way. -/
structure Job.Reported (job : Job) (a : Answer) : Prop where
  result : ∀ r, job.FinishedFirst (.ok r) → a = .result r
  raised : ∀ e, job.FinishedFirst (.error e) → a = .raised e
  standIn : a = .standIn → ∃ stage, job.deadline = some stage ∧ stage.UnderWay

/-- Where the task is past its future, the run has failed or the deadline passed. -/
theorem Job.Consistent.failed_or_expired {job : Job} (h : job.Consistent)
    (hloop : job.loop = .checking ∨ job.loop = .answered .standIn) : job.Failed ∨ job.Expired := by
  have hsides := h.sides
  rcases hloop with hloop | hloop
  · rw [Sides, hloop] at hsides
    exact hsides
  · rw [Sides, hloop] at hsides
    exact hsides.2

section Dispatches

variable {workers : Nat}

/-- Both sides of every job are consistent. -/
def Pool.Consistent (s : Pool) : Prop :=
  ∀ (j : Nat) job, s.jobs[j]? = some job → job.Consistent

theorem consistent_empty : Pool.Consistent {} := by
  intro j job hjob
  simp at hjob

theorem consistent_step {s t : Pool} {e : PoolEvent} (hst : PoolStep workers s e t)
    (hs : s.Consistent) : t.Consistent :=
  forall_jobs_step consistent_new (fun _ _ _ _ _ _ hnext h => (Job.moves hnext).consistent h) hst hs

/-- The jobs a pool can come to have from this one, whatever happens. -/
def Reachable (workers : Nat) : Pool → Pool → Prop :=
  Relation.ReflTransGen fun s t => ∃ e, PoolStep workers s e t

/-- The script of the job is not running, and is never run later. -/
def Pool.NeverRuns (workers : Nat) (s : Pool) (j : Nat) : Prop :=
  ∀ t, Reachable workers s t → ∀ job, t.jobs[j]? = some job → job.stage ≠ .running

/-- Refused jobs never run, and jobs answered with the stand-in were taken. -/
def Pool.Settled (workers : Nat) (s : Pool) : Prop :=
  ∀ (j : Nat) job, s.jobs[j]? = some job →
    (job.loop = .answered .atCapacity → s.NeverRuns workers j) ∧
      (job.loop = .answered .standIn → job.stage.WasTaken)

/-- The wait gives up on a job that a worker has taken. -/
def Pool.GivesUpTaken (s : Pool) (e : PoolEvent) : Prop :=
  ∃ (j : Nat) (job : Job), s.jobs[j]? = some job ∧ e = .job j .giveUp ∧ job.stage = .taken

/-- A refused job was cancelled in the queue. -/
structure Job.RefusedUntaken (job : Job) : Prop where
  consistent : job.Consistent
  refused : job.loop = .answered .atCapacity → job.stage = .cancelled

theorem Stage.FlagSet.wasTaken {stage : Stage} (h : stage.FlagSet) : stage.WasTaken := by
  cases stage with
  | queued =>
      cases h
  | cancelled =>
      cases h
  | _ =>
      trivial

theorem Job.Moves.refusedUntaken {job job' : Job} {e : JobEvent} (hm : job.Moves e job')
    (hgive : e = .giveUp → job.stage ≠ .taken) (h : job.RefusedUntaken) :
    job'.RefusedUntaken := by
  refine ⟨hm.consistent h.consistent, fun hloop' => ?_⟩
  have hconsistent := h.consistent
  cases hm with
  | works hworks =>
      rw [h.refused hloop'] at hworks
      cases hworks
  | lapse _ _ _ =>
      exact h.refused hloop'
  | giveUp hloop hflag =>
      rcases hconsistent.failed_or_expired (.inl hloop) with ⟨err, hstage⟩ | ⟨-, hqueued⟩
      · rw [hstage] at hflag
        exact absurd trivial hflag
      · -- not queued, not taken and without a flag
        have htaken := hgive rfl
        change job.stage = .cancelled
        cases hstage : job.stage with
        | cancelled =>
            rfl
        | queued =>
            exact absurd hstage hqueued
        | taken =>
            exact absurd hstage htaken
        | _ =>
            rw [hstage] at hflag
            exact absurd trivial hflag
  | _ =>
      cases hloop'

/-- A cancelled job stays cancelled. -/
theorem cancelled_step {s t : Pool} {e : PoolEvent} (hst : PoolStep workers s e t) {j : Nat}
    (h : ∃ job, s.jobs[j]? = some job ∧ job.stage = .cancelled) :
    ∃ job, t.jobs[j]? = some job ∧ job.stage = .cancelled := by
  obtain ⟨job, hjob, hstage⟩ := h
  rcases job_after_step hst hjob with ⟨je, job', hnext, hjob', -⟩ | ⟨hjob', -⟩
  · refine ⟨job', hjob', ?_⟩
    cases Job.moves hnext with
    | works hworks =>
        rw [hstage] at hworks
        cases hworks
    | cancel_queued _ hqueued =>
        rfl
    | _ =>
        exact hstage
  · exact ⟨job, hjob', hstage⟩

theorem neverRuns_of_cancelled {s : Pool} {j : Nat} {job : Job} (hjob : s.jobs[j]? = some job)
    (hstage : job.stage = .cancelled) : s.NeverRuns workers j := by
  intro t ht
  have hcancelled : ∃ job, t.jobs[j]? = some job ∧ job.stage = .cancelled := by
    induction ht with
    | refl =>
        exact ⟨job, hjob, hstage⟩
    | tail _ hst ih =>
        obtain ⟨e, hst⟩ := hst
        exact cancelled_step hst ih
  obtain ⟨job₁, hjob₁, hstage₁⟩ := hcancelled
  intro job' hjob'
  rw [hjob', Option.some.injEq] at hjob₁
  rw [hjob₁, hstage₁]
  nofun

/-- A job that a worker has taken can still run. -/
theorem not_neverRuns_of_taken {s : Pool} {j : Nat} {job : Job} (hjob : s.jobs[j]? = some job)
    (hstage : job.stage = .taken) : ¬s.NeverRuns workers j := by
  intro hnever
  obtain ⟨hlt, -⟩ := List.getElem?_eq_some_iff.mp hjob
  have hset : PoolStep workers s (.job j .setStarted)
      { s with jobs := s.jobs.set j { job with stage := .started } } := by
    simp [PoolStep, Pool.next, hjob, Job.next, hstage]
  have hbegin : PoolStep workers { s with jobs := s.jobs.set j { job with stage := .started } }
      (.job j .beginScript) { s with jobs := s.jobs.set j { job with stage := .running } } := by
    simp [PoolStep, Pool.next, Job.next, hlt]
  refine hnever _ (.tail (.tail .refl ⟨_, hset⟩) ⟨_, hbegin⟩) { job with stage := .running } ?_ rfl
  simp [hlt]

/-- Every job of the pool that was refused was cancelled in the queue. -/
def Pool.RefusedUntaken (s : Pool) : Prop :=
  ∀ (j : Nat) job, s.jobs[j]? = some job → job.RefusedUntaken

theorem refusedUntaken_step {s t : Pool} {e : PoolEvent} (hst : PoolStep workers s e t)
    (hs : s.RefusedUntaken) (hgive : ¬s.GivesUpTaken e) : t.RefusedUntaken := by
  refine forall_jobs_step (fun budgetMs => ⟨consistent_new budgetMs, nofun⟩) ?_ hst hs
  intro j je job job' hjob he hnext h
  refine (Job.moves hnext).refusedUntaken (fun hje hstage => ?_) h
  rcases he with he | he
  · exact hgive ⟨j, job, hjob, by rw [he, hje], hstage⟩
  · rw [hje] at he
    cases he

theorem Pool.RefusedUntaken.settled {s : Pool} (hs : s.RefusedUntaken) : s.Settled workers := by
  intro j job hjob
  refine ⟨fun hloop => neverRuns_of_cancelled hjob ((hs j job hjob).refused hloop), ?_⟩
  intro hloop
  have hsides := (hs j job hjob).consistent.sides
  rw [Job.Sides, hloop] at hsides
  exact hsides.1.wasTaken

/-- After giving up on a job that a worker has taken, the job can still run. -/
theorem not_settled_of_givesUpTaken {s t : Pool} {e : PoolEvent} (hst : PoolStep workers s e t)
    (he : s.GivesUpTaken e) : ¬t.Settled workers := by
  obtain ⟨j, job, hjob, rfl, hstage⟩ := he
  intro hsettled
  rcases job_after_step hst hjob with ⟨je, job', hnext, hjob', hje⟩ | ⟨-, hother⟩
  · rcases hje with hje | ⟨hje, -⟩
    · cases hje
      cases Job.moves hnext with
      | works hworks =>
          rw [hstage] at hworks
          cases hworks
      | giveUp hloop hflag =>
          exact not_neverRuns_of_taken hjob' hstage ((hsettled j _ hjob').1 rfl)
    · cases hje
  · exact hother _ rfl

/-- **A refused job is never run.** In any run of the pool, of any number of jobs,
refused jobs never run, and jobs answered with the stand-in were taken, exactly if no
wait gives up on a job that a worker has taken. -/
theorem refused_never_runs_iff {run : List (PoolEvent × Pool)}
    (hrun : Run (PoolStep workers) {} run) :
    (∀ s ∈ statesOf {} run, s.Settled workers) ↔ Along (fun s e _ => ¬s.GivesUpTaken e) {} run := by
  have hempty : Pool.RefusedUntaken {} := by
    intro j job hjob
    simp at hjob
  rw [← along_target_iff, and_iff_right hempty.settled]
  refine along_iff Pool.RefusedUntaken ?_ ?_ hrun hempty
  · intro s e t hst hs hgive
    exact refusedUntaken_step hst hs hgive
  · intro s e t hst hs
    constructor
    · intro hsettled hgive
      exact not_settled_of_givesUpTaken hst hgive hsettled
    · intro hgive
      exact (refusedUntaken_step hst hs hgive).settled

end Dispatches

section Sample

/-- The pool a step leads to. -/
def Pool.act (workers : Nat) (s : Pool) (e : PoolEvent) : Pool :=
  (s.next workers e).getD s

/-- One job under a budget of a second, taken by the only worker. -/
def sampleJob (es : List JobEvent) : List PoolEvent :=
  [.submit (some 1000), .fetch] ++ es.map (.job 0)

/-- The run ends before its deadline, and the task is resumed with its outcome. -/
def sampleEnds (o : RunOutcome) : List JobEvent :=
  [.setStarted, .beginScript, .finish o, .deliver, .resume]

theorem sampleEnds_run (r : Json) :
    Run (PoolStep 1) {} (trace (Pool.act 1) {} (sampleJob (sampleEnds (.ok r)))) :=
  .cons rfl (.cons rfl (.cons rfl (.cons rfl (.cons rfl (.cons rfl (.cons rfl (.nil _)))))))

/-- The job is taken in the last instant before the deadline. -/
theorem refused_while_taken :
    ¬∀ workers run, Run (PoolStep workers) {} run →
      ∀ s ∈ statesOf {} run, s.Settled workers := by
  intro h
  have hrun : Run (PoolStep 1) {}
      (trace (Pool.act 1) {} (sampleJob [.lapse, .expire, .cancel, .giveUp])) :=
    .cons rfl (.cons rfl (.cons rfl (.cons rfl (.cons rfl (.cons rfl (.nil _))))))
  have hall := h 1 _ hrun
  rw [← along_target_iff] at hall
  obtain ⟨-, -, -, -, -, -, hlast, -⟩ := hall
  exact not_neverRuns_of_taken (j := 0) rfl rfl ((hlast 0 _ rfl).1 rfl)

theorem refused_never_runs_iff_answered :
    (∀ s ∈ statesOf {} (trace (Pool.act 1) {} (sampleJob (sampleEnds (.ok .null)))),
        s.Settled 1) ↔
      Along (fun s e _ => ¬s.GivesUpTaken e) {}
        (trace (Pool.act 1) {} (sampleJob (sampleEnds (.ok .null)))) :=
  refused_never_runs_iff (sampleEnds_run .null)

end Sample

end ProbeAgent
