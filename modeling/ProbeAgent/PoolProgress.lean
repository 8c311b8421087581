import ProbeAgent.ProbePool

/-!
# Every dispatch is answered, and what a refusal means

* `every_dispatch_answered`: a dispatch takes at most nine steps, apart from the passing
  of its deadline, its answer is final,
  and the pool comes to rest exactly when every dispatch has its answer, the queue is
  empty and every worker is free.
* `refused_when_saturated`: a job that is refused without a worker having taken it was
  cancelled while every worker was busy with a job dispatched before it, or while an
  idle worker was still to look at the queue.
-/

namespace ProbeAgent

open Runs

/-! ## What is left to do -/

/-- The steps left to the worker's side, the taking of the job apart. -/
def Stage.left : Stage → Nat
  | queued => 3
  | cancelled => 0
  | taken => 3
  | started => 2
  | running => 1
  | ended _ => 0

/-- The steps left to the loop, at most. -/
def LoopSide.left : LoopSide → Nat
  | waiting => 4
  | delivered _ => 3
  | expiring => 2
  | checking => 1
  | answered _ => 0

def Job.left (job : Job) : Nat :=
  job.stage.left + job.loop.left

/-- The steps left to the pool if nothing more is dispatched, at most. -/
def Pool.left (s : Pool) : Nat :=
  s.queue.length + (s.jobs.map Job.left).sum

/-- What an event adds to that, itself included.  The passing of a deadline is none of the
steps. -/
def PoolEvent.cost : PoolEvent → Nat
  | .submit _ => 9
  | .job _ .lapse => 1
  | _ => 0

theorem Stage.Works.left {stage stage' : Stage} {e : JobEvent} (h : stage.Works e stage')
    (he : e ≠ .take) : stage'.left + 1 = stage.left := by
  cases h with
  | take =>
      exact absurd rfl he
  | _ =>
      rfl

/-- Every step of a job leaves it less to do, and the passing of its deadline no more. -/
theorem Job.Moves.left {job job' : Job} {e : JobEvent} (h : job.Moves e job') (he : e ≠ .take)
    (i : Nat) : job'.left + 1 ≤ job.left + (PoolEvent.job i e).cost := by
  cases h with
  | works hworks =>
      have hleft := hworks.left he
      simp only [Job.left]
      omega
  | lapse _ _ _ =>
      exact le_rfl
  | expire _ hloop =>
      rcases hloop with hloop | ⟨o, hloop⟩ <;>
        simp [Job.left, LoopSide.left, PoolEvent.cost, hloop]
  | cancel_queued hloop hstage =>
      simp [Job.left, LoopSide.left, Stage.left, PoolEvent.cost, hloop, hstage]
  | deliver hloop _ | resume_result hloop | resume_raise hloop _ | resume_timeout hloop _
  | cancel_taken hloop _ | seeStarted hloop _ | giveUp hloop _ =>
      simp [Job.left, LoopSide.left, PoolEvent.cost, hloop]

theorem sum_map_set {job : Job} (f : Job → Nat) (job' : Job) {jobs : List Job} {i : Nat}
    (hi : jobs[i]? = some job) :
    ((jobs.set i job').map f).sum + f job = (jobs.map f).sum + f job' := by
  induction jobs generalizing i with
  | nil =>
      cases hi
  | cons first jobs ih =>
      cases i with
      | zero =>
          cases hi
          simp only [List.set_cons_zero, List.map_cons, List.sum_cons]
          omega
      | succ i =>
          have htail := ih hi
          simp only [List.set_cons_succ, List.map_cons, List.sum_cons]
          omega

section Progress

variable {workers : Nat} {s t : Pool} {run : List (PoolEvent × Pool)}

/-- Every step of the pool uses up one of those left, and only a dispatch adds any; a
deadline that passes leaves them as they are. -/
theorem left_step {e : PoolEvent} (hst : PoolStep workers s e t) :
    t.left + 1 ≤ s.left + e.cost := by
  cases e with
  | submit budgetMs =>
      cases hst
      simp only [Pool.left, List.length_append, List.length_singleton, List.map_append,
        List.sum_append, List.map_singleton, List.sum_singleton, PoolEvent.cost, Job.left,
        Stage.left, LoopSide.left]
      omega
  | fetch =>
      obtain ⟨i, rest, hqueue, -, ⟨job, hi, hstage, rfl⟩ | ⟨-, rfl⟩⟩ := fetch_cases hst
      · have hsum := sum_map_set Job.left { job with stage := .taken } hi
        have hleft : Job.left { job with stage := .taken } = job.left := by
          simp only [Job.left, hstage, Stage.left]
        simp only [Pool.left, hqueue, List.length_cons, PoolEvent.cost]
        omega
      · simp only [Pool.left, hqueue, List.length_cons, PoolEvent.cost]
        omega
  | job i je =>
      obtain ⟨htake, job, job', hi, hmoves, rfl⟩ := job_step_cases hst
      have hsum := sum_map_set Job.left job' hi
      have hleft := hmoves.left htake i
      simp only [Pool.left]
      omega

/-! ## Coming to rest -/

/-- The job has its answer, and no worker has anything to do with it any more. -/
def Job.Settled (job : Job) : Prop :=
  (∃ a, job.loop = .answered a) ∧ ((∃ o, job.stage = .ended o) ∨ job.stage = .cancelled)

/-- Every dispatch has its answer, the queue is empty and every worker is free. -/
def Pool.AtRest (s : Pool) : Prop :=
  s.queue = [] ∧ ∀ (j : Nat) job, s.jobs[j]? = some job → job.Settled

theorem Job.Settled.not_moves {job job' : Job} {e : JobEvent} (h : job.Settled) :
    ¬job.Moves e job' := by
  obtain ⟨⟨a, hloop⟩, hstage⟩ := h
  intro hmoves
  cases hmoves with
  | works hworks =>
      rcases hstage with ⟨o, hstage⟩ | hstage
      · rw [hstage] at hworks
        cases hworks
      · rw [hstage] at hworks
        cases hworks
  | lapse _ _ hloop' | expire _ hloop' =>
      rw [hloop] at hloop'
      rcases hloop' with hloop' | ⟨o, hloop'⟩ <;> cases hloop'
  | deliver hloop' _ | resume_result hloop' | resume_raise hloop' _ | resume_timeout hloop' _
  | cancel_queued hloop' _ | cancel_taken hloop' _ | seeStarted hloop' _ | giveUp hloop' _ =>
      rw [hloop] at hloop'
      cases hloop'

/-- The job can make a step of its own. -/
def Job.CanMove (job : Job) : Prop :=
  ∃ e, e ≠ .take ∧ (job.next e).isSome

/-- A job that a worker is busy with can. -/
theorem Job.canMove_of_underWay {job : Job} (h : job.stage.UnderWay) : job.CanMove := by
  obtain ⟨budgetMs, stage, loop, deadline⟩ := job
  cases stage with
  | taken => exact ⟨.setStarted, nofun, rfl⟩
  | started => exact ⟨.beginScript, nofun, rfl⟩
  | running => exact ⟨.finish (.ok .null), nofun, rfl⟩
  | _ => cases h

/-- A job that no worker has to do with any more can, until it has its answer. -/
theorem Job.canMove_of_done {job : Job} (h : job.Consistent)
    (hdone : (∃ o, job.stage = .ended o) ∨ job.stage = .cancelled) (hnot : ¬job.Settled) :
    job.CanMove := by
  obtain ⟨budgetMs, stage, loop, deadline⟩ := job
  cases loop with
  | waiting =>
      rcases hdone with ⟨o, rfl⟩ | rfl
      · exact ⟨.deliver, nofun, rfl⟩
      · exact absurd rfl h.sides
  | delivered o =>
      cases o with
      | ok r => exact ⟨.resume, nofun, rfl⟩
      | error e =>
          by_cases htimeout : budgetMs.isSome ∧ e.isTimeoutError
          · exact ⟨.resume, nofun, congrArg Option.isSome (if_pos htimeout)⟩
          · exact ⟨.resume, nofun, congrArg Option.isSome (if_neg htimeout)⟩
  | expiring =>
      rcases hdone with ⟨o, rfl⟩ | rfl
      · exact ⟨.cancel, nofun, rfl⟩
      · exact ⟨.cancel, nofun, rfl⟩
  | checking =>
      by_cases hflag : stage.FlagSet
      · exact ⟨.seeStarted, nofun, congrArg Option.isSome (if_pos hflag)⟩
      · exact ⟨.giveUp, nofun, congrArg Option.isSome (if_neg hflag)⟩
  | answered a => exact absurd ⟨⟨a, rfl⟩, hdone⟩ hnot

theorem step_of_canMove {j : Nat} {job : Job} (hjob : s.jobs[j]? = some job) (h : job.CanMove) :
    ∃ e t, PoolStep workers s e t ∧ ∀ budgetMs, e ≠ .submit budgetMs := by
  obtain ⟨je, htake, hsome⟩ := h
  obtain ⟨job', hnext⟩ := Option.isSome_iff_exists.mp hsome
  refine ⟨.job j je, { s with jobs := s.jobs.set j job' }, ?_, nofun⟩
  cases je with
  | take =>
      exact absurd rfl htake
  | _ =>
      simp only [PoolStep, Pool.next, hjob, Option.bind_some, hnext, Option.map_some]

/-- A free worker can look at the queue. -/
theorem step_of_free (hfree : s.busy < workers) (hqueue : s.queue ≠ []) :
    ∃ t, PoolStep workers s .fetch t := by
  cases hq : s.queue with
  | nil =>
      exact absurd hq hqueue
  | cons i rest =>
      simp only [PoolStep, Pool.next, hq, if_pos hfree]
      split
      · exact ⟨_, rfl⟩
      · exact ⟨_, rfl⟩

/-- Nothing is left to happen, new dispatches apart, exactly when the pool is at rest. -/
theorem at_rest_iff (hworkers : 0 < workers) (horder : s.InOrder) (hconsistent : s.Consistent) :
    (∀ e t, PoolStep workers s e t → ∃ budgetMs, e = .submit budgetMs) ↔ s.AtRest := by
  constructor
  · intro hstuck
    have hmove : ∀ (j : Nat) job, s.jobs[j]? = some job → ¬job.CanMove := by
      intro j job hjob hcan
      obtain ⟨e, t, hst, hne⟩ := step_of_canMove hjob hcan
      obtain ⟨budgetMs, he⟩ := hstuck e t hst
      exact hne budgetMs he
    have hbusy : s.busy = 0 := by
      rw [Pool.busy, List.countP_eq_zero]
      intro job hmem
      obtain ⟨j, hjob⟩ := List.getElem?_of_mem hmem
      simpa using fun h => hmove j job hjob (Job.canMove_of_underWay h)
    have hqueue : s.queue = [] := by
      by_contra hqueue
      obtain ⟨t, hst⟩ := step_of_free (by rw [hbusy]; exact hworkers) hqueue
      obtain ⟨budgetMs, he⟩ := hstuck _ t hst
      cases he
    refine ⟨hqueue, fun j job hjob => ?_⟩
    have hdone : (∃ o, job.stage = .ended o) ∨ job.stage = .cancelled := by
      cases hstage : job.stage with
      | queued =>
          -- a job to be taken is in the queue
          obtain ⟨fetched, horder⟩ := horder
          obtain ⟨hlt, -⟩ := List.getElem?_eq_some_iff.mp hjob
          have hrange := horder.queue
          rw [hqueue, eq_comm, List.range'_eq_nil_iff] at hrange
          have hgone := horder.not_waiting j job hjob (by omega)
          rw [hstage] at hgone
          cases hgone
      | cancelled =>
          exact .inr rfl
      | ended o =>
          exact .inl ⟨o, rfl⟩
      | _ =>
          exact absurd (Job.canMove_of_underWay (by rw [hstage]; trivial)) (hmove j job hjob)
    by_contra hnot
    exact hmove j job hjob (Job.canMove_of_done (hconsistent j job hjob) hdone hnot)
  · rintro ⟨hqueue, hsettled⟩ e t hst
    cases e with
    | submit budgetMs =>
        exact ⟨budgetMs, rfl⟩
    | fetch =>
        obtain ⟨i, rest, hcons, -⟩ := fetch_cases hst
        rw [hqueue] at hcons
        cases hcons
    | job i je =>
        obtain ⟨-, job, job', hi, hmoves, -⟩ := job_step_cases hst
        exact absurd hmoves (hsettled i job hi).not_moves

/-- The answer to a job is that answer. -/
def Pool.Answered (s : Pool) (j : Nat) (a : Answer) : Prop :=
  ∃ job, s.jobs[j]? = some job ∧ job.loop = .answered a

/-- No step changes an answer. -/
theorem answered_step {e : PoolEvent} (hst : PoolStep workers s e t) (j : Nat) (a : Answer)
    (h : s.Answered j a) : t.Answered j a := by
  obtain ⟨job, hjob, hloop⟩ := h
  rcases job_after_step hst hjob with ⟨je, job', hnext, hjob', -⟩ | ⟨hjob', -⟩
  · refine ⟨job', hjob', ?_⟩
    cases Job.moves hnext with
    | works hworks =>
        exact hloop
    | lapse _ _ _ =>
        exact hloop
    | expire _ hloop' =>
        rw [hloop] at hloop'
        rcases hloop' with hloop' | ⟨o, hloop'⟩ <;> cases hloop'
    | deliver hloop' _ | resume_result hloop' | resume_raise hloop' _ | resume_timeout hloop' _
    | cancel_queued hloop' _ | cancel_taken hloop' _ | seeStarted hloop' _ | giveUp hloop' _ =>
        rw [hloop] at hloop'
        cases hloop'
  · exact ⟨job, hjob', hloop⟩

/-- **Every dispatch is answered, once.** In any run of the pool a dispatch takes at
most nine steps, besides the passing of its deadline; no answer is changed; and nothing is
left to happen, new dispatches apart, exactly when every dispatch has its answer, the queue
is empty and every worker is free. -/
theorem every_dispatch_answered (hworkers : 0 < workers)
    (hrun : Run (PoolStep workers) {} run) :
    run.length ≤ supplied PoolEvent.cost run ∧
      (∀ s ∈ statesOf {} run, ∀ j a, s.Answered j a → (lastState {} run).Answered j a) ∧
      ((∀ e t, PoolStep workers (lastState {} run) e t → ∃ budgetMs, e = .submit budgetMs) ↔
        (lastState {} run).AtRest) := by
  refine ⟨?_, ?_, ?_⟩
  · have hlength := length_le_of_potential PoolEvent.cost Pool.left (fun _ => True)
      (fun _ _ => trivial) (fun hst _ => left_step hst) hrun trivial
    have hempty : Pool.left {} = 0 := rfl
    omega
  · exact related_lastState (fun s t => ∀ j a, s.Answered j a → t.Answered j a)
      (fun _ _ _ h => h) (fun hst htu j a h => htu j a (hst j a h)) answered_step hrun
  · exact at_rest_iff hworkers (invariant_lastState Pool.InOrder inOrder_step hrun inOrder_empty)
      (invariant_lastState Pool.Consistent consistent_step hrun consistent_empty)

/-! ## Refusals -/

/-- Every worker is busy, with a job dispatched before that one. -/
structure Pool.Saturated (workers : Nat) (s : Pool) (j : Nat) : Prop where
  busy : s.busy = workers
  earlier : ∀ (i : Nat) job, s.jobs[i]? = some job → job.stage.UnderWay → i < j

/-- The deadline of the job has been handled while it was in the queue, and its future
is to be cancelled. -/
def Pool.ExpiresWaiting (s : Pool) (j : Nat) : Prop :=
  ∃ job, s.jobs[j]? = some job ∧ job.stage = .queued ∧ job.loop = .expiring

def Pool.Cancelled (s : Pool) (j : Nat) : Prop :=
  ∃ job, s.jobs[j]? = some job ∧ job.stage = .cancelled

theorem busy_step {e : PoolEvent} (hst : PoolStep workers s e t)
    (h : s.InOrder ∧ s.busy ≤ workers) : t.InOrder ∧ t.busy ≤ workers := by
  refine ⟨inOrder_step hst h.1, ?_⟩
  have hcard := h.2
  rw [busy_eq_card] at hcard ⊢
  cases he : s.seen e with
  | some m =>
      exact (seen_step hst h.1 he).card_le hcard
  | none =>
      rw [unseen_step hst he]
      exact hcard

/-- Only the cancellation of a job in the queue makes it a cancelled one. -/
theorem expiresWaiting_of_cancelled {e : PoolEvent} {j : Nat} (hst : PoolStep workers s e t)
    (hs : ¬s.Cancelled j) (ht : t.Cancelled j) : s.ExpiresWaiting j := by
  obtain ⟨job', hjob', hstage'⟩ := ht
  cases hjob : s.jobs[j]? with
  | none =>
      obtain ⟨budgetMs, rfl⟩ := job_before_step hst hjob hjob'
      cases hstage'
  | some job =>
      have hnot : job.stage ≠ .cancelled := fun hstage => hs ⟨job, hjob, hstage⟩
      rcases job_after_step hst hjob with ⟨je, job₁, hnext, hjob₁, -⟩ | ⟨hjob₁, -⟩
      · rw [hjob', Option.some.injEq] at hjob₁
        subst hjob₁
        cases Job.moves hnext with
        | works hworks =>
            exact absurd hstage' hworks.ne_cancelled
        | cancel_queued hloop hstage =>
            exact ⟨job, hjob, hstage, hloop⟩
        | _ =>
            exact absurd hstage' hnot
      · rw [hjob', Option.some.injEq] at hjob₁
        exact absurd (hjob₁ ▸ hstage') hnot

/-- A job is in the queue only behind jobs that workers are busy with, or while a free
worker is still to look at it. -/
theorem saturated_of_waiting {j : Nat} {job : Job} (h : s.InOrder ∧ s.busy ≤ workers)
    (hjob : s.jobs[j]? = some job) (hstage : job.stage = .queued) :
    s.Saturated workers j ∨ ∃ t, PoolStep workers s .fetch t := by
  obtain ⟨⟨fetched, horder⟩, hbusy⟩ := h
  obtain ⟨hlt, -⟩ := List.getElem?_eq_some_iff.mp hjob
  have hge : fetched ≤ j := by
    by_contra hgone
    have hwaiting := horder.not_waiting j job hjob (by omega)
    rw [hstage] at hwaiting
    cases hwaiting
  by_cases hfree : s.busy < workers
  · refine .inr (step_of_free hfree ?_)
    rw [horder.queue, ne_eq, List.range'_eq_nil_iff]
    omega
  · refine .inl ⟨by omega, fun i job' hi hunderWay => ?_⟩
    by_contra hle
    refine horder.not_taken i job' hi (by omega) ?_
    cases hstage' : job'.stage with
    | queued | cancelled =>
        rw [hstage'] at hunderWay
        cases hunderWay
    | _ =>
        trivial

/-- **A refusal means that the pool was full.** In any run of the pool, a job refused
without a worker having taken it had its deadline handled and its future cancelled in a
state in which every worker was busy with a job dispatched before it, or in which a free
worker was still to look at the queue. -/
theorem refused_when_saturated (hrun : Run (PoolStep workers) {} run) {j : Nat} {job : Job}
    (hjob : (lastState {} run).jobs[j]? = some job) (hrefused : job.loop = .answered .atCapacity)
    (huntaken : ¬job.stage.WasTaken) :
    ∃ s ∈ statesOf {} run, s.ExpiresWaiting j ∧
      (s.Saturated workers j ∨ ∃ t, PoolStep workers s .fetch t) := by
  have hconsistent := invariant_lastState Pool.Consistent consistent_step hrun consistent_empty
  have hcancelled : job.stage = .cancelled := by
    have hsides := (hconsistent j job hjob).sides
    rw [Job.Sides, hrefused] at hsides
    obtain ⟨-, -, -, hqueued⟩ := hsides
    cases hstage : job.stage with
    | queued =>
        exact absurd hstage hqueued
    | cancelled =>
        rfl
    | _ =>
        rw [hstage] at huntaken
        exact absurd trivial huntaken
  have hempty : ¬Pool.Cancelled {} j := by
    simp [Pool.Cancelled]
  obtain ⟨s, e, t, hmem, hst, hs, ht⟩ :=
    brought_about (M := fun s => s.Cancelled j) hrun hempty ⟨job, hjob, hcancelled⟩
  have hbusy := invariant_statesOf (fun s => s.InOrder ∧ s.busy ≤ workers) busy_step hrun
    ⟨inOrder_empty, Nat.zero_le workers⟩ s hmem
  obtain ⟨job₁, hjob₁, hstage₁, hloop₁⟩ := expiresWaiting_of_cancelled hst hs ht
  exact ⟨s, hmem, ⟨job₁, hjob₁, hstage₁, hloop₁⟩, saturated_of_waiting hbusy hjob₁ hstage₁⟩

end Progress

section Sample

theorem every_dispatch_answered_one_worker :
    sampleRefusal.length ≤ supplied PoolEvent.cost sampleRefusal ∧
      (∀ s ∈ statesOf {} sampleRefusal, ∀ j a, s.Answered j a →
        (lastState {} sampleRefusal).Answered j a) ∧
      ((∀ e t, PoolStep 1 (lastState {} sampleRefusal) e t → ∃ budgetMs, e = .submit budgetMs) ↔
        (lastState {} sampleRefusal).AtRest) :=
  every_dispatch_answered (by decide) sampleRefusal_run

theorem refused_when_saturated_one_worker :
    ∃ s ∈ statesOf {} sampleRefusal, s.ExpiresWaiting 1 ∧
      (s.Saturated 1 1 ∨ ∃ t, PoolStep 1 s .fetch t) :=
  @refused_when_saturated 1 _ sampleRefusal_run 1
    ⟨some 1000, .cancelled, .answered .atCapacity, some .queued⟩ rfl rfl id

end Sample

end ProbeAgent
