import ProbeAgent.RunBudget
import ProbeAgent.ServerQueue

/-!
# The probe pool over whole runs

`init_probe_pool` makes a pool of `max_concurrency` workers in front of one queue.
What the pool is for is said by `ServerQueue`: the jobs not yet cancelled are in line,
those under way are being served.  `pool_serves_in_order` connects the two, and what it
says of all runs is
`scripts_in_dispatch_order`: no more scripts are under way than there are workers, and
no job is taken before one dispatched earlier that is still to be taken.
-/

namespace ProbeAgent

open Runs ServerQueue

/-! ## The queue -/

/-- The job is still to be taken. -/
def Stage.isWaiting : Stage → Bool
  | queued => true
  | _ => false

theorem Stage.isWaiting_iff {stage : Stage} : stage.isWaiting = true ↔ stage = .queued := by
  cases stage <;> simp [isWaiting]

theorem Stage.Works.not_isWaiting {stage stage' : Stage} {e : JobEvent}
    (h : stage.Works e stage') : stage'.isWaiting = false := by
  cases h <;> rfl

theorem Stage.Works.wasTaken {stage stage' : Stage} {e : JobEvent} (h : stage.Works e stage')
    (he : e ≠ .take) : stage.WasTaken := by
  cases h with
  | take =>
      exact absurd rfl he
  | _ =>
      trivial

theorem Stage.Works.taken {stage stage' : Stage} {e : JobEvent} (h : stage.Works e stage') :
    stage'.WasTaken := by
  cases h <;> trivial

/-- No step puts a job back in the queue. -/
theorem Job.Moves.isWaiting {job job' : Job} {e : JobEvent} (h : job.Moves e job')
    (hwaiting : job'.stage.isWaiting = true) : job.stage.isWaiting = true := by
  cases h with
  | works hworks =>
      rw [hworks.not_isWaiting] at hwaiting
      cases hwaiting
  | cancel_queued _ _ =>
      cases hwaiting
  | _ =>
      exact hwaiting

/-- Only a fetch makes a worker take the job. -/
theorem Job.Moves.wasTaken {job job' : Job} {e : JobEvent} (h : job.Moves e job')
    (he : e ≠ .take) (htaken : job'.stage.WasTaken) : job.stage.WasTaken := by
  cases h with
  | works hworks =>
      exact hworks.wasTaken he
  | cancel_queued _ _ =>
      cases htaken
  | _ =>
      exact htaken

/-- A job that a worker has taken stays taken. -/
theorem Job.Moves.keeps_taken {job job' : Job} {e : JobEvent} (h : job.Moves e job')
    (htaken : job.stage.WasTaken) : job'.stage.WasTaken := by
  cases h with
  | works hworks =>
      exact hworks.taken
  | cancel_queued _ hstage =>
      rw [hstage] at htaken
      cases htaken
  | _ =>
      exact htaken

/-- The jobs that have left the queue are the first ones, and no other has been taken. -/
structure Pool.Fetched (s : Pool) (fetched : Nat) : Prop where
  le : fetched ≤ s.jobs.length
  queue : s.queue = List.range' fetched (s.jobs.length - fetched)
  not_waiting : ∀ (j : Nat) job, s.jobs[j]? = some job → j < fetched → job.stage.isWaiting = false
  not_taken : ∀ (j : Nat) job, s.jobs[j]? = some job → fetched ≤ j → ¬job.stage.WasTaken

theorem fetched_empty : Pool.Fetched {} 0 where
  le := le_rfl
  queue := rfl
  not_waiting := by simp
  not_taken := by simp

/-- All that a fetch can do: a free worker takes the job at the head of the queue, or
drops it if it has been cancelled. -/
theorem fetch_cases {workers : Nat} {s t : Pool} (hst : PoolStep workers s .fetch t) :
    ∃ i rest, s.queue = i :: rest ∧ s.busy < workers ∧
      ((∃ job, s.jobs[i]? = some job ∧ job.stage = .queued ∧
          t = { jobs := s.jobs.set i { job with stage := .taken }, queue := rest }) ∨
        ((∀ job, s.jobs[i]? = some job → job.stage ≠ .queued) ∧
          t = { s with queue := rest })) := by
  simp only [PoolStep, Pool.next] at hst
  split at hst
  · cases hst
  · rename_i i rest hqueue
    split at hst
    · rename_i hfree
      refine ⟨i, rest, hqueue, hfree, ?_⟩
      cases htake : (s.jobs[i]?).bind fun job => job.next .take with
      | some job' =>
          obtain ⟨job, hjob, hnext⟩ := Option.bind_eq_some_iff.mp htake
          rw [htake] at hst
          cases hst
          cases Job.moves hnext with
          | works hworks =>
              cases hstage : job.stage with
              | queued =>
                  rw [hstage] at hworks
                  cases hworks
                  exact .inl ⟨job, hjob, hstage, rfl⟩
              | _ =>
                  rw [hstage] at hworks
                  cases hworks
      | none =>
          rw [htake] at hst
          cases hst
          refine .inr ⟨fun job hjob hstage => ?_, rfl⟩
          simp [hjob, Job.next, hstage] at htake
    · cases hst

/-- Every step of a job of its own, as one of the pool. -/
theorem job_step_cases {workers : Nat} {s t : Pool} {i : Nat} {je : JobEvent}
    (hst : PoolStep workers s (.job i je) t) :
    je ≠ .take ∧ ∃ job job', s.jobs[i]? = some job ∧ job.Moves je job' ∧
      t = { s with jobs := s.jobs.set i job' } := by
  have htake : je ≠ .take := by
    rintro rfl
    cases hst
  refine ⟨htake, ?_⟩
  have hnext : ((s.jobs[i]?).bind fun job => job.next je).map
      (fun job => ({ s with jobs := s.jobs.set i job } : Pool)) = some t := by
    cases je with
    | take =>
        exact absurd rfl htake
    | _ =>
        exact hst
  obtain ⟨job', hjob', ht⟩ := Option.map_eq_some_iff.mp hnext
  obtain ⟨job, hjob, hje⟩ := Option.bind_eq_some_iff.mp hjob'
  exact ⟨job, job', hjob, Job.moves hje, ht.symm⟩

section OneStep

variable {workers fetched : Nat} {s t : Pool}

/-- The head of the queue is the first job that has not left it. -/
theorem Pool.Fetched.head {i : Nat} {rest : List Nat} (h : s.Fetched fetched)
    (hqueue : s.queue = i :: rest) :
    i = fetched ∧ fetched < s.jobs.length ∧
      rest = List.range' (fetched + 1) (s.jobs.length - (fetched + 1)) := by
  have hrange := h.queue
  rw [hqueue] at hrange
  cases hlen : s.jobs.length - fetched with
  | zero =>
      rw [hlen] at hrange
      cases hrange
  | succ n =>
      rw [hlen, List.range'_succ] at hrange
      cases hrange
      refine ⟨rfl, by omega, ?_⟩
      rw [show s.jobs.length - (fetched + 1) = n by omega]

/-- A job of its own step changes neither the queue nor who has been taken. -/
theorem Pool.Fetched.set {i : Nat} {je : JobEvent} {job job' : Job} (h : s.Fetched fetched)
    (hi : s.jobs[i]? = some job) (hm : job.Moves je job') (hje : je ≠ .take) :
    Pool.Fetched { s with jobs := s.jobs.set i job' } fetched := by
  refine ⟨by simpa using h.le, by simpa using h.queue, ?_, ?_⟩
  · intro j job₁ hj hlt
    rw [getElem?_set_of_some hi] at hj
    split at hj
    · rename_i hij
      cases hj
      have hold := h.not_waiting i job hi (by omega)
      cases hnew : job'.stage.isWaiting with
      | false =>
          rfl
      | true =>
          rw [hm.isWaiting hnew] at hold
          cases hold
    · exact h.not_waiting j job₁ hj hlt
  · intro j job₁ hj hle htaken
    rw [getElem?_set_of_some hi] at hj
    split at hj
    · rename_i hij
      cases hj
      exact h.not_taken i job hi (by omega) (hm.wasTaken hje htaken)
    · exact h.not_taken j job₁ hj hle htaken

/-- The queue holds the jobs from some number on, in the order of their dispatch,
whatever happens. -/
theorem fetched_step {e : PoolEvent} (hst : PoolStep workers s e t) (h : s.Fetched fetched) :
    t.Fetched fetched ∨ (e = .fetch ∧ t.Fetched (fetched + 1)) := by
  cases e with
  | submit budgetMs =>
      cases hst
      have hle := h.le
      refine .inl ⟨by simp only [List.length_append, List.length_singleton]; omega, ?_, ?_, ?_⟩
      · simp only [h.queue, List.length_append, List.length_singleton]
        rw [show s.jobs.length + 1 - fetched = s.jobs.length - fetched + 1 by omega,
          List.range'_concat]
        simp [show fetched + (s.jobs.length - fetched) = s.jobs.length by omega]
      · intro j job hj hlt
        rw [List.getElem?_append_left (by omega)] at hj
        exact h.not_waiting j job hj hlt
      · intro j job hj hge htaken
        cases hold : s.jobs[j]? with
        | some job₀ =>
            obtain ⟨hlt, -⟩ := List.getElem?_eq_some_iff.mp hold
            rw [List.getElem?_append_left hlt] at hj
            exact h.not_taken j job hj hge htaken
        | none =>
            rw [List.getElem?_append_right (List.getElem?_eq_none_iff.mp hold)] at hj
            have hmem := List.mem_of_getElem? hj
            rw [List.mem_singleton.mp hmem] at htaken
            cases htaken
  | fetch =>
      obtain ⟨i, rest, hqueue, hfree, htake | hdrop⟩ := fetch_cases hst
      · obtain ⟨job, hi, hstage, rfl⟩ := htake
        obtain ⟨rfl, hlt, hrest⟩ := h.head hqueue
        refine .inr ⟨rfl, by simpa using Nat.succ_le_of_lt hlt, by simpa using hrest, ?_, ?_⟩
        · intro j job₁ hj hle
          rw [getElem?_set_of_some hi] at hj
          split at hj
          · cases hj
            rfl
          · exact h.not_waiting j job₁ hj (by omega)
        · intro j job₁ hj hge
          rw [getElem?_set_of_some hi, if_neg (by omega)] at hj
          exact h.not_taken j job₁ hj (by omega)
      · obtain ⟨hgone, rfl⟩ := hdrop
        obtain ⟨rfl, hlt, hrest⟩ := h.head hqueue
        refine .inr ⟨rfl, by simpa using Nat.succ_le_of_lt hlt, hrest, ?_, ?_⟩
        · intro j job hj hle
          by_cases hij : j = i
          · subst hij
            have hne := hgone job hj
            cases hstage : job.stage with
            | queued =>
                exact absurd hstage hne
            | _ =>
                rfl
          · exact h.not_waiting j job hj (by omega)
        · intro j job hj hge
          exact h.not_taken j job hj (by omega)
  | job i je =>
      obtain ⟨hje, job, job', hi, hm, rfl⟩ := job_step_cases hst
      exact .inl (h.set hi hm hje)

end OneStep

/-- The queue and the jobs are in step. -/
def Pool.InOrder (s : Pool) : Prop :=
  ∃ fetched, s.Fetched fetched

theorem inOrder_step {workers : Nat} {s t : Pool} {e : PoolEvent} (hst : PoolStep workers s e t)
    (h : s.InOrder) : t.InOrder := by
  obtain ⟨fetched, h⟩ := h
  rcases fetched_step hst h with h | ⟨-, h⟩
  · exact ⟨fetched, h⟩
  · exact ⟨fetched + 1, h⟩

/-! ## What the pool is for -/

/-- The job is still to be taken. -/
def Pool.waits (s : Pool) (j : Nat) : Bool :=
  (s.jobs[j]?).any fun job => job.stage.isWaiting

/-- A worker is busy with the job. -/
def Pool.serves (s : Pool) (j : Nat) : Bool :=
  (s.jobs[j]?).any fun job => decide job.stage.UnderWay

/-- The pool as a queue in front of its workers. -/
def Pool.servers (s : Pool) : Servers Nat where
  waiting := s.queue.filter s.waits
  serving := (Finset.range s.jobs.length).filter fun j => s.serves j = true

/-- The move a step of the pool comes to, if any. -/
def Pool.seen (s : Pool) : PoolEvent → Option (Move Nat)
  | .submit _ => some (.arrive s.jobs.length)
  | .fetch =>
      match s.queue with
      | [] => none
      | i :: _ => if s.waits i then some (.start i) else none
  | .job i .cancel => if s.waits i then some (.abandon i) else none
  | .job i (.finish _) => some (.leave i)
  | .job _ _ => none

theorem mem_serving {s : Pool} {j : Nat} : j ∈ s.servers.serving ↔ s.serves j = true := by
  simp only [Pool.servers, Finset.mem_filter, Finset.mem_range, and_iff_right_iff_imp]
  intro h
  by_contra hge
  rw [Pool.serves, List.getElem?_eq_none (by omega)] at h
  cases h

theorem countP_eq_card (p : Job → Bool) (jobs : List Job) :
    jobs.countP p = ((Finset.range jobs.length).filter fun j => (jobs[j]?).any p = true).card := by
  induction jobs using List.reverseRecOn with
  | nil =>
      rfl
  | append_singleton jobs job ih =>
      have hold : (Finset.range jobs.length).filter
            (fun j => ((jobs ++ [job])[j]?).any p = true) =
          (Finset.range jobs.length).filter fun j => (jobs[j]?).any p = true := by
        refine Finset.filter_congr fun j hj => ?_
        rw [List.getElem?_append_left (Finset.mem_range.mp hj)]
      rw [List.countP_append, ih, List.length_append, List.length_singleton, Finset.range_add_one,
        Finset.filter_insert, hold]
      cases hp : p job with
      | false =>
          simp [hp]
      | true =>
          simp [hp]

/-- The workers in use are those serving. -/
theorem busy_eq_card (s : Pool) : s.busy = s.servers.serving.card :=
  countP_eq_card _ s.jobs

section Refinement

variable {workers : Nat} {s t : Pool} {i : Nat} {job job' : Job}

/-- Who waits, once a job has been replaced. -/
theorem waits_set (hi : s.jobs[i]? = some job) (queue : List Nat) (j : Nat) :
    Pool.waits { jobs := s.jobs.set i job', queue := queue } j =
      if i = j then job'.stage.isWaiting else s.waits j := by
  unfold Pool.waits
  rw [getElem?_set_of_some hi]
  split <;> rfl

theorem serves_set (hi : s.jobs[i]? = some job) (queue : List Nat) (j : Nat) :
    Pool.serves { jobs := s.jobs.set i job', queue := queue } j =
      if i = j then decide job'.stage.UnderWay else s.serves j := by
  unfold Pool.serves
  rw [getElem?_set_of_some hi]
  split <;> rfl

theorem waits_of_some (hi : s.jobs[i]? = some job) : s.waits i = job.stage.isWaiting := by
  rw [Pool.waits, hi]
  rfl

theorem serves_of_some (hi : s.jobs[i]? = some job) :
    s.serves i = decide job.stage.UnderWay := by
  rw [Pool.serves, hi]
  rfl

theorem mem_queue_lt (h : s.InOrder) {j : Nat} (hj : j ∈ s.queue) : j < s.jobs.length := by
  obtain ⟨fetched, h⟩ := h
  rw [h.queue, List.mem_range'_1] at hj
  have hle := h.le
  omega

theorem queue_nodup (h : s.InOrder) : s.queue.Nodup := by
  obtain ⟨fetched, h⟩ := h
  rw [h.queue]
  exact List.nodup_range'

theorem not_waits_of_gone (hgone : ∀ job, s.jobs[i]? = some job → job.stage ≠ .queued) :
    s.waits i = false := by
  cases hi : s.jobs[i]? with
  | none =>
      rw [Pool.waits, hi]
      rfl
  | some job =>
      rw [waits_of_some hi, Bool.eq_false_iff, ne_eq, Stage.isWaiting_iff]
      exact hgone job hi

/-- A submission is an arrival. -/
theorem submit_seen (h : s.InOrder) (budgetMs : Option Nat) :
    ServerQueue.Step workers s.servers (.arrive s.jobs.length)
      (Pool.servers
        { jobs := s.jobs ++ [{ budgetMs := budgetMs }]
          queue := s.queue ++ [s.jobs.length] }) := by
  convert Step.arrive (k := workers) (s := s.servers) s.jobs.length using 1
  refine Servers.ext ?_ (Finset.ext fun j => ?_)
  · simp only [Pool.servers, List.filter_append]
    congr 1
    · refine List.filter_congr fun j hj => ?_
      rw [Pool.waits, List.getElem?_append_left (mem_queue_lt h hj)]
      rfl
    · refine List.filter_eq_self.mpr fun j hj => ?_
      rw [List.mem_singleton.mp hj, Pool.waits, List.getElem?_append_right le_rfl, Nat.sub_self]
      rfl
  · rw [mem_serving, mem_serving, Pool.serves, Pool.serves, List.getElem?_append]
    split
    · rfl
    · rename_i hge
      rw [List.getElem?_eq_none (by omega : s.jobs.length ≤ j)]
      cases hnew : j - s.jobs.length with
      | zero =>
          exact Iff.rfl
      | succ n =>
          simp

/-- Taking the job at the head of the queue is a start. -/
theorem take_seen (h : s.InOrder) {rest : List Nat} (hqueue : s.queue = i :: rest)
    (hfree : s.busy < workers) (hi : s.jobs[i]? = some job) (hstage : job.stage = .queued) :
    ServerQueue.Step workers s.servers (.start i)
      (Pool.servers { jobs := s.jobs.set i { job with stage := .taken }, queue := rest }) := by
  have hwaits : s.waits i = true := by
    rw [waits_of_some hi, hstage]
    rfl
  have hnodup := queue_nodup h
  rw [hqueue, List.nodup_cons] at hnodup
  have hline : s.servers.waiting = i :: rest.filter s.waits := by
    rw [Pool.servers, hqueue, List.filter_cons_of_pos hwaits]
  rw [busy_eq_card] at hfree
  convert Step.start hline hfree using 1
  refine Servers.ext ?_ (Finset.ext fun j => ?_)
  · refine List.filter_congr fun j hj => ?_
    rw [waits_set hi, if_neg (ne_of_mem_of_not_mem hj hnodup.1).symm]
  · rw [mem_serving, serves_set hi, Finset.mem_insert, mem_serving]
    by_cases hij : i = j
    · rw [if_pos hij]
      exact iff_of_true rfl (.inl hij.symm)
    · simp [hij, Ne.symm hij]

/-- Dropping a cancelled job is not seen. -/
theorem drop_unseen {rest : List Nat} (hqueue : s.queue = i :: rest)
    (hwaits : s.waits i = false) : Pool.servers { s with queue := rest } = s.servers := by
  refine Servers.ext ?_ (Finset.ext fun j => ?_)
  · simp only [Pool.servers]
    rw [hqueue, List.filter_cons_of_neg (by rw [hwaits]; exact Bool.false_ne_true)]
    rfl
  · rw [mem_serving, mem_serving]
    rfl

/-- Cancelling a job in the queue is an abandonment. -/
theorem cancel_seen (h : s.InOrder) (hi : s.jobs[i]? = some job) (hstage : job.stage = .queued)
    (hwaits' : job'.stage.isWaiting = false) (hserves' : ¬job'.stage.UnderWay) :
    ServerQueue.Step workers s.servers (.abandon i)
      (Pool.servers { s with jobs := s.jobs.set i job' }) := by
  convert Step.abandon (k := workers) (s := s.servers) i using 1
  refine Servers.ext ?_ (Finset.ext fun j => ?_)
  · simp only [Pool.servers]
    rw [(List.Nodup.filter s.waits (queue_nodup h)).erase_eq_filter, List.filter_filter]
    refine List.filter_congr fun j _ => ?_
    rw [waits_set hi, hwaits']
    by_cases hij : i = j
    · simp [hij]
    · simp [hij, Ne.symm hij]
  · rw [mem_serving, serves_set hi, decide_eq_false hserves', mem_serving]
    by_cases hij : i = j
    · rw [if_pos hij, ← hij, serves_of_some hi, hstage]
      exact Iff.rfl
    · simp [hij]

/-- The end of a run is a departure. -/
theorem finish_seen (hi : s.jobs[i]? = some job) (hwaits : job.stage.isWaiting = false)
    (hwaits' : job'.stage.isWaiting = false) (hserves' : ¬job'.stage.UnderWay) :
    ServerQueue.Step workers s.servers (.leave i)
      (Pool.servers { s with jobs := s.jobs.set i job' }) := by
  convert Step.leave (k := workers) (s := s.servers) i using 1
  refine Servers.ext ?_ (Finset.ext fun j => ?_)
  · refine List.filter_congr fun j _ => ?_
    rw [waits_set hi]
    split
    · rename_i hij
      rw [← hij, waits_of_some hi, hwaits, hwaits']
    · rfl
  · rw [mem_serving, serves_set hi, decide_eq_false hserves', Finset.mem_erase, mem_serving]
    by_cases hij : i = j
    · simp [hij]
    · simp [hij, Ne.symm hij]

/-- A step that leaves the job in line, or with its worker, is not seen. -/
theorem step_unseen (hi : s.jobs[i]? = some job)
    (hwaits : job'.stage.isWaiting = job.stage.isWaiting)
    (hserves : job'.stage.UnderWay ↔ job.stage.UnderWay) :
    Pool.servers { s with jobs := s.jobs.set i job' } = s.servers := by
  refine Servers.ext ?_ (Finset.ext fun j => ?_)
  · refine List.filter_congr fun j _ => ?_
    rw [waits_set hi]
    split
    · rename_i hij
      rw [← hij, waits_of_some hi, hwaits]
    · rfl
  · rw [mem_serving, mem_serving, serves_set hi]
    split
    · rename_i hij
      rw [← hij, serves_of_some hi, decide_eq_decide.mpr hserves]
    · rfl

theorem Stage.Works.ne_cancel {stage stage' : Stage} {e : JobEvent} (h : stage.Works e stage') :
    e ≠ .cancel := by
  cases h <;> nofun

theorem Stage.Works.unseen {stage stage' : Stage} {e : JobEvent} (h : stage.Works e stage')
    (htake : e ≠ .take) (hfinish : ∀ o, e ≠ .finish o) :
    stage'.isWaiting = stage.isWaiting ∧ (stage'.UnderWay ↔ stage.UnderWay) := by
  cases h with
  | take =>
      exact absurd rfl htake
  | setStarted =>
      exact ⟨rfl, Iff.rfl⟩
  | beginScript =>
      exact ⟨rfl, Iff.rfl⟩
  | finish o =>
      exact absurd rfl (hfinish o)

theorem Stage.Works.finish_ended {stage stage' : Stage} {o : RunOutcome}
    (h : stage.Works (.finish o) stage') : stage = .running ∧ stage' = .ended o := by
  cases h
  exact ⟨rfl, rfl⟩

theorem Job.Moves.unseen {e : JobEvent} (h : job.Moves e job') (htake : e ≠ .take)
    (hfinish : ∀ o, e ≠ .finish o) (hcancel : e = .cancel → job.stage ≠ .queued) :
    job'.stage.isWaiting = job.stage.isWaiting ∧ (job'.stage.UnderWay ↔ job.stage.UnderWay) := by
  cases h with
  | works hworks =>
      exact hworks.unseen htake hfinish
  | cancel_queued _ hstage =>
      exact absurd hstage (hcancel rfl)
  | _ =>
      exact ⟨rfl, Iff.rfl⟩

/-- A step of a job that ends its run. -/
theorem Job.Moves.finish {o : RunOutcome} (h : job.Moves (.finish o) job') :
    job.stage = .running ∧ job'.stage = .ended o := by
  generalize he : JobEvent.finish o = e at h
  cases h with
  | works hworks =>
      subst he
      exact hworks.finish_ended
  | _ =>
      cases he

/-- A step of a job that cancels its future in the queue. -/
theorem Job.Moves.cancel (h : job.Moves .cancel job') (hstage : job.stage = .queued) :
    job'.stage = .cancelled := by
  generalize he : JobEvent.cancel = e at h
  cases h with
  | works hworks =>
      exact absurd he.symm hworks.ne_cancel
  | cancel_queued _ _ =>
      rfl
  | cancel_taken _ htaken =>
      exact absurd hstage htaken
  | _ =>
      cases he

/-- A step that is seen is the move it is seen as. -/
theorem seen_step {e : PoolEvent} {m : Move Nat} (hst : PoolStep workers s e t) (h : s.InOrder)
    (hm : s.seen e = some m) : ServerQueue.Step workers s.servers m t.servers := by
  cases e with
  | submit budgetMs =>
      cases hst
      cases hm
      exact submit_seen h budgetMs
  | fetch =>
      obtain ⟨i, rest, hqueue, hfree, ⟨job, hi, hstage, rfl⟩ | ⟨hgone, rfl⟩⟩ := fetch_cases hst
      · have hwaits : s.waits i = true := by
          rw [waits_of_some hi, Stage.isWaiting_iff, hstage]
        simp only [Pool.seen, hqueue, hwaits, if_true, Option.some.injEq] at hm
        rw [← hm]
        exact take_seen h hqueue hfree hi hstage
      · have hwaits : s.waits i = false := not_waits_of_gone hgone
        simp [Pool.seen, hqueue, hwaits] at hm
  | job i je =>
      obtain ⟨-, job, job', hi, hmoves, rfl⟩ := job_step_cases hst
      cases je with
      | cancel =>
          simp only [Pool.seen, waits_of_some hi, Option.ite_none_right_eq_some,
            Option.some.injEq, Stage.isWaiting_iff] at hm
          obtain ⟨hstage, rfl⟩ := hm
          have hstage' := hmoves.cancel hstage
          exact cancel_seen h hi hstage (by rw [hstage']; rfl) (by rw [hstage']; exact id)
      | finish o =>
          cases hm
          obtain ⟨hstage, hstage'⟩ := hmoves.finish
          exact finish_seen hi (by rw [hstage]; rfl) (by rw [hstage']; rfl)
            (by rw [hstage']; exact id)
      | _ =>
          cases hm

/-- A step that is not seen changes nothing that is. -/
theorem unseen_step {e : PoolEvent} (hst : PoolStep workers s e t) (he : s.seen e = none) :
    t.servers = s.servers := by
  cases e with
  | submit budgetMs =>
      cases he
  | fetch =>
      obtain ⟨i, rest, hqueue, hfree, ⟨job, hi, hstage, rfl⟩ | ⟨hgone, rfl⟩⟩ := fetch_cases hst
      · have hwaits : s.waits i = true := by
          rw [waits_of_some hi, Stage.isWaiting_iff, hstage]
        simp [Pool.seen, hqueue, hwaits] at he
      · exact drop_unseen hqueue (not_waits_of_gone hgone)
  | job i je =>
      obtain ⟨htake, job, job', hi, hmoves, rfl⟩ := job_step_cases hst
      have hunseen := hmoves.unseen htake (fun o ho => ?_) (fun hcancel hstage => ?_)
      · exact step_unseen hi hunseen.1 hunseen.2
      · rw [ho] at he
        cases he
      · rw [hcancel, Pool.seen, waits_of_some hi, hstage] at he
        cases he

end Refinement

/-- The run of the pool, as one of a queue in front of its workers. -/
def poolView (run : List (PoolEvent × Pool)) : List (Move Nat × Servers Nat) :=
  view Pool.servers Pool.seen {} run

/-- From any pool whose queue is in order. -/
theorem run_seen {workers : Nat} {s : Pool} {run : List (PoolEvent × Pool)}
    (hrun : Run (PoolStep workers) s run) (h : s.InOrder) :
    Run (ServerQueue.Step workers) s.servers (view Pool.servers Pool.seen s run) ∧
      lastState s.servers (view Pool.servers Pool.seen s run) = (lastState s run).servers :=
  run_view Pool.servers Pool.seen Pool.InOrder inOrder_step seen_step
    (fun hst _ => unseen_step hst) hrun h

theorem inOrder_empty : Pool.InOrder {} :=
  ⟨0, fetched_empty⟩

theorem servers_empty : Pool.servers {} = {} :=
  Servers.ext rfl rfl

/-- **The pool is a queue in front of its workers.** Every run of the pool is seen as a
run of that queue, in which the jobs are numbered as they were dispatched. -/
theorem pool_serves_in_order {workers : Nat} {run : List (PoolEvent × Pool)}
    (hrun : Run (PoolStep workers) {} run) :
    Run (ServerQueue.Step workers) {} (poolView run) ∧
      lastState {} (poolView run) = (lastState {} run).servers := by
  have hseen := run_seen hrun inOrder_empty
  rwa [servers_empty] at hseen

/-! ## The order of the scripts -/

section Order

variable {workers : Nat} {s t : Pool} {run : List (PoolEvent × Pool)}

/-- A worker has taken the job. -/
def Pool.Taken (s : Pool) (j : Nat) : Prop :=
  ∃ job, s.jobs[j]? = some job ∧ job.stage.WasTaken

/-- A submission adds a job, and nothing else does. -/
theorem length_step {e : PoolEvent} (hst : PoolStep workers s e t) :
    t.jobs.length = s.jobs.length + ((s.seen e).bind Move.arrived).toList.length := by
  cases e with
  | submit budgetMs =>
      cases hst
      simp [Pool.seen, Move.arrived]
  | fetch =>
      obtain ⟨i, rest, hqueue, -, ⟨job, -, -, rfl⟩ | ⟨-, rfl⟩⟩ := fetch_cases hst
      · cases hwaits : s.waits i <;> simp [Pool.seen, hqueue, hwaits, Move.arrived]
      · cases hwaits : s.waits i <;> simp [Pool.seen, hqueue, hwaits, Move.arrived]
  | job i je =>
      obtain ⟨-, job, job', -, -, rfl⟩ := job_step_cases hst
      cases je with
      | cancel =>
          cases hwaits : s.waits i <;> simp [Pool.seen, hwaits, Move.arrived]
      | _ =>
          simp [Pool.seen, Move.arrived]

/-- The jobs that arrive are numbered as they are dispatched. -/
theorem arrived_step {e : PoolEvent} {i : Nat} (h : (s.seen e).bind Move.arrived = some i) :
    i = s.jobs.length := by
  cases e with
  | submit budgetMs =>
      cases h
      rfl
  | fetch =>
      simp only [Pool.seen] at h
      split at h
      · cases h
      · split at h <;> cases h
  | job i je =>
      cases je with
      | cancel =>
          simp only [Pool.seen] at h
          split at h <;> cases h
      | _ =>
          cases h

theorem arrivals_view (hrun : Run (PoolStep workers) s run) :
    arrivals (view Pool.servers Pool.seen s run) =
      List.range' s.jobs.length ((lastState s run).jobs.length - s.jobs.length) ∧
      s.jobs.length ≤ (lastState s run).jobs.length := by
  induction hrun with
  | nil s =>
      simp [view, arrivals, lastState]
  | @cons s t e run hst _ ih =>
      obtain ⟨ih, hle⟩ := ih
      have hlen := length_step hst
      have harrived := @arrived_step s e
      have hstep : arrivals (view Pool.servers Pool.seen s ((e, t) :: run)) =
          ((s.seen e).bind Move.arrived).toList ++
            arrivals (view Pool.servers Pool.seen t run) := by
        cases hseen : s.seen e with
        | none =>
            simp [view, hseen]
        | some m =>
            cases hm : m.arrived with
            | none =>
                simp [view, hseen, arrivals, hm]
            | some i =>
                simp [view, hseen, arrivals, hm]
      rw [hstep, ih, lastState]
      cases hbind : (s.seen e).bind Move.arrived with
      | none =>
          rw [hbind] at hlen
          simp only [Option.toList_none, List.length_nil, Nat.add_zero] at hlen
          rw [hlen] at hle ⊢
          exact ⟨rfl, hle⟩
      | some i =>
          rw [hbind] at hlen
          simp only [Option.toList_some, List.length_singleton] at hlen
          rw [harrived hbind]
          refine ⟨?_, by omega⟩
          rw [hlen, Option.toList_some, List.singleton_append, ← List.range'_succ]
          congr 1
          omega

/-- A job has been taken after a step exactly if it had been before, or the step is
seen as its start. -/
theorem taken_step_iff {e : PoolEvent} (hst : PoolStep workers s e t) (j : Nat) :
    t.Taken j ↔ s.Taken j ∨ s.seen e = some (.start j) := by
  have hset : ∀ {i job job'} (queue : List Nat), s.jobs[i]? = some job →
      (Pool.Taken { jobs := s.jobs.set i job', queue := queue } j ↔
        if i = j then job'.stage.WasTaken else s.Taken j) := by
    intro i job job' queue hi
    unfold Pool.Taken
    rw [getElem?_set_of_some hi]
    split <;> simp
  have hat : ∀ {i job}, s.jobs[i]? = some job → (s.Taken i ↔ job.stage.WasTaken) := by
    intro i job hi
    simp [Pool.Taken, hi]
  cases e with
  | submit budgetMs =>
      cases hst
      simp only [Pool.seen, reduceCtorEq, Option.some.injEq, or_false]
      unfold Pool.Taken
      rw [List.getElem?_append]
      split
      · rfl
      · rename_i hge
        rw [List.getElem?_eq_none (by omega : s.jobs.length ≤ j)]
        cases hnew : j - s.jobs.length <;> simp [Stage.WasTaken]
  | fetch =>
      obtain ⟨i, rest, hqueue, -, ⟨job, hi, hstage, rfl⟩ | ⟨hgone, rfl⟩⟩ := fetch_cases hst
      · have hwaits : s.waits i = true := by
          rw [waits_of_some hi, Stage.isWaiting_iff, hstage]
        rw [hset _ hi]
        simp only [Pool.seen, hqueue, hwaits, if_true, Option.some.injEq, Move.start.injEq]
        by_cases hij : i = j
        · simp [hij, Stage.WasTaken]
        · simp [hij]
      · simp [Pool.seen, hqueue, not_waits_of_gone hgone, Pool.Taken]
  | job i je =>
      obtain ⟨htake, job, job', hi, hmoves, rfl⟩ := job_step_cases hst
      have hnever : s.seen (.job i je) ≠ some (.start j) := by
        cases je with
        | cancel =>
            simp only [Pool.seen]
            split <;> nofun
        | _ =>
            nofun
      rw [hset _ hi, or_iff_left hnever]
      split
      · rename_i hij
        rw [← hij, hat hi]
        exact ⟨hmoves.wasTaken htake, hmoves.keeps_taken⟩
      · rfl

theorem taken_lastState_iff (hrun : Run (PoolStep workers) s run) (j : Nat) :
    (lastState s run).Taken j ↔
      s.Taken j ∨ j ∈ starts (view Pool.servers Pool.seen s run) := by
  induction hrun with
  | nil s =>
      simp [view, starts, lastState]
  | @cons s t e run hst _ ih =>
      have hstep : j ∈ starts (view Pool.servers Pool.seen s ((e, t) :: run)) ↔
          s.seen e = some (.start j) ∨ j ∈ starts (view Pool.servers Pool.seen t run) := by
        cases hseen : s.seen e with
        | none =>
            simp [view, hseen]
        | some m =>
            cases m <;> simp [view, hseen, starts, Move.started, eq_comm]
      rw [lastState, ih, taken_step_iff hst, hstep, or_assoc]

/-- **In the order of dispatch.** In any run of the pool no more scripts are under way
than there are workers; the jobs that workers have taken have been taken in the order of
their dispatch, each once; and none is still in the queue that was dispatched before
one of them. -/
theorem scripts_in_dispatch_order (hrun : Run (PoolStep workers) {} run) :
    (lastState {} run).busy ≤ workers ∧ (starts (poolView run)).Pairwise (· < ·) ∧
      (∀ j, (lastState {} run).Taken j ↔ j ∈ starts (poolView run)) ∧
      ∀ (i j : Nat) (job : Job), (lastState {} run).jobs[i]? = some job →
        job.stage = .queued → (lastState {} run).Taken j → j < i := by
  obtain ⟨hservers, hlast⟩ := run_seen hrun inOrder_empty
  rw [servers_empty] at hservers hlast
  have htaken : ∀ j, (lastState {} run).Taken j ↔ j ∈ starts (poolView run) := by
    intro j
    have hnone : ¬Pool.Taken {} j := by
      simp [Pool.Taken]
    rw [taken_lastState_iff hrun, or_iff_right hnone]
    rfl
  have hsorted : (starts (poolView run) ++ (lastState {} run).servers.waiting).Pairwise
      (· < ·) := by
    have hsublist := starts_sublist_arrivals hservers
    rw [hlast, (arrivals_view hrun).1, List.nil_append] at hsublist
    exact List.Pairwise.sublist hsublist List.pairwise_lt_range'
  rw [List.pairwise_append] at hsorted
  refine ⟨?_, hsorted.1, htaken, fun i j job hi hstage hj => ?_⟩
  · rw [busy_eq_card, ← hlast]
    exact card_lastState_le hservers (Nat.zero_le workers)
  · obtain ⟨fetched, horder⟩ := invariant_lastState Pool.InOrder inOrder_step hrun inOrder_empty
    have hwaiting : i ∈ (lastState {} run).servers.waiting := by
      have hge : fetched ≤ i := by
        by_contra hlt
        have hgone := horder.not_waiting i job hi (by omega)
        rw [hstage] at hgone
        cases hgone
      obtain ⟨hlt, -⟩ := List.getElem?_eq_some_iff.mp hi
      rw [Pool.servers, List.mem_filter, horder.queue, List.mem_range'_1, waits_of_some hi, hstage]
      exact ⟨⟨hge, by omega⟩, rfl⟩
    exact hsorted.2.2 j ((htaken j).mp hj) i hwaiting

end Order

section Sample

/-- Two jobs for one worker: the first runs on, the second is refused. -/
def sampleRefusal : List (PoolEvent × Pool) :=
  trace (Pool.act 1) {} [.submit none, .fetch, .submit (some 1000), .job 0 .setStarted,
    .job 1 .lapse, .job 1 .expire, .job 1 .cancel, .job 1 .giveUp]

theorem sampleRefusal_run : Run (PoolStep 1) {} sampleRefusal :=
  .cons rfl (.cons rfl (.cons rfl (.cons rfl (.cons rfl (.cons rfl (.cons rfl (.cons rfl
    (.nil _))))))))

theorem pool_serves_in_order_one_worker :
    Run (ServerQueue.Step 1) {} (poolView sampleRefusal) ∧
      lastState {} (poolView sampleRefusal) = (lastState {} sampleRefusal).servers :=
  pool_serves_in_order sampleRefusal_run

theorem scripts_in_dispatch_order_one_worker :
    (lastState {} sampleRefusal).busy ≤ 1 ∧
      (starts (poolView sampleRefusal)).Pairwise (· < ·) ∧
      (∀ j, (lastState {} sampleRefusal).Taken j ↔ j ∈ starts (poolView sampleRefusal)) ∧
      ∀ (i j : Nat) (job : Job), (lastState {} sampleRefusal).jobs[i]? = some job →
        job.stage = .queued → (lastState {} sampleRefusal).Taken j → j < i :=
  scripts_in_dispatch_order sampleRefusal_run

end Sample

end ProbeAgent
