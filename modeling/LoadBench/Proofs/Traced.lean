import LoadBench.Proofs.PoolStep

/-!
What a pool has it was given: a job that is in the queue of a pool or in the hands of one of its
workers was accepted there, and an execution of a job happened on a connection of a worker of the
pool that accepted the job. The queue's record of accepted jobs only grows, and each pool counts
in counters of its own.
-/

namespace LoadBench

/-- Whether a job is in the queue of a pool or in the hands of one of its workers. -/
def WorkerPool.Has (p : WorkerPool) (job : Job) : Prop :=
  job ∈ p.queue.buffer ∨
    ∃ (k : Nat) (w : Worker), p.workers[k]? = some w ∧ w.activity.job? = some job

/-- The same counters, the same workers and maybe more. -/
def WorkerPool.Extends (p p' : WorkerPool) : Prop :=
  p'.tally = p.tally ∧ ∀ (k : Nat) (w : Worker), p.workers[k]? = some w →
    ∃ w' : Worker, p'.workers[k]? = some w' ∧ w'.conn = w.conn

namespace JobQueue

variable {α π κ : Type} {q q' : JobQueue α π κ}

theorem accepted_of_items (h : q'.items = q.items) : q'.accepted = q.accepted :=
  congrArg (·.2.1) h

theorem buffer_of_items (h : q'.items = q.items) : q'.buffer = q.buffer :=
  congrArg (·.1) h

theorem accepted_dropReceiver : q.dropReceiver.accepted = q.accepted := by
  simp only [dropReceiver]
  split <;> rfl

theorem mem_buffer_dropReceiver {a : α} (h : a ∈ q.dropReceiver.buffer) : a ∈ q.buffer := by
  rcases items_dropReceiver (q := q) with hsame | hdrop
  · rwa [buffer_of_items hsame] at h
  · have hbuffer : q.dropReceiver.buffer = [] := congrArg (·.1) hdrop
    rw [hbuffer] at h
    cases h

end JobQueue

namespace WorkerPool

variable {p q : WorkerPool} {k : Nat} {a : Activity} {job : Job}

theorem getElem?_setActivity (p : WorkerPool) (k : Nat) (a : Activity) (j : Nat) :
    (p.setActivity k a).workers[j]? =
      if k = j then p.workers[j]?.map fun w => { w with activity := a } else p.workers[j]? := by
  simp only [setActivity]
  exact Array.getElem?_modify

/-- A worker that does something else has no job but one that the pool had. -/
theorem Has.of_setActivity (h : (q.setActivity k a).Has job) (hw : q.workers = p.workers)
    (hb : ∀ job ∈ q.queue.buffer, p.Has job) (ha : ∀ job, a.job? = some job → p.Has job) :
    p.Has job := by
  rcases h with h | ⟨j, w, hj, hjob⟩
  · exact hb job h
  · rw [getElem?_setActivity, hw] at hj
    split at hj
    · obtain ⟨w', _, rfl⟩ := Option.map_eq_some_iff.mp hj
      exact ha job hjob
    · exact .inr ⟨j, w, hj, hjob⟩

theorem Extends.refl (p : WorkerPool) : p.Extends p := ⟨rfl, fun _ w hw => ⟨w, hw, rfl⟩⟩

theorem Extends.setActivity (ht : q.tally = p.tally) (hw : q.workers = p.workers) (k : Nat)
    (a : Activity) : p.Extends (q.setActivity k a) := by
  refine ⟨ht, fun j w hj => ?_⟩
  rw [getElem?_setActivity, hw, hj]
  split
  · exact ⟨_, rfl, rfl⟩
  · exact ⟨w, rfl, rfl⟩

end WorkerPool

/-- The same pool later: it still has its workers and its record of accepted jobs, and the jobs
that it has beyond those it had were accepted just now. -/
structure WorkerPool.Follows (p p' : WorkerPool) : Prop where
  extended : p.Extends p'
  accepted : p'.queue.accepted = p.queue.accepted ∨
    ∃ job, p'.queue.accepted = p.queue.accepted.push job
  has : ∀ job, p'.Has job → p.Has job ∨ p'.queue.accepted = p.queue.accepted.push job

namespace WorkerPool.Follows

variable {p p' : WorkerPool} {job : Job}

theorem refl (p : WorkerPool) : p.Follows p := ⟨.refl p, .inl rfl, fun _ => .inl⟩

theorem mem_accepted (h : p.Follows p') (hj : job ∈ p.queue.accepted) :
    job ∈ p'.queue.accepted := by
  rcases h.accepted with hsame | ⟨job', hpush⟩
  · rwa [hsame]
  · rw [hpush]
    exact Array.mem_push_of_mem _ hj

end WorkerPool.Follows

namespace PoolStep

variable {v v' : PoolView} {job : Job}

/-- A pool comes to have a job only when its queue accepts the job. -/
theorem has (h : PoolStep v v') (hj : v'.pool.Has job) :
    v.pool.Has job ∨ v'.pool.queue.accepted = v.pool.queue.accepted.push job := by
  have hbuffer (q : JobQueue Job Unit Nat) (hq : q.items = v.pool.queue.items) (job : Job)
      (hmem : job ∈ q.buffer) : v.pool.Has job := .inl (JobQueue.buffer_of_items hq ▸ hmem)
  cases h with
  | asks hw ha =>
      refine .inl (.of_setActivity hj rfl (hbuffer _ JobQueue.items_ask) ?_)
      intro job hjob
      split at hjob <;> cases hjob
  | takesTurn hw ha hr =>
      exact .inl (.of_setActivity hj rfl (hbuffer _ JobQueue.items_takeTurn) nofun)
  | takes hw ha hq =>
      obtain ⟨rest, hb, rfl⟩ := JobQueue.receive_item hq
      refine .inl (.of_setActivity hj rfl (fun job hmem => ?_) ?_)
      · exact .inl (hb ▸ List.mem_cons_of_mem _ hmem)
      · intro job hjob
        cases hjob
        exact .inl (hb ▸ List.mem_cons_self)
  | ends hw ha hq =>
      obtain ⟨_, _, rfl⟩ := JobQueue.receive_ended hq
      exact .inl (.of_setActivity hj rfl (hbuffer _ rfl) nofun)
  | works hw hjob ha =>
      refine .inl (.of_setActivity hj rfl (hbuffer _ rfl) fun job hjob' => ?_)
      rw [ha] at hjob'
      cases hjob'
      exact .inr ⟨_, _, hw, hjob⟩
  | lets hw hjob ha =>
      refine .inl (.of_setActivity hj rfl (hbuffer _ rfl) fun job hjob' => ?_)
      rcases ha with rfl | rfl <;> cases hjob'
  | leaves hw ha panicked =>
      refine .inl (.of_setActivity hj rfl ?_ nofun)
      exact fun job hmem => .inl (JobQueue.mem_buffer_dropReceiver hmem)
  | spawns ho conn =>
      left
      rcases hj with hmem | ⟨j, w, hw, hjob⟩
      · exact .inl hmem
      · simp only [WorkerPool.spawn] at hw
        rw [Array.getElem?_push] at hw
        split at hw
        · cases hw
          cases hjob
        · exact .inr ⟨j, w, hw, hjob⟩
  | abandons ho =>
      rcases hj with hmem | hheld
      · exact .inl (.inl (JobQueue.mem_buffer_dropReceiver (q := v.pool.queue.close) hmem))
      · exact .inl (.inr hheld)
  | starts ho =>
      rcases hj with hmem | hheld
      · exact .inl (.inl (JobQueue.mem_buffer_dropReceiver hmem))
      · exact .inl (.inr hheld)
  | @accepts job' queue hp hq =>
      obtain ⟨slots, rfl⟩ := JobQueue.items_enter_taken hq
      rcases hj with hmem | hheld
      · rcases List.mem_append.mp hmem with hmem | hmem
        · exact .inl (.inl hmem)
        · rw [List.mem_singleton.mp hmem]
          exact .inr rfl
      · exact .inl (.inr hheld)
  | parks hw hq =>
      obtain ⟨_, _, _, rfl⟩ := JobQueue.offer_parked hq
      exact .inl hj
  | refuses hq =>
      rcases hj with hmem | hheld
      · exact .inl (hbuffer _ (JobQueue.items_enter_refused hq) job hmem)
      · exact .inl (.inr hheld)
  | _ => exact .inl hj

/-- What a queue accepted stays on its record. -/
theorem accepted (h : PoolStep v v') : v'.pool.queue.accepted = v.pool.queue.accepted ∨
    ∃ job, v'.pool.queue.accepted = v.pool.queue.accepted.push job := by
  cases h with
  | asks hw ha => exact .inl (JobQueue.accepted_of_items JobQueue.items_ask)
  | takesTurn hw ha hr => exact .inl (JobQueue.accepted_of_items JobQueue.items_takeTurn)
  | takes hw ha hq =>
      obtain ⟨rest, _, rfl⟩ := JobQueue.receive_item hq
      exact .inl rfl
  | ends hw ha hq =>
      obtain ⟨_, _, rfl⟩ := JobQueue.receive_ended hq
      exact .inl rfl
  | leaves hw ha panicked => exact .inl JobQueue.accepted_dropReceiver
  | abandons ho | starts ho => exact .inl JobQueue.accepted_dropReceiver
  | @accepts job queue hp hq =>
      obtain ⟨slots, rfl⟩ := JobQueue.items_enter_taken hq
      exact .inr ⟨job, rfl⟩
  | parks hw hq =>
      obtain ⟨_, _, _, rfl⟩ := JobQueue.offer_parked hq
      exact .inl rfl
  | refuses hq => exact .inl (JobQueue.accepted_of_items (JobQueue.items_enter_refused hq))
  | _ => exact .inl rfl

theorem extended (h : PoolStep v v') : v.pool.Extends v'.pool := by
  cases h with
  | spawns ho conn =>
      exact ⟨rfl, fun k w hw => ⟨w, getElem?_push_of_some hw _, rfl⟩⟩
  | asks hw ha => exact .setActivity rfl rfl _ _
  | takesTurn hw ha hr => exact .setActivity rfl rfl _ _
  | takes hw ha hq => exact .setActivity rfl rfl _ _
  | ends hw ha hq => exact .setActivity rfl rfl _ _
  | works hw hjob ha => exact .setActivity rfl rfl _ _
  | lets hw hjob ha => exact .setActivity rfl rfl _ _
  | leaves hw ha panicked => exact .setActivity rfl rfl _ _
  | _ => exact .refl _

/-- What becomes of a pool in one step, as far as its jobs are concerned. -/
theorem follows (h : PoolStep v v') : v.pool.Follows v'.pool :=
  ⟨h.extended, h.accepted, fun _ => h.has⟩

end PoolStep

namespace Engine

/-- An execution of a job that a pool accepted, on the connection of one of its workers. -/
def RanIn (e : Engine) (i : Nat) (x : Execution) : Prop :=
  ∃ (p : WorkerPool) (job : Job) (k : Nat) (w : Worker), e.pools[i]? = some p ∧
    job ∈ p.queue.accepted ∧ job.origin = x.origin ∧ job.command = x.command ∧
    p.workers[k]? = some w ∧ w.conn = x.conn

/-- Pools have and run only what they accepted, and each counts for itself. -/
structure Traced (e : Engine) : Prop where
  jobs : ∀ (i : Nat) (p : WorkerPool) (job : Job), e.pools[i]? = some p → p.Has job →
    job ∈ p.queue.accepted
  executions : ∀ x ∈ e.executions, (∃ run index, x.origin = .direct run index) ∨ ∃ i, e.RanIn i x
  tallies : ∀ (i : Nat) (p : WorkerPool), e.pools[i]? = some p → p.tally < e.tallies.size
  apart : ∀ (i j : Nat) (p q : WorkerPool), e.pools[i]? = some p → e.pools[j]? = some q →
    i ≠ j → p.tally ≠ q.tally

variable {b : Backend} {e next : Engine} {i : Nat} {p : WorkerPool}

theorem Views.follows (hv : Views e next) (hp : e.pools[i]? = some p) :
    ∃ p', next.pools[i]? = some p' ∧ p.Follows p' := by
  obtain ⟨p', hp', hstep⟩ := hv.pool hp
  refine ⟨p', hp', ?_⟩
  rcases hstep with ⟨rfl, _⟩ | hstep
  · exact .refl _
  · exact hstep.follows

/-- A pool after a step was there before, or it was just made. -/
theorem Views.origin (hv : Views e next) {p' : WorkerPool} (hp' : next.pools[i]? = some p') :
    (∃ p, e.pools[i]? = some p ∧ p.Follows p') ∨
      i = e.pools.size ∧ p'.tally = e.tallies.size ∧ e.tallies.size < next.tallies.size ∧
        ∀ job, ¬ p'.Has job := by
  rcases hp : e.pools[i]? with _ | p
  · right
    obtain ⟨hi, ⟨capacity, _, hfresh⟩, hlt⟩ :=
      hv.fresh i _ (view?_eq_none.mpr hp) (view?_eq_some.mpr ⟨p', hp', rfl⟩)
    obtain rfl : p' = { queue := JobQueue.ofCapacity capacity, tally := e.tallies.size } :=
      congrArg PoolView.pool hfresh
    refine ⟨hi, rfl, hlt, ?_⟩
    rintro job (hmem | ⟨k, w, hw, _⟩)
    · cases hmem
    · cases hw
  · left
    obtain ⟨p'', hp'', hfollows⟩ := hv.follows hp
    rw [hp'] at hp''
    cases hp''
    exact ⟨p, rfl, hfollows⟩

/-- A step begins at most one execution: of a direct command, or of the job that a worker holds. -/
theorem Move.executions {label : Label} (h : Move b e label next) :
    next.executions = e.executions ∨
      (∃ x run index, next.executions = e.executions.push x ∧ x.origin = .direct run index) ∨
      ∃ (i k : Nat) (p : WorkerPool) (w : Worker) (job : Job) (conduct : Conduct),
        e.pools[i]? = some p ∧ p.workers[k]? = some w ∧ w.activity = .holding job ∧
        next.executions = e.executions.push ⟨w.conn, job.command, job.origin, conduct⟩ := by
  cases h with
  | stay permits => exact .inl rfl
  | latch size => exact .inl rfl
  | @worker i k p w _ hp hw h =>
      cases h with
      | @begins job failed ha hc => exact .inr (.inr ⟨i, k, p, w, job, _, hp, hw, ha, rfl⟩)
      | @collapses job ha hc => exact .inr (.inr ⟨i, k, p, w, job, _, hp, hw, ha, rfl⟩)
      | _ => exact .inl rfl
  | caller _ h =>
      cases h with
      | quiet h =>
          rcases h.executions with hsame | hdirect
          · exact .inl hsame
          · exact .inr (.inl hdirect)
      | _ => exact .inl rfl

/-- Counters are never taken away. -/
theorem Move.size_tallies {label : Label} (h : Move b e label next) :
    e.tallies.size ≤ next.tallies.size := by
  have hcount (tally : Nat) (c : Tally.Counter) :
      e.tallies.size ≤ (e.count tally c).tallies.size := by
    simp [count]
  cases h with
  | stay permits => exact Nat.le_refl _
  | latch size => exact Nat.le_refl _
  | worker hp hw h =>
      cases h with
      | counts ha | tallies ha => exact hcount _ .executed
      | countsFailure ha => exact hcount _ .failed
      | _ => exact Nat.le_refl _
  | caller _ h =>
      cases h with
      | quiet h => rw [h.tallies]
      | opens hr hw hc split =>
          simp only [openPool]
          split <;> simp
          omega
      | countsDirect hd hr | talliesDirect hd hr => exact hcount _ .executed
      | countsDirectFailure hd hr => exact hcount _ .failed
      | _ => exact Nat.le_refl _

theorem RanIn.follows {x : Execution} (hv : Views e next) (h : e.RanIn i x) : next.RanIn i x := by
  obtain ⟨p, job, k, w, hp, hjob, horigin, hcommand, hw, hconn⟩ := h
  obtain ⟨p', hp', hfollows⟩ := hv.follows hp
  obtain ⟨w', hw', hconn'⟩ := hfollows.extended.2 k w hw
  exact ⟨p', job, k, w', hp', hfollows.mem_accepted hjob, horigin, hcommand, hw',
    hconn'.trans hconn⟩

theorem Move.traced {label : Label} (h : Move b e label next) (hv : Views e next)
    (ht : e.Traced) : next.Traced := by
  refine ⟨?_, ?_, ?_, ?_⟩
  · intro i p' job hp' hhas
    rcases hv.origin hp' with ⟨p, hp, hfollows⟩ | ⟨_, _, _, hempty⟩
    · rcases hfollows.has job hhas with hold | hnew
      · exact hfollows.mem_accepted (ht.jobs i p job hp hold)
      · rw [hnew]
        exact Array.mem_push_self
    · exact absurd hhas (hempty job)
  · have hold (x : Execution) (hx : x ∈ e.executions) :
        (∃ run index, x.origin = .direct run index) ∨ ∃ i, next.RanIn i x := by
      rcases ht.executions x hx with hdirect | ⟨i, hran⟩
      · exact .inl hdirect
      · exact .inr ⟨i, hran.follows hv⟩
    intro x hx
    rcases h.executions with hsame | ⟨y, run, index, hpush, hy⟩ |
      ⟨i, k, p, w, job, conduct, hp, hw, ha, hpush⟩
    · exact hold x (hsame ▸ hx)
    · rw [hpush] at hx
      rcases Array.mem_push.mp hx with hx | rfl
      · exact hold x hx
      · exact .inl ⟨run, index, hy⟩
    · rw [hpush] at hx
      rcases Array.mem_push.mp hx with hx | rfl
      · exact hold x hx
      · have hjob := ht.jobs i p job hp (.inr ⟨k, w, hw, by rw [ha]; rfl⟩)
        have hran : e.RanIn i ⟨w.conn, job.command, job.origin, conduct⟩ :=
          ⟨p, job, k, w, hp, hjob, rfl, rfl, hw, rfl⟩
        exact .inr ⟨i, hran.follows hv⟩
  · intro i p' hp'
    rcases hv.origin hp' with ⟨p, hp, hfollows⟩ | ⟨_, htally, hlt, _⟩
    · have hlt := ht.tallies i p hp
      have hle := h.size_tallies
      rw [hfollows.extended.1]
      omega
    · omega
  · intro i j p' q' hp' hq' hne
    rcases hv.origin hp' with ⟨p, hp, hp''⟩ | ⟨hi, htally, _, _⟩ <;>
      rcases hv.origin hq' with ⟨q, hq, hq''⟩ | ⟨hj, htally', _, _⟩
    · rw [hp''.extended.1, hq''.extended.1]
      exact ht.apart i j p q hp hq hne
    · have hlt := ht.tallies i p hp
      rw [hp''.extended.1]
      omega
    · have hlt := ht.tallies j q hq
      rw [hq''.extended.1]
      omega
    · omega

theorem traced_of_reachable (h : Reachable b e) : e.Traced := by
  induction h with
  | start => exact ⟨by simp, by simp, by simp, by simp⟩
  | step label h hs ih =>
      have hviews := (step_move hs).views (housed_of_reachable h).bare
      have hbare := (step_move hs).traced (e := Engine.bare _) hviews
        ⟨ih.jobs, ih.executions, ih.tallies, ih.apart⟩
      exact ⟨hbare.jobs, hbare.executions, hbare.tallies, hbare.apart⟩

end Engine

end LoadBench
