import LoadBench.Engine.Work
import LoadBench.Proofs.PooledPhase

/-!
Work gets less. Each step of a worker takes something away from the work in its pool, and each step
of a call that runs a pooled phase takes something away from what is left of the phase and of the
queue together.
-/

namespace LoadBench

theorem foldl_add_eq_total {α : Type} (f : α → Nat) (xs : Array α) (n : Nat) :
    xs.foldl (fun n x => n + f x) n = n + total f xs := by
  rw [total, ← Array.foldl_toList]
  induction xs.toList generalizing n with
  | nil => rfl
  | cons x xs ih =>
      rw [List.foldl_cons, ih, List.map_cons, List.sum_cons]
      omega

theorem WorkerPool.work_eq (p : WorkerPool) :
    p.work = Job.work * p.queue.buffer.length + total (fun w => w.activity.work) p.workers := by
  rw [WorkerPool.work, foldl_add_eq_total, Nat.zero_add]

theorem JobQueue.length_dropReceiver {α π κ : Type} (q : JobQueue α π κ) :
    q.dropReceiver.buffer.length ≤ q.buffer.length := by
  rcases items_dropReceiver (q := q) with hsame | hdrop
  · rw [buffer_of_items hsame]
  · have hbuffer : q.dropReceiver.buffer = [] := congrArg (·.1) hdrop
    rw [hbuffer]
    exact Nat.zero_le _

/-- A worker that does something else, while its pool's queue changes. -/
theorem WorkerPool.work_setActivity {p q : WorkerPool} {k : Nat} {w : Worker}
    (hw : p.workers[k]? = some w) (hq : q.workers = p.workers) (a : Activity) :
    (q.setActivity k a).work + w.activity.work + Job.work * p.queue.buffer.length =
      p.work + a.work + Job.work * q.queue.buffer.length := by
  have hmodify := total_modify (fun w => w.activity.work) (fun w => { w with activity := a }) hw
  change _ = total (fun w => w.activity.work) p.workers + a.work at hmodify
  rw [work_eq, work_eq]
  simp only [setActivity, hq]
  omega

namespace Engine

variable {b : Backend} {e next : Engine} {i k : Nat} {p : WorkerPool} {w : Worker}

theorem work_eq (e : Engine) :
    e.work = e.progress.work e.workersOf + total WorkerPool.work e.pools :=
  foldl_add_eq_total _ _ _

/-- What a step of a worker does to the work in its pool: the worker has less to do, or it takes a
job from the queue. -/
inductive Works (p q : WorkerPool) (w : Worker) (a : Activity) : Prop
  | lessens (hless : a.work < w.activity.work)
      (hlength : q.queue.buffer.length ≤ p.queue.buffer.length)
      (hdelivered : q.queue.delivered = p.queue.delivered)
  | takes {job : Job} {rest : List Job} (ha : w.activity = .receiving) (hnew : a = .holding job)
      (hbuffer : p.queue.buffer = job :: rest) (hrest : q.queue.buffer = rest)
      (hdelivered : q.queue.delivered = p.queue.delivered.push job)

theorem WorkerMove.works (h : WorkerMove b e i k p w next) : ∃ (q : WorkerPool) (a : Activity),
    next.pools = e.pools.set! i (q.setActivity k a) ∧ q.workers = p.workers ∧ Works p q w a := by
  have hsame {a : Activity} (hpools : next.pools = e.pools.set! i (p.setActivity k a))
      (hless : a.work < w.activity.work) : ∃ (q : WorkerPool) (a : Activity),
        next.pools = e.pools.set! i (q.setActivity k a) ∧ q.workers = p.workers ∧ Works p q w a :=
    ⟨p, a, hpools, rfl, .lessens hless (Nat.le_refl _) rfl⟩
  cases h with
  | asks ha =>
      have hitems : (p.queue.ask k).items = p.queue.items := JobQueue.items_ask
      refine ⟨_, _, rfl, rfl, .lessens ?_ ?_ ?_⟩
      · rw [ha]
        split <;> simp [Activity.work]
      · exact (congrArg List.length (JobQueue.buffer_of_items hitems)).le
      · exact congrArg (·.2.2.1) hitems
  | takesTurn ha hr =>
      have hitems : (p.queue.takeTurn k).items = p.queue.items := JobQueue.items_takeTurn
      refine ⟨_, _, rfl, rfl, .lessens (by simp [ha, Activity.work]) ?_ ?_⟩
      · exact (congrArg List.length (JobQueue.buffer_of_items hitems)).le
      · exact congrArg (·.2.2.1) hitems
  | takes ha hq =>
      obtain ⟨rest, hb, rfl⟩ := JobQueue.receive_item hq
      exact ⟨_, _, rfl, rfl, .takes ha rfl hb rfl rfl⟩
  | ends ha hq =>
      obtain ⟨_, _, rfl⟩ := JobQueue.receive_ended hq
      exact ⟨_, _, rfl, rfl, .lessens (by simp [ha, Activity.work]) (Nat.le_refl _) rfl⟩
  | begins ha hc => exact hsame rfl (by simp [ha, Activity.work])
  | collapses ha hc => exact hsame rfl (by simp [ha, Activity.work])
  | stalls ha => exact hsame rfl (by simp [ha, Activity.work])
  | finishes ha =>
      refine hsame rfl ?_
      cases hact : w.activity <;> simp_all [Activity.outcome?, Activity.work]
  | counts ha | tallies ha | countsFailure ha => exact hsame rfl (by simp [ha, Activity.work])
  | completes ha hb hl => exact hsame rfl (by simp [ha, Activity.work])
  | misuses ha hl => exact hsame rfl (by simp [ha, Activity.work])
  | leaves ha =>
      refine ⟨p.dropReceiver, _, rfl, rfl, .lessens (by simp [ha, Activity.work]) ?_ ?_⟩
      · exact p.queue.length_dropReceiver
      · rcases JobQueue.items_dropReceiver (q := p.queue) with hkept | hdropped
        · exact congrArg (·.2.2.1) hkept
        · exact congrArg (·.2.2.1) hdropped

/-- A worker's step takes something away from the work in its pool. -/
theorem WorkerMove.work_lt (hp : e.pools[i]? = some p) (hw : p.workers[k]? = some w)
    (h : WorkerMove b e i k p w next) :
    total WorkerPool.work next.pools < total WorkerPool.work e.pools := by
  obtain ⟨q, a, hpools, hq, hworks⟩ := h.works
  have hset := total_set WorkerPool.work (q.setActivity k a) hp
  have hwork := WorkerPool.work_setActivity hw hq a
  rw [hpools]
  cases hworks with
  | lessens hless hlength hdelivered =>
      simp only [Job.work] at hwork
      omega
  | takes ha hnew hbuffer hrest hdelivered =>
      subst hnew
      rw [ha, hbuffer, hrest] at hwork
      simp only [Activity.work, Job.work, List.length_cons] at hwork
      omega

theorem planWork_pos (todo : List Phase) : 0 < planWork todo := by
  induction todo with
  | nil => exact Nat.one_pos
  | cons phase todo ih => exact Nat.add_pos_right _ ih

theorem total_work_set_queue {pools : Array WorkerPool} {j : Nat} {p : WorkerPool}
    (hp : pools[j]? = some p) (queue : JobQueue Job Unit Nat) :
    total WorkerPool.work (pools.set! j { p with queue }) + Job.work * p.queue.buffer.length =
      total WorkerPool.work pools + Job.work * queue.buffer.length := by
  have hset := total_set WorkerPool.work { p with queue } hp
  rw [p.work_eq, WorkerPool.work_eq] at hset
  change _ = _ + (Job.work * queue.buffer.length +
    total (fun w => w.activity.work) p.workers) at hset
  omega

section Hand

variable {progress : Progress} {run : PhaseRun} {todo : List Phase} {reports : List PhaseCount}
  {job : Job} (hr : progress = .running run todo reports) (workersOf workersOf' : Nat → Nat)

include hr

/-- Making a job and putting it in the queue costs a phase more than the job costs the pool. -/
theorem work_accepted {waits : Bool} {batches : Array Batch} (hf : run.Fits batches)
    (hh : progress.hand = some (job, waits)) :
    progress.accepted.work workersOf + Job.work < progress.work workersOf' := by
  subst hr
  obtain ⟨phase, before, point⟩ := run
  cases point with
  | offering latch index job' | waiting latch index job' =>
      have hi : index < phase.iterations := hf.1
      simp only [Progress.accepted, Progress.work, Point.work, Phase.commandWork, Job.work]
      omega
  | _ => cases hh

theorem work_parked (hh : progress.hand = some (job, false)) :
    progress.parked.work workersOf < progress.work workersOf' := by
  subst hr
  obtain ⟨phase, before, point⟩ := run
  cases point with
  | offering latch index job' =>
      simp only [Progress.parked, Progress.work, Point.work]
      omega
  | _ => cases hh

end Hand

/-- A call that runs a pooled phase takes something away from what is left of the phase and of the
queue together. -/
theorem CallerMove.work_lt {d : Driver} {run : PhaseRun} {todo : List Phase}
    {reports : List PhaseCount} {latch : Nat} (h : CallerMove e next) (hd : e.driver = some d)
    (hr : e.progress = .running run todo reports) (hl : run.point.latch? = some latch)
    (hf : run.Fits e.batches) : next.work < e.work := by
  have hbefore : e.progress.work e.workersOf =
      run.point.work run.phase.iterations + planWork todo := by rw [hr]; rfl
  have hplan := planWork_pos todo
  rw [work_eq, work_eq]
  cases h with
  | quiet h =>
      rcases h.before with hplain | ⟨answer, hanswer⟩
      · rw [hr, Progress.plain, Point.pooled_of_latch? hl] at hplain
        cases hplain
      · have hpools : total WorkerPool.work next.pools = total WorkerPool.work e.pools := by
          rcases h.pools with hsame | ⟨pool, hdialed⟩
          · rw [hsame]
          · rw [hdialed]
            exact total_modify_eq _ _ _ _ fun p _ => rfl
        rw [hanswer, hpools, hbefore]
        simp only [Progress.work]
        omega
  | @generates phase before latch' index _ _ command hr' hm hi hg =>
      cases hr.symm.trans hr'
      rw [hbefore]
      change Phase.commandWork * (phase.iterations - index) + 3 + planWork todo +
          total WorkerPool.work e.pools <
        Phase.commandWork * (phase.iterations - index) + 4 + planWork todo + _
      omega
  | @awaits phase before latch' index _ _ hr' hm hi =>
      cases hr.symm.trans hr'
      rw [hbefore]
      change 3 + planWork todo + total WorkerPool.work e.pools <
        Phase.commandWork * (phase.iterations - index) + 4 + planWork todo + _
      omega
  | returns hr' hm hl' =>
      cases hr.symm.trans hr'
      rw [hbefore]
      change 2 + planWork todo + total WorkerPool.work e.pools < 3 + planWork todo + _
      omega
  | @accepts d' p job waits queue hd' hp hh hq =>
      obtain ⟨slots, rfl⟩ := JobQueue.items_enter_taken hq
      have hpools : total WorkerPool.work
          (e.pools.set! d'.pool { p with queue := { p.queue with slots }.push job }) =
            Job.work + total WorkerPool.work e.pools := by
        have hset := total_work_set_queue hp ({ p.queue with slots }.push job)
        simp only [JobQueue.push, List.length_append, List.length_singleton, Job.work] at hset ⊢
        omega
      change e.progress.accepted.work _ + total WorkerPool.work (e.pools.set! d'.pool _) < _
      rw [hpools, ← Nat.add_assoc]
      exact Nat.add_lt_add_right (work_accepted hr _ _ hf hh) _
  | @parks d' p job queue hd' hp hh hq =>
      obtain ⟨_, _, _, hqueue⟩ := JobQueue.offer_parked hq
      have hpools := total_work_set_queue hp queue
      rw [show queue.buffer = p.queue.buffer by rw [hqueue], Nat.add_right_cancel_iff] at hpools
      change e.progress.parked.work _ + total WorkerPool.work (e.pools.set! d'.pool _) < _
      rw [hpools]
      exact Nat.add_lt_add_right (work_parked hr _ _ hh) _
  | @drops d' p job waits queue hd' hp hh hq answer =>
      have hpools := total_work_set_queue hp queue
      rw [JobQueue.buffer_of_items (JobQueue.items_enter_refused hq)] at hpools
      change 0 + total WorkerPool.work (e.pools.set! d'.pool _) < _
      omega
  | forgets hh answer =>
      change 0 + total WorkerPool.work e.pools < _
      omega
  | withdraws hh answer =>
      have hpools : total WorkerPool.work (withdrawDriven e.pools e.driver) =
          total WorkerPool.work e.pools := by
        rw [hd]
        exact total_modify_eq _ _ _ _ fun p _ => rfl
      change 0 + total WorkerPool.work (withdrawDriven e.pools e.driver) < _
      omega
  | countsDirect hd' hr' | talliesDirect hd' hr' | countsDirectFailure hd' hr' =>
      cases hr.symm.trans hr'
      cases hl
  | undertakes hr' | opens hr' | closes hd' hr' => simp [hr, Progress.atRest] at hr'
  | spawns hr' | abandons hr' | starts hr' | beginsPhase hd' hr' | entersPhase hd' hr'
  | submits hd' hp hr' | submitsParked hd' hp hr' | submitsDropped hd' hp hr' =>
      cases hr.symm.trans hr'

/-- A call that reads a counter has one step less before it. -/
theorem work_afterRead {progress : Progress} (hr : progress.reads = true)
    (load : Tally.Counter → Nat) (workersOf workersOf' : Nat → Nat) :
    (progress.afterRead load).work workersOf < progress.work workersOf' := by
  cases progress with
  | entering phase executed entry todo reports =>
      simp only [Progress.afterRead, Progress.work]
      omega
  | leaving phase before executed todo reports =>
      cases executed with
      | none => exact Nat.add_lt_add_right Nat.one_lt_two _
      | some executed => exact Nat.lt_add_of_pos_left Nat.one_pos
  | _ => cases hr

/-- What is left of a phase that is being run depends on no pool. -/
theorem work_of_isRunning {progress : Progress} (hr : progress.isRunning = true)
    (workersOf workersOf' : Nat → Nat) : progress.work workersOf = progress.work workersOf' := by
  cases progress with
  | entering | running | leaving => rfl
  | _ => cases hr

theorem work_of_reads {label : Label} (hr : e.progress.reads = true) (hl : label.ofCaller = true)
    (hs : e.step b label = some next) : next.work < e.work := by
  obtain ⟨_, _, _, _, rfl⟩ := step_of_reads hr hl hs
  rw [work_eq, work_eq]
  exact Nat.add_lt_add_right (work_afterRead hr _ _ _) _

/-- While a phase is being run a worker takes work away, and nothing that happens outside adds
any. -/
theorem Move.work_of_others {label : Label} (h : Move b e label next)
    (hl : label.ofCaller = false) (hr : e.progress.isRunning = true) :
    next.work ≤ e.work ∧ ∀ actor, label = .act actor → next.work < e.work := by
  cases h with
  | stay permits => exact ⟨Nat.le_refl _, nofun⟩
  | latch size => exact ⟨Nat.le_refl _, nofun⟩
  | worker hp hw h =>
      have hless : next.work < e.work := by
        rw [work_eq, work_eq, h.progress, work_of_isRunning hr _ e.workersOf]
        exact Nat.add_lt_add_left (h.work_lt hp hw) _
      exact ⟨hless.le, fun _ _ => hless⟩
  | caller hl' _ =>
      rw [hl] at hl'
      cases hl'

section Run

variable {start : Engine} {d : Driver} {phase : Phase} {todo : List Phase}
  {reports : List PhaseCount}

/-- While a pooled phase is being run, its call takes work away. -/
theorem Going.caller_work {label : Label} (h : Going start d phase todo reports e)
    (hreachable : Reachable b e) (hr : e.progress.isRunning = true)
    (hl : label.ofCaller = true) (hs : e.step b label = some next) : next.work < e.work := by
  cases h.call with
  | entering hp | leaving _ hp => exact work_of_reads (by rw [hp]; rfl) hl hs
  | running hp hlatch =>
      have hfits := (fitting_of_reachable hreachable).progress
      rw [hp] at hfits
      exact ((step_move hs).of_caller hl).work_lt h.driver hp hlatch hfits
  | reported _ hp =>
      rw [hp] at hr
      cases hr

/-- While a phase is being run, what happens adds no work, and steps take some away. -/
theorem Going.work {label : Label} (h : Going start d phase todo reports e)
    (hreachable : Reachable b e) (hr : e.progress.isRunning = true)
    (hs : e.step b label = some next) :
    next.work ≤ e.work ∧ ∀ actor, label = .act actor → next.work < e.work := by
  cases hl : label.ofCaller with
  | false => exact (step_move hs).work_of_others hl hr
  | true =>
      have hless := h.caller_work hreachable hr hl hs
      exact ⟨hless.le, fun _ _ => hless⟩

end Run

end Engine

end LoadBench
