import LoadBench.Proofs.EarlyEnd
import LoadBench.Proofs.PhaseEnd

/-!
A pooled phase over a single worker. What the worker has executed, the job that it has just taken
and the queue behind it are the jobs that the queue has accepted, in this order, however the steps
of the caller and of the worker interleave and whatever room there is. The queue accepts the jobs of
the phase in the order of their indices, so that is the order in which they are executed.
-/

namespace LoadBench

/-- Where a job comes from, and its command. -/
def Job.attempt (job : Job) : Origin × Except String Command := (job.origin, .ok job.command)

/-- The job that a worker has taken and not begun to execute. -/
def Activity.taken? : Activity → Option Job
  | .holding job => some job
  | _ => none

namespace WorkerPool

variable {p q : WorkerPool} {w : Worker} {a : Activity}

/-- The jobs of a pool that nobody has begun to execute: those that workers have taken, and behind
them those in the queue. -/
def pending (p : WorkerPool) : List Job :=
  p.workers.toList.filterMap (·.activity.taken?) ++ p.queue.buffer

/-- What is pending in a pool the pool has. -/
theorem has_of_pending {job : Job} (h : job ∈ p.pending) : p.Has job := by
  rcases List.mem_append.mp h with htaken | hbuffer
  · obtain ⟨w, hw, hjob⟩ := List.mem_filterMap.mp htaken
    obtain ⟨k, hk⟩ := Array.mem_iff_getElem?.mp (Array.mem_toList_iff.mp hw)
    refine .inr ⟨k, w, hk, ?_⟩
    cases ha : w.activity <;> rw [ha] at hjob <;> first | exact hjob | cases hjob
  · exact .inl hbuffer

theorem pending_of_one (hone : p.workers = #[w]) :
    p.pending = w.activity.taken?.toList ++ p.queue.buffer := by
  rw [pending, hone]
  cases h : w.activity.taken? <;> simp [h]

theorem workers_setActivity (hone : q.workers = #[w]) (a : Activity) :
    (q.setActivity 0 a).workers = #[{ w with activity := a }] := by
  simp only [setActivity, hone]
  rfl

theorem pending_setActivity (hone : q.workers = #[w]) (a : Activity) :
    (q.setActivity 0 a).pending = a.taken?.toList ++ q.queue.buffer :=
  pending_of_one (workers_setActivity hone a)

end WorkerPool

namespace Engine

/-- The pipeline of a pool with a single worker: what was executed since a phase began, and what is
pending behind it, is what the queue has accepted for the phase. -/
structure Carried (s : Engine) (i : Nat) (e : Engine) (p : WorkerPool) : Prop where
  pool : e.pools[i]? = some p
  one : ∃ w, p.workers = #[w]
  order : e.executions.toList.map Execution.attempt ++ p.pending.map Job.attempt =
    s.executions.toList.map Execution.attempt ++ (p.acceptedFor s.batches.size).map Job.attempt

variable {b : Backend} {e next s : Engine} {d : Driver} {p p' : WorkerPool} {w : Worker}
  {phase : Phase} {todo : List Phase} {reports : List PhaseCount} {point : Point} {turn : Turn}
  {label : Label} {i k : Nat}

/-- A step at a pool with a single worker at which nothing is overtaken. -/
def KeepsOrder (e : Engine) (i : Nat) (p : WorkerPool) (next : Engine) : Prop :=
  ∃ p' w', next.pools = e.pools.set! i p' ∧ p'.workers = #[w'] ∧
    p'.queue.accepted = p.queue.accepted ∧
    next.executions.toList.map Execution.attempt ++ p'.pending.map Job.attempt =
      e.executions.toList.map Execution.attempt ++ p.pending.map Job.attempt

/-- A step at which neither the job in hand nor the queue moves on. -/
theorem KeepsOrder.same {a : Activity} (hone : p.workers = #[w]) (q : WorkerPool)
    (hpools : next.pools = e.pools.set! i (q.setActivity 0 a)) (hq : q.workers = p.workers)
    (hitems : q.queue.items = p.queue.items) (ha : a.taken? = w.activity.taken?)
    (hexecutions : next.executions = e.executions) : KeepsOrder e i p next := by
  have hone' := hq.trans hone
  refine ⟨_, _, hpools, WorkerPool.workers_setActivity hone' a,
    JobQueue.accepted_of_items hitems, ?_⟩
  rw [WorkerPool.pending_setActivity hone', WorkerPool.pending_of_one hone, ha,
    JobQueue.buffer_of_items hitems, hexecutions]

/-- The only worker of a pool begins to execute the job that it has taken. -/
theorem KeepsOrder.begins {a : Activity} {job : Job} (hone : p.workers = #[w])
    (hjob : w.activity = .holding job) (hpools : next.pools = e.pools.set! i (p.setActivity 0 a))
    (ha : a.taken? = none) (hexecutions : next.executions =
      e.executions.push (b.answer e.executions w.conn job.command job.origin)) :
    KeepsOrder e i p next := by
  refine ⟨_, _, hpools, WorkerPool.workers_setActivity hone a, rfl, ?_⟩
  rw [WorkerPool.pending_setActivity hone, WorkerPool.pending_of_one hone, ha, hjob, hexecutions,
    Array.toList_push, List.map_append, List.append_assoc]
  rfl

theorem WorkerMove.keepsOrder (hone : p.workers = #[w]) (hlive : w.activity.isLive = true)
    (h : WorkerMove b e i 0 p w next) : KeepsOrder e i p next := by
  cases h with
  | asks ha =>
      refine .same hone { p with queue := p.queue.ask 0 } rfl rfl JobQueue.items_ask ?_ rfl
      rw [ha]
      split <;> rfl
  | takesTurn ha hr =>
      exact .same hone { p with queue := p.queue.takeTurn 0 } rfl rfl JobQueue.items_takeTurn
        (by rw [ha]; rfl) rfl
  | @takes job queue ha hq =>
      obtain ⟨rest, hbuffer, hqueue⟩ := JobQueue.receive_item hq
      have hone' : ({ p with queue } : WorkerPool).workers = #[w] := hone
      refine ⟨_, _, rfl, WorkerPool.workers_setActivity hone' _, by rw [hqueue]; rfl, ?_⟩
      rw [WorkerPool.pending_setActivity hone', WorkerPool.pending_of_one hone, ha, hbuffer, hqueue]
      rfl
  | @ends queue ha hq =>
      obtain ⟨_, _, hqueue⟩ := JobQueue.receive_ended hq
      exact .same hone { p with queue } rfl rfl (by rw [hqueue]; rfl) (by rw [ha]; rfl) rfl
  | begins ha hc => exact .begins hone ha rfl rfl rfl
  | collapses ha hc => exact .begins hone ha rfl rfl rfl
  | leaves ha =>
      rw [ha] at hlive
      cases hlive
  | finishes ha =>
      refine .same hone p rfl rfl rfl ?_ rfl
      cases hact : w.activity <;> rw [hact] at ha <;> first | rfl | cases ha
  | stalls ha | counts ha | tallies ha | countsFailure ha | completes ha hb hl | misuses ha hl =>
      exact .same hone p rfl rfl rfl (by rw [ha]; rfl) rfl

namespace Carried

variable (h : Carried s i e p)

include h

/-- Nothing moves on in the pipeline. -/
theorem left (hp' : next.pools[i]? = some p') (hworkers : p'.workers = p.workers)
    (hitems : p'.queue.items = p.queue.items)
    (hexecutions : next.executions.toList = e.executions.toList) : Carried s i next p' := by
  refine ⟨hp', hworkers ▸ h.one, ?_⟩
  rw [hexecutions, WorkerPool.pending, hworkers, JobQueue.buffer_of_items hitems,
    acceptedFor_congr (JobQueue.accepted_of_items hitems)]
  exact h.order

/-- A job of the phase comes to the end of the queue. -/
theorem accepts {job : Job} (hp' : next.pools[i]? = some p') (hworkers : p'.workers = p.workers)
    (hbuffer : p'.queue.buffer = p.queue.buffer ++ [job])
    (hpush : p'.queue.accepted = p.queue.accepted.push job) (hl : job.latch = s.batches.size)
    (hexecutions : next.executions = e.executions) : Carried s i next p' := by
  refine ⟨hp', hworkers ▸ h.one, ?_⟩
  have horder := congrArg (· ++ [job.attempt]) h.order
  rw [hexecutions, WorkerPool.pending, hworkers, hbuffer, acceptedFor_push hpush, if_pos hl]
  simp only [WorkerPool.pending, List.map_append, List.append_assoc] at horder ⊢
  exact horder

/-- The only worker takes a step. -/
theorem works (hk : KeepsOrder e i p next) : ∃ p', Carried s i next p' := by
  obtain ⟨p', w', hpools, hone, haccepted, horder⟩ := hk
  refine ⟨p', ?_, ⟨w', hone⟩, ?_⟩
  · rw [hpools]
    exact getElem?_set_self h.pool p'
  · rw [horder, acceptedFor_congr haccepted]
    exact h.order

end Carried

/-- The queue of the driver's pool after a step of a pooled phase: the same, or one more job of the
phase is at its end. -/
theorem PooledMove.fills {latch : Nat} (h : PooledMove e d phase point turn next)
    (hp : e.pools[d.pool]? = some p) (hl : point.latch? = some latch)
    (hf : PhaseRun.Fits e.batches ⟨phase, {}, point⟩) :
    next.executions = e.executions ∧ ∃ p', next.pools[d.pool]? = some p' ∧
      p'.workers = p.workers ∧ (p'.queue.items = p.queue.items ∨ ∃ job, job.latch = latch ∧
        p'.queue.buffer = p.queue.buffer ++ [job] ∧
          p'.queue.accepted = p.queue.accepted.push job) := by
  have hput (queue : JobQueue Job Unit Nat) :
      (e.putQueue d.pool queue).pools[d.pool]? = some { p with queue } := by
    unfold putQueue
    rw [modify_eq_set _ hp]
    exact getElem?_set_self hp _
  cases h with
  | @accepts _ p' latch' index job waits queue hpoint hp' hq =>
      cases hp.symm.trans hp'
      obtain ⟨slots, hqueue⟩ := JobQueue.items_enter_taken hq
      have hjob : job.latch = latch := by
        cases waits with
        | false =>
            cases hpoint
            cases hl
            exact hf.2.2.1
        | true =>
            cases hpoint
            cases hl
            exact hf.2.2.1
      exact ⟨rfl, _, hput queue, rfl, .inr ⟨job, hjob, by rw [hqueue]; rfl, by rw [hqueue]; rfl⟩⟩
  | @parks p' latch' index job queue hp' hq =>
      cases hp.symm.trans hp'
      obtain ⟨_, _, _, hqueue⟩ := JobQueue.offer_parked hq
      exact ⟨rfl, _, hput queue, rfl, .inl (by rw [hqueue]; rfl)⟩
  | @drops _ p' latch' index job waits queue hpoint hp' hq =>
      cases hp.symm.trans hp'
      exact ⟨rfl, _, hput queue, rfl, .inl (JobQueue.items_enter_refused hq)⟩
  | _ => exact ⟨rfl, p, hp, rfl, .inl rfl⟩

/-- If no pool had a job when a phase began, only the driver's pool has any while it is run. -/
theorem Going.pool_of_stored (h : Going s d phase todo reports e)
    (hclear : ∀ i job, ¬ s.Stored i job) {job : Job} (hstored : e.Stored i job) : i = d.pool := by
  obtain ⟨q, hq, hhas⟩ := hstored
  obtain ⟨q₀, hq₀, hgrows⟩ := h.pools i q hq
  rcases hgrows.has job hhas with hold | hnew
  · exact absurd ⟨q₀, hq₀, hold⟩ (hclear i job)
  · exact hnew.1

/-- A worker without a job executes nothing. -/
theorem WorkerMove.executions_of_none (h : WorkerMove b e i k p w next)
    (hnone : w.activity.job? = none) : next.executions.toList = e.executions.toList := by
  obtain ⟨l, xs, hadds, _, hxs⟩ := h.logs
  have hempty : xs = [] := by
    rw [List.eq_nil_iff_forall_not_mem]
    intro x hx
    obtain ⟨job, hjob, _⟩ := hxs x hx
    rw [hnone] at hjob
    cases hjob
  rw [hadds.executions, hempty, List.append_nil]

section Step

variable (h : Carried s d.pool e p) (hgoing : Going s d phase todo reports e)

include h hgoing

/-- Only the single worker of the driver's pool has anything to execute. -/
theorem Carried.others
    (hlive : ∀ (k : Nat) (w : Worker), p.workers[k]? = some w → w.activity.isLive = true)
    (hclear : ∀ i job, ¬ s.Stored i job) (hs : e.step b label = some next)
    (hl : label.ofCaller = false) : ∃ p', Carried s d.pool next p' := by
  have hmove := step_move hs
  have hbare : Carried s d.pool e.bare p := ⟨h.pool, h.one, h.order⟩
  suffices hnext : ∃ p', Carried s d.pool next.bare p' by
    obtain ⟨p', hp', hone, horder⟩ := hnext
    exact ⟨p', hp', hone, horder⟩
  generalize next.bare = after at hmove ⊢
  cases hmove with
  | stay permits => exact ⟨p, hbare.pool, hbare.one, hbare.order⟩
  | latch size => exact ⟨p, hbare.pool, hbare.one, hbare.order⟩
  | caller hl' _ =>
      rw [hl] at hl'
      cases hl'
  | @worker i k q w _ hq hw hwork =>
      by_cases hi : i = d.pool
      · subst hi
        cases hq.symm.trans h.pool
        obtain ⟨w', hone⟩ := h.one
        obtain ⟨rfl, rfl⟩ : k = 0 ∧ w = w' := by
          rw [hone] at hw
          obtain ⟨hlt, hget⟩ := Array.getElem?_eq_some_iff.mp hw
          obtain rfl : k = 0 := Nat.lt_one_iff.mp hlt
          exact ⟨rfl, hget.symm⟩
        exact hbare.works (hwork.keepsOrder hone (hlive 0 w hw))
      · have hnone : w.activity.job? = none := by
          by_contra hsome
          obtain ⟨job, hjob⟩ := Option.ne_none_iff_exists'.mp hsome
          exact hi (hgoing.pool_of_stored hclear ⟨q, hq, .inr ⟨k, w, hw, hjob⟩⟩)
        obtain ⟨q', a, hpools, _⟩ := hwork.works
        refine ⟨p, hbare.left ?_ rfl rfl (hwork.executions_of_none hnone)⟩
        rw [hpools, getElem?_set_ne hi]
        exact h.pool

/-- The caller executes nothing of a pooled phase, and it overtakes nothing. -/
theorem Carried.caller (hm : phase.mode = .pooled) (hreachable : Reachable b e)
    (hr : e.progress.isRunning = true) (hs : e.step b label = some next)
    (hl : label.ofCaller = true) : ∃ p', Carried s d.pool next p' := by
  cases hgoing.call with
  | entering hp | leaving _ hp =>
      obtain ⟨_, _, _, _, rfl⟩ := step_of_reads (by rw [hp]; rfl) hl hs
      exact ⟨p, h.left h.pool rfl rfl rfl⟩
  | @running before point hpoint hlatch =>
      have hf : PhaseRun.Fits e.batches ⟨phase, {}, point⟩ := by
        have hfits := (fitting_of_reachable hreachable).progress
        rwa [hpoint] at hfits
      rcases step_of_running hs hl hgoing.driver hpoint with
        ⟨_, turn, mid, hturn, hnext⟩ | ⟨_, mid, hcancel, rfl⟩
      · simp only [phaseTurn, hm] at hturn
        obtain ⟨hexecutions, p', hp', hworkers, hqueue⟩ :=
          (pooledStep_cases hturn).fills h.pool hlatch hf
        have hsame : next.executions = e.executions := by rw [hnext, executions_goOn, hexecutions]
        have hpools : next.pools = mid.pools := by
          rw [hnext]
          exact (Notes.goOn d mid todo reports turn).pools
        rw [← hpools] at hp'
        refine ⟨p', ?_⟩
        rcases hqueue with hitems | ⟨job, hjob, hbuffer, hpush⟩
        · exact h.left hp' hworkers hitems (congrArg Array.toList hsame)
        · exact h.accepts hp' hworkers hbuffer hpush hjob hsame
      · obtain ⟨_, hleft⟩ := cancelPoint_left hgoing.driver h.pool hlatch hcancel
        obtain ⟨l, xs, hadds, _, hxs⟩ := cancelPoint_logs hcancel hlatch hf
        have hempty : xs = [] := List.eq_nil_iff_forall_not_mem.mpr hxs
        obtain ⟨p', hp', hsame⟩ := hleft d.pool p h.pool
        refine ⟨p', h.left hp' hsame.workers hsame.items ?_⟩
        rw [hempty] at hadds
        exact hadds.executions.trans (List.append_nil _)
  | reported _ hp =>
      rw [hp] at hr
      cases hr

end Step

/-- A phase begins on an idle pool: its pipeline is empty. -/
theorem Idle.carried (h : Idle b s d p phase todo reports) (hone : p.workers.size = 1)
    (hs : s.step b (.act .caller) = some e) : Carried s d.pool e p := by
  obtain ⟨d', hd', rfl⟩ := step_of_planned h.planned hs
  cases h.driver.symm.trans hd'
  have hpending : p.pending = [] :=
    List.eq_nil_iff_forall_not_mem.mpr fun job hmem =>
      h.not_has job (WorkerPool.has_of_pending hmem)
  refine ⟨?_, Array.size_eq_one_iff.mp hone, ?_⟩
  · rw [pools_beginPhase]
    exact h.pool
  · rw [executions_beginPhase, hpending,
      acceptedFor_of_unmade h.reachable (Nat.le_refl _) h.pool]

/-- A pooled phase on an idle pool with a single worker, from its beginning until its call goes on
or returns. -/
theorem During.carried (hd : During b s e) (h : Idle b s d p phase todo reports)
    (hm : phase.mode = .pooled) (hb : b.Settles) (hone : p.workers.size = 1)
    (hclear : ∀ i job, ¬ s.Stored i job) : ∃ p', Carried s d.pool e p' := by
  have hready := h.ready hm
  induction hd with
  | begins hs => exact ⟨p, h.carried hone hs⟩
  | @step e next label hd hr hs ih =>
      obtain ⟨p', hcarried⟩ := ih
      have hruns := not_returned_of_isRunning hr
      have hgoing := (hd.going hready).resolve_left hruns
      have hsturdy := (hd.sturdy hready hb h.staffed).resolve_left hruns
      obtain ⟨q, hq, hstaffed⟩ := hsturdy.staffed
      cases hcarried.pool.symm.trans hq
      cases hl : label.ofCaller with
      | false => exact hcarried.others hgoing hstaffed.live hclear hs hl
      | true => exact hcarried.caller hgoing hm (hd.reachable h.reachable) hr hs hl

/-- The jobs of a phase that a queue has accepted, by the indices that they belong to. -/
theorem Filed.map_attempt {latch : Nat} (h : e.Filed i latch phase k) (hm : phase.mode = .pooled)
    (hp : e.pools[i]? = some p) :
    (p.acceptedFor latch).map Job.attempt = (List.range k).map (phase.attempt latch) := by
  have hfiled := h i p hp
  rw [if_pos rfl] at hfiled
  have hplaced := congrArg
    (List.map fun x : Nat × Except String Command => (Origin.job latch x.1, x.2)) hfiled
  rw [List.map_map, List.map_map] at hplaced
  have hindices : (List.range k).map (phase.attempt latch) = (List.range k).map
      ((fun x : Nat × Except String Command => (Origin.job latch x.1, x.2)) ∘ phase.numbered) := by
    refine List.map_congr_left fun index _ => ?_
    rw [Phase.attempt, Phase.origin_pooled hm]
    rfl
  rw [hindices, ← hplaced]
  refine List.map_congr_left fun job hjob => ?_
  obtain ⟨_, rfl⟩ := WorkerPool.mem_acceptedFor.mp hjob
  rfl

/-- How much of a phase its queue has accepted, whether the phase goes on or not. If it has ended
because a command cannot be made, that is all there was before this command. -/
theorem During.filled (hd : During b s e) (hready : Ready b s d p phase todo reports) :
    ∃ k ≤ phase.iterations, e.Filed d.pool s.batches.size phase k ∧
      ∀ message, e.progress = .returned (.panic message) →
        k < phase.iterations ∧ phase.generate k = .error message := by
  by_cases hpanic : ∃ message, e.progress = .returned (.panic message)
  · obtain ⟨message, hreturned⟩ := hpanic
    cases hd with
    | begins hs =>
        have hk := (hready.filed hs).2
        rw [hreturned] at hk
        cases hk
    | @step e' _ label hd hr hs =>
        obtain ⟨k, hle, hunique, hfiled⟩ := hd.filed hready
        have hgoing := (hd.going hready).resolve_left (not_returned_of_isRunning hr)
        have hk := hgoing.submitted_of_returned hr hs hreturned hunique
        have hnext := hgoing.filed (hd.reachable hready.reachable) hr hs hunique hfiled
        rw [hreturned] at hnext
        refine ⟨k, hle, hnext, fun message' hreturned' => ?_⟩
        obtain ⟨_, _, hends⟩ := (hgoing.abandons hready.pooled hr hk hs hreturned').reason
        cases hends with
        | panicked hlt hg => exact ⟨hlt, hg⟩
  · obtain ⟨k, hle, _, hfiled⟩ := hd.filed hready
    exact ⟨k, hle, hfiled, fun message hreturned => absurd ⟨message, hreturned⟩ hpanic⟩

/-- How far a pooled phase over a single worker has come: its attempts, and what is pending behind
them, are the first of its commands in order. -/
structure Pipelined (s : Engine) (d : Driver) (phase : Phase) (k : Nat) (e : Engine) : Prop where
  le : k ≤ phase.iterations
  order : ∃ p, e.pools[d.pool]? = some p ∧ (s.executedSince e).map Execution.attempt ++
    p.pending.map Job.attempt = (List.range k).map (phase.attempt s.batches.size)
  stumbled : ∀ message, e.progress = .returned (.panic message) →
    k < phase.iterations ∧ phase.generate k = .error message

theorem During.pipelined (hd : During b s e) (h : Idle b s d p phase todo reports)
    (hm : phase.mode = .pooled) (hb : b.Settles) (hone : p.workers.size = 1)
    (hclear : ∀ i job, ¬ s.Stored i job) : ∃ k, Pipelined s d phase k e := by
  obtain ⟨p', hcarried⟩ := hd.carried h hm hb hone hclear
  obtain ⟨k, hle, hfiled, hstumbled⟩ := hd.filled (h.ready hm)
  refine ⟨k, hle, ⟨p', hcarried.pool, ?_⟩, hstumbled⟩
  have horder := hcarried.order
  rw [(hd.heard h.driver h.planned).grown, List.map_append, List.append_assoc,
    hfiled.map_attempt hm hcarried.pool] at horder
  exact List.append_cancel_left horder

end Engine

end LoadBench
