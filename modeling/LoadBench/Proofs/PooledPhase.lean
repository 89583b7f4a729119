import LoadBench.Proofs.Records
import LoadBench.Proofs.Survival

/-!
A pooled phase from its beginning until its call goes on. Meanwhile the driver stays the same, its
queue accepts nothing but the jobs of the phase, and no other queue accepts anything. So whatever
the pool counts meanwhile was counted for a job of the phase or for one that was left over.
-/

namespace LoadBench

/-- The latch of a pooled phase. -/
def Point.latch? : Point → Option Nat
  | .generating latch _ | .offering latch _ _ | .waiting latch _ _ | .awaiting latch => some latch
  | _ => none

theorem Point.pooled_of_latch? {point : Point} {latch : Nat} (h : point.latch? = some latch) :
    point.pooled = true := by
  cases point <;> first | rfl | cases h

/-- Whether a phase is being run, from the first look at its counters to the last. -/
def Progress.isRunning : Progress → Bool
  | .entering _ _ _ _ _ | .running _ _ _ | .leaving _ _ _ _ _ => true
  | _ => false

/-- The job that a pooled phase offers is one of its own. -/
theorem PhaseRun.Fits.hand {batches : Array Batch} {run : PhaseRun} {todo : List Phase}
    {reports : List PhaseCount} {latch : Nat} {job : Job} {waits : Bool} (h : run.Fits batches)
    (hl : run.point.latch? = some latch)
    (hh : (Progress.running run todo reports).hand = some (job, waits)) :
    job.latch = latch ∧ run.phase.generate job.index = .ok job.command := by
  obtain ⟨phase, before, point⟩ := run
  cases point with
  | offering latch' index job' | waiting latch' index job' =>
      obtain ⟨_, _, hlatch, hindex, hg⟩ := h
      cases hh
      cases hl
      exact ⟨hlatch, hindex ▸ hg⟩
  | _ => cases hh

namespace Engine

/-- The states of a run from the beginning of a phase until its call goes on. -/
inductive During (b : Backend) (start : Engine) : Engine → Prop
  | begins {e : Engine} (hs : start.step b (.act .caller) = some e) : During b start e
  | step {e next : Engine} (label : Label) (h : During b start e)
      (hr : e.progress.isRunning = true) (hs : e.step b label = some next) : During b start next

/-- A pooled phase is about to begin. -/
structure Ready (b : Backend) (start : Engine) (d : Driver) (p : WorkerPool) (phase : Phase)
    (todo : List Phase) (reports : List PhaseCount) : Prop where
  reachable : Reachable b start
  driver : start.driver = some d
  pool : start.pools[d.pool]? = some p
  planned : start.progress = .planning (phase :: todo) reports
  pooled : phase.mode = .pooled

/-- A step adds to no counter, or to one counter of a pool for the job of one of its workers. -/
inductive Counting (e next : Engine) : Prop
  | nothing (ht : next.tallies = e.tallies) (hr : ∀ c, next.additions c = e.additions c)
  | one {i k : Nat} {p : WorkerPool} {w : Worker} {job : Job} {c : Tally.Counter}
      (hp : e.pools[i]? = some p) (hw : p.workers[k]? = some w)
      (ha : w.activity.counts? c = some job)
      (ht : next.tallies = e.tallies.modify p.tally (·.add c))
      (hr : ∀ c', next.additions c' = e.additions c' ++ if c = c' then [job.origin] else [])

/-- A step while a pooled phase is being run, unless the call returns. -/
structure PhaseMove (b : Backend) (d : Driver) (phase : Phase) (latch : Nat) (e next : Engine) :
    Prop where
  driver : next.driver = e.driver
  counting : Counting e next
  /-- Nothing but a job of the phase is accepted. -/
  accepts : ∀ (i : Nat) (p p' : WorkerPool) (job : Job), e.pools[i]? = some p →
    next.pools[i]? = some p' → p'.queue.accepted = p.queue.accepted.push job →
    i = d.pool ∧ job.latch = latch ∧ phase.generate job.index = .ok job.command
  /-- No job is lost but with a worker that does not go on. -/
  lost : next.lost = e.lost ∨ ∃ (i k : Nat) (p : WorkerPool) (w : Worker) (job : Job),
    e.pools[i]? = some p ∧ p.workers[k]? = some w ∧ w.activity.job? = some job ∧
      next.lost = e.lost ++ [job.origin] ∧ Dies b e p w

/-- Where a call goes that offers the jobs of a pooled phase or waits for its latch: it goes on with
that, or the latch is released. -/
inductive Onward (run : PhaseRun) (todo : List Phase) (reports : List PhaseCount) (latch : Nat)
    (next : Engine) : Prop
  | on (point : Point) (hr : next.progress = .running { run with point } todo reports)
      (hl : point.latch? = some latch)
  | released (hl : next.isReleased latch = true)
      (hr : next.progress = .leaving run.phase run.before none todo reports)

variable {b : Backend} {e next start : Engine} {d : Driver} {p : WorkerPool} {run : PhaseRun}
  {phase : Phase} {todo : List Phase} {reports : List PhaseCount} {latch : Nat}

/-- A call that runs a phase has not returned. -/
theorem not_returned_of_isRunning (h : e.progress.isRunning = true) :
    ¬∃ answer, e.progress = .returned answer := by
  rintro ⟨answer, hreturned⟩
  rw [hreturned] at h
  cases h

theorem not_returned_of_planning (h : e.progress = .planning todo reports) :
    ¬∃ answer, e.progress = .returned answer := by
  rintro ⟨answer, hreturned⟩
  cases h.symm.trans hreturned

theorem ne_push {α : Type} (xs : Array α) (x : α) : xs ≠ xs.push x := by
  intro h
  have hsize := congrArg Array.size h
  rw [Array.size_push] at hsize
  omega

/-- A worker counts its job, or it counts nothing. -/
theorem WorkerMove.counting {i k : Nat} {p : WorkerPool} {w : Worker}
    (hp : e.pools[i]? = some p) (hw : p.workers[k]? = some w) (h : WorkerMove b e i k p w next) :
    Counting e next := by
  cases h with
  | counts ha =>
      refine .one (c := .executed) hp hw (by rw [ha]; rfl) rfl fun c' => ?_
      cases c' <;>
        simp [additions, put, setPool, record, countExecution, count, Event.addition?]
  | tallies ha =>
      refine .one (c := .executed) hp hw (by rw [ha]; rfl) rfl fun c' => ?_
      cases c' <;>
        simp [additions, put, setPool, record, countExecution, count, Event.addition?]
  | countsFailure ha =>
      refine .one (c := .failed) hp hw (by rw [ha]; rfl) rfl fun c' => ?_
      cases c' <;>
        simp [additions, put, setPool, record, countFailure, count, Event.addition?]
  | begins ha hc | collapses ha hc =>
      exact .nothing rfl fun c => by
        simp [additions, put, setPool, record, beginExecution, Event.addition?]
  | finishes ha =>
      exact .nothing rfl fun c => by
        simp [additions, put, setPool, record, finishJob, Event.addition?]
  | completes ha hb hl | misuses ha hl | leaves ha =>
      exact .nothing rfl fun c => by simp [additions, put, setPool, record, Event.addition?]
  | _ => exact .nothing rfl fun c => rfl

/-- A worker's step makes no queue accept anything. -/
theorem WorkerMove.accepted {i k : Nat} {p : WorkerPool} {w : Worker}
    (hp : e.pools[i]? = some p) (h : WorkerMove b e i k p w next) {j : Nat} {q q' : WorkerPool}
    (hq : e.pools[j]? = some q) (hq' : next.pools[j]? = some q') :
    q'.queue.accepted = q.queue.accepted := by
  have hput {p' : WorkerPool} {a : Activity}
      (hpools : next.pools = e.pools.set! i (p'.setActivity k a))
      (hsame : p'.queue.accepted = p.queue.accepted) : q'.queue.accepted = q.queue.accepted := by
    rw [hpools] at hq'
    rcases getElem?_set_cases hq' with ⟨rfl, rfl⟩ | ⟨_, hold⟩
    · rw [hp] at hq
      cases hq
      exact hsame
    · rw [hq] at hold
      cases hold
      rfl
  cases h with
  | asks ha => exact hput rfl (JobQueue.accepted_of_items JobQueue.items_ask)
  | takesTurn ha hr => exact hput rfl (JobQueue.accepted_of_items JobQueue.items_takeTurn)
  | takes ha hq =>
      obtain ⟨rest, _, rfl⟩ := JobQueue.receive_item hq
      exact hput rfl rfl
  | ends ha hq =>
      obtain ⟨_, _, rfl⟩ := JobQueue.receive_ended hq
      exact hput rfl rfl
  | leaves ha => exact hput rfl JobQueue.accepted_dropReceiver
  | _ => exact hput rfl rfl

/-- A phase keeps its latch once its job is in the queue, and while it waits there. -/
theorem accepted_running (run : PhaseRun) (todo : List Phase) (reports : List PhaseCount) :
    ∃ point,
      (Progress.running run todo reports).accepted = .running { run with point } todo reports ∧
        point.latch? = run.point.latch? := by
  obtain ⟨phase, before, point⟩ := run
  cases point <;> exact ⟨_, rfl, rfl⟩

theorem parked_running (run : PhaseRun) (todo : List Phase) (reports : List PhaseCount) :
    ∃ point,
      (Progress.running run todo reports).parked = .running { run with point } todo reports ∧
        point.latch? = run.point.latch? := by
  obtain ⟨phase, before, point⟩ := run
  cases point <;> exact ⟨_, rfl, rfl⟩

theorem accepted_ne_push {i : Nat} {q q' : WorkerPool} (hq : e.pools[i]? = some q)
    (hq' : e.pools[i]? = some q') (job : Job) :
    q'.queue.accepted ≠ q.queue.accepted.push job := by
  rw [hq] at hq'
  cases hq'
  exact ne_push _ _

theorem CallerMove.pooled (h : CallerMove e next) (hd : e.driver = some d)
    (hr : e.progress = .running run todo reports) (hl : run.point.latch? = some latch)
    (hf : run.Fits e.batches) : (∃ answer, next.progress = .returned answer) ∨
      PhaseMove b d run.phase latch e next ∧ Onward run todo reports latch next := by
  have hsame (i : Nat) (q q' : WorkerPool) (job : Job) (hq : e.pools[i]? = some q)
      (hq' : e.pools[i]? = some q') (hpush : q'.queue.accepted = q.queue.accepted.push job) :
      i = d.pool ∧ job.latch = latch ∧ run.phase.generate job.index = .ok job.command :=
    absurd hpush (accepted_ne_push hq hq' job)
  cases h with
  | quiet h =>
      rcases h.before with hplain | hreturned
      · rw [hr, Progress.plain, Point.pooled_of_latch? hl] at hplain
        cases hplain
      · exact .inl hreturned
  | generates hr' hm hi hg =>
      cases hr.symm.trans hr'
      refine .inr ⟨⟨rfl, .nothing rfl fun c => ?_, hsame, .inl ?_⟩, .on _ rfl hl⟩
      · simp [additions, record, newJob, Event.addition?]
      · simp [Engine.lost, record, newJob]
  | awaits hr' hm hi =>
      cases hr.symm.trans hr'
      exact .inr ⟨⟨rfl, .nothing rfl fun c => rfl, hsame, .inl rfl⟩, .on _ rfl hl⟩
  | returns hr' hm hl' =>
      cases hr.symm.trans hr'
      cases hl
      exact .inr ⟨⟨rfl, .nothing rfl fun c => rfl, hsame, .inl rfl⟩, .released hl' rfl⟩
  | @accepts d' p job waits queue hd' hp hh hq =>
      cases hd.symm.trans hd'
      rw [hr] at hh
      obtain ⟨hjob, hg⟩ := hf.hand hl hh
      obtain ⟨point, hpoint, hlatch⟩ := accepted_running run todo reports
      refine .inr ⟨⟨rfl, .nothing rfl fun c => rfl, ?_, .inl rfl⟩,
        .on point ((congrArg Progress.accepted hr).trans hpoint) (hlatch.trans hl)⟩
      · intro i q q' job' hq' hq'' hpush
        change (e.pools.set! d.pool _)[i]? = _ at hq''
        rcases getElem?_set_cases hq'' with ⟨rfl, rfl⟩ | ⟨_, hold⟩
        · rw [hp] at hq'
          cases hq'
          obtain ⟨slots, rfl⟩ := JobQueue.items_enter_taken hq
          obtain ⟨rfl, _⟩ := Array.push_eq_push.mp hpush
          exact ⟨rfl, hjob, hg⟩
        · exact hsame i q q' job' hq' hold hpush
  | @parks d' p job queue hd' hp hh hq =>
      obtain ⟨point, hpoint, hlatch⟩ := parked_running run todo reports
      refine .inr ⟨⟨rfl, .nothing rfl fun c => rfl, ?_, .inl rfl⟩,
        .on point ((congrArg Progress.parked hr).trans hpoint) (hlatch.trans hl)⟩
      · intro i q q' job' hq' hq'' hpush
        change (e.pools.set! d'.pool _)[i]? = _ at hq''
        rcases getElem?_set_cases hq'' with ⟨rfl, rfl⟩ | ⟨_, hold⟩
        · rw [hp] at hq'
          cases hq'
          obtain ⟨_, _, _, rfl⟩ := JobQueue.offer_parked hq
          exact (ne_push _ _ hpush).elim
        · exact hsame i q q' job' hq' hold hpush
  | drops hd' hp hh hq answer => exact .inl ⟨answer, rfl⟩
  | forgets hh answer => exact .inl ⟨answer, rfl⟩
  | withdraws hh answer => exact .inl ⟨answer, rfl⟩
  | undertakes hr' | opens hr' | closes hd' hr' => simp [hr, Progress.atRest] at hr'
  | countsDirect hd' hr' | talliesDirect hd' hr' | countsDirectFailure hd' hr' =>
      cases hr.symm.trans hr'
      cases hl
  | spawns hr' | abandons hr' | starts hr' | beginsPhase hd' hr' | entersPhase hd' hr'
  | submits hd' hp hr' | submitsParked hd' hp hr' | submitsDropped hd' hp hr' =>
      cases hr.symm.trans hr'

/-- What is not a step of the caller's leaves its call where it is. -/
theorem Move.progress {label : Label} (h : Move b e label next) (hl : label.ofCaller = false) :
    next.progress = e.progress := by
  cases h with
  | stay permits | latch size => rfl
  | worker hp hw h => exact h.progress
  | caller hl' _ =>
      rw [hl] at hl'
      cases hl'

/-- Apart from the caller somebody counts only by a worker's step. -/
theorem Move.counting {label : Label} (h : Move b e label next) (hl : label.ofCaller = false) :
    Counting e next := by
  cases h with
  | stay permits | latch size => exact .nothing rfl fun _ => rfl
  | worker hp hw h => exact h.counting hp hw
  | caller hl' _ =>
      rw [hl] at hl'
      cases hl'

/-- What is not a step of the caller's makes no queue accept anything. -/
theorem Move.others {label : Label} (h : Move b e label next) (hl : label.ofCaller = false)
    (d : Driver) (phase : Phase) (latch : Nat) : PhaseMove b d phase latch e next := by
  have hcounting := h.counting hl
  cases h with
  | stay permits | latch size =>
      refine ⟨rfl, hcounting, ?_, .inl rfl⟩
      intro i q q' job hq hq' hpush
      exact absurd hpush (accepted_ne_push hq hq' job)
  | worker hp hw h =>
      refine ⟨h.driver, hcounting, ?_, ?_⟩
      · intro i q q' job hq hq' hpush
        rw [h.accepted hp hq hq'] at hpush
        exact (ne_push _ _ hpush).elim
      · rcases h.lost with hsame | ⟨job, hj, hlost, hdies⟩
        · exact .inl hsame
        · exact .inr ⟨_, _, _, _, job, hp, hw, hj, hlost, hdies⟩
  | caller hl' _ =>
      rw [hl] at hl'
      cases hl'

/-- A call that reads a counter stays where it is until it has. -/
theorem progress_of_reads {label : Label} (hr : e.progress.reads = true)
    (hs : e.step b label = some next) : next.progress = e.progress ∨
      ∃ d, e.driver = some d ∧ next.progress = e.progress.afterRead (e.load d.tally) := by
  cases hl : label.ofCaller with
  | false => exact .inl ((step_move hs).progress hl)
  | true =>
      obtain ⟨_, d, notices, hd, rfl⟩ := step_of_reads hr hl hs
      exact .inr ⟨d, hd, rfl⟩

theorem not_returned_of_reads {label : Label} (hr : e.progress.reads = true)
    (hs : e.step b label = some next) : ¬∃ answer, next.progress = .returned answer := by
  rintro ⟨answer, hreturned⟩
  rcases progress_of_reads hr hs with hsame | ⟨d, _, hafter⟩
  · rw [← hsame, hreturned] at hr
    cases hr
  · rw [hafter] at hreturned
    generalize e.progress = progress at hr hreturned
    cases progress with
    | entering => cases hreturned
    | leaving phase before executed todo reports => cases executed <;> cases hreturned
    | _ => cases hr

/-- A call that reads its counters for the last time goes on with that, or it has its report. -/
theorem step_leaving {label : Label} {before : Tally} {executed : Option Nat}
    (hr : e.progress = .leaving phase before executed todo reports)
    (hs : e.step b label = some next) :
    (∃ executed', next.progress = .leaving phase before executed' todo reports) ∨
      ∃ after, next.progress = .planning todo (reports ++ [phase.report before after]) := by
  rcases progress_of_reads (by rw [hr]; rfl) hs with hsame | ⟨d, _, hafter⟩
  · exact .inl ⟨executed, hsame.trans hr⟩
  · rw [hafter, hr]
    cases executed with
    | none => exact .inl ⟨_, rfl⟩
    | some executed => exact .inr ⟨_, rfl⟩

theorem Move.pooled {label : Label} (h : Move b e label next) (hd : e.driver = some d)
    (hr : e.progress = .running run todo reports) (hl : run.point.latch? = some latch)
    (hf : run.Fits e.batches) : (∃ answer, next.progress = .returned answer) ∨
      PhaseMove b d run.phase latch e next ∧ Onward run todo reports latch next := by
  cases hl' : label.ofCaller with
  | false =>
      exact .inr ⟨h.others hl' d run.phase latch, .on _ ((h.progress hl').trans hr) hl⟩
  | true => exact (h.of_caller hl').pooled hd hr hl hf

theorem PhaseMove.of_bare (h : PhaseMove b d phase latch e.bare next.bare) :
    PhaseMove b d phase latch e next := by
  refine ⟨h.driver, ?_, h.accepts, ?_⟩
  · cases h.counting with
    | nothing ht hr => exact .nothing ht hr
    | one hp hw ha ht hr => exact .one hp hw ha ht hr
  · rcases h.lost with hsame | ⟨i, k, p, w, job, hp, hw, hj, hlost, hdies⟩
    · exact .inl hsame
    · exact .inr ⟨i, k, p, w, job, hp, hw, hj, hlost, hdies.of_bare⟩

/-- The same for the steps of the engine. -/
theorem step_pooled {label : Label} (hs : e.step b label = some next) (hd : e.driver = some d)
    (hr : e.progress = .running run todo reports) (hl : run.point.latch? = some latch)
    (hf : run.Fits e.batches) : (∃ answer, next.progress = .returned answer) ∨
      PhaseMove b d run.phase latch e next ∧ Onward run todo reports latch next := by
  rcases (step_move hs).pooled hd hr hl hf with hreturned | ⟨hm, honward⟩
  · exact .inl hreturned
  · refine .inr ⟨hm.of_bare, ?_⟩
    cases honward with
    | on point hr hl => exact .on point hr hl
    | released hl hr => exact .released hl hr

/-- A latch that is released stays so. -/
theorem isReleased_step {label : Label} (h : Reachable b e) (hs : e.step b label = some next)
    (hr : e.isReleased latch = true) : next.isReleased latch = true := by
  obtain ⟨batch, hb, hreleased⟩ : ∃ batch, e.batches[latch]? = some batch ∧
      batch.latch.released = true := by simpa [isReleased, Option.any_eq_true] using hr
  obtain ⟨batch', hb', _, _, _, hlatch⟩ :=
    (step_move hs).batch (fitting_of_reachable h).bare hb
  change next.batches[latch]? = some batch' at hb'
  rcases hlatch with hsame | ⟨_, _, _, _, _, _, _, _, _, _, hcount⟩
  · simp [isReleased, hb', hsame, hreleased]
  · rw [(Latch.countDown?_eq_none_iff _).mpr hreleased] at hcount
    cases hcount

/-- A pool that has and accepted only what it had and accepted before, and what is new. -/
structure Grows (new : Job → Prop) (p p' : WorkerPool) : Prop where
  tally : p'.tally = p.tally
  keeps : ∀ job ∈ p.queue.accepted, job ∈ p'.queue.accepted
  accepted : ∀ job ∈ p'.queue.accepted, job ∈ p.queue.accepted ∨ new job
  has : ∀ job, p'.Has job → p.Has job ∨ new job

theorem Grows.follows {new : Job → Prop} {p p' p'' : WorkerPool} (h : Grows new p p')
    (hf : p'.Follows p'')
    (hnew : ∀ job, p''.queue.accepted = p'.queue.accepted.push job → new job) :
    Grows new p p'' where
  tally := hf.extended.1.trans h.tally
  keeps job hjob := hf.mem_accepted (h.keeps job hjob)
  accepted job hjob := by
    rcases hf.accepted with hsame | ⟨job', hpush⟩
    · exact h.accepted job (hsame ▸ hjob)
    · rw [hpush] at hjob
      rcases Array.mem_push.mp hjob with hold | rfl
      · exact h.accepted job hold
      · exact .inr (hnew job hpush)
  has job hjob := by
    rcases hf.has job hjob with hold | hpush
    · exact h.has job hold
    · exact .inr (hnew job hpush)

/-- The jobs of a pooled phase that begins in a state, as far as a pool is concerned. -/
def OfPhase (start : Engine) (d : Driver) (phase : Phase) (i : Nat) (job : Job) : Prop :=
  i = d.pool ∧ job.latch = start.batches.size ∧ phase.generate job.index = .ok job.command

/-- Where the call of a pooled phase stands that began in a state. -/
inductive PooledCall (start : Engine) (d : Driver) (phase : Phase) (todo : List Phase)
    (reports : List PhaseCount) (e : Engine) : Prop
  | entering (hr : e.progress = .entering phase (start.load d.tally .executed)
      (.pooled start.batches.size) todo reports)
  | running {before : Tally} {point : Point}
      (hr : e.progress = .running ⟨phase, before, point⟩ todo reports)
      (hl : point.latch? = some start.batches.size)
  | leaving {before : Tally} {executed : Option Nat}
      (hl : e.isReleased start.batches.size = true)
      (hr : e.progress = .leaving phase before executed todo reports)
  | reported {before after : Tally} (hl : e.isReleased start.batches.size = true)
      (hr : e.progress = .planning todo (reports ++ [phase.report before after]))

/-- What is the case while a pooled phase is being run, and when it is done. -/
structure Going (start : Engine) (d : Driver) (phase : Phase) (todo : List Phase)
    (reports : List PhaseCount) (e : Engine) : Prop where
  driver : e.driver = some d
  call : PooledCall start d phase todo reports e
  pool : ∃ p, e.pools[d.pool]? = some p
  pools : ∀ (i : Nat) (p' : WorkerPool), e.pools[i]? = some p' → ∃ p : WorkerPool,
    start.pools[i]? = some p ∧ Grows (OfPhase start d phase i) p p'

/-- A phase may begin as soon as a worker was started. -/
theorem ready_of_opening {conduct : Conduct} {iterations : Nat}
    (hr : Engine.run (.always conduct) {} (opening iterations) = some start) :
    ∃ p, Ready (.always conduct) start ⟨0, 0, none⟩ p (.pings iterations) [] [] ∧
      p.workers = #[⟨0, .idle⟩] ∧ p.queue.buffer = [] ∧ p.tally = 0 := by
  have hreachable := Reachable.start.run hr
  cases hr
  exact ⟨_, ⟨hreachable, rfl, rfl, rfl, rfl⟩, rfl, rfl, rfl⟩

theorem Ready.begun (h : Ready b start d p phase todo reports)
    (hs : start.step b (.act .caller) = some e) : start.beginPhase d phase todo reports = e := by
  obtain ⟨d', hd, hbegun⟩ := step_of_planned h.planned hs
  cases h.driver.symm.trans hd
  exact hbegun

theorem Ready.pool_beginPhase (h : Ready b start d p phase todo reports) :
    (start.beginPhase d phase todo reports).pools[d.pool]? = some p := by
  rw [pools_beginPhase]
  exact h.pool

theorem Ready.begins (h : Ready b start d p phase todo reports)
    (hs : start.step b (.act .caller) = some e) : Going start d phase todo reports e := by
  obtain rfl := h.begun hs
  refine ⟨driver_beginPhase.trans h.driver, .entering ?_, ⟨p, h.pool_beginPhase⟩, ?_⟩
  · rw [beginPhase_of_pooled h.pooled]
  · intro i q hq
    rw [pools_beginPhase] at hq
    exact ⟨q, hq, rfl, fun _ => id, fun _ => .inl, fun _ => .inl⟩

theorem Counting.size_tallies (h : Counting e next) : next.tallies.size = e.tallies.size := by
  cases h with
  | nothing ht hr => rw [ht]
  | one hp hw ha ht hr => rw [ht, Array.size_modify]

/-- A step that reads a counter only moves the call on. -/
theorem phaseMove_of_reads {progress : Progress} {notices : Array Notice} :
    PhaseMove b d phase latch e { e with notices, progress } where
  driver := rfl
  counting := .nothing rfl fun _ => rfl
  accepts _ _ _ job hq hq' hpush := absurd hpush (accepted_ne_push hq hq' job)
  lost := .inl rfl

/-- A step of the run of a phase, while it goes on. -/
theorem Going.move {label : Label} (h : Going start d phase todo reports e)
    (hreachable : Reachable b e) (hr : e.progress.isRunning = true)
    (hs : e.step b label = some next) :
    (∃ answer, next.progress = .returned answer) ∨
      PhaseMove b d phase start.batches.size e next ∧
        PooledCall start d phase todo reports next := by
  have hreads (hreads : e.progress.reads = true)
      (hsame : next.progress = e.progress → PooledCall start d phase todo reports next)
      (hafter : next.progress = e.progress.afterRead (e.load d.tally) →
        PooledCall start d phase todo reports next) :
      PhaseMove b d phase start.batches.size e next ∧
        PooledCall start d phase todo reports next := by
    cases hl : label.ofCaller with
    | false =>
        have hm := (step_move hs).others hl d phase start.batches.size
        exact ⟨hm.of_bare, hsame ((step_move hs).progress hl)⟩
    | true =>
        obtain ⟨_, d', notices, hd, rfl⟩ := step_of_reads hreads hl hs
        cases h.driver.symm.trans hd
        exact ⟨phaseMove_of_reads, hafter rfl⟩
  cases h.call with
  | entering hp =>
      refine .inr (hreads (by rw [hp]; rfl) (fun hsame => .entering (hsame.trans hp)) ?_)
      rw [hp]
      exact fun hafter => .running hafter rfl
  | @running before point hp hl =>
      have hf : PhaseRun.Fits e.batches ⟨phase, before, point⟩ := by
        have hfits := (fitting_of_reachable hreachable).progress
        rwa [hp] at hfits
      rcases step_pooled hs h.driver hp hl hf with hreturned | ⟨hm, honward⟩
      · exact .inl hreturned
      · refine .inr ⟨hm, ?_⟩
        cases honward with
        | on point hp' hl' => exact .running hp' hl'
        | released hl' hp' => exact .leaving hl' hp'
  | @leaving before executed hl hp =>
      have hl' := isReleased_step hreachable hs hl
      refine .inr (hreads (by rw [hp]; rfl) (fun hsame => .leaving hl' (hsame.trans hp)) ?_)
      rw [hp]
      cases executed with
      | none => exact fun hafter => .leaving hl' hafter
      | some executed => exact fun hafter => .reported hl' hafter
  | reported hl hp =>
      rw [hp] at hr
      cases hr

/-- One step of the run of a phase. -/
theorem Going.step {label : Label} (h : Going start d phase todo reports e)
    (hreachable : Reachable b e) (hr : e.progress.isRunning = true)
    (hs : e.step b label = some next) :
    (∃ answer, next.progress = .returned answer) ∨
      Going start d phase todo reports next ∧ Counting e next := by
  rcases h.move hreachable hr hs with hreturned | ⟨hm, hcall⟩
  · exact .inl hreturned
  · have hviews := step_views hreachable hs
    refine .inr ⟨⟨hm.driver.trans h.driver, hcall, ?_, ?_⟩, hm.counting⟩
    · obtain ⟨q, hq⟩ := h.pool
      obtain ⟨q', hq', _⟩ := hviews.follows hq
      exact ⟨q', hq'⟩
    · intro i q'' hq''
      rcases hviews.origin hq'' with ⟨q', hq', hfollows⟩ | ⟨_, _, hlt, _⟩
      · obtain ⟨q, hq, hgrows⟩ := h.pools i q' hq'
        exact ⟨q, hq, hgrows.follows hfollows fun job => hm.accepts i q' q'' job hq' hq''⟩
      · have hsize := hm.counting.size_tallies
        omega

/-- The state after the labels of a list, as long as a phase is being run. -/
def runPhase (b : Backend) (e : Engine) (labels : List Label) : Option Engine :=
  e.runWhile b Progress.isRunning labels

theorem During.of_runPhase {labels : List Label} (h : During b start e)
    (hr : e.runPhase b labels = some next) : During b start next :=
  of_runWhile (fun _ _ label h hrunning hs => .step label h hrunning hs) h hr

theorem During.reachable (h : During b start e) (hstart : Reachable b start) : Reachable b e := by
  induction h with
  | begins hs => exact .step _ hstart hs
  | step label h hr hs ih => exact .step label ih hs

theorem During.phaseLatch (h : During b start e) (hready : Ready b start d p phase todo reports) :
    PhaseLatch b phase start.batches.size e := by
  induction h with
  | begins hs => exact .begun hready.reachable hready.planned hready.pooled rfl hs
  | step label h hr hs ih => exact .step label ih hs

theorem During.going (h : During b start e) (hready : Ready b start d p phase todo reports) :
    (∃ answer, e.progress = .returned answer) ∨ Going start d phase todo reports e := by
  induction h with
  | begins hs => exact .inr (hready.begins hs)
  | step label h hr hs ih =>
      have hgoing := ih.resolve_left (not_returned_of_isRunning hr)
      rcases hgoing.step (h.reachable hready.reachable) hr hs with hreturned | ⟨hnext, _⟩
      · exact .inl hreturned
      · exact .inr hnext

end Engine

end LoadBench
