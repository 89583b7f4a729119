import LoadBench.Proofs.Sturdy

/-!
Somebody can always go on. A worker with a job can. If there are jobs in a queue, a worker has its
turn there or can get it. And the caller waits for a slot only while the queue is full, and for the
latch only while some job of the phase is in the queue or in the hands of a worker.
-/

namespace LoadBench

/-- A phase whose generator makes all of its commands. -/
def Phase.Generates (phase : Phase) : Prop :=
  ∀ index < phase.iterations, ∃ command, phase.generate index = .ok command

/-- If a worker stands in line, the next one can take its turn, or another one has it. -/
theorem Turns.served {p : WorkerPool} (h : Turns p) {k : Nat} (hk : p.activity? k = some .queued) :
    (∃ j, p.activity? j = some .queued ∧ p.queue.turn.ready j = true) ∨
      ∃ j, p.activity? j = some .receiving := by
  have hline := (h.queued k).mpr hk
  have hpermit := h.permit
  rcases hg : p.queue.turn.granted with _ | ⟨j, rest⟩
  · rw [hg, List.append_nil] at hline
    have hfree := h.busy (List.ne_nil_of_mem hline)
    rw [hfree, hg] at hpermit
    rcases hr : p.queue.receiving with _ | j
    · rw [hr] at hpermit
      cases hpermit
    · exact .inr ⟨j, (h.receiving j).mp hr⟩
  · refine .inl ⟨j, (h.queued j).mp ?_, ?_⟩
    · rw [hg]
      exact List.mem_append_right _ List.mem_cons_self
    · simp [FairSemaphore.ready, hg]

/-- Nobody waits for a slot that is there. -/
theorem Slots.full {v : PoolView} (h : Slots v) (hw : v.waiting = true)
    (hr : v.pool.queue.offerReady () = false) :
    v.pool.queue.buffer ≠ [] := by
  have hcaller := h.caller
  rw [hw, if_pos rfl] at hcaller
  obtain ⟨hwaiting, hgranted⟩ | ⟨_, hgranted⟩ := FairSemaphore.alone hcaller
  · have hopen : v.pool.queue.slots.closed = false := by
      simpa [JobQueue.offerReady, FairSemaphore.ready, hwaiting, hgranted] using hr
    have hroom := h.room hopen
    have hfree := h.busy hopen (by simp [hwaiting])
    have hcapacity := h.capacity
    intro hempty
    rw [hfree, hgranted, hempty] at hroom
    simp at hroom
    omega
  · simp [JobQueue.offerReady, FairSemaphore.ready, hgranted] at hr

namespace Engine

variable {b : Backend} {e next start : Engine} {i k : Nat} {d : Driver} {p : WorkerPool}
  {w : Worker} {phase : Phase} {todo : List Phase} {reports : List PhaseCount} {latch : Nat}

theorem activity?_eq_some {a : Activity} :
    p.activity? k = some a ↔ ∃ w, p.workers[k]? = some w ∧ w.activity = a := by
  simp [WorkerPool.activity?]

theorem step_of_receiving (hp : e.pools[i]? = some p) (hw : p.workers[k]? = some w)
    (ha : w.activity = .receiving) (hr : p.queue.receiveReady = true) :
    ∃ next, e.step b (.act (.worker i k)) = some next := by
  change ∃ next, e.workerStep b i k = some next
  cases hb : p.queue.buffer with
  | cons job rest => simp [workerStep, hp, hw, ha, receiveJob, JobQueue.receive, hb]
  | nil =>
      have hproducing : p.queue.producing = false := by
        simpa [JobQueue.receiveReady, hb] using hr
      simp [workerStep, hp, hw, ha, receiveJob, JobQueue.receive, hb, hproducing]

theorem receiveReady_of_buffer (hb : p.queue.buffer ≠ []) : p.queue.receiveReady = true := by
  simp [JobQueue.receiveReady, hb]

/-- A worker that can go on as long as its pool's queue has jobs or has ended. -/
inductive Prompt (p : WorkerPool) (k : Nat) : Prop
  | idle (ha : p.activity? k = some .idle)
  | called (ha : p.activity? k = some .queued) (hr : p.queue.turn.ready k = true)
  | receiving (ha : p.activity? k = some .receiving)
  | busy {a : Activity} {job : Job} (ha : p.activity? k = some a) (hj : a.job? = some job)
      (hs : ∀ fault, a ≠ .stalled job fault)

theorem Prompt.step (h : Prompt p k) (hp : e.pools[i]? = some p)
    (hready : p.queue.receiveReady = true) : ∃ next, e.step b (.act (.worker i k)) = some next := by
  cases h with
  | idle hk =>
      obtain ⟨w, hw, ha⟩ := activity?_eq_some.mp hk
      change ∃ next, e.workerStep b i k = some next
      simp [workerStep, hp, hw, ha]
  | called hk hturn =>
      obtain ⟨w, hw, ha⟩ := activity?_eq_some.mp hk
      change ∃ next, e.workerStep b i k = some next
      simp [workerStep, hp, hw, ha, hturn]
  | receiving hk =>
      obtain ⟨w, hw, ha⟩ := activity?_eq_some.mp hk
      exact step_of_receiving hp hw ha hready
  | busy hk hj hs =>
      obtain ⟨w, hw, rfl⟩ := activity?_eq_some.mp hk
      exact step_of_busy hp hw hj hs

/-- If one worker goes on and does not stall, some worker is prompt. -/
theorem exists_prompt (h : Turns p) (hw : p.workers[k]? = some w)
    (hlive : w.activity.isLive = true) (hs : ∀ job fault, w.activity ≠ .stalled job fault) :
    ∃ k, Prompt p k := by
  have hk : p.activity? k = some w.activity := by simp [WorkerPool.activity?, hw]
  cases ha : w.activity with
  | idle => exact ⟨k, .idle (ha ▸ hk)⟩
  | queued =>
      rcases h.served (ha ▸ hk) with ⟨j, hj, hready⟩ | ⟨j, hj⟩
      · exact ⟨j, .called hj hready⟩
      · exact ⟨j, .receiving hj⟩
  | receiving => exact ⟨k, .receiving (ha ▸ hk)⟩
  | leaving panicked | ended panicked =>
      rw [ha] at hlive
      cases hlive
  | _ => exact ⟨k, .busy hk (by rw [ha]; rfl) (hs _)⟩

/-- As long as there are jobs in the queue of a pool, one of its workers can go on. -/
theorem exists_step_of_buffer (h : Reachable b e) (hb : b.Settles) (hp : e.pools[i]? = some p)
    (hs : e.Staffed p) (hbuffer : p.queue.buffer ≠ []) :
    ∃ k next, e.step b (.act (.worker i k)) = some next := by
  obtain ⟨w, hw⟩ : ∃ w, p.workers[0]? = some w := ⟨_, Array.getElem?_eq_getElem hs.workers⟩
  have hturns := (orderly_of_pool h hp).turns
  have hsettles := settles_of_reachable hb h (worker?_eq_some.mpr ⟨p, hp, hw⟩)
  obtain ⟨k, hprompt⟩ := exists_prompt hturns hw (hs.live 0 w hw) (not_stalled hsettles)
  exact ⟨k, hprompt.step hp (receiveReady_of_buffer hbuffer)⟩

/-- A worker that goes on is a receiver. -/
theorem open_of_live (h : Reachable b e) (hp : e.pools[i]? = some p) (hw : p.workers[k]? = some w)
    (hlive : w.activity.isLive = true) : p.queue.slots.closed = false := by
  have hhandles := (orderly_of_pool h hp).handles
  have halive : 1 ≤ p.alive := by
    refine le_trans ?_ (worth_le_total (fun w : Worker => if w.activity.hasEnded then 0 else 1) hw)
    cases ha : w.activity with
    | ended panicked =>
        rw [ha] at hlive
        cases hlive
    | _ => exact Nat.le_refl 1
  have hreceivers := hhandles.receivers
  have hclosed := hhandles.closed
  simp only at hreceivers hclosed
  rw [← Bool.not_eq_true, hclosed]
  omega

/-- A staffed pool has a receiver. -/
theorem Staffed.open (hs : e.Staffed p) (h : Reachable b e) (hp : e.pools[i]? = some p) :
    p.queue.slots.closed = false := by
  have hw := Array.getElem?_eq_getElem hs.workers
  exact open_of_live h hp hw (hs.live 0 _ hw)

/-- The step of a phase, by its mode. -/
def phaseTurn (b : Backend) (e : Engine) (d : Driver) (run : PhaseRun) : Option (Turn × Engine) :=
  match run.phase.mode with
  | .pooled => e.pooledStep d run.phase run.point
  | .direct => e.directStep b d run.phase run.point

theorem phaseStep_eq (b : Backend) (e : Engine) (d : Driver) (run : PhaseRun) (todo : List Phase)
    (reports : List PhaseCount) : e.phaseStep b d run todo reports =
      (e.phaseTurn b d run).map fun x => x.2.goOn run todo reports x.1 := by
  simp only [phaseStep, phaseTurn, Option.map_eq_bind]
  cases run.phase.mode with
  | _ =>
      refine Option.bind_congr fun x _ => ?_
      obtain ⟨turn, e'⟩ := x
      cases turn with
      | _ => rfl

theorem callerStep_of_running {run : PhaseRun} (hd : e.driver = some d)
    (hr : e.progress = .running run todo reports) :
    e.callerStep b = (e.phaseTurn b d run).map fun x => x.2.goOn run todo reports x.1 := by
  simp only [callerStep, hr, hd, Option.bind_some]
  exact phaseStep_eq b e d run todo reports

theorem callerStep_of_pooled {run : PhaseRun} (hd : e.driver = some d)
    (hr : e.progress = .running run todo reports) (hm : run.phase.mode = .pooled) :
    e.callerStep b = (e.pooledStep d run.phase run.point).map fun x =>
      x.2.goOn run todo reports x.1 := by
  rw [callerStep_of_running hd hr, phaseTurn, hm]

/-- An open queue turns no job away. -/
theorem not_refused {waits : Bool} {job : Job} {queue : JobQueue Job Unit Nat}
    (hopen : p.queue.producing = true) (hclosed : p.queue.slots.closed = false) :
    p.queue.enter waits job ≠ (.refused, queue) := by
  intro hq
  cases waits with
  | false =>
      obtain ⟨hproducing | hc, _⟩ := JobQueue.offer_refused hq
      · rw [hopen] at hproducing
        cases hproducing
      · rw [hclosed] at hc
        cases hc
  | true =>
      obtain ⟨hc, _⟩ := JobQueue.reoffer_refused hq
      rw [hclosed] at hc
      cases hc

/-- With an open queue and commands for all indices a pooled phase goes on to its end. -/
theorem PooledMove.goesOn {point : Point} {turn : Turn} (h : PooledMove e d phase point turn next)
    (hp : e.pools[d.pool]? = some p) (hopen : p.queue.producing = true)
    (hclosed : p.queue.slots.closed = false) (hg : phase.Generates) :
    turn = .done ∨ ∃ point, turn = .to point := by
  cases h with
  | generates | awaits | accepts | parks => exact .inr ⟨_, rfl⟩
  | @stumbles latch index message hlt hstumbles =>
      obtain ⟨command, hcommand⟩ := hg index hlt
      rw [hcommand] at hstumbles
      cases hstumbles
  | drops hpoint hp' hq =>
      cases hp.symm.trans hp'
      exact absurd hq (not_refused hopen hclosed)
  | returns hl => exact .inl rfl

/-- While a caller waits for the latch of its phase some worker has a job of the phase, or one is
in the queue of a pool. -/
theorem exists_of_awaiting {run : PhaseRun} (hlatch : PhaseLatch b run.phase latch e)
    (hs : Sturdy d latch e) (hr : e.progress = .running run todo reports)
    (hpoint : run.point = .awaiting latch) (hreleased : e.isReleased latch = false)
    (hpool : ∀ (i : Nat) (p : WorkerPool) (job : Job), e.pools[i]? = some p →
      job ∈ p.queue.accepted → job.latch = latch → i = d.pool) :
    ∃ index, .job latch index ∈ e.queued ∨ .job latch index ∈ e.held := by
  have hreachable := hlatch.reachable
  obtain ⟨batch, hbatch, _, hsize⟩ := hlatch.batch
  have hremaining : e.remaining latch ≠ 0 := by
    rw [← Bool.not_eq_true, isReleased_iff hbatch] at hreleased
    exact hreleased
  have hunmade : e.unmade latch = [] := by
    have hfits := (fitting_of_reachable hreachable).progress
    rw [hr] at hfits
    change run.Fits e.batches at hfits
    rw [PhaseRun.Fits, hpoint] at hfits
    obtain ⟨batch', hbatch', _, hsize', hjobs⟩ := hfits
    rw [hbatch] at hbatch'
    cases hbatch'
    simp [unmade, hbatch, hsize', hjobs]
  have hinCall : e.inCall = [] := by
    obtain ⟨phase, before, point⟩ := run
    subst hpoint
    rw [inCall, hr]
    rfl
  have hdiscarded : indicesOn latch e.discarded = [] := by
    rw [List.eq_nil_iff_forall_not_mem]
    intro index hmem
    obtain ⟨i, p, job, hp, hjob, ho⟩ := exists_of_discarded (mem_indicesOn.mp hmem)
    obtain ⟨rfl, _⟩ := Origin.job.inj ho
    have horder := (orderly_of_pool hreachable hp).order
    have haccepted : job ∈ p.queue.accepted := by
      rw [← Array.mem_toList_iff, horder.order]
      exact List.mem_append_right _ (Array.mem_toList_iff.mpr hjob)
    obtain ⟨p', hp', hstaffed⟩ := hs.staffed
    rw [← hpool i p job hp haccepted rfl, hp] at hp'
    cases hp'
    rw [horder.kept (hstaffed.open hreachable hp)] at hjob
    exact Array.not_mem_empty job hjob
  have hsum := hlatch.outstanding
  rw [hunmade, hinCall, hdiscarded, hs.kept] at hsum
  rcases hq : indicesOn latch e.queued with _ | ⟨index, rest⟩
  · rcases hh : indicesOn latch e.held with _ | ⟨index, rest⟩
    · rw [hq, hh] at hsum
      exact absurd hsum hremaining
    · exact ⟨index, .inr (mem_indicesOn.mp (hh ▸ List.mem_cons_self))⟩
  · exact ⟨index, .inl (mem_indicesOn.mp (hq ▸ List.mem_cons_self))⟩

/-- While a pooled phase is being run over workers that go on, somebody can go on. -/
theorem Sturdy.enabled (h : Sturdy d start.batches.size e)
    (hgoing : Going start d phase todo reports e)
    (hlatch : PhaseLatch b phase start.batches.size e) (hstart : Reachable b start)
    (hb : b.Settles) (hm : phase.mode = .pooled) (hr : e.progress.isRunning = true) :
    ∃ actor next, e.step b (.act actor) = some next := by
  have hreachable := hlatch.reachable
  obtain ⟨p, hp, hstaffed⟩ := h.staffed
  have hfilled (hbuffer : p.queue.buffer ≠ []) :
      ∃ actor next, e.step b (.act actor) = some next := by
    obtain ⟨k, next, hstep⟩ := exists_step_of_buffer hreachable hb hp hstaffed hbuffer
    exact ⟨_, next, hstep⟩
  have hreads (hreads : e.progress.reads = true) :
      ∃ actor next, e.step b (.act actor) = some next := by
    obtain ⟨next, hstep⟩ := exists_step_of_reads (b := b) hgoing.driver hreads
    exact ⟨_, next, hstep⟩
  cases hgoing.call with
  | entering hp' => exact hreads (by rw [hp']; rfl)
  | @running before point hpoint hl =>
      rcases hx : e.pooledStep d phase point with _ | x
      -- The call waits, for a slot of a full queue or for a latch that still has jobs. In both
      -- cases there is a job in the pool, and a job is never stuck there.
      · cases point with
        | generating latch index =>
            simp only [pooledStep] at hx
            split at hx
            · split at hx <;> cases hx
            · cases hx
        | offering latch index job => simp [pooledStep, hp] at hx
        | waiting latch index job =>
            have hwaits : e.waitsAt d.pool = true :=
              waitsAt_driver hgoing.driver (by rw [hpoint]; rfl)
            have hslots := (orderly_of_pool hreachable hp).slots
            exact hfilled (hslots.full hwaits (by simpa [pooledStep, hp] using hx))
        | awaiting latch =>
            cases hl
            have hpool (i : Nat) (p : WorkerPool) (job : Job) (hp : e.pools[i]? = some p)
                (hjob : job ∈ p.queue.accepted) (hl : job.latch = start.batches.size) :
                i = d.pool :=
              hgoing.pool_of_accepted hstart hp hjob hl
            obtain ⟨index, hqueued | hheld⟩ := exists_of_awaiting hlatch h hpoint rfl
              (by simpa [pooledStep] using hx) hpool
            · obtain ⟨i, q, job, hq, hjob, ho⟩ := exists_of_queued hqueued
              obtain ⟨hlatch', _⟩ := Origin.job.inj ho
              have haccepted := (traced_of_reachable hreachable).jobs i q job hq (.inl hjob)
              have hi := hpool i q job hq haccepted hlatch'
              rw [hi, hp] at hq
              cases hq
              exact hfilled (List.ne_nil_of_mem hjob)
            · obtain ⟨i, k, q, w, job, hq, hw, hjob, _⟩ := exists_of_held hheld
              have hsettles := settles_of_reachable hb hreachable (worker?_eq_some.mpr ⟨q, hq, hw⟩)
              obtain ⟨next, hstep⟩ := step_of_busy hq hw hjob (not_stalled hsettles _)
              exact ⟨_, next, hstep⟩
        | _ => cases hl
      · refine ⟨.caller, x.2.goOn ⟨phase, before, point⟩ todo reports x.1, ?_⟩
        change e.callerStep b = _
        rw [callerStep_of_pooled hgoing.driver hpoint hm, hx]
        rfl
  | leaving _ hp' => exact hreads (by rw [hp']; rfl)
  | reported _ hplanning =>
      rw [hplanning] at hr
      cases hr

/-- Nobody's step makes the call return before the phase is done. -/
theorem Sturdy.not_returned (h : Sturdy d start.batches.size e)
    (hgoing : Going start d phase todo reports e) (hreachable : Reachable b e)
    (hm : phase.mode = .pooled) (hg : phase.Generates) (hr : e.progress.isRunning = true)
    {actor : Actor} (hs : e.step b (.act actor) = some next) (answer : Answer) :
    next.progress ≠ .returned answer := by
  intro hreturned
  cases hgoing.call with
  | entering hp | leaving _ hp =>
      exact not_returned_of_reads (by rw [hp]; rfl) hs ⟨answer, hreturned⟩
  | @running before point hpoint hl =>
      cases actor with
      | worker i k =>
          have hsame : next.progress = e.progress := (step_move hs).progress rfl
          cases (hsame.trans hpoint).symm.trans hreturned
      | caller =>
          change e.callerStep b = some next at hs
          rw [callerStep_of_pooled hgoing.driver hpoint hm] at hs
          obtain ⟨⟨turn, e'⟩, hx, rfl⟩ := Option.map_eq_some_iff.mp hs
          obtain ⟨p, hp, hstaffed⟩ := h.staffed
          obtain ⟨p', hp', hopen⟩ := (housed_of_reachable hreachable).driver d hgoing.driver
          cases hp.symm.trans hp'
          rcases (pooledStep_cases hx).goesOn hp hopen (hstaffed.open hreachable hp) hg with
            rfl | ⟨_, rfl⟩ <;>
            cases hreturned
  | reported _ hplanning =>
      rw [hplanning] at hr
      cases hr

end Engine

end LoadBench
