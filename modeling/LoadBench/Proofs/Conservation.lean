import LoadBench.Proofs.Places
import LoadBench.Proofs.Run

/-!
The latch of a pooled phase counts exactly the jobs of the phase that have not completed. Each of
the phase's jobs is in one place at any time, whatever the backend does, whatever becomes of the
workers and whenever the call is given up; so the latch can be counted down for each of them, and
it opens only after all of them completed.
-/

namespace LoadBench

/-- The index of a job of one latch. -/
def Origin.indexOn (latch : Nat) : Origin → Option Nat
  | .job latch' index => if latch' = latch then some index else none
  | .direct _ _ => none

/-- The jobs of one latch among others, by their index. -/
def indicesOn (latch : Nat) (jobs : List Origin) : List Nat :=
  jobs.filterMap (Origin.indexOn latch)

theorem count_indicesOn (latch index : Nat) (jobs : List Origin) :
    (indicesOn latch jobs).count index = jobs.count (.job latch index) := by
  induction jobs with
  | nil => rfl
  | cons o jobs ih =>
      cases o with
      | job latch' index' =>
          by_cases h : latch' = latch
          · subst h
            simp only [indicesOn, Origin.indexOn, List.filterMap_cons, if_true, List.count_cons]
            rw [← ih]
            simp [indicesOn, Origin.indexOn]
          · simp only [indicesOn, Origin.indexOn, List.filterMap_cons, if_neg h, List.count_cons]
            rw [← ih]
            simp [indicesOn, Origin.indexOn, h]
      | direct run index' =>
          simp only [indicesOn, Origin.indexOn, List.filterMap_cons, List.count_cons]
          rw [← ih]
          simp [indicesOn, Origin.indexOn]

theorem mem_indicesOn {latch index : Nat} {jobs : List Origin} :
    index ∈ indicesOn latch jobs ↔ .job latch index ∈ jobs := by
  rw [← List.count_pos_iff, count_indicesOn, List.count_pos_iff]

theorem indicesOn_eq_nil {latch : Nat} {jobs : List Origin}
    (h : ∀ index, jobs.count (.job latch index) = 0) : indicesOn latch jobs = [] := by
  rw [List.eq_nil_iff_forall_not_mem]
  intro index hmem
  exact List.count_eq_zero.mp (h index) (mem_indicesOn.mp hmem)

/-- Whether a call waits for a latch. -/
def Progress.awaits (latch : Nat) : Progress → Prop
  | .running run _ _ => run.point = .awaiting latch
  | .watching latch' => latch' = latch
  | _ => False

namespace Engine

/-- The worker of a number in a pool. -/
def worker? (e : Engine) (i k : Nat) : Option Worker := do (← e.pools[i]?).workers[k]?

/-- How many jobs a latch still waits for. -/
def remaining (e : Engine) (latch : Nat) : Nat :=
  (e.batches[latch]?.map (·.latch.remaining)).getD 0

/-- The indices for which no job has been made yet. -/
def unmade (e : Engine) (latch : Nat) : List Nat :=
  match e.batches[latch]? with
  | some batch => List.range' batch.jobs (batch.size - batch.jobs)
  | none => []

/-- The states of a run after a pooled phase has made its latch. -/
inductive PhaseLatch (b : Backend) (phase : Phase) (latch : Nat) : Engine → Prop
  | begun {e next : Engine} {todo : List Phase} {reports : List PhaseCount} (h : Reachable b e)
      (hr : e.progress = .planning (phase :: todo) reports) (hm : phase.mode = .pooled)
      (hl : latch = e.batches.size) (hs : e.step b (.act .caller) = some next) :
      PhaseLatch b phase latch next
  | step {e next : Engine} (label : Label) (h : PhaseLatch b phase latch e)
      (hs : e.step b label = some next) : PhaseLatch b phase latch next

variable {b : Backend} {e next : Engine} {phase : Phase} {latch : Nat}

theorem PhaseLatch.reachable (h : PhaseLatch b phase latch e) : Reachable b e := by
  induction h with
  | begun h hr hm hl hs => exact .step _ h hs
  | step label h hs ih => exact .step label ih hs

theorem PhaseLatch.run {labels : List Label} (h : PhaseLatch b phase latch e)
    (hr : e.run b labels = some next) : PhaseLatch b phase latch next := by
  induction labels generalizing e with
  | nil =>
      cases hr
      exact h
  | cons label labels ih =>
      obtain ⟨mid, hs, hr⟩ := run_cons.mp hr
      exact ih (h.step label hs) hr

section Begin

variable {d : Driver} {todo : List Phase} {reports : List PhaseCount}

/-- A call that goes on with a plan begins the next phase. -/
theorem step_of_planned (hr : e.progress = .planning (phase :: todo) reports)
    (hs : e.step b (.act .caller) = some next) :
    ∃ d, e.driver = some d ∧ e.beginPhase d phase todo reports = next := by
  simpa [Engine.step, advance, callerStep, hr] using hs

/-- A call begins a phase by reading one of the counters. Besides only the latch, the number and the
notice of the phase are new. -/
theorem beginPhase_eq (e : Engine) (d : Driver) (phase : Phase) (todo : List Phase)
    (reports : List PhaseCount) : ∃ batches directRuns notices entry,
      e.beginPhase d phase todo reports =
        { e with
          batches, directRuns, notices
          progress := .entering phase (e.load d.tally .executed) entry todo reports } := by
  simp only [beginPhase]
  split
  · exact ⟨_, _, _, _, rfl⟩
  · split
    · exact ⟨_, _, _, _, rfl⟩
    · exact ⟨_, _, _, _, rfl⟩

theorem progress_beginPhase (e : Engine) (d : Driver) (phase : Phase) (todo : List Phase)
    (reports : List PhaseCount) : ∃ entry, (e.beginPhase d phase todo reports).progress =
      .entering phase (e.load d.tally .executed) entry todo reports := by
  obtain ⟨_, _, _, entry, hbegun⟩ := beginPhase_eq e d phase todo reports
  rw [hbegun]
  exact ⟨entry, rfl⟩

@[simp] theorem driver_beginPhase : (e.beginPhase d phase todo reports).driver = e.driver := by
  obtain ⟨_, _, _, _, hbegun⟩ := beginPhase_eq e d phase todo reports
  rw [hbegun]

@[simp] theorem pools_beginPhase : (e.beginPhase d phase todo reports).pools = e.pools := by
  obtain ⟨_, _, _, _, hbegun⟩ := beginPhase_eq e d phase todo reports
  rw [hbegun]

@[simp] theorem tallies_beginPhase : (e.beginPhase d phase todo reports).tallies = e.tallies := by
  obtain ⟨_, _, _, _, hbegun⟩ := beginPhase_eq e d phase todo reports
  rw [hbegun]

@[simp] theorem events_beginPhase : (e.beginPhase d phase todo reports).events = e.events := by
  obtain ⟨_, _, _, _, hbegun⟩ := beginPhase_eq e d phase todo reports
  rw [hbegun]

@[simp] theorem executions_beginPhase :
    (e.beginPhase d phase todo reports).executions = e.executions := by
  obtain ⟨_, _, _, _, hbegun⟩ := beginPhase_eq e d phase todo reports
  rw [hbegun]

theorem beginPhase_of_pooled (hm : phase.mode = .pooled) : e.beginPhase d phase todo reports =
    { (e.newBatch phase.iterations true).2.tell (.stageChanged .pending .generating) with
      progress :=
        .entering phase (e.load d.tally .executed) (.pooled e.batches.size) todo reports } := by
  simp only [beginPhase, hm]
  rfl

theorem beginPhase_of_undialed (hm : phase.mode = .direct) (hdirect : d.direct = none) :
    e.beginPhase d phase todo reports =
      { e with
        progress := .entering phase (e.load d.tally .executed) .undialed todo reports } := by
  simp only [beginPhase, hm, hdirect]

theorem beginPhase_of_connected {conn : Nat} (hm : phase.mode = .direct)
    (hdirect : d.direct = some conn) : e.beginPhase d phase todo reports =
      { e.tell (.stageChanged .pending .executing) with
        directRuns := e.directRuns + 1
        progress :=
          .entering phase (e.load d.tally .executed) (.direct e.directRuns) todo reports } := by
  simp only [beginPhase, hm, hdirect, tell]

end Begin

/-- The latch of a phase is a latch of its own, for exactly its jobs. -/
theorem PhaseLatch.batch (h : PhaseLatch b phase latch e) :
    ∃ batch, e.batches[latch]? = some batch ∧ batch.owned = true ∧
      batch.size = phase.iterations := by
  induction h with
  | @begun e next todo reports h hr hm hl hs =>
      subst hl
      obtain ⟨d, hd, rfl⟩ := step_of_planned hr hs
      refine ⟨⟨⟨phase.iterations⟩, phase.iterations, true, 0⟩, ?_, rfl, rfl⟩
      rw [beginPhase_of_pooled hm]
      exact Array.getElem?_push_size
  | step label h hs ih =>
      obtain ⟨batch, hb, howned, hsize⟩ := ih
      obtain ⟨batch', hb', howned', hsize', _⟩ :=
        (step_move hs).batch (fitting_of_reachable h.reachable).bare hb
      exact ⟨batch', hb', howned'.trans howned, hsize'.trans hsize⟩

/-- What is true of the latch of a pooled phase at any time. -/
structure Conserved (b : Backend) (e : Engine) (latch iterations : Nat) : Prop where
  /-- Each job of the phase is in one place. -/
  placed : (e.unmade latch ++ indicesOn latch e.inCall ++ indicesOn latch e.queued ++
      indicesOn latch e.held ++ indicesOn latch e.completed ++
      (indicesOn latch e.discarded ++ indicesOn latch e.lost)).Perm (List.range iterations)
  completed : e.remaining latch = iterations - (indicesOn latch e.completed).length
  outstanding : e.remaining latch = (e.unmade latch).length + (indicesOn latch e.inCall).length +
    (indicesOn latch e.queued).length + (indicesOn latch e.held).length +
    ((indicesOn latch e.discarded).length + (indicesOn latch e.lost).length)
  /-- Nothing but the completion of one of its jobs changes the latch. -/
  changes : ∀ label next, e.step b label = some next → next.remaining latch ≠ e.remaining latch →
    ∃ i k w job, label = .act (.worker i k) ∧ e.worker? i k = some w ∧
      w.activity = .recorded job ∧ job.latch = latch ∧
      e.remaining latch = next.remaining latch + 1
  /-- A worker that is about to complete one of the jobs finds the latch unreleased, and goes on. -/
  counts : ∀ i k w job, e.worker? i k = some w → w.activity = .recorded job → job.latch = latch →
    e.isReleased latch = false ∧ ∃ next, e.step b (.act (.worker i k)) = some next ∧
      next.worker? i k = some { w with activity := .idle } ∧
      next.completed = e.completed ++ [job.origin]
  /-- A wait for the latch ends with nothing outstanding and nothing discarded. -/
  opens : ∀ next, e.progress.awaits latch → e.step b (.act .caller) = some next →
    e.unmade latch = [] ∧ indicesOn latch e.inCall = [] ∧ indicesOn latch e.queued = [] ∧
      indicesOn latch e.held = [] ∧ indicesOn latch e.discarded = [] ∧ indicesOn latch e.lost = []

theorem worker?_eq_some {i k : Nat} {w : Worker} :
    e.worker? i k = some w ↔ ∃ p, e.pools[i]? = some p ∧ p.workers[k]? = some w := by
  simp [worker?, Option.bind_eq_some_iff]

theorem remaining_eq {batch : Batch} (hb : e.batches[latch]? = some batch) :
    e.remaining latch = batch.latch.remaining := by
  simp [remaining, hb]

theorem isReleased_iff {batch : Batch} (hb : e.batches[latch]? = some batch) :
    e.isReleased latch = true ↔ e.remaining latch = 0 := by
  simp [isReleased, remaining, hb, Latch.released]

theorem length_completed (e : Engine) (latch : Nat) :
    (indicesOn latch e.completed).length = (e.ledger.indices .completed latch).card := by
  have hsame : (indicesOn latch e.completed : Multiset Nat) =
      e.ledger.indices .completed latch := by
    ext index
    rw [Multiset.coe_count, count_indicesOn, count_completed, Ledger.count_indices]
  rw [← hsame, Multiset.coe_card]

theorem mem_held {i k : Nat} {p : WorkerPool} {w : Worker} {job : Job} (hp : e.pools[i]? = some p)
    (hw : p.workers[k]? = some w) (hj : w.activity.job? = some job) : job.origin ∈ e.held := by
  rw [held, List.mem_flatMap]
  refine ⟨p, Array.mem_toList_iff.mpr (Array.mem_of_getElem? hp), ?_⟩
  rw [List.mem_filterMap]
  exact ⟨w, Array.mem_toList_iff.mpr (Array.mem_of_getElem? hw), by rw [hj]; rfl⟩

/-- A call goes on from the wait for a latch only once the latch is released. -/
theorem isReleased_of_awaits (ha : e.progress.awaits latch)
    (hs : e.step b (.act .caller) = some next) : e.isReleased latch = true := by
  change e.callerStep b = some next at hs
  cases hp : e.progress with
  | running run todo reports =>
      rw [hp] at ha
      change run.point = .awaiting latch at ha
      simp only [callerStep, hp, Option.bind_eq_some_iff] at hs
      obtain ⟨d, _, hs⟩ := hs
      cases hm : run.phase.mode with
      | pooled =>
          simp only [phaseStep, hm, ha, pooledStep, Option.bind_eq_bind,
            Option.bind_eq_some_iff, Option.ite_none_right_eq_some] at hs
          obtain ⟨_, hs, _⟩ := hs
          exact hs.1
      | direct => simp [phaseStep, hm, ha, directStep] at hs
  | watching latch' =>
      rw [hp] at ha
      obtain rfl : latch' = latch := ha
      simp only [callerStep, hp, Option.ite_none_right_eq_some] at hs
      exact hs.1
  | _ =>
      rw [hp] at ha
      cases ha

/-- The step of a worker that completes its job on a latch that is not released. -/
theorem step_of_recorded {i k : Nat} {p : WorkerPool} {w : Worker} {job : Job} {batch : Batch}
    (hp : e.pools[i]? = some p) (hw : p.workers[k]? = some w) (ha : w.activity = .recorded job)
    (hb : e.batches[job.latch]? = some batch) (hr : 0 < batch.latch.remaining) :
    ∃ next, e.step b (.act (.worker i k)) = some next ∧
      next.worker? i k = some { w with activity := .idle } ∧
      next.completed = e.completed ++ [job.origin] := by
  obtain ⟨left, hl⟩ : ∃ left, batch.latch.countDown? = some left := by
    rcases hl : batch.latch.countDown? with _ | left
    · rw [Latch.countDown?_eq_none_iff, Latch.released, beq_iff_eq] at hl
      omega
    · exact ⟨left, rfl⟩
  have hcount : e.countDown? job.latch =
      some { e with batches := e.batches.set! job.latch { batch with latch := left } } := by
    simp [countDown?, hb, hl]
  refine ⟨({ e with batches := e.batches.set! job.latch { batch with latch := left } }.record
    (.completed job.latch job.index)).put i p k .idle, ?_, ?_, ?_⟩
  · simp [Engine.step, advance, workerStep, hp, hw, ha, completeJob, hcount]
  · obtain ⟨hi, _⟩ := Array.getElem?_eq_some_iff.mp hp
    rw [worker?_eq_some]
    exact ⟨p.setActivity k .idle, by simp [put, setPool, record, hi],
      by simp [WorkerPool.setActivity, Array.getElem?_modify, hw]⟩
  · simp [Engine.completed, put, setPool, record, Job.origin]

/-- Each job of a phase is in one place. -/
theorem PhaseLatch.placed (h : PhaseLatch b phase latch e) :
    (e.unmade latch ++ indicesOn latch e.inCall ++ indicesOn latch e.queued ++
      indicesOn latch e.held ++ indicesOn latch e.completed ++
      (indicesOn latch e.discarded ++ indicesOn latch e.lost)).Perm
        (List.range phase.iterations) := by
  obtain ⟨batch, hb, howned, hsize⟩ := h.batch
  have hjobs : batch.jobs ≤ phase.iterations :=
    hsize ▸ (fitting_of_reachable h.reachable).owned latch batch hb howned
  rw [List.perm_iff_count]
  intro index
  have hflow := ((sound_of_reachable h.reachable).flow (.job latch index)).placed
  have hmade : e.ledger.made (.job latch index) = if index < batch.jobs then 1 else 0 := by
    simp only [Ledger.made, ledger, Ledger.jobsAt_of_getElem? hb]
  simp only [List.count_append, count_indicesOn, count_inCall, count_queued, count_held,
    count_completed, count_discarded, count_lost, unmade, hb, List.count_range,
    List.count_range_1']
  rw [hmade] at hflow
  split at hflow <;> split <;> split <;> omega

/-- A latch of a phase has been counted down once for each job that completed. -/
theorem PhaseLatch.counted (h : PhaseLatch b phase latch e) :
    e.remaining latch + (indicesOn latch e.completed).length = phase.iterations := by
  obtain ⟨batch, hb, _, hsize⟩ := h.batch
  have hlatch := (sound_of_reachable h.reachable).latches latch batch hb
  rw [← length_completed, hsize, ← remaining_eq hb] at hlatch
  exact hlatch

/-- A latch of a phase waits for the jobs that have not completed, wherever they are. -/
theorem PhaseLatch.outstanding (h : PhaseLatch b phase latch e) :
    e.remaining latch = (e.unmade latch).length + (indicesOn latch e.inCall).length +
      (indicesOn latch e.queued).length + (indicesOn latch e.held).length +
      ((indicesOn latch e.discarded).length + (indicesOn latch e.lost).length) := by
  have hlength := h.placed.length_eq
  have hcounted := h.counted
  simp only [List.length_append, List.length_range] at hlength
  omega

/-- The latch of a phase counts what has not completed, each job of the phase is in one place, and
nothing but the completion of one of its jobs changes the latch. -/
theorem conservation (h : PhaseLatch b phase latch e) :
    Conserved b e latch phase.iterations := by
  obtain ⟨batch, hb, _⟩ := h.batch
  have hcounted := h.counted
  have houtstanding := h.outstanding
  refine ⟨h.placed, by omega, houtstanding, ?_, ?_, ?_⟩
  · intro label next hs hne
    obtain ⟨batch', hb', _, _, _, hchange⟩ :=
      (step_move hs).batch (fitting_of_reachable h.reachable).bare hb
    change next.batches[latch]? = some batch' at hb'
    rw [remaining_eq hb, remaining_eq hb'] at hne ⊢
    rcases hchange with hsame | ⟨i, k, p, w, job, hlabel, hp, hw, ha, hl, hcount⟩
    · rw [hsame] at hne
      exact absurd rfl hne
    · exact ⟨i, k, w, job, hlabel, worker?_eq_some.mpr ⟨p, hp, hw⟩, ha, hl,
        Latch.remaining_countDown? hcount⟩
  -- A job that a worker is about to complete is held, so something remains to be counted down.
  · intro i k w job hworker ha hl
    subst hl
    obtain ⟨p, hp, hw⟩ := worker?_eq_some.mp hworker
    have hmem : job.origin ∈ e.held := mem_held hp hw (by rw [ha]; rfl)
    have hheld : job.index ∈ indicesOn job.latch e.held :=
      List.mem_filterMap.mpr ⟨job.origin, hmem, by simp [Job.origin, Origin.indexOn]⟩
    have hpos := List.length_pos_of_mem hheld
    have hremaining : 0 < e.remaining job.latch := by omega
    refine ⟨?_, step_of_recorded hp hw ha hb (by rw [← remaining_eq hb]; exact hremaining)⟩
    rw [← Bool.not_eq_true, isReleased_iff hb]
    omega
  · intro next ha hs
    have hzero := (isReleased_iff hb).mp (isReleased_of_awaits ha hs)
    refine ⟨?_, ?_, ?_, ?_, ?_, ?_⟩ <;> rw [← List.length_eq_zero_iff] <;> omega

/-- A phase of two commands, of which one is being executed and one is not made yet. -/
theorem conservation_of_two : ∃ e, PhaseLatch (.always .succeed) (.pings 2) 0 e ∧
    e.unmade 0 = [1] ∧ indicesOn 0 e.held = [0] ∧ Conserved (.always .succeed) e 0 2 := by
  obtain ⟨start, hstart⟩ : ∃ start,
      Engine.run (.always .succeed) {} (opening 2) = some start := ⟨_, rfl⟩
  have hplanned : start.progress = .planning [.pings 2] [] := by
    cases hstart
    rfl
  have hsize : 0 = start.batches.size := by
    cases hstart
    rfl
  obtain ⟨begun, hbegun⟩ : ∃ begun, start.step (.always .succeed) (.act .caller) = some begun := by
    cases hstart
    exact ⟨_, rfl⟩
  obtain ⟨e, he⟩ : ∃ e, begun.run (.always .succeed) [.act .caller, .act .caller, .act .caller,
      .act (.worker 0 0), .act (.worker 0 0), .act (.worker 0 0)] = some e := by
    cases hstart
    cases hbegun
    exact ⟨_, rfl⟩
  have hlatch : PhaseLatch (.always .succeed) (.pings 2) 0 e :=
    (PhaseLatch.begun (Reachable.start.run hstart) hplanned rfl hsize hbegun).run he
  refine ⟨e, hlatch, ?_, ?_, conservation hlatch⟩
  · cases hstart
    cases hbegun
    cases he
    rfl
  · cases hstart
    cases hbegun
    cases he
    rfl

end Engine

end LoadBench
