import LoadBench.Proofs.DirectPhase

/-!
One phase of a plan. From its beginning until its call goes on or returns, the records get nothing
but what concerns the phase itself or jobs that other pools had before the plan. When its call goes
on, each command of the phase was attempted once and has finished, and the driver's pool is as
empty as it was before.
-/

namespace LoadBench

namespace Engine

variable {b : Backend} {e next start s : Engine} {d : Driver} {p : WorkerPool} {phase : Phase}
  {todo : List Phase} {reports : List PhaseCount} {label : Label} {l : List Event}
  {xs : List Execution}

/-- What stays the same while a plan is being run that began in the state `start`: the driver is
over the same pool, and records in the same counters as its workers. -/
structure Frame (b : Backend) (start : Engine) (d : Driver) (e : Engine) : Prop where
  reachable : Reachable b e
  driver : ∃ direct, e.driver = some { d with direct }
  pool : ∃ p, e.pools[d.pool]? = some p ∧ d.tally = p.tally
  precedes : Precedes start e

/-- A phase of a plan is about to begin. -/
structure Poised (b : Backend) (start : Engine) (d : Driver) (s : Engine) (phase : Phase)
    (todo : List Phase) (reports : List PhaseCount) : Prop extends Frame b start d s where
  started : Reachable b start
  planned : s.progress = .planning (phase :: todo) reports
  cleared : Cleared start d s

/-- What is the case when the call of a phase of a plan goes on. -/
structure Past (start : Engine) (d : Driver) (s : Engine) (phase : Phase) (todo : List Phase)
    (reports : List PhaseCount) (e : Engine) : Prop where
  progress : e.progress =
    .planning todo (reports ++ [phase.report (s.tallyAt d.tally) (e.tallyAt d.tally)])
  cleared : Cleared start d e
  complete : (legOf start s e phase).Complete
  past : ∀ index, (phase.origin (s.numberOf phase) index).isSince e = false

/-- How far the run of a phase of a plan has come. -/
inductive Leads (start : Engine) (d : Driver) (s : Engine) (phase : Phase) (todo : List Phase)
    (reports : List PhaseCount) (e : Engine) : Prop
  | running (hr : e.progress.isRunning = true)
  | past (h : Past start d s phase todo reports e)
  | returned (answer : Answer) (hr : e.progress = .returned answer)

/-- A job that a pool has while a pooled phase is being run is one of the phase, or another pool had
it before. -/
theorem Going.stored {i : Nat} {job : Job} (h : Going s d phase todo reports e)
    (hcleared : Cleared start d s) (hstored : e.Stored i job) :
    start.LeftOver d job ∨ OfPhase s d phase i job := by
  obtain ⟨p, hp, hhas⟩ := hstored
  obtain ⟨p₀, hp₀, hgrows⟩ := h.pools i p hp
  rcases hgrows.has job hhas with hold | hnew
  · exact .inl (hcleared.leftOver ⟨p₀, hp₀, hold⟩)
  · exact .inr hnew

theorem OfPhase.attempt {i : Nat} {job : Job} (h : OfPhase s d phase i job)
    (hm : phase.mode = .pooled) :
    (job.origin, Except.ok job.command) = phase.attempt (s.numberOf phase) job.index := by
  obtain ⟨_, hlatch, hg⟩ := h
  rw [Phase.attempt, Phase.origin_pooled hm, numberOf_pooled s hm, hg, Job.origin, hlatch]

/-- A step while a pooled phase of a plan is being run. -/
theorem Going.logsLeg (h : Going s d phase todo reports e) (hm : phase.mode = .pooled)
    (hcleared : Cleared start d s) (hreachable : Reachable b e)
    (hr : e.progress.isRunning = true) (hs : e.step b label = some next) :
    LogsLeg start d phase (s.numberOf phase) e next := by
  have hnumber (index : Nat) :
      phase.origin (s.numberOf phase) index = .job s.batches.size index := by
    rw [Phase.origin_pooled hm, numberOf_pooled s hm]
  refine (h.logs hm hreachable hr hs).mono ?_ ?_
  · rintro event (⟨index, ho⟩ | hclosed | ⟨job, ⟨i, hstored⟩, ho⟩)
    · exact .inl (.inl ⟨index, by rw [hnumber]; exact ho⟩)
    · exact .inr (.inl hclosed)
    · rcases h.stored hcleared hstored with hold | hnew
      · exact .inr (.inr ⟨job, hold, ho⟩)
      · refine .inl (.inl ⟨job.index, ?_⟩)
        rw [ho]
        exact congrArg (fun x => some x.1) (hnew.attempt hm)
  · rintro x ⟨job, ⟨i, hstored⟩, ho, hcommand⟩
    rcases h.stored hcleared hstored with hold | hnew
    · exact .inr ⟨job, hold, ho, hcommand⟩
    · refine .inl ⟨job.index, ?_⟩
      rw [Execution.attempt, ho, hcommand]
      exact hnew.attempt hm

/-- Once its latch is released, a pooled phase has left no job in any pool. -/
theorem Going.cleared (h : Going s d phase todo reports e) (hcleared : Cleared start d s)
    (hlatch : PhaseLatch b phase s.batches.size e)
    (hr : e.isReleased s.batches.size = true) : Cleared start d e := by
  obtain ⟨batch, hb, _⟩ := hlatch.batch
  have hzero := (isReleased_iff hb).mp hr
  -- The latch counts no job as outstanding, so none is in a queue or in a worker's hands.
  have houtstanding := hlatch.outstanding
  have hqueued : indicesOn s.batches.size e.queued = [] :=
    List.length_eq_zero_iff.mp (by omega)
  have hheld : indicesOn s.batches.size e.held = [] :=
    List.length_eq_zero_iff.mp (by omega)
  rintro i job ⟨p, hp, hhas⟩
  obtain ⟨p₀, hp₀, hgrows⟩ := h.pools i p hp
  rcases hgrows.has job hhas with hold | ⟨_, hl, _⟩
  · exact hcleared i job ⟨p₀, hp₀, hold⟩
  · have hnone (jobs : List Origin) (hnil : indicesOn s.batches.size jobs = [])
        (hmem : job.origin ∈ jobs) : False := by
      rw [Job.origin, hl] at hmem
      have hindex := mem_indicesOn.mpr hmem
      rw [hnil] at hindex
      cases hindex
    rcases hhas with hmem | ⟨k, w, hw, hjob⟩
    · refine (hnone e.queued hqueued ?_).elim
      rw [queued, List.mem_flatMap]
      exact ⟨p, Array.mem_toList_iff.mpr (Array.mem_of_getElem? hp),
        List.mem_map.mpr ⟨job, hmem, rfl⟩⟩
    · exact (hnone e.held hheld (mem_held hp hw hjob)).elim

/-- Nothing was begun for a latch before it was made. -/
theorem begun_of_unmade {latch : Nat} (h : Reachable b e) (hl : e.batches.size ≤ latch) :
    indicesOn latch e.begun = [] := by
  apply indicesOn_eq_nil
  intro index
  rw [count_begun, number_of_unmade h hl, number_of_unmade h hl, number_of_unmade h hl]

/-- Executions of a pooled phase by their indices. -/
theorem map_attempt_of_isOf {number : Nat} (hm : phase.mode = .pooled) {xs : List Execution}
    (h : ∀ x ∈ xs, x.IsOf phase number) : xs.map Execution.attempt =
      (indicesOn number (xs.map (·.origin))).map (phase.attempt number) := by
  induction xs with
  | nil => rfl
  | cons x xs ih =>
      obtain ⟨index, hx⟩ := h x List.mem_cons_self
      have ho : x.origin = .job number index := by
        rw [← Phase.origin_pooled hm]
        exact congrArg Prod.fst hx
      have hrest := ih fun y hy => h y (List.mem_cons_of_mem _ hy)
      rw [List.map_cons, hx, hrest]
      simp [indicesOn, Origin.indexOn, ho]

/-- What a phase attempted is what was begun for its latch. -/
theorem indicesOn_attemptsSince (hs : Reachable b s) (hprecedes : Precedes start s)
    (hadds : Adds s e l xs) :
    indicesOn s.batches.size ((attemptsSince start s e).map (·.origin)) =
      indicesOn s.batches.size e.begun := by
  have hnone := begun_of_unmade hs (Nat.le_refl s.batches.size)
  have hbegun : e.begun = s.begun ++ xs.map (·.origin) := by
    rw [begun, hadds.executions, List.map_append]
    rfl
  rw [hbegun, indicesOn, indicesOn, List.filterMap_append]
  rw [indicesOn] at hnone
  rw [hnone, List.nil_append, hadds.attemptsSince_eq, List.filterMap_map, List.filterMap_map,
    List.filterMap_filter]
  apply List.filterMap_congr
  intro x _
  have hbatches := hprecedes.batches
  cases ho : x.origin with
  | job latch index =>
      by_cases hl : latch = s.batches.size
      · simp [ho, Origin.isSince, hl, hbatches]
      · simp [ho, Origin.indexOn, hl]
  | direct run index => simp [ho, Origin.indexOn]

/-- Each command of a pooled phase has finished once its latch is released. -/
theorem exists_finished {latch index : Nat} (hlatch : PhaseLatch b phase latch e)
    (hr : e.isReleased latch = true) (hlt : index < phase.iterations) :
    ∃ failed, .finished (.job latch index) failed ∈ e.events.toList := by
  obtain ⟨_, hone, _, hsettled⟩ := settled hlatch hr index
  rw [if_pos hlt] at hone
  have hmem (failed : Bool) (hpos : 0 < e.ledger.number (.job latch index) (.begun failed)) :
      .finished (.job latch index) failed ∈ e.events.toList := by
    rw [← List.count_pos_iff, count_finished, (hsettled failed).1]
    exact hpos
  by_cases hfalse : 0 < e.ledger.number (.job latch index) (.begun false)
  · exact ⟨false, hmem false hfalse⟩
  · exact ⟨true, hmem true (by omega)⟩

/-- A pooled phase whose latch is released is complete. -/
theorem LogsLeg.complete (h : LogsLeg start d phase (s.numberOf phase) s e)
    (hm : phase.mode = .pooled) (hs : Reachable b s) (hstart : Reachable b start)
    (hprecedes : Precedes start s) (hlatch : PhaseLatch b phase s.batches.size e)
    (hr : e.isReleased s.batches.size = true) : (legOf start s e phase).Complete := by
  have hsound := h.sound hstart
  have hnumber := s.numberOf_pooled hm
  obtain ⟨l, xs, hadds, _⟩ := h
  refine ⟨?_, fun hdirect => ?_, fun index hlt => ?_⟩
  · change ((attemptsSince start s e).map Execution.attempt).Perm
      ((List.range phase.iterations).map (phase.attempt (s.numberOf phase)))
    have hattempts : ∀ x ∈ attemptsSince start s e, x.IsOf phase (s.numberOf phase) :=
      hsound.attempts
    rw [map_attempt_of_isOf hm hattempts, hnumber, indicesOn_attemptsSince hs hprecedes hadds]
    exact (counted_indices hlatch hr).2.2.map _
  · change phase.mode = .direct at hdirect
    rw [hm] at hdirect
    cases hdirect
  · change ∃ failed, .finished (phase.origin (s.numberOf phase) index) failed ∈
      eventsSince start s e
    obtain ⟨failed, hmem⟩ := exists_finished hlatch hr hlt
    refine ⟨failed, ?_⟩
    rw [Phase.origin_pooled hm, hnumber, hadds.eventsSince_eq, List.mem_filter]
    refine ⟨?_, decide_eq_true hprecedes.batches⟩
    rw [hadds.events] at hmem
    rcases List.mem_append.mp hmem with hold | hnew
    · have hnone : s.ledger.number (.job s.batches.size index) (.finished failed) = 0 :=
        number_of_unmade hs (Nat.le_refl _) _
      rw [← count_finished, List.count_eq_zero] at hnone
      exact absurd hold hnone
    · exact hnew

theorem During.leads_of_direct (h : During b s e) (hs : Poised b start d s phase todo reports)
    (hm : phase.mode = .direct) :
    LogsLeg start d phase (s.numberOf phase) s e ∧ Leads start d s phase todo reports e := by
  obtain ⟨direct, hd⟩ := hs.driver
  obtain ⟨p, hp, hshared⟩ := hs.pool
  obtain ⟨hlogs, hissuing⟩ :=
    h.issuing hs.started hs.precedes hs.reachable hd hp hshared hs.planned hm hs.cleared
  refine ⟨hlogs, ?_⟩
  rcases hissuing with ⟨answer, hreturned⟩ | hissuing
  · exact .returned answer hreturned
  · cases hissuing.call with
    | entering _ hr | running hr | leaving _ hr => exact .running (by rw [hr]; rfl)
    | reported hplanning hruns hissued =>
        refine .past ⟨hplanning, hissuing.cleared, hissued.complete, fun index => ?_⟩
        rw [Phase.origin_direct hm]
        simp only [Origin.isSince, hruns, decide_eq_false_iff_not]
        omega

/-- What is on record of a pooled phase of a plan. -/
theorem During.logsLeg (h : During b s e) (hready : Ready b s d p phase todo reports)
    (hcleared : Cleared start d s) : LogsLeg start d phase (s.numberOf phase) s e := by
  induction h with
  | begins hbegins =>
      obtain rfl := hready.begun hbegins
      exact .same events_beginPhase executions_beginPhase
  | step label h hrunning hstep ih =>
      have hgoing := (h.going hready).resolve_left (not_returned_of_isRunning hrunning)
      apply ih.trans
      exact hgoing.logsLeg hready.pooled hcleared (h.reachable hready.reachable) hrunning hstep

theorem During.leads_of_pooled (h : During b s e) (hs : Poised b start d s phase todo reports)
    (hm : phase.mode = .pooled) :
    LogsLeg start d phase (s.numberOf phase) s e ∧ Leads start d s phase todo reports e := by
  obtain ⟨direct, hd⟩ := hs.driver
  obtain ⟨p, hp, hshared⟩ := hs.pool
  have hready : Ready b s { d with direct } p phase todo reports :=
    ⟨hs.reachable, hd, hp, hs.planned, hm⟩
  have hlogs : LogsLeg start { d with direct } phase (s.numberOf phase) s e :=
    h.logsLeg hready hs.cleared
  have hlatch := h.phaseLatch hready
  refine ⟨hlogs, ?_⟩
  rcases h.going hready with ⟨answer, hreturned⟩ | hgoing
  · exact .returned answer hreturned
  · cases hgoing.call with
    | entering hr | running hr | leaving _ hr => exact .running (by rw [hr]; rfl)
    | reported _ hplanning =>
        obtain ⟨hreleased, _, hreport⟩ := h.report_of_empty hready hshared
          (hs.cleared.jobs_eq_nil hp) hplanning
        rw [hreport] at hplanning
        refine .past ⟨hplanning, hgoing.cleared hs.cleared hlatch hreleased, ?_, fun index => ?_⟩
        · exact hlogs.complete hm hs.reachable hs.started hs.precedes hlatch hreleased
        · obtain ⟨batch, hb, _⟩ := hlatch.batch
          obtain ⟨hlt, _⟩ := Array.getElem?_eq_some_iff.mp hb
          rw [Phase.origin_pooled hm, numberOf_pooled s hm]
          simp only [Origin.isSince, decide_eq_false_iff_not]
          omega

/-- A phase of a plan from its beginning until its call goes on or returns. -/
theorem During.leads (h : During b s e) (hs : Poised b start d s phase todo reports) :
    LogsLeg start d phase (s.numberOf phase) s e ∧ Leads start d s phase todo reports e := by
  cases hm : phase.mode with
  | direct => exact h.leads_of_direct hs hm
  | pooled => exact h.leads_of_pooled hs hm

end Engine

end LoadBench
