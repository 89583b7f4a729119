import LoadBench.Proofs.PlanRun

/-!
A plan runs its phases strictly in order. What the records get of a plan is what its phases leave
there, one after the other, and a phase begins only after each command of the one before it was
attempted and has finished. If all phases go through, there is a report for each of them, and what
they report adds up to what the driver's counters have moved by. If one does not, none of the later
ones has begun, and the engine is in the state of a run in which the phases up to that one have a
call each. Each such run is one of the plan, too: a failure is passed on at once, and when the last
of the calls reports, so does the plan.

The driver's pool has no jobs when the plan begins. Pools of drivers that were let go may have some,
so the records may hold more than the plan.
-/

namespace LoadBench

/-- What a report repeats of its phase. -/
def Phase.label (phase : Phase) : String × Mode × Nat := (phase.name, phase.mode, phase.iterations)

def PhaseCount.label (report : PhaseCount) : String × Mode × Nat :=
  (report.name, report.mode, report.iterations)

namespace Engine

variable {b : Backend} {e next start s : Engine} {d : Driver} {p : WorkerPool} {phase : Phase}
  {todo phases : List Phase} {reports : List PhaseCount} {label : Label} {legs : List Leg}

/-- What is on record since a plan began is what its phases have left there, one after the other,
and what concerns jobs that other pools had before. -/
structure Recorded (start : Engine) (d : Driver) (legs : List Leg) (e : Engine) : Prop where
  others : Logs
    (fun event => event.isSince start = true ∨ event.Concerns (start.LeftOver d))
    (fun x => x.origin.isSince start = true ∨ x.Concerns (start.LeftOver d)) start e
  events : eventsSince start start e = legs.flatMap (·.events)
  attempts : attemptsSince start start e = legs.flatMap (·.attempts)
  sound : ∀ leg ∈ legs, leg.Sound
  apart : legs.Pairwise fun leg leg' => ∀ index index', leg.origin index ≠ leg'.origin index'

theorem Recorded.others_step (h : Recorded start d legs e) (hstart : Reachable b start)
    (hlogs : Logs (Event.Concerns (start.LeftOver d)) (Execution.Concerns (start.LeftOver d)) e
      next) : Recorded start d legs next := by
  have hothers := h.others.trans (hlogs.mono (fun _ => .inr) fun _ => .inr)
  obtain ⟨hevents, hattempts⟩ := hlogs.since_of_leftOver hstart
  obtain ⟨l, xs, hadds, _⟩ := h.others
  obtain ⟨l', xs', hadds', _⟩ := hlogs
  refine ⟨hothers, ?_, ?_, h.sound, h.apart⟩
  · rw [hadds.eventsSince_append hadds', hevents, List.append_nil]
    exact h.events
  · rw [hadds.attemptsSince_append hadds', hattempts, List.append_nil]
    exact h.attempts

/-- A further phase leaves its own records behind those of the phases before it. -/
theorem Recorded.leg (h : Recorded start d legs s) (hstart : Reachable b start)
    (hprecedes : Precedes start s) (hlogs : LogsLeg start d phase (s.numberOf phase) s e)
    (hpast : ∀ leg ∈ legs, ∀ index, (leg.origin index).isSince s = false) :
    Recorded start d (legs ++ [legOf start s e phase]) e := by
  have hsound := hlogs.sound hstart
  have hothers := h.others.trans (hlogs.mono
    (fun event => Or.imp_left hprecedes.event) fun x => Or.imp_left hprecedes.execution)
  obtain ⟨l, xs, hadds, _⟩ := h.others
  obtain ⟨l', xs', hadds', _⟩ := hlogs
  refine ⟨hothers, ?_, ?_, ?_, ?_⟩
  · rw [hadds.eventsSince_append hadds', h.events, List.flatMap_append, List.flatMap_singleton]
    rfl
  · rw [hadds.attemptsSince_append hadds', h.attempts, List.flatMap_append, List.flatMap_singleton]
    rfl
  · intro leg hmem
    rcases List.mem_append.mp hmem with hold | hnew
    · exact h.sound leg hold
    · rw [List.mem_singleton.mp hnew]
      exact hsound
  · rw [List.pairwise_append]
    refine ⟨h.apart, List.pairwise_singleton _ _, fun leg hmem leg' hnew index index' hsame => ?_⟩
    rw [List.mem_singleton.mp hnew] at hsame
    have hold := hpast leg hmem index
    rw [hsame] at hold
    change (phase.origin (s.numberOf phase) index').isSince s = false at hold
    rw [(Precedes.refl s).origin phase index'] at hold
    cases hold

/-- A plan between two of its phases, before the first or after the last one. -/
structure Between (b : Backend) (start : Engine) (d : Driver) (phases : List Phase)
    (legs : List Leg) (todo : List Phase) (reports : List PhaseCount) (e : Engine) : Prop
    extends Frame b start d e, Recorded start d legs e where
  planned : e.progress = .planning todo reports
  phases : legs.map (·.phase) ++ todo = phases
  cleared : Cleared start d e
  complete : ∀ leg ∈ legs, leg.Complete
  past : ∀ leg ∈ legs, ∀ index, (leg.origin index).isSince e = false
  labels : reports.map PhaseCount.label = legs.map fun leg => leg.phase.label
  executed : (e.tallyAt d.tally).executed =
    (start.tallyAt d.tally).executed + (reports.map (·.counts.executed)).sum
  failed : (e.tallyAt d.tally).failed =
    (start.tallyAt d.tally).failed + (reports.map (·.counts.failed)).sum
  /-- The next phase could be run by a call of its own just as well. -/
  alone : ∀ phase todo', todo = phase :: todo' →
    OneByOne b start (legs.map (·.phase) ++ [phase])
      (e.withCall (.planning [phase] []) e.directRuns)

theorem Between.poised (h : Between b start d phases legs (phase :: todo) reports s)
    (hstart : Reachable b start) : Poised b start d s phase todo reports :=
  ⟨h.toFrame, hstart, h.planned, h.cleared⟩

/-- A driver whose pool has no jobs, between two calls. -/
structure Rested (b : Backend) (start : Engine) (d : Driver) (p : WorkerPool) : Prop where
  reachable : Reachable b start
  atRest : start.progress.atRest = true
  driver : start.driver = some d
  pool : start.pools[d.pool]? = some p
  shared : d.tally = p.tally
  jobs : p.jobs = []

theorem Rested.begins (h : Rested b start d p)
    (hs : start.step b (.call (.plan phases)) = some e) :
    Between b start d phases [] phases [] e := by
  have hbegins (phases : List Phase) : start.step b (.call (.plan phases)) =
      some (start.withCall (.planning phases []) start.directRuns) :=
    step_call_plan h.driver h.atRest phases
  have hreachable := h.reachable.step _ hs
  rw [hbegins, Option.some.injEq] at hs
  subst hs
  refine {
    reachable := hreachable
    driver := ⟨d.direct, h.driver⟩
    pool := ⟨p, h.pool, h.shared⟩
    precedes := ⟨Nat.le_refl _, Nat.le_refl _⟩
    others := .same rfl rfl
    events := ?_
    attempts := ?_
    sound := nofun
    apart := .nil
    planned := rfl
    phases := rfl
    cleared := cleared_of_jobs h.pool h.jobs
    complete := nofun
    past := nofun
    labels := rfl
    executed := rfl
    failed := rfl
    alone := ?_ }
  · exact (Adds.same rfl rfl).eventsSince_eq
  · exact (Adds.same rfl rfl).attemptsSince_eq
  · intro phase todo' _
    exact .first (hbegins [phase])

/-- What others do meanwhile does not matter. -/
theorem Between.others_step (h : Between b start d phases legs todo reports e)
    (hstart : Reachable b start) (hs : e.step b label = some next)
    (hl : label.ofCaller = false) : Between b start d phases legs todo reports next := by
  obtain ⟨hprogress, hruns, _⟩ := step_of_others hs hl
  have hplan : e.progress.inPlan = true := by rw [h.planned]; rfl
  have hframe := h.toFrame.step hs hplan
  obtain ⟨direct, hd⟩ := h.driver
  obtain ⟨p, hp, hshared⟩ := h.pool
  have htally := h.cleared.tallyAt h.reachable hp hshared hs hl
  have hprecedes := step_precedes h.reachable hs hd hplan
  have hrecorded := h.toRecorded.others_step hstart (h.cleared.logs hs hl)
  refine {
    toFrame := hframe
    toRecorded := hrecorded
    planned := hprogress.trans h.planned
    phases := h.phases
    cleared := h.cleared.step h.reachable hs (by rw [h.planned]; rfl)
    complete := h.complete
    past := fun leg hmem index => hprecedes.not_since (h.past leg hmem index)
    labels := h.labels
    executed := ?_
    failed := ?_
    alone := ?_ }
  · rw [htally, h.executed]
  · rw [htally, h.failed]
  · intro phase todo' htodo
    refine .step label (h.alone phase todo' htodo) rfl ?_
    rw [step_withCall hl, hs, hruns]
    rfl

/-- The call that runs a phase alone reports once the phase is done, and the next call can be
made. -/
theorem Between.alone_next {phase' : Phase} {todo' : List Phase}
    (h : Between b start d phases legs (phase :: phase' :: todo') reports s)
    (hstart : Reachable b start) (hduring : During b s e)
    (hpast : Past start d s phase (phase' :: todo') reports e) :
    OneByOne b start (legs.map (·.phase) ++ [phase] ++ [phase'])
      (e.withCall (.planning [phase'] []) e.directRuns) := by
  have hpoised := h.poised hstart
  obtain ⟨direct, hd⟩ := (hduring.frame hpoised.toFrame hpoised.inPlan).driver
  obtain ⟨x, hone, rfl⟩ := hduring.oneByOne h.planned (h.alone phase _ rfl)
  have hdriver : x.driver = some { d with direct } := hd
  obtain ⟨report, hreport⟩ : ∃ report, x.progress.inside (phase' :: todo') reports =
      .planning (phase' :: todo') (reports ++ [report]) := ⟨_, hpast.progress⟩
  have hreported : OneByOne b start (legs.map (·.phase) ++ [phase])
      (x.finish (.reports [report])) := by
    rcases Progress.inside_eq_planning hreport with hplanning | hreturned
    · refine hone.step (.act .caller) (by rw [hplanning]; rfl) ?_
      change x.callerStep b = _
      rw [callerStep, hplanning]
    · have hsame : x.finish (.reports [report]) = x := by
        rw [finish, ← hreturned]
      rw [hsame]
      exact hone
  have hcall := hreported.next rfl
    (step_call_plan (e := x.finish (.reports [report])) hdriver rfl [phase'])
  exact hcall

/-- A plan that returns while a phase is being run is in the state of a run in which the phases up
to that one have a call each. -/
theorem Between.oneByOne {answer : Answer}
    (h : Between b start d phases legs (phase :: todo) reports s) (hduring : During b s e)
    (hreturned : e.progress = .returned answer) :
    OneByOne b start (legs.map (·.phase) ++ [phase]) e := by
  obtain ⟨x, hone, rfl⟩ := hduring.oneByOne h.planned (h.alone phase todo rfl)
  have hx : x.progress = .returned answer := Progress.inside_of_failure hreturned
  have hsame : x.inside todo reports = x := by
    change x.progress.inside todo reports = _ at hreturned
    rw [inside, hreturned, ← hx]
    rfl
  rw [hsame]
  exact hone

/-- Once a phase is done the plan is between two phases again. -/
theorem Between.leg (h : Between b start d phases legs (phase :: todo) reports s)
    (hstart : Reachable b start) (hduring : During b s e)
    (hpast : Past start d s phase todo reports e) :
    Between b start d phases (legs ++ [legOf start s e phase]) todo
      (reports ++ [phase.report (s.tallyAt d.tally) (e.tallyAt d.tally)]) e := by
  have hpoised := h.poised hstart
  have hlogs := (hduring.leads hpoised).1
  have hframe := hduring.frame hpoised.toFrame hpoised.inPlan
  have hprecedes := hduring.precedes hpoised
  have hexecuted := h.executed
  have hfailed := h.failed
  have hle : (s.tallyAt d.tally).executed ≤ (e.tallyAt d.tally).executed :=
    hduring.tallyAt_le d.tally .executed
  have hle' : (s.tallyAt d.tally).failed ≤ (e.tallyAt d.tally).failed :=
    hduring.tallyAt_le d.tally .failed
  refine {
    toFrame := hframe
    toRecorded := h.toRecorded.leg hstart h.precedes hlogs h.past
    planned := hpast.progress
    phases := ?_
    cleared := hpast.cleared
    complete := ?_
    past := ?_
    labels := ?_
    executed := ?_
    failed := ?_
    alone := ?_ }
  · rw [List.map_append, List.append_assoc]
    exact h.phases
  · intro leg hmem
    rcases List.mem_append.mp hmem with hold | hnew
    · exact h.complete leg hold
    · rw [List.mem_singleton.mp hnew]
      exact hpast.complete
  · intro leg hmem index
    rcases List.mem_append.mp hmem with hold | hnew
    · exact hprecedes.not_since (h.past leg hold index)
    · rw [List.mem_singleton.mp hnew]
      exact hpast.past index
  · rw [List.map_append, List.map_append, h.labels]
    rfl
  · simp only [List.map_append, List.sum_append, List.map_singleton, List.sum_singleton,
      Phase.report, Tally.since]
    omega
  · simp only [List.map_append, List.sum_append, List.map_singleton, List.sum_singleton,
      Phase.report, Tally.since]
    omega
  · rintro phase' todo' rfl
    rw [List.map_append]
    exact h.alone_next hstart hduring hpast

/-- How far a plan has come. -/
inductive Standing (b : Backend) (start : Engine) (d : Driver) (phases : List Phase) (e : Engine) :
    Prop
  | between {legs : List Leg} {todo : List Phase} {reports : List PhaseCount}
      (h : Between b start d phases legs todo reports e)
  | within {legs : List Leg} {phase : Phase} {todo : List Phase} {reports : List PhaseCount}
      {s : Engine} (h : Between b start d phases legs (phase :: todo) reports s)
      (hduring : During b s e)
      (hunreported : ∀ counts, e.progress ≠ .returned (.reports counts))
  | reported {legs : List Leg} {reports : List PhaseCount} {s : Engine}
      (h : Between b start d phases legs [] reports s) (he : e = s.finish (.reports reports))

/-- A phase of a plan, after one of the steps of its run. -/
theorem Between.standing (h : Between b start d phases legs (phase :: todo) reports s)
    (hstart : Reachable b start) (hduring : During b s e)
    (hunreported : ∀ counts, e.progress ≠ .returned (.reports counts)) :
    Standing b start d phases e := by
  cases (hduring.leads (h.poised hstart)).2 with
  | running hr => exact .within h hduring hunreported
  | past hpast => exact .between (h.leg hstart hduring hpast)
  | returned answer hr => exact .within h hduring hunreported

theorem Between.step (h : Between b start d phases legs todo reports e) (hstart : Reachable b start)
    (hs : e.step b label = some next) : Standing b start d phases next := by
  obtain ⟨direct, hd⟩ := h.driver
  cases hl : label.ofCaller with
  | false => exact .between (h.others_step hstart hs hl)
  | true =>
      obtain ⟨rfl, ⟨rfl, rfl⟩ | ⟨phase, todo', rfl, hbegun⟩⟩ := step_of_planning hs hl hd h.planned
      · exact .reported h rfl
      · refine h.standing hstart (.begins hs) fun counts hreturned => ?_
        obtain ⟨entry, hentering⟩ := progress_beginPhase e { d with direct } phase todo' reports
        rw [hbegun, hentering] at hreturned
        cases hreturned

theorem Standing.step (h : Standing b start d phases e) (hstart : Reachable b start)
    (hplan : e.progress.inPlan = true) (hs : e.step b label = some next) :
    Standing b start d phases next := by
  cases h with
  | between h => exact h.step hstart hs
  | within h hduring _ =>
      have hpoised := h.poised hstart
      cases (hduring.leads hpoised).2 with
      | running hr =>
          obtain ⟨direct, hd⟩ := (hduring.frame hpoised.toFrame hpoised.inPlan).driver
          refine h.standing hstart (hduring.step label hr hs) ?_
          intro counts hreturned
          exact answer_of_isRunning hs hd hr hreturned counts rfl
      | past hpast => exact (h.leg hstart hduring hpast).step hstart hs
      | returned answer hr =>
          rw [hr] at hplan
          cases hplan
  | reported h he =>
      subst he
      cases hplan

theorem DuringPlan.standing (h : DuringPlan b start phases e) (hrested : Rested b start d p) :
    Standing b start d phases e := by
  induction h with
  | begins hs => exact .between (hrested.begins hs)
  | step label h hplan hs ih => exact ih.step hrested.reachable hplan hs

/-- What is on record of a plan at any time. -/
structure InOrder (start : Engine) (d : Driver) (phases : List Phase) (e : Engine)
    (legs : List Leg) : Prop extends Recorded start d legs e where
  /-- The phases that have begun are the first ones of the plan. -/
  ran : legs.map (·.phase) <+: phases
  /-- All of them but the last one are complete. -/
  complete : ∀ leg ∈ legs.dropLast, leg.Complete
  /-- Each command of a phase was attempted and has finished before anything that a later phase
  does. -/
  before : legs.Pairwise fun leg leg' => ∀ index < leg.phase.iterations, ∀ event ∈ leg'.events,
    (∃ conn, [.begun (leg.origin index) conn, event].Sublist e.events.toList) ∧
      ∃ failed, [.finished (leg.origin index) failed, event].Sublist e.events.toList

/-- A plan has run all of its phases. -/
structure Succeeded (start : Engine) (d : Driver) (phases : List Phase) (e : Engine)
    (legs : List Leg) (reports : List PhaseCount) : Prop where
  ran : legs.map (·.phase) = phases
  complete : ∀ leg ∈ legs, leg.Complete
  labels : reports.map PhaseCount.label = phases.map Phase.label
  executed : (e.tallyAt d.tally).executed =
    (start.tallyAt d.tally).executed + (reports.map (·.counts.executed)).sum
  failed : (e.tallyAt d.tally).failed =
    (start.tallyAt d.tally).failed + (reports.map (·.counts.failed)).sum

/-- Records that are put behind one another stand in order. -/
theorem pairwise_events (legs : List Leg) : legs.Pairwise fun leg leg' =>
    (leg.events ++ leg'.events).Sublist (legs.flatMap (·.events)) := by
  induction legs with
  | nil => exact .nil
  | cons leg legs ih =>
      rw [List.flatMap_cons]
      refine .cons (fun leg' hmem => ?_) (ih.imp fun h => h.trans (List.sublist_append_right _ _))
      refine (List.Sublist.refl _).append ?_
      rw [List.flatMap_def]
      exact List.sublist_flatten_of_mem (List.mem_map_of_mem hmem)

theorem pairwise_dropLast (legs : List Leg) :
    legs.Pairwise fun leg _ => leg ∈ legs.dropLast := by
  rw [List.pairwise_iff_getElem]
  intro i j hi hj hlt
  rw [List.mem_iff_getElem]
  exact ⟨i, by rw [List.length_dropLast]; omega, List.getElem_dropLast _⟩

theorem Recorded.before (h : Recorded start d legs e)
    (hcomplete : ∀ leg ∈ legs.dropLast, leg.Complete) :
    legs.Pairwise fun leg leg' => ∀ index < leg.phase.iterations, ∀ event ∈ leg'.events,
      (∃ conn, [.begun (leg.origin index) conn, event].Sublist e.events.toList) ∧
        ∃ failed, [.finished (leg.origin index) failed, event].Sublist e.events.toList := by
  have hlog : (legs.flatMap (·.events)).Sublist e.events.toList := by
    rw [← h.events]
    exact List.filter_sublist.trans (List.drop_sublist _ _)
  -- The first of two legs is not the last one, so it is complete, and its records stand in front.
  refine ((pairwise_events legs).and (pairwise_dropLast legs)).imp_of_mem ?_
  intro leg leg' hmem _ ⟨hsublist, hdrop⟩ index hlt event hevent
  have hpair (event' : Event) (hevent' : event' ∈ leg.events) :
      [event', event].Sublist e.events.toList := by
    have hsingle := (List.singleton_sublist.mpr hevent').append (List.singleton_sublist.mpr hevent)
    exact hsingle.trans (hsublist.trans hlog)
  have hc := hcomplete leg hdrop
  obtain ⟨conn, hbegun⟩ := hc.begun (h.sound leg hmem) hlt
  obtain ⟨failed, hfinished⟩ := hc.finished index hlt
  exact ⟨⟨conn, hpair _ hbegun⟩, failed, hpair _ hfinished⟩

theorem Recorded.inOrder (h : Recorded start d legs e) (hran : legs.map (·.phase) <+: phases)
    (hcomplete : ∀ leg ∈ legs.dropLast, leg.Complete) : InOrder start d phases e legs :=
  ⟨h, hran, hcomplete, h.before hcomplete⟩

/-- What is on record while a plan is being run and after it. -/
theorem DuringPlan.inOrder (h : DuringPlan b start phases e) (hrested : Rested b start d p) :
    ∃ legs, InOrder start d phases e legs ∧
      (∀ reports, e.progress = .returned (.reports reports) →
        Succeeded start d phases e legs reports) ∧
      ∀ answer, e.progress = .returned answer → (∀ reports, answer ≠ .reports reports) →
        legs ≠ [] ∧ OneByOne b start (legs.map (·.phase)) e := by
  have hstart := hrested.reachable
  cases h.standing hrested with
  | @between legs todo reports hbetween =>
      refine ⟨legs, hbetween.toRecorded.inOrder ⟨todo, hbetween.phases⟩ ?_, ?_, ?_⟩
      · exact fun leg hmem => hbetween.complete leg (List.mem_of_mem_dropLast hmem)
      · intro counts hreturned
        cases hbetween.planned.symm.trans hreturned
      · intro answer hreturned
        cases hbetween.planned.symm.trans hreturned
  -- A phase that is being run, or in which the call has returned, is the last leg.
  | @within legs phase todo reports s hbetween hduring hunreported =>
      have hpoised := hbetween.poised hstart
      have hlogs := (hduring.leads hpoised).1
      have hrecorded := hbetween.toRecorded.leg hstart hbetween.precedes hlogs hbetween.past
      have hran : (legs ++ [legOf start s e phase]).map (·.phase) =
          legs.map (·.phase) ++ [phase] := List.map_append
      refine ⟨legs ++ [legOf start s e phase], hrecorded.inOrder ⟨todo, ?_⟩ ?_, ?_, ?_⟩
      · rw [hran, List.append_assoc]
        exact hbetween.phases
      · rw [List.dropLast_concat]
        exact hbetween.complete
      · exact fun counts hreturned => absurd hreturned (hunreported counts)
      · intro answer hreturned _
        rw [hran]
        exact ⟨List.concat_ne_nil _ _, hbetween.oneByOne hduring hreturned⟩
  | @reported legs reports s hbetween he =>
      subst he
      have hrecorded : Recorded start d legs (s.finish (.reports reports)) :=
        hbetween.toRecorded.others_step hstart (.same rfl rfl)
      have hran : legs.map (·.phase) = phases := by
        rw [← hbetween.phases, List.append_nil]
      refine ⟨legs, hrecorded.inOrder ⟨[], hbetween.phases⟩ ?_, ?_, ?_⟩
      · exact fun leg hmem => hbetween.complete leg (List.mem_of_mem_dropLast hmem)
      · intro counts hreturned
        cases hreturned
        refine ⟨hran, hbetween.complete, ?_, hbetween.executed, hbetween.failed⟩
        rw [hbetween.labels, ← hran, List.map_map]
        rfl
      · intro answer hreturned hne
        cases hreturned
        exact absurd rfl (hne reports)

/-- The run of a plan over a driver that has no jobs left. It comes to what the calls come to that
run its phases one by one: to the first failure, or to the reports of all of them. -/
theorem plan_in_order (hrested : Rested b start d p) (phases : List Phase) :
    (∀ e, DuringPlan b start phases e → ∃ legs, InOrder start d phases e legs ∧
      (∀ reports, e.progress = .returned (.reports reports) →
        Succeeded start d phases e legs reports) ∧
      ∀ answer, e.progress = .returned answer → (∀ reports, answer ≠ .reports reports) →
        legs ≠ [] ∧ OneByOne b start (legs.map (·.phase)) e) ∧
    (∀ ran rest e answer, phases = ran ++ rest → OneByOne b start ran e →
      e.progress = .returned answer → (∀ reports, answer ≠ .reports reports) →
        DuringPlan b start phases e) ∧
    ∀ e report, OneByOne b start phases e → e.progress = .returned (.reports [report]) →
      ∃ reports, DuringPlan b start phases (e.finish (.reports (reports ++ [report]))) := by
  refine ⟨fun e h => h.inOrder hrested, ?_, ?_⟩
  · rintro ran rest e answer rfl h hreturned hne
    exact h.duringPlan_of_failure hrested.driver hrested.atRest hreturned hne rest
  · intro e report h hreturned
    exact h.duringPlan_of_report hrested.driver hrested.atRest hreturned

/-- The state after the labels of a list, as long as a plan is being run. -/
def runPlan (b : Backend) (e : Engine) (labels : List Label) : Option Engine :=
  e.runWhile b Progress.inPlan labels

theorem DuringPlan.of_runPlan {labels : List Label} (h : DuringPlan b start phases e)
    (hr : e.runPlan b labels = some next) : DuringPlan b start phases next :=
  of_runWhile (fun _ _ label h hplan hs => .step label h hplan hs) h hr

/-- A pooled and a direct phase of one command each, with one worker. -/
theorem plan_in_order_of_two : ∃ start d p e legs, Rested (.always .succeed) start d p ∧
    DuringPlan (.always .succeed) start [.pings 1, { Phase.pings 1 with mode := .direct }] e ∧
    InOrder start d [.pings 1, { Phase.pings 1 with mode := .direct }] e legs ∧
    Succeeded start d [.pings 1, { Phase.pings 1 with mode := .direct }] e legs
      [⟨"ping", .pooled, 1, ⟨1, 0⟩⟩, ⟨"ping", .direct, 1, ⟨1, 0⟩⟩] := by
  obtain ⟨start, hstart⟩ : ∃ start, Engine.run (.always .succeed) {}
      [.call (.start 1 1 false), .act .caller, .act .caller] = some start := ⟨_, rfl⟩
  obtain ⟨p, hrested⟩ : ∃ p, Rested (.always .succeed) start ⟨0, 0, none⟩ p := by
    have hreachable := Reachable.start.run hstart
    cases hstart
    exact ⟨_, hreachable, rfl, rfl, rfl, rfl, rfl⟩
  obtain ⟨begun, hbegun⟩ : ∃ begun, start.step (.always .succeed)
      (.call (.plan [.pings 1, { Phase.pings 1 with mode := .direct }])) = some begun := by
    cases hstart
    exact ⟨_, rfl⟩
  obtain ⟨e, he⟩ : ∃ e, begun.runPlan (.always .succeed) (.replicate 4 (.act .caller) ++
      .replicate 6 (.act (.worker 0 0)) ++ .replicate 15 (.act .caller)) = some e := by
    cases hstart
    cases hbegun
    exact ⟨_, rfl⟩
  have hduring : DuringPlan (.always .succeed) start
      [.pings 1, { Phase.pings 1 with mode := .direct }] e :=
    (DuringPlan.begins hbegun).of_runPlan he
  have hreturned : e.progress = .returned (.reports
      [⟨"ping", .pooled, 1, ⟨1, 0⟩⟩, ⟨"ping", .direct, 1, ⟨1, 0⟩⟩]) := by
    cases hstart
    cases hbegun
    cases he
    rfl
  obtain ⟨legs, hinOrder, hsucceeded, _⟩ := (plan_in_order hrested _).1 e hduring
  exact ⟨start, _, p, e, legs, hrested, hduring, hinOrder, hsucceeded _ hreturned⟩

end Engine

end LoadBench
