import LoadBench.Proofs.PlanLeg

/-!
The run of a plan. While it goes on the driver stays over the same pool, the numbers of latches and
of direct phases only grow, and the run is the same, step by step, as one in which the phases are
run by a call each.
-/

namespace LoadBench

/-- Whether a plan is being run. -/
def Progress.inPlan : Progress → Bool
  | .planning _ _ | .entering _ _ _ _ _ | .running _ _ _ | .leaving _ _ _ _ _ => true
  | _ => false

/-- How far a call has come that has more phases to run after those of this one, and more reports
before. -/
def Progress.inside (rest : List Phase) (reports : List PhaseCount) : Progress → Progress
  | .planning todo reports' => .planning (todo ++ rest) (reports ++ reports')
  | .entering phase executed entry todo reports' =>
      .entering phase executed entry (todo ++ rest) (reports ++ reports')
  | .running run todo reports' => .running run (todo ++ rest) (reports ++ reports')
  | .leaving phase before executed todo reports' =>
      .leaving phase before executed (todo ++ rest) (reports ++ reports')
  | .returned (.reports reports') => .planning rest (reports ++ reports')
  | progress => progress

theorem Progress.inside_of_failure {rest : List Phase} {reports : List PhaseCount}
    {progress : Progress} {answer : Answer} (h : progress.inside rest reports = .returned answer) :
    progress = .returned answer := by
  cases progress with
  | returned answer' =>
      cases answer' with
      | reports reports' => cases h
      | _ => exact h
  | planning | entering | running | leaving => cases h
  | _ => exact h

theorem Progress.inside_eq_planning {rest : List Phase} {reports : List PhaseCount}
    {report : PhaseCount} {progress : Progress}
    (h : progress.inside rest reports = .planning rest (reports ++ [report])) :
    progress = .planning [] [report] ∨ progress = .returned (.reports [report]) := by
  cases progress with
  | planning todo reports' =>
      obtain ⟨htodo, hreports⟩ := Progress.planning.inj h
      rw [List.append_left_eq_self.mp htodo, List.append_cancel_left hreports]
      exact .inl rfl
  | returned answer =>
      cases answer with
      | reports reports' =>
          obtain ⟨_, hreports⟩ := Progress.planning.inj h
          rw [List.append_cancel_left hreports]
          exact .inr rfl
      | _ => cases h
  | _ => cases h

theorem Progress.inPlan_inside {progress : Progress} (h : progress.inPlan = true)
    (rest : List Phase) (reports : List PhaseCount) :
    (progress.inside rest reports).inPlan = true := by
  cases progress with
  | planning | entering | running | leaving => rfl
  | _ => cases h

theorem Progress.isRunning_inside (progress : Progress) (rest : List Phase)
    (reports : List PhaseCount) :
    (progress.inside rest reports).isRunning = progress.isRunning := by
  cases progress with
  | returned answer => cases answer <;> rfl
  | _ => rfl

theorem Progress.inPlan_of_isRunning {progress : Progress} (h : progress.isRunning = true) :
    progress.inPlan = true := by
  cases progress with
  | entering | running | leaving => rfl
  | _ => cases h

theorem Progress.inPlan_place {progress : Progress} (h : progress.inPlan = true) :
    progress.atRest = false ∧ progress.opening = none := by
  cases progress with
  | planning | entering | running | leaving => exact ⟨rfl, rfl⟩
  | _ => cases h

namespace Engine

/-- The states of a run from the call to run a plan until the call returns. -/
inductive DuringPlan (b : Backend) (start : Engine) (phases : List Phase) : Engine → Prop
  | begins {e : Engine} (hs : start.step b (.call (.plan phases)) = some e) :
      DuringPlan b start phases e
  | step {e next : Engine} (label : Label) (h : DuringPlan b start phases e)
      (hr : e.progress.inPlan = true) (hs : e.step b label = some next) :
      DuringPlan b start phases next

/-- The states of a run in which the phases of a list are run by a call each, from the first call
until the last one returns. The next call is made once a call has reported. -/
inductive OneByOne (b : Backend) (start : Engine) : List Phase → Engine → Prop
  | first {phase : Phase} {e : Engine} (hs : start.step b (.call (.plan [phase])) = some e) :
      OneByOne b start [phase] e
  | step {phases : List Phase} {e next : Engine} (label : Label) (h : OneByOne b start phases e)
      (hr : e.progress.inPlan = true) (hs : e.step b label = some next) :
      OneByOne b start phases next
  | next {phases : List Phase} {phase : Phase} {report : PhaseCount} {e next : Engine}
      (h : OneByOne b start phases e) (hr : e.progress = .returned (.reports [report]))
      (hs : e.step b (.call (.plan [phase])) = some next) :
      OneByOne b start (phases ++ [phase]) next

variable {b : Backend} {e next start s : Engine} {d : Driver} {p : WorkerPool} {phase : Phase}
  {todo : List Phase} {reports : List PhaseCount} {label : Label} {turn : Turn} {run : PhaseRun}
  {phases : List Phase}

theorem DirectMove.directRuns_le {point : Point} (h : DirectMove b e d phase point turn next) :
    e.directRuns ≤ next.directRuns := by
  cases h with
  | @dials _ _ dialed _ _ hp hdial ht =>
      have hruns := hdial.adds.2
      cases dialed with
      | connected conn =>
          cases ht
          exact hruns ▸ Nat.le_succ _
      | _ =>
          cases ht
          exact hruns.ge
  | finishes fault gate hp => exact (finishDirect_adds { e with gate } _ _ fault).2.1.ge
  | _ => exact Nat.le_refl _

theorem directRuns_phaseTurn (hs : e.phaseTurn b d run = some (turn, next)) :
    e.directRuns ≤ next.directRuns := by
  cases hm : run.phase.mode with
  | pooled =>
      simp only [phaseTurn, hm] at hs
      exact (directRuns_pooledStep hs).ge
  | direct =>
      simp only [phaseTurn, hm] at hs
      exact (directStep_cases hs).directRuns_le

theorem directRuns_cancelPoint {point : Point} (hs : e.cancelPoint point = some next) :
    next.directRuns = e.directRuns := by
  have hsame : e.cancelPoint point =
      (e.cancelPoint point).map fun next => next.withCall e.progress e.directRuns :=
    cancelPoint_withCall e e.progress e.directRuns
  rw [hs, Option.map_some, Option.some.injEq] at hsame
  rw [hsame]
  rfl

theorem directRuns_beginPhase : s.directRuns ≤ (s.beginPhase d phase todo reports).directRuns := by
  simp only [beginPhase]
  split
  · exact Nat.le_refl _
  · split
    · exact Nat.le_succ _
    · exact Nat.le_refl _

/-- A call that runs a plan begins the next phase, or it has run all of them. -/
theorem step_of_planning (hs : e.step b label = some next) (hl : label.ofCaller = true)
    (hd : e.driver = some d) (hr : e.progress = .planning todo reports) :
    label = .act .caller ∧ ((todo = [] ∧ next = e.finish (.reports reports)) ∨
      ∃ phase todo', todo = phase :: todo' ∧ next = e.beginPhase d phase todo' reports) := by
  cases label with
  | act actor =>
      cases actor with
      | caller =>
          refine ⟨rfl, ?_⟩
          change e.callerStep b = some next at hs
          cases todo with
          | nil =>
              simp only [callerStep, hr, Option.some.injEq] at hs
              exact .inl ⟨rfl, hs.symm⟩
          | cons phase todo =>
              simp only [callerStep, hr, hd, Option.map_some, Option.some.injEq] at hs
              exact .inr ⟨phase, todo, rfl, hs.symm⟩
      | worker i k => cases hl
  | call request => simp [step, hr, Progress.atRest] at hs
  | cancel => simp [step, cancel, hr] at hs
  | release permits | newLatch jobs => cases hl

theorem step_call_plan (hd : e.driver = some d) (hr : e.progress.atRest = true)
    (phases : List Phase) : e.step b (.call (.plan phases)) =
      some (e.withCall (.planning phases []) e.directRuns) := by
  change (if e.progress.atRest = true then some (e.begin b (.plan phases)) else none) = _
  rw [if_pos hr]
  change some (if e.driver.isSome = true then _ else _) = _
  rw [if_pos (by rw [hd]; rfl)]
  rfl

theorem step_batches (hreachable : Reachable b e) (hs : e.step b label = some next) :
    e.batches.size ≤ next.batches.size := by
  by_contra hlt
  have hb := Array.getElem?_eq_getElem (Nat.lt_of_not_le hlt)
  obtain ⟨batch', hb', _⟩ :=
    (step_move hs).batch (fitting_of_reachable hreachable).bare hb
  obtain ⟨hlt', _⟩ := Array.getElem?_eq_some_iff.mp hb'
  exact Nat.lt_irrefl _ hlt'

/-- The numbers of latches and of direct phases only grow while a plan is being run. -/
theorem step_precedes (hreachable : Reachable b e) (hs : e.step b label = some next)
    (hd : e.driver = some d) (hplan : e.progress.inPlan = true) : Precedes e next := by
  refine ⟨step_batches hreachable hs, ?_⟩
  cases hl : label.ofCaller with
  | false => exact (step_of_others hs hl).2.1.ge
  | true =>
      cases hr : e.progress with
      | planning todo reports =>
          obtain ⟨_, ⟨_, rfl⟩ | ⟨phase, todo', _, rfl⟩⟩ := step_of_planning hs hl hd hr
          · exact Nat.le_refl _
          · exact directRuns_beginPhase
      | running run todo reports =>
          rcases step_of_running hs hl hd hr with ⟨_, turn, e', hturn, rfl⟩ | ⟨_, e', hcancel, rfl⟩
          · rw [directRuns_goOn]
            exact directRuns_phaseTurn hturn
          · exact (directRuns_cancelPoint hcancel).ge
      | entering | leaving =>
          obtain ⟨_, _, _, _, rfl⟩ := step_of_reads (by rw [hr]; rfl) hl hs
          exact Nat.le_refl _
      | _ =>
          rw [hr] at hplan
          cases hplan

theorem Frame.step (h : Frame b start d e) (hs : e.step b label = some next)
    (hplan : e.progress.inPlan = true) : Frame b start d next := by
  obtain ⟨direct, hd⟩ := h.driver
  obtain ⟨p, hp, hshared⟩ := h.pool
  obtain ⟨p', hp', hfollows⟩ := (step_views h.reachable hs).follows hp
  obtain ⟨hbusy, hopening⟩ := Progress.inPlan_place hplan
  obtain ⟨direct', hd'⟩ := step_driver hs hd hbusy hopening
  refine ⟨h.reachable.step label hs, ⟨direct', hd'⟩, ⟨p', hp', ?_⟩, ?_⟩
  · rw [hfollows.extended.1]
    exact hshared
  · exact h.precedes.trans (step_precedes h.reachable hs hd hplan)

theorem During.frame (h : During b s e) (hs : Frame b start d s)
    (hplan : s.progress.inPlan = true) : Frame b start d e := by
  induction h with
  | begins hbegins => exact hs.step hbegins hplan
  | step label h hrunning hstep ih => exact ih.step hstep (Progress.inPlan_of_isRunning hrunning)

theorem Poised.inPlan (h : Poised b start d s phase todo reports) :
    s.progress.inPlan = true := by
  rw [h.planned]
  rfl

theorem During.precedes (h : During b s e) (hs : Poised b start d s phase todo reports) :
    Precedes s e := by
  have hself : Frame b s d s := ⟨hs.reachable, hs.driver, hs.pool, .refl s⟩
  exact (h.frame hself hs.inPlan).precedes

theorem During.tallyAt_le (h : During b s e) (i : Nat) : s.tallyAt i ≤ e.tallyAt i := by
  induction h with
  | begins hbegins => exact step_tallyAt hbegins i
  | step label h hrunning hstep ih => exact ih.trans (step_tallyAt hstep i)

/-- The engine during a call that has more phases to run. -/
def inside (e : Engine) (rest : List Phase) (reports : List PhaseCount) : Engine :=
  e.withCall (e.progress.inside rest reports) e.directRuns

section Inside

variable {rest : List Phase} {reports' : List PhaseCount}

theorem beginPhase_inside : (e.inside rest reports').beginPhase d phase (todo ++ rest)
    (reports' ++ reports) = (e.beginPhase d phase todo reports).inside rest reports' := by
  cases hm : phase.mode with
  | pooled =>
      simp only [beginPhase, hm]
      rfl
  | direct =>
      simp only [beginPhase, hm]
      cases d.direct <;> rfl

theorem goOn_inside (progress : Progress) : (e.withCall progress e.directRuns).goOn run
    (todo ++ rest) (reports' ++ reports) turn =
      (e.goOn run todo reports turn).inside rest reports' := by
  cases turn <;> rfl

theorem completePhase_inside (progress : Progress) (before : Tally) (executed : Nat) :
    (e.withCall progress e.directRuns).completePhase d phase before executed (todo ++ rest)
      (reports' ++ reports) =
        (e.completePhase d phase before executed todo reports).inside rest reports' := by
  have htally : (e.withCall progress e.directRuns).load d.tally = e.load d.tally := rfl
  simp only [completePhase, inside, Progress.inside, htally, List.append_assoc]
  split <;> rfl

theorem callerStep_inside (hplan : e.progress.inPlan = true)
    (hmore : ∀ reports, e.progress ≠ .planning [] reports) :
    (e.inside rest reports').callerStep b =
      (e.callerStep b).map fun next => next.inside rest reports' := by
  cases hr : e.progress with
  | planning todo reports =>
      cases todo with
      | nil => exact absurd hr (hmore reports)
      | cons phase todo =>
          have hinside : (e.inside rest reports').progress =
              .planning (phase :: (todo ++ rest)) (reports' ++ reports) :=
            congrArg (Progress.inside rest reports') hr
          simp only [callerStep, hr, hinside]
          change e.driver.map _ = _
          cases e.driver with
          | none => rfl
          | some d => exact congrArg some beginPhase_inside
  | entering phase executed entry todo reports =>
      have hinside : (e.inside rest reports').progress =
          .entering phase executed entry (todo ++ rest) (reports' ++ reports) :=
        congrArg (Progress.inside rest reports') hr
      simp only [callerStep, hr, hinside]
      change e.driver.map _ = _
      cases e.driver <;> rfl
  | running run todo reports =>
      have hinside : (e.inside rest reports').progress =
          .running run (todo ++ rest) (reports' ++ reports) :=
        congrArg (Progress.inside rest reports') hr
      cases hd : e.driver with
      | none =>
          have hd' : (e.inside rest reports').driver = none := hd
          simp [callerStep, hr, hinside, hd, hd']
      | some d =>
          have hd' : (e.inside rest reports').driver = some d := hd
          rw [callerStep_of_running hd hr, callerStep_of_running hd' hinside, inside,
            phaseTurn_withProgress, Option.map_map, Option.map_map]
          apply Option.map_congr
          exact fun x _ => goOn_inside _
  | leaving phase before executed todo reports =>
      have hinside : (e.inside rest reports').progress =
          .leaving phase before executed (todo ++ rest) (reports' ++ reports) :=
        congrArg (Progress.inside rest reports') hr
      cases executed with
      | none =>
          simp only [callerStep, hr, hinside]
          change e.driver.map _ = _
          cases e.driver <;> rfl
      | some executed =>
          simp only [callerStep, hr, hinside]
          change e.driver.map _ = _
          cases e.driver with
          | none => rfl
          | some d => exact congrArg some (completePhase_inside _ before executed)
  | _ =>
      rw [hr] at hplan
      cases hplan

theorem cancel_inside (hplan : e.progress.inPlan = true) :
    (e.inside rest reports').cancel = e.cancel.map fun next => next.inside rest reports' := by
  cases hr : e.progress with
  | planning | entering | leaving => simp [cancel, inside, withCall, hr, Progress.inside]
  | running run todo reports =>
      have hinside : (e.inside rest reports').progress =
          .running run (todo ++ rest) (reports' ++ reports) :=
        congrArg (Progress.inside rest reports') hr
      simp only [cancel, hr, hinside]
      rw [inside, cancelPoint_withCall]
      rcases hs : e.cancelPoint run.point with _ | next
      · rfl
      · simp only [Option.map_some]
        rw [← directRuns_cancelPoint hs]
        rfl
  | _ =>
      rw [hr] at hplan
      cases hplan

/-- As long as there is a phase to run, a call takes the same step whatever comes after it. -/
theorem step_inside (hplan : e.progress.inPlan = true)
    (hmore : ∀ reports, e.progress = .planning [] reports → label.ofCaller = false) :
    (e.inside rest reports').step b label =
      (e.step b label).map fun next => next.inside rest reports' := by
  cases hl : label.ofCaller with
  | false =>
      rw [inside, step_withCall hl]
      rcases hs : e.step b label with _ | next
      · rfl
      · obtain ⟨hprogress, hruns, _⟩ := step_of_others hs hl
        rw [Option.map_some, Option.map_some, inside, hprogress, hruns]
  | true =>
      cases label with
      | act actor =>
          cases actor with
          | caller =>
              apply callerStep_inside hplan
              intro reports hr
              cases hmore reports hr
          | worker i k => cases hl
      | call request =>
          have hplan' := Progress.inPlan_inside hplan rest reports'
          simp only [step, (Progress.inPlan_place hplan).1, Bool.false_eq_true, if_false]
          rw [inside, withCall, (Progress.inPlan_place hplan').1]
          rfl
      | cancel => exact cancel_inside hplan
      | release permits | newLatch jobs => cases hl

end Inside

/-- While a phase of a plan is being run, so it is in a run in which the phases have a call each. -/
theorem During.oneByOne (h : During b s e) (hr : s.progress = .planning (phase :: todo) reports)
    (hone : OneByOne b start phases (s.withCall (.planning [phase] []) s.directRuns)) :
    ∃ x, OneByOne b start phases x ∧ x.inside todo reports = e := by
  induction h with
  | begins hbegins =>
      have hinside : (s.withCall (.planning [phase] []) s.directRuns).inside todo reports = s := by
        rw [inside, withCall, withCall, Progress.inside, List.append_nil, List.singleton_append,
          ← hr]
      have hstep : ((s.withCall (.planning [phase] []) s.directRuns).inside todo reports).step b
          (.act .caller) = ((s.withCall (.planning [phase] []) s.directRuns).step b
            (.act .caller)).map fun next => next.inside todo reports := step_inside rfl nofun
      rw [hinside, hbegins] at hstep
      obtain ⟨x, hx, hnext⟩ := Option.map_eq_some_iff.mp hstep.symm
      exact ⟨x, .step (.act .caller) hone rfl hx, hnext⟩
  | @step e next label h hrunning hstep ih =>
      obtain ⟨x, hx, rfl⟩ := ih
      change (x.progress.inside todo reports).isRunning = true at hrunning
      rw [Progress.isRunning_inside] at hrunning
      have hplan := Progress.inPlan_of_isRunning hrunning
      have hmore (reports' : List PhaseCount) (hr' : x.progress = .planning [] reports') :
          label.ofCaller = false := by
        rw [hr'] at hrunning
        cases hrunning
      rw [step_inside hplan hmore] at hstep
      obtain ⟨x', hx', hnext⟩ := Option.map_eq_some_iff.mp hstep
      exact ⟨x', .step label hx hplan hx', hnext⟩

/-- A run in which the phases have a call each is the run of a plan that has more of them. -/
theorem OneByOne.duringPlan (h : OneByOne b start phases e) (hd : start.driver = some d)
    (hrest : start.progress.atRest = true) (rest : List Phase) :
    (∃ direct, e.driver = some { d with direct }) ∧
      ∃ reports, DuringPlan b start (phases ++ rest) (e.inside rest reports) := by
  induction h generalizing rest with
  | @first phase e hs =>
      rw [step_call_plan hd hrest, Option.some.injEq] at hs
      subst hs
      exact ⟨⟨d.direct, hd⟩, [], .begins (step_call_plan hd hrest (phase :: rest))⟩
  | @step phases e next label h hr hs ih =>
      obtain ⟨⟨direct, hd'⟩, reports, hduring⟩ := ih rest
      obtain ⟨hbusy, hopening⟩ := Progress.inPlan_place hr
      obtain ⟨direct', hnext⟩ := step_driver hs hd' hbusy hopening
      refine ⟨⟨direct', hnext⟩, reports, ?_⟩
      by_cases hlast : label.ofCaller = true ∧ ∃ reports', e.progress = .planning [] reports'
      -- The call reports. The plan is between two phases, before that step and after it.
      · obtain ⟨hl, reports', hplanning⟩ := hlast
        obtain ⟨_, ⟨_, rfl⟩ | ⟨phase, todo, htodo, _⟩⟩ := step_of_planning hs hl hd' hplanning
        · have hsame : (e.finish (.reports reports')).inside rest reports =
              e.inside rest reports := by
            rw [inside, inside, hplanning]
            rfl
          rw [hsame]
          exact hduring
        · cases htodo
      · refine .step label hduring (Progress.inPlan_inside hr rest reports) ?_
        rw [step_inside hr, hs]
        · rfl
        · intro reports' hplanning
          by_contra hl
          exact hlast ⟨by simpa using hl, reports', hplanning⟩
  | @next phases phase report e next h hr hs ih =>
      obtain ⟨⟨direct, hd'⟩, reports, hduring⟩ := ih (phase :: rest)
      rw [step_call_plan hd' (by rw [hr]; rfl), Option.some.injEq] at hs
      subst hs
      refine ⟨⟨direct, hd'⟩, reports ++ [report], ?_⟩
      have hsame : (e.withCall (.planning [phase] []) e.directRuns).inside rest
          (reports ++ [report]) = e.inside (phase :: rest) reports := by
        rw [inside, inside, hr]
        simp [withCall, Progress.inside]
      rw [hsame, List.append_assoc]
      exact hduring

/-- A call that fails makes the plan fail that goes on with it. -/
theorem OneByOne.duringPlan_of_failure {answer : Answer} (h : OneByOne b start phases e)
    (hd : start.driver = some d) (hrest : start.progress.atRest = true)
    (hreturned : e.progress = .returned answer) (hne : ∀ reports, answer ≠ .reports reports)
    (rest : List Phase) : DuringPlan b start (phases ++ rest) e := by
  obtain ⟨_, reports, hduring⟩ := h.duringPlan hd hrest rest
  have hsame : e.progress.inside rest reports = e.progress := by
    rw [hreturned]
    cases answer with
    | reports reports' => exact absurd rfl (hne reports')
    | _ => rfl
  rw [inside, hsame] at hduring
  exact hduring

/-- When the last call reports, so does the plan. -/
theorem OneByOne.duringPlan_of_report {report : PhaseCount} (h : OneByOne b start phases e)
    (hd : start.driver = some d) (hrest : start.progress.atRest = true)
    (hreturned : e.progress = .returned (.reports [report])) :
    ∃ reports, DuringPlan b start phases (e.finish (.reports (reports ++ [report]))) := by
  obtain ⟨_, reports, hduring⟩ := h.duringPlan hd hrest []
  rw [List.append_nil, inside, hreturned] at hduring
  exact ⟨reports, .step (.act .caller) hduring rfl rfl⟩

end Engine

end LoadBench
