import LoadBench.Proofs.OuterCalls
import LoadBench.Proofs.PhaseEnd
import LoadBench.Proofs.PlanOrder

/-!
The call that runs one phase of a run over a calm backend. It waits for nothing that was there
before, and nothing of an earlier phase is left to go on meanwhile, so what is put on record belongs
to the phase, but for connections that are closed. It comes to the report of the phase, and the
engine stands still again; or the dial of a direct phase fails; or the call is given up.
-/

namespace LoadBench.Engine

/-- How a call to run a phase comes to no report. -/
inductive PhaseFails (b : Backend) (phase : Phase) : Answer → Prop
  | dial (attempt : Nat) (fault : Fault) (hm : phase.mode = .direct)
      (h : b.dial attempt = .fail fault) : PhaseFails b phase (.fault fault)
  | blocked : PhaseFails b phase .blocked

/-- What is on record of a phase that was called for in the state `start`, and of nothing else. -/
def LogsPhase (start : Engine) (phase : Phase) (e : Engine) : Prop :=
  Logs (fun event => event.IsOf phase (start.numberOf phase) ∨ event.IsClosing)
    (Execution.IsOf phase (start.numberOf phase)) start e

/-- All jobs are those of a phase of a given number. -/
def JobsOf (phase : Phase) (number : Nat) (e : Engine) : Prop :=
  ∀ i job, e.Stored i job → (job.origin, .ok job.command) = phase.attempt number job.index

/-- The number that the next phase of a mode gets. -/
def nextNumber (e : Engine) : Mode → Nat
  | .pooled => e.batches.size
  | .direct => e.directRuns

/-- Of the numbers, only the one for a mode has gone up. -/
def CountsUp (start : Engine) (mode : Mode) (e : Engine) : Prop :=
  ∀ m, e.nextNumber m = start.nextNumber m + if m = mode then 1 else 0

/-- The call for a phase has begun, and the phase has not. -/
structure Called (b : Backend) (start : Engine) (d : Driver) (phase : Phase) (e : Engine) : Prop
    extends Still b d e where
  planned : e.progress = .planning [phase] []
  batches : e.batches.size = start.batches.size
  directRuns : e.directRuns = start.directRuns
  logs : Logs Event.IsClosing (fun _ => False) start e

/-- The phase is being run since the state `s`. -/
structure Serving (b : Backend) (start : Engine) (d : Driver) (phase : Phase) (s e : Engine) :
    Prop where
  called : Called b start d phase s
  during : During b s e
  running : e.progress.isRunning = true
  manages : e.Manages d
  owning : Owning e
  batches : e.batches.size = s.batches.size + if phase.mode = .pooled then 1 else 0

/-- The phase is done, and the call tells what it counted. -/
structure Reporting (b : Backend) (start : Engine) (d : Driver) (phase : Phase)
    (report : PhaseCount) (e : Engine) : Prop extends Still b d e where
  label : report.label = phase.label
  tells : e.progress = .planning [] [report] ∨ e.progress = .returned (.reports [report])
  numbers : CountsUp start phase.mode e
  logs : LogsPhase start phase e

/-- How far a call to run a single phase has come. -/
inductive PhaseCall (b : Backend) (start : Engine) (d : Driver) (phase : Phase) (e : Engine) : Prop
  | called (h : Called b start d phase e)
  | serving {s : Engine} (h : Serving b start d phase s e)
  | reporting {direct : Option Nat} {report : PhaseCount}
      (h : Reporting b start { d with direct } phase report e)
  | failed {answer : Answer} (hreachable : Reachable b e) (hr : e.progress = .returned answer)
      (hf : PhaseFails b phase answer) (hjobs : JobsOf phase (start.numberOf phase) e)
      (hlogs : LogsPhase start phase e)

variable {b : Backend} {e next start s : Engine} {d : Driver} {phase : Phase} {label : Label}
  {report : PhaseCount} {answer : Answer}

theorem numberOf_eq_nextNumber (e : Engine) (phase : Phase) :
    e.numberOf phase = e.nextNumber phase.mode := by
  cases hm : phase.mode with
  | pooled => exact numberOf_pooled e hm
  | direct => exact numberOf_direct e hm

/-- A pooled phase is no direct one. -/
theorem During.directRuns_of_pooled {p : WorkerPool} {todo : List Phase}
    {reports : List PhaseCount} (h : During b s e) (hready : Ready b s d p phase todo reports) :
    e.directRuns = s.directRuns := by
  induction h with
  | begins hs =>
      obtain rfl := hready.begun hs
      rw [beginPhase_of_pooled hready.pooled]
      rfl
  | @step e next label h hr hs ih =>
      refine Eq.trans ?_ ih
      cases hl : label.ofCaller with
      | false => exact (step_of_others hs hl).2.1
      | true =>
          have hgoing := (h.going hready).resolve_left (not_returned_of_isRunning hr)
          cases hgoing.call with
          | entering hp | leaving _ hp =>
              obtain ⟨_, _, _, _, rfl⟩ := step_of_reads (by rw [hp]; rfl) hl hs
              rfl
          | running hpoint =>
              rcases step_of_running hs hl hgoing.driver hpoint with
                ⟨_, turn, e', hturn, rfl⟩ | ⟨_, e', hcancel, rfl⟩
              · simp only [phaseTurn, hready.pooled] at hturn
                rw [directRuns_goOn]
                exact directRuns_pooledStep hturn
              · change e'.directRuns = _
                exact directRuns_cancelPoint hcancel
          | reported _ hplanning =>
              rw [hplanning] at hr
              cases hr

namespace Called

variable (h : Called b start d phase s)

include h

theorem numberOf : s.numberOf phase = start.numberOf phase := by
  cases hm : phase.mode with
  | pooled => rw [numberOf_pooled s hm, numberOf_pooled start hm, h.batches]
  | direct => rw [numberOf_direct s hm, numberOf_direct start hm, h.directRuns]

theorem poised : Poised b s d s phase [] [] := by
  obtain ⟨p, hp, htally, _⟩ := h.manages
  exact {
    reachable := h.reachable
    driver := ⟨d.direct, h.driver⟩
    pool := ⟨p, hp, htally⟩
    precedes := .refl s
    started := h.reachable
    planned := h.planned
    cleared := fun i job hstored => absurd hstored (h.jobless i job) }

theorem ready (hm : phase.mode = .pooled) : ∃ p, Ready b s d p phase [] [] := by
  obtain ⟨p, hp, _⟩ := h.manages
  exact ⟨p, h.reachable, h.driver, hp, h.planned, hm⟩

theorem issuing (hm : phase.mode = .direct) (hduring : During b s e) :
    (∃ answer, e.progress = .returned answer) ∨ Issuing s s d phase [] [] e := by
  obtain ⟨p, hp, htally, _⟩ := h.manages
  exact (hduring.issuing h.reachable (.refl s) h.reachable h.driver hp htally h.planned hm
    h.poised.cleared).2

/-- Nothing but the phase is put on record while it is being run. -/
theorem logsPhase (hduring : During b s e) : LogsPhase start phase e := by
  have hold : LogsPhase start phase s := h.logs.mono (fun _ => .inr) fun _ => False.elim
  have hnone {job : Job} (hjob : s.LeftOver d job) : False := by
    obtain ⟨i, _, hstored⟩ := hjob
    exact h.jobless i job hstored
  refine hold.trans ((hduring.leads h.poised).1.mono ?_ ?_)
  · rw [h.numberOf]
    rintro event (hown | hclosed | ⟨job, hjob, _⟩)
    · exact .inl hown
    · exact .inr hclosed
    · exact (hnone hjob).elim
  · rw [h.numberOf]
    rintro x (hown | ⟨job, hjob, _⟩)
    · exact hown
    · exact (hnone hjob).elim

/-- The phase begins. -/
theorem serving (hs : s.step b (.act .caller) = some e) : Serving b start d phase s e := by
  obtain ⟨d', hd, hbegun⟩ := step_of_planned h.planned hs
  cases h.driver.symm.trans hd
  have howning := h.owning.step h.reachable hs nofun
  have hmanages := h.manages.step h.reachable hs
  refine ⟨h, .begins hs, ?_, hmanages, howning, ?_⟩
  · subst hbegun
    obtain ⟨entry, hentering⟩ := progress_beginPhase s d phase [] []
    rw [hentering]
    rfl
  · subst hbegun
    cases hm : phase.mode with
    | pooled =>
        rw [beginPhase_of_pooled hm]
        exact Array.size_push ..
    | direct =>
        cases hdirect : d.direct with
        | none =>
            rw [beginPhase_of_undialed hm hdirect]
            rfl
        | some conn =>
            rw [beginPhase_of_connected hm hdirect]
            rfl

theorem step (hl : label.attends = true) (hs : s.step b label = some e) :
    PhaseCall b start d phase e := by
  cases hcaller : label.ofCaller with
  | true =>
      obtain ⟨rfl, _⟩ := step_of_planning hs hcaller h.driver h.planned
      exact .serving (h.serving hs)
  | false =>
      obtain ⟨hprogress, hruns, _⟩ := step_of_others hs hcaller
      have hlatch : s.progress.latch? = none := by
        rw [h.planned]
        rfl
      have hbatches : e.batches.size = s.batches.size :=
        size_batches_of_step hs (ne_newLatch hl) (by simp [hcaller])
      exact .called {
        toStill := h.toStill.others hs hcaller hl hlatch
        planned := hprogress.trans h.planned
        batches := hbatches.trans h.batches
        directRuns := hruns.trans h.directRuns
        logs := h.logs.trans (h.jobless.logs hs hcaller) }

end Called

namespace Serving

variable (h : Serving b start d phase s e)

include h

theorem reachable : Reachable b e := h.during.reachable h.called.reachable

theorem not_returned : ¬∃ answer, e.progress = .returned answer :=
  not_returned_of_isRunning h.running

theorem going {p : WorkerPool} (hready : Ready b s d p phase [] []) : Going s d phase [] [] e :=
  (h.during.going hready).resolve_left h.not_returned

/-- A direct phase that is being run offers no jobs, and none are left from before. -/
theorem jobless (hm : phase.mode = .direct) : Jobless e ∧ e.progress.latch? = none := by
  have hissuing := (h.called.issuing hm h.during).resolve_left h.not_returned
  exact ⟨fun i job hstored => h.called.jobless i job (hissuing.cleared i job hstored).2,
    hissuing.call.latch?⟩

/-- Whoever takes a step from which the call returns, it leaves only jobs of the phase behind. -/
theorem jobsOf (hs : e.step b label = some next) (hreturned : next.progress = .returned answer) :
    JobsOf phase (start.numberOf phase) next := by
  intro i job hstored
  cases hm : phase.mode with
  | direct =>
      obtain ⟨hjobless, hlatch⟩ := h.jobless hm
      exact absurd hstored (hjobless.step h.reachable hs hlatch i job)
  | pooled =>
      obtain ⟨p, hready⟩ := h.called.ready hm
      have hgoing := h.going hready
      rcases hstored.of_step h.reachable hs with hold | ⟨hbusy, hsubmits⟩
      · rcases hgoing.stored h.called.poised.cleared hold with ⟨j, _, hleft⟩ | hown
        · exact absurd hleft (h.called.jobless j job)
        · rw [← h.called.numberOf]
          exact hown.attempt hm
      · obtain ⟨k, hk⟩ := (hgoing.latch? hbusy).2
        have hnext := hsubmits k hk
        rw [hreturned] at hnext
        cases hnext

/-- How the call returns that runs a phase. -/
theorem phaseFails (hb : b.Calm) (hg : phase.Generates) (hs : e.step b label = some next)
    (hreturned : next.progress = .returned answer) : PhaseFails b phase answer := by
  cases hm : phase.mode with
  | pooled =>
      obtain ⟨p, hready⟩ := h.called.ready hm
      have hgoing := h.going hready
      obtain ⟨q, hq, hopen, hclosed⟩ :=
        open_of_calm h.reachable hb h.owning hgoing.driver h.manages
      rw [hgoing.blocked hm hg hq hopen hclosed h.running hs hreturned]
      exact .blocked
  | direct =>
      have hduring := h.during.step label h.running hs
      have hcalm := (hduring.heard h.called.driver h.called.planned).answered.all
        (P := (·.conduct.panic? = none)) fun history conn command _ =>
          hb.executes history conn command
      cases hduring.directLeg h.called.reachable h.called.driver h.called.planned hm with
      | dials _ _ hr | serves hr =>
          cases hr with
          | enters _ hr | runs hr => cases hreturned.symm.trans hr
      | leaves _ hr | reported _ hr => cases hreturned.symm.trans hr
      | refused _ hr hw =>
          cases hreturned.symm.trans hr
          cases hw with
          | givesUp hstall => exact .blocked
          | fails hrefusal =>
              obtain ⟨fault, hdial, rfl⟩ := DialConduct.fails_of_refusal hrefusal (hb.dials _)
              exact .dial _ fault hm hdial
      | stopped hr hstops hconnected =>
          cases hreturned.symm.trans hr
          cases hstops with
          | stumbles hlt hstumbles =>
              obtain ⟨command, hcommand⟩ := hg _ hlt
              cases hcommand.symm.trans hstumbles
          | panics hlt hgenerate hpanic =>
              have hx := hcalm _ (hconnected.mem_executed (List.mem_singleton_self _))
              cases hx.symm.trans hpanic
          | givesUp hlt hgenerate => exact .blocked

/-- A pooled phase makes its latch when it begins, and nobody makes another one meanwhile. -/
theorem batches_next (hl : label.attends = true) (hs : e.step b label = some next) :
    next.batches.size = s.batches.size + if phase.mode = .pooled then 1 else 0 := by
  refine (size_batches_of_step hs (ne_newLatch hl) fun _ todo reports hplanning => ?_).trans
    h.batches
  have hr := h.running
  rw [hplanning] at hr
  cases hr

/-- A direct phase has taken its number by the time it is done, and a pooled one takes none. -/
theorem directRuns_past (hs : e.step b label = some next) (hpast : Past s d s phase [] [] next) :
    next.directRuns = s.directRuns + if phase.mode = .direct then 1 else 0 := by
  have hduring := h.during.step label h.running hs
  cases hm : phase.mode with
  | pooled =>
      obtain ⟨p, hready⟩ := h.called.ready hm
      exact hduring.directRuns_of_pooled hready
  | direct =>
      have hissuing := (h.called.issuing hm hduring).resolve_left
        (not_returned_of_planning hpast.progress)
      cases hissuing.call with
      | entering _ hr | running hr | leaving _ hr => cases hr.symm.trans hpast.progress
      | reported _ hnext =>
          rw [hnext, numberOf_direct s hm]
          rfl

/-- The phase is done. -/
theorem reporting (hl : label.attends = true) (hs : e.step b label = some next)
    (hpast : Past s d s phase [] [] next) :
    ∃ direct report, Reporting b start { d with direct } phase report next := by
  have hduring := h.during.step label h.running hs
  have hpoised := h.called.poised
  obtain ⟨direct, hd⟩ := (hduring.frame hpoised.toFrame hpoised.inPlan).driver
  refine ⟨direct, phase.report (s.tallyAt d.tally) (next.tallyAt d.tally), {
    reachable := h.reachable.step label hs
    driver := hd
    manages := h.manages.step h.reachable hs
    jobless := fun i job hstored => h.called.jobless i job (hpast.cleared i job hstored).2
    owning := h.owning.step h.reachable hs (ne_newLatch hl)
    label := rfl
    tells := .inl hpast.progress
    numbers := ?_
    logs := h.called.logsPhase hduring }⟩
  intro mode
  cases mode with
  | pooled =>
      change next.batches.size = start.batches.size + _
      rw [h.batches_next hl hs, h.called.batches]
      simp only [eq_comm]
  | direct =>
      change next.directRuns = start.directRuns + _
      rw [h.directRuns_past hs hpast, h.called.directRuns]
      simp only [eq_comm]

theorem step (hb : b.Calm) (hg : phase.Generates) (hl : label.attends = true)
    (hs : e.step b label = some next) : PhaseCall b start d phase next := by
  have hduring := h.during.step label h.running hs
  cases (hduring.leads h.called.poised).2 with
  | running hr =>
      refine .serving ⟨h.called, hduring, hr, h.manages.step h.reachable hs,
        h.owning.step h.reachable hs (ne_newLatch hl), h.batches_next hl hs⟩
  | past hpast =>
      obtain ⟨direct, report, hreporting⟩ := h.reporting hl hs hpast
      exact .reporting hreporting
  | returned answer hreturned =>
      exact .failed (h.reachable.step label hs) hreturned (h.phaseFails hb hg hs hreturned)
        (h.jobsOf hs hreturned) (h.called.logsPhase hduring)

end Serving

theorem Reporting.step (h : Reporting b start d phase report e) (hl : label.attends = true)
    (hs : e.step b label = some next) : Reporting b start d phase report next := by
  have hlatch : e.progress.latch? = none := by
    rcases h.tells with hr | hr <;> rw [hr] <;> rfl
  cases hcaller : label.ofCaller with
  | false =>
      obtain ⟨hprogress, hruns, _⟩ := step_of_others hs hcaller
      have hbatches : next.batches.size = e.batches.size :=
        size_batches_of_step hs (ne_newLatch hl) (by simp [hcaller])
      have hnumbers (mode : Mode) : next.nextNumber mode = e.nextNumber mode := by
        cases mode with
        | pooled => exact hbatches
        | direct => exact hruns
      exact {
        toStill := h.toStill.others hs hcaller hl hlatch
        label := h.label
        tells := hprogress.symm ▸ h.tells
        numbers := fun mode => (hnumbers mode).trans (h.numbers mode)
        logs := h.logs.trans ((h.jobless.logs hs hcaller).mono (fun _ => .inr)
          fun _ => False.elim) }
  | true =>
      rcases h.tells with hr | hr
      · obtain ⟨_, ⟨_, rfl⟩ | ⟨_, _, htodo, _⟩⟩ := step_of_planning hs hcaller h.driver hr
        · exact {
            reachable := h.reachable.step label hs
            driver := h.driver
            manages := h.manages
            jobless := h.jobless
            owning := h.owning
            label := h.label
            tells := .inr rfl
            numbers := h.numbers
            logs := h.logs.congr rfl rfl }
        · cases htodo
      · rw [ofCaller_of_returned hr hl hs] at hcaller
        cases hcaller

theorem PhaseCall.step (h : PhaseCall b start d phase e) (hb : b.Calm) (hg : phase.Generates)
    (hl : label.attends = true) (hs : e.step b label = some next) :
    PhaseCall b start d phase next := by
  cases h with
  | called h => exact h.step hl hs
  | serving h => exact h.step hb hg hl hs
  | reporting h => exact .reporting (h.step hl hs)
  | failed hreachable hr hf hjobs hlogs =>
      have hcaller := ofCaller_of_returned hr hl hs
      refine .failed (hreachable.step label hs) ((step_of_others hs hcaller).1.trans hr) hf ?_ ?_
      · intro i job hstored
        rcases hstored.of_step hreachable hs with hold | ⟨hlatch, _⟩
        · exact hjobs i job hold
        · rw [hr] at hlatch
          cases hlatch
      · refine hlogs.trans ((logs_of_others hs hcaller).mono ?_ ?_)
        · rintro event (hclosed | ⟨job, ⟨i, hstored⟩, ho⟩)
          · exact .inr hclosed
          · exact .inl (.inl ⟨job.index, ho.trans (congrArg (fun x => some x.1)
              (hjobs i job hstored))⟩)
        · rintro x ⟨job, ⟨i, hstored⟩, ho, hcommand⟩
          refine ⟨job.index, ?_⟩
          rw [Execution.attempt, ho, hcommand]
          exact hjobs i job hstored

/-- The call to run a phase begins. -/
theorem Still.called (h : Still b d start) (hs : start.step b (.call (.plan [phase])) = some e) :
    Called b start d phase e := by
  have hbegun := hs
  rw [step_call_plan h.driver (atRest_of_call hs), Option.some.injEq] at hbegun
  subst hbegun
  exact {
    reachable := h.reachable.step _ hs
    driver := h.driver
    manages := h.manages
    jobless := h.jobless
    owning := h.owning
    planned := rfl
    batches := rfl
    directRuns := rfl
    logs := .same rfl rfl }

/-- A call that runs a single phase, at any time from when it begins. -/
theorem InCall.phaseCall (h : InCall b start (.plan [phase]) e) (hb : b.Calm)
    (hstill : Still b d start) (hg : phase.Generates) : PhaseCall b start d phase e := by
  induction h with
  | begins hs => exact .called (hstill.called hs)
  | step label _ hl hs ih => exact ih.step hb hg hl hs

/-- What a call to run a phase comes to, and what it leaves on record. -/
theorem PhaseCall.outcome (h : PhaseCall b start d phase e) : LogsPhase start phase e ∧
    ((∃ direct report, e.progress = .returned (.reports [report]) ∧
        Reporting b start { d with direct } phase report e) ∨
      PhaseFails b phase (e.progress.answer?.getD .blocked)) := by
  cases h with
  | called h =>
      refine ⟨h.logs.mono (fun _ => .inr) fun _ => False.elim, .inr ?_⟩
      rw [h.planned]
      exact .blocked
  | @serving s h =>
      refine ⟨h.called.logsPhase h.during, .inr ?_⟩
      cases hr : e.progress with
      | returned answer => exact absurd ⟨answer, hr⟩ h.not_returned
      | _ => exact .blocked
  | @reporting direct report h =>
      refine ⟨h.logs, ?_⟩
      rcases h.tells with hr | hr
      · rw [hr]
        exact .inr .blocked
      · exact .inl ⟨direct, report, hr, h⟩
  | failed hreachable hr hf hjobs hlogs =>
      rw [hr]
      exact ⟨hlogs, .inr hf⟩

end LoadBench.Engine
