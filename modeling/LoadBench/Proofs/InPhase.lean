import LoadBench.Proofs.Answered
import LoadBench.Proofs.DirectSlot

/-!
What a caller does outside of phases. It executes nothing there, and a phase is being run only once
the plan has come to it. So a phase that is being run began at some time, and everything that is
known of the states since then is known of any state that can be reached. In particular a direct
phase that executes a command does so on the driver's own connection.
-/

namespace LoadBench

/-- The phase that a call is busy with, the phases that come after it, and the reports of those
before. -/
def Progress.phase? : Progress → Option (Phase × List Phase × List PhaseCount)
  | .entering phase _ _ todo reports | .leaving phase _ _ todo reports =>
      some (phase, todo, reports)
  | .running run todo reports => some (run.phase, todo, reports)
  | _ => none

theorem Progress.isRunning_of_phase? {progress : Progress}
    {x : Phase × List Phase × List PhaseCount} (h : progress.phase? = some x) :
    progress.isRunning = true := by
  cases progress with
  | entering | running | leaving => rfl
  | _ => cases h

/-- A call that reads a counter goes on with its phase, or it is through with it. -/
theorem Progress.phase?_afterRead {progress : Progress} {load : Tally.Counter → Nat}
    {x : Phase × List Phase × List PhaseCount} (hr : progress.reads = true)
    (h : (progress.afterRead load).phase? = some x) : progress.phase? = some x := by
  cases progress with
  | entering => exact h
  | leaving phase before executed todo reports =>
      cases executed with
      | none => exact h
      | some executed => cases h
  | _ => cases hr

theorem Progress.opening_afterRead {progress : Progress} (hr : progress.reads = true)
    (load : Tally.Counter → Nat) : (progress.afterRead load).opening = none := by
  cases progress with
  | entering => rfl
  | leaving phase before executed todo reports => cases executed <;> rfl
  | _ => cases hr

namespace Engine

/-- A step of the caller's that is no part of a phase, and neither begins one. -/
structure Apart (e next : Engine) : Prop where
  executions : next.executions = e.executions
  progress : next.progress.isRunning = false

/-- A step of the caller's that is no part of a call to start either. -/
structure Aside (e next : Engine) : Prop extends Apart e next where
  opening : next.progress.opening = none

/-- A step that puts a single execution on record. A worker executes the job that it has taken, on
its own connection, and a direct phase its next command, on the driver's. -/
inductive Begins (b : Backend) (e : Engine) (label : Label) : Execution → Prop
  | worker {i k : Nat} {p : WorkerPool} {w : Worker} {job : Job} (hl : label = .act (.worker i k))
      (hp : e.pools[i]? = some p) (hw : p.workers[k]? = some w) (ha : w.activity = .holding job) :
      Begins b e label (b.answer e.executions w.conn job.command job.origin)
  | direct {d : Driver} {phase : Phase} {before : Tally} {number index conn : Nat}
      {command : Command} {todo : List Phase} {reports : List PhaseCount}
      (hl : label = .act .caller) (hd : e.driver = some d) (hdirect : d.direct = some conn)
      (hr : e.progress = .running ⟨phase, before, .issuing number index command⟩ todo reports)
      (hm : phase.mode = .direct) :
      Begins b e label (b.answer e.executions conn command (.direct number index))

variable {b : Backend} {e mid next : Engine} {label : Label} {d : Driver} {run : PhaseRun}
  {todo : List Phase} {reports : List PhaseCount}

section Calls

theorem executions_closeDirect : (e.closeDirect b d).2.executions = e.executions :=
  (closeDirect_handling b e d).2.2.2.2

theorem executions_closeOutside : (e.closeOutside b).executions = e.executions := by
  have hfold (conns : List Nat) (r : Option String × Engine) :
      (conns.foldl (fun r conn => (r.1.or (closeHeld b r.2 conn).1, (closeHeld b r.2 conn).2))
        r).2.executions = r.2.executions := by
    induction conns generalizing r with
    | nil => rfl
    | cons conn conns ih => exact ih _
  exact hfold e.outside (none, e)

theorem apart_begin (b : Backend) (e : Engine) (request : Request) :
    Apart e (e.begin b request) := by
  cases request with
  | start workers capacity split =>
      simp only [begin, beginStart]
      repeat' split
      all_goals exact ⟨rfl, rfl⟩
  | plan phases | submit command latch times | watch latch | acquire =>
      simp only [begin]
      repeat' split
      all_goals exact ⟨rfl, rfl⟩
  | shutdown =>
      simp only [begin, beginShutdown]
      repeat' split
      · exact ⟨executions_closeDirect, rfl⟩
      · exact ⟨executions_closeDirect, rfl⟩
      · exact ⟨rfl, rfl⟩
  | drop =>
      simp only [begin]
      split
      · exact ⟨executions_closeDirect, rfl⟩
      · exact ⟨rfl, rfl⟩
  | closeOutside => exact ⟨executions_closeOutside, rfl⟩

theorem executions_completeStart {pool : Nat} {p : WorkerPool} {split : Bool} :
    (e.completeStart b pool p split).executions = e.executions := by
  unfold completeStart
  simp only
  split
  · exact executions_closeDirect
  · rfl

theorem apart_startStep {pool workers : Nat} {split stalled : Bool}
    (hs : e.startStep b pool workers split stalled = some next) : Apart e next := by
  simp only [startStep, Option.bind_eq_bind, Option.bind_eq_some_iff] at hs
  obtain ⟨p, _, hs⟩ := hs
  split at hs
  · cases hs
    exact ⟨executions_completeStart, rfl⟩
  · simp only [Option.bind_eq_some_iff] at hs
    obtain ⟨⟨dialed, mid⟩, hdial, hs⟩ := hs
    have hx := (dialStep_cases hdial).executions
    cases dialed <;> cases hs <;> exact ⟨hx, rfl⟩

theorem aside_acquireStep {stalled : Bool} (hs : e.acquireStep b d stalled = some next) :
    Aside e next := by
  simp only [acquireStep, Option.bind_eq_bind, Option.bind_eq_some_iff] at hs
  obtain ⟨⟨dialed, mid⟩, hdial, hs⟩ := hs
  have hx := (dialStep_cases hdial).executions
  cases dialed <;> cases hs <;> exact ⟨⟨hx, rfl⟩, rfl⟩

theorem aside_submitStep {s : Submission} (hr : e.progress = .submitting s)
    (hs : e.submitStep d s = some next) : Aside e next := by
  simp only [submitStep, Option.bind_eq_bind, Option.bind_eq_some_iff] at hs
  obtain ⟨p, _, hs⟩ := hs
  split at hs
  · split at hs
    · cases hs
    · cases hs
      split
      · exact ⟨⟨rfl, rfl⟩, rfl⟩
      · exact ⟨⟨rfl, congrArg Progress.isRunning hr⟩, congrArg Progress.opening hr⟩
      · exact ⟨⟨rfl, rfl⟩, rfl⟩
  · split at hs
    · cases hs
      exact ⟨⟨rfl, rfl⟩, rfl⟩
    · cases hs
      split <;> exact ⟨⟨rfl, rfl⟩, rfl⟩

theorem aside_cancel (hs : e.cancel = some next) : Aside e next := by
  unfold cancel at hs
  split at hs
  · cases hs
    exact ⟨⟨rfl, rfl⟩, rfl⟩
  · obtain ⟨mid, hcancel, rfl⟩ := Option.map_eq_some_iff.mp hs
    exact ⟨⟨(cancelPoint_unconcerned hcancel).executions, rfl⟩, rfl⟩
  · cases hs
    refine ⟨⟨?_, rfl⟩, rfl⟩
    split
    · next job _ => exact (withdrawJob_unconcerned (e := e) job).executions
    · rfl
  · cases hs
    exact ⟨⟨rfl, rfl⟩, rfl⟩
  · cases hs
    exact ⟨⟨rfl, rfl⟩, rfl⟩
  · cases hs
    exact ⟨⟨rfl, rfl⟩, rfl⟩
  · cases hs

/-- What a step of the caller's is part of. -/
inductive Calls (b : Backend) (e next : Engine) : Prop
  | starts {pool workers : Nat} {split stalled : Bool}
      (hr : e.progress = .starting pool workers split stalled)
      (hs : e.startStep b pool workers split stalled = some next)
  | aside (h : Aside e next)
  | begins {phase : Phase} {todo : List Phase} {reports : List PhaseCount} {d : Driver}
      (hd : e.driver = some d) (hr : e.progress = .planning (phase :: todo) reports)
      (hs : next = e.beginPhase d phase todo reports)
  | turns {run : PhaseRun} {todo : List Phase} {reports : List PhaseCount} {d : Driver}
      {turn : Turn} {mid : Engine} (hd : e.driver = some d)
      (hr : e.progress = .running run todo reports)
      (ht : e.phaseTurn b d run = some (turn, mid)) (hs : next = mid.goOn run todo reports turn)
  | reads {d : Driver} {notices : Array Notice} (hr : e.progress.reads = true)
      (hs : next = { e with notices, progress := e.progress.afterRead (e.load d.tally) })

theorem callerStep_calls (hs : e.callerStep b = some next) : Calls b e next := by
  have hstep : e.step b (.act .caller) = some next := hs
  cases callerStep_cases hs with
  | starts hr hs => exact .starts hr hs
  | reports hr hn | watches hr _ hn | joins hr _ _ hn =>
      rw [hn]
      exact .aside ⟨⟨rfl, rfl⟩, rfl⟩
  | begins hd hr hn => exact .begins hd hr hn
  | enters hd hr | leaves hd hr | completes hd hr =>
      have hreads : e.progress.reads = true := by rw [hr]; rfl
      obtain ⟨_, _, _, _, hs⟩ := step_of_reads hreads rfl hstep
      exact .reads hreads hs
  | runs hd hr hs =>
      rw [phaseStep_eq, Option.map_eq_some_iff] at hs
      obtain ⟨⟨turn, mid⟩, hturn, hs⟩ := hs
      exact .turns hd hr hturn hs.symm
  | submits hd hr hs => exact .aside (aside_submitStep hr hs)
  | acquires hd hr hs => exact .aside (aside_acquireStep hs)

end Calls

section Phases

variable {phase : Phase}

theorem phase?_beginPhase (e : Engine) (d : Driver) (phase : Phase) (todo : List Phase)
    (reports : List PhaseCount) :
    (e.beginPhase d phase todo reports).progress.phase? = some (phase, todo, reports) := by
  obtain ⟨entry, hentering⟩ := progress_beginPhase e d phase todo reports
  rw [hentering]
  rfl

/-- A phase that a call is busy with after a step it was busy with before, or it begins. -/
theorem phase?_of_step (hs : e.step b label = some next)
    (hr : next.progress.phase? = some (phase, todo, reports)) :
    e.progress.phase? = some (phase, todo, reports) ∨
      label = .act .caller ∧ e.progress = .planning (phase :: todo) reports := by
  have hnot (hapart : Apart e next) : False := by
    have hprogress := hapart.progress
    rw [Progress.isRunning_of_phase? hr] at hprogress
    cases hprogress
  cases hl : label.ofCaller with
  | false => exact .inl ((step_of_others hs hl).1 ▸ hr)
  | true =>
      cases label with
      | call request =>
          simp only [step, Option.ite_none_right_eq_some, Option.some.injEq] at hs
          obtain ⟨_, rfl⟩ := hs
          exact (hnot (apart_begin b e request)).elim
      | cancel => exact (hnot (aside_cancel hs).toApart).elim
      | release permits | newLatch jobs => cases hl
      | act actor =>
          cases actor with
          | worker i k => cases hl
          | caller =>
              cases callerStep_calls hs with
              | starts hr' hs => exact (hnot (apart_startStep hs)).elim
              | aside h => exact (hnot h.toApart).elim
              | begins hd hplanned hs =>
                  rw [hs, phase?_beginPhase] at hr
                  cases hr
                  exact .inr ⟨rfl, hplanned⟩
              | @turns run _ _ _ turn _ hd hrunning ht hs =>
                  subst hs
                  rw [hrunning]
                  cases turn with
                  | «to» | done => exact .inl hr
                  | fault | panic => cases hr
              | reads hreads hs =>
                  subst hs
                  exact .inl (Progress.phase?_afterRead hreads hr)

/-- A phase that is being run began at some time. -/
theorem exists_during (h : Reachable b e) (hr : e.progress.phase? = some (phase, todo, reports)) :
    ∃ s d, Reachable b s ∧ s.driver = some d ∧
      s.progress = .planning (phase :: todo) reports ∧ During b s e := by
  induction h with
  | start => cases hr
  | @step e next label h hs ih =>
      rcases phase?_of_step hs hr with hbusy | ⟨rfl, hplanned⟩
      · obtain ⟨s, d, hreachable, hd, hs', hduring⟩ := ih hbusy
        exact ⟨s, d, hreachable, hd, hs',
          .step label hduring (Progress.isRunning_of_phase? hbusy) hs⟩
      · obtain ⟨d, hd, _⟩ := step_of_planned hplanned hs
        exact ⟨e, d, h, hd, hplanned, .begins hs⟩

/-- Nothing is executed by a turn of a phase but the command that a direct phase issues. -/
theorem phaseTurn_begins {turn : Turn} (hd : e.driver = some d)
    (hr : e.progress = .running run todo reports) (hs : e.phaseTurn b d run = some (turn, mid)) :
    mid.executions = e.executions ∨
      ∃ x, Begins b e (.act .caller) x ∧ mid.executions = e.executions.push x := by
  obtain ⟨phase, before, point⟩ := run
  cases hm : phase.mode with
  | pooled =>
      simp only [phaseTurn, hm] at hs
      exact .inl (by cases pooledStep_cases hs <;> rfl)
  | direct =>
      simp only [phaseTurn, hm] at hs
      rcases (directStep_cases hs).executions with
        hsame | ⟨number, index, command, conn, rfl, hdirect, hpush⟩
      · exact .inl hsame
      · exact .inr ⟨_, .direct rfl hd hdirect hr hm, hpush⟩

/-- A step puts at most one execution on record, and it is a worker's or a direct phase's. -/
theorem step_begins (hs : e.step b label = some next) : next.executions = e.executions ∨
    ∃ x, Begins b e label x ∧ next.executions = e.executions.push x := by
  cases label with
  | call request =>
      simp only [step, Option.ite_none_right_eq_some, Option.some.injEq] at hs
      obtain ⟨_, rfl⟩ := hs
      exact .inl (apart_begin b e request).executions
  | cancel => exact .inl (aside_cancel hs).executions
  | release permits | newLatch jobs =>
      cases hs
      exact .inl rfl
  | act actor =>
      cases actor with
      | worker i k =>
          obtain ⟨p, w, hp, hw, hm⟩ := workerStep_move hs
          change next.bare.executions = e.executions ∨
            ∃ x, _ ∧ next.bare.executions = e.executions.push x
          generalize next.bare = after at hm
          cases hm with
          | begins ha hc => exact .inr ⟨_, .worker rfl hp hw ha, rfl⟩
          | collapses ha hc => exact .inr ⟨_, .worker rfl hp hw ha, rfl⟩
          | _ => exact .inl rfl
      | caller =>
          cases callerStep_calls hs with
          | starts hr hs => exact .inl (apart_startStep hs).executions
          | aside h => exact .inl h.executions
          | begins hd hr hs =>
              subst hs
              exact .inl executions_beginPhase
          | turns hd hr ht hs =>
              subst hs
              rw [executions_goOn]
              exact phaseTurn_begins hd hr ht
          | reads hr hs =>
              subst hs
              exact .inl rfl

variable {before : Tally} {point : Point}

/-- Only a direct phase is ever at a point at which there is no latch. -/
theorem direct_of_point (h : Reachable b e)
    (hr : e.progress = .running ⟨phase, before, point⟩ todo reports) (hp : point.latch? = none) :
    phase.mode = .direct := by
  obtain ⟨s, d, hreachable, hd, hplanned, hduring⟩ :=
    exists_during h (congrArg Progress.phase? hr)
  cases hm : phase.mode with
  | direct => rfl
  | pooled =>
      obtain ⟨p, hpool, _⟩ := (housed_of_reachable hreachable).driver d hd
      have hgoing := (hduring.going ⟨hreachable, hd, hpool, hplanned, hm⟩).resolve_left
        (not_returned_of_isRunning (congrArg Progress.isRunning hr))
      cases hgoing.call with
      | running hpoint hlatch =>
          cases hr.symm.trans hpoint
          rw [hp] at hlatch
          cases hlatch
      | entering hr' | leaving _ hr' | reported _ hr' => cases hr.symm.trans hr'

/-- A direct phase that does not dial has a connection, and a command in hand. -/
theorem exists_inHand (h : Reachable b e)
    (hr : e.progress = .running ⟨phase, before, point⟩ todo reports) (hm : phase.mode = .direct)
    (hp : point ≠ .connecting ∧ point ≠ .dialing) : ∃ number conn index events attempts,
      InHand phase number conn index point events attempts ∧ e.slot = some conn := by
  obtain ⟨s, d, hreachable, hd, hplanned, hduring⟩ :=
    exists_during h (congrArg Progress.phase? hr)
  cases hduring.directLeg hreachable hd hplanned hm with
  | dials stalled _ hr' =>
      cases hr' with
      | enters entry hr' => cases hr.symm.trans hr'
      | runs hr' =>
          cases hr.symm.trans hr'
          cases stalled with
          | false => exact absurd rfl hp.1
          | true => exact absurd rfl hp.2
  | serves hr' hh h =>
      cases hr' with
      | enters entry hr' => cases hr.symm.trans hr'
      | runs hr' =>
          cases hr.symm.trans hr'
          exact ⟨_, _, _, _, _, hh, slot_of_driver h.stands.driver⟩
  | refused _ hr' | leaves _ hr' | reported _ hr' | stopped hr' => cases hr.symm.trans hr'

end Phases

end Engine

end LoadBench
