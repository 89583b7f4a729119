import LoadBench.Proofs.Answered
import LoadBench.Proofs.Completion

/-!
The end of a phase that begins on an idle pool, in either mode, if every execution comes to an end
by itself. Somebody can always go on and each step takes work away, so the call reports, or a direct
phase stops at a command that cannot be made or whose execution panics. What the report counts is
what the phase has executed, since nothing else is counted in the driver's counters meanwhile.
-/

namespace LoadBench

/-- Whether a direct phase has begun the execution with an index and may have to wait for its end,
or for the command to be counted. -/
def Point.IsPast (index : Nat) : Point → Prop
  | .stalled _ index' _ | .finished _ index' _ | .failing _ index' => index' = index
  | _ => False

namespace Engine

/-- A phase is about to begin on a driver whose pool is idle: the pool has no jobs, and all of its
workers go on. -/
structure Idle (b : Backend) (s : Engine) (d : Driver) (p : WorkerPool) (phase : Phase)
    (todo : List Phase) (reports : List PhaseCount) : Prop where
  reachable : Reachable b s
  driver : s.driver = some d
  pool : s.pools[d.pool]? = some p
  planned : s.progress = .planning (phase :: todo) reports
  shared : d.tally = p.tally
  jobs : p.jobs = []
  workers : 0 < p.workers.size
  live : ∀ (k : Nat) (w : Worker), p.workers[k]? = some w → w.activity.isLive = true

/-- A driver that has no connection for its direct phases gets one when it dials. -/
def Connects (b : Backend) (s : Engine) (d : Driver) : Prop :=
  d.direct = none → b.dial s.dialAttempts = .connect

/-- The end of a direct phase that has executed and counted some of its commands. -/
inductive Concludes (phase : Phase) (number conn : Nat) (todo : List Phase)
    (reports : List PhaseCount) (done : List Execution) : Progress → List Execution → Prop
  | completes (hall : done.length = phase.iterations) :
      Concludes phase number conn todo reports done (.planning todo reports) done
  | stumbles {message : String} (hlt : done.length < phase.iterations)
      (hg : phase.generate done.length = .error message) :
      Concludes phase number conn todo reports done (.returned (.panic message)) done
  | panics {command : Command} {message : String} (hlt : done.length < phase.iterations)
      (hg : phase.generate done.length = .ok command) :
      Concludes phase number conn todo reports done (.returned (.panic message))
        (done ++ [⟨conn, command, .direct number done.length, .panic message⟩])

/-- A direct phase on an idle pool that has come to its end. -/
structure Concluded (s : Engine) (d : Driver) (phase : Phase) (todo : List Phase)
    (reports : List PhaseCount) (conn : Nat) (done : List Execution) (e : Engine) : Prop where
  ran : ∀ (index : Nat) (x : Execution), done[index]? = some x →
    x.Ran phase s.directRuns conn index
  counted : (e.tallyAt d.tally).since (s.tallyAt d.tally) =
    ⟨done.length, done.countP Execution.failed⟩
  ends : Concludes phase s.directRuns conn todo
    (reports ++ [phase.report (s.tallyAt d.tally) (e.tallyAt d.tally)]) done e.progress
    ((s.executedSince e).filter Execution.isDirect)

variable {b : Backend} {e next s : Engine} {d : Driver} {p : WorkerPool} {phase : Phase}
  {todo : List Phase} {reports : List PhaseCount} {point : Point} {turn : Turn} {label : Label}
  {goal goal' : Engine → Prop}

theorem Inevitably.mono (h : Inevitably b goal e) (hgoal : ∀ e, goal e → goal' e) :
    Inevitably b goal' e := by
  induction h with
  | now h => exact .now (hgoal _ h)
  | later hcan _ ih => exact .later hcan ih

/-- A state of some kind is reached if up to then somebody can go on and each step takes work
away. -/
theorem inevitably_of_work (I : Engine → Prop) (h : I e)
    (hgoesOn : ∀ e, I e → goal e ∨ (∃ actor next, e.step b (.act actor) = some next) ∧
      ∀ actor next, e.step b (.act actor) = some next → I next ∧ next.work < e.work) :
    Inevitably b goal e := by
  -- The induction is on the work that is left.
  induction hn : e.work using Nat.strong_induction_on generalizing e with
  | h n ih =>
      rcases hgoesOn e h with hdone | ⟨hcan, hall⟩
      · exact .now hdone
      · refine .later hcan fun actor next hstep => ?_
        obtain ⟨hnext, hless⟩ := hall actor next hstep
        exact ih next.work (hn ▸ hless) hnext rfl

namespace Idle

variable (h : Idle b s d p phase todo reports)

include h

theorem ready (hm : phase.mode = .pooled) : Ready b s d p phase todo reports :=
  ⟨h.reachable, h.driver, h.pool, h.planned, hm⟩

theorem not_has (job : Job) : ¬ p.Has job := WorkerPool.jobs_eq_nil.mp h.jobs job

theorem staffed : s.Staffed p := ⟨h.workers, h.live, fun job hhas => absurd hhas (h.not_has job)⟩

/-- Each pool counts for itself, so other pools do not count in the driver's counters. -/
theorem undisturbed : Undisturbed s d := by
  intro i q job hq hhas
  rw [h.shared]
  refine (traced_of_reachable h.reachable).apart i d.pool q p hq h.pool ?_
  rintro rfl
  cases h.pool.symm.trans hq
  exact h.not_has job hhas

end Idle

section Pooled

/-- While a pooled phase is being run over workers that go on, its call returns only if it is given
up. -/
theorem During.blocked (hd : During b s e) (hready : Ready b s d p phase todo reports)
    (hs : s.Staffed p) (hb : b.Settles) (hg : phase.Generates) {answer : Answer}
    (hreturned : e.progress = .returned answer) : answer = .blocked := by
  cases hd with
  | begins hstep =>
      obtain rfl := hready.begun hstep
      rw [beginPhase_of_pooled hready.pooled] at hreturned
      cases hreturned
  | @step e next label hd hr hstep =>
      have hruns := not_returned_of_isRunning hr
      have hgoing := (hd.going hready).resolve_left hruns
      have hsturdy := (hd.sturdy hready hb hs).resolve_left hruns
      have hreachable := hd.reachable hready.reachable
      obtain ⟨p, hp, hstaffed⟩ := hsturdy.staffed
      obtain ⟨p', hp', hopen⟩ := (housed_of_reachable hreachable).driver d hgoing.driver
      cases hp.symm.trans hp'
      exact hgoing.blocked hready.pooled hg hp hopen (hstaffed.open hreachable hp) hr hstep
        hreturned

/-- A pooled phase on an idle pool comes to its report unless it is given up. -/
theorem Idle.pooled_ends (h : Idle b s d p phase todo reports) (hm : phase.mode = .pooled)
    (hb : b.Settles) (hg : phase.Generates) (hd : During b s e)
    (hnot : e.progress ≠ .returned .blocked) :
    Inevitably b (fun e => During b s e ∧ Finished phase todo reports e) e := by
  have hready := h.ready hm
  refine inevitably_of_work
    (fun e => During b s e ∧ e.progress ≠ .returned .blocked) ⟨hd, hnot⟩ ?_
  rintro e ⟨hd, hnot⟩
  have hruns : ¬∃ answer, e.progress = .returned answer := by
    rintro ⟨answer, hanswer⟩
    obtain rfl := hd.blocked hready h.staffed hb hg hanswer
    exact hnot hanswer
  have hgoing := (hd.going hready).resolve_left hruns
  have hsturdy := (hd.sturdy hready hb h.staffed).resolve_left hruns
  have hreachable := hd.reachable h.reachable
  rcases hgoing.running_or_finished with hr | hfinished
  · refine .inr ⟨hsturdy.enabled hgoing (hd.phaseLatch hready) h.reachable hb hm hr, ?_⟩
    intro actor next hstep
    refine ⟨⟨.step _ hd hr hstep, ?_⟩, (hgoing.work hreachable hr hstep).2 actor rfl⟩
    exact hsturdy.not_returned hgoing hreachable hm hg hr hstep .blocked
  · exact .inl ⟨hd, hfinished⟩

/-- The report of a pooled phase on an idle pool: each command is counted, and those that fail are
counted as failed. -/
theorem Idle.pooled_counts (h : Idle b s d p phase todo reports) (hm : phase.mode = .pooled)
    (hd : During b s e) {report : PhaseCount}
    (hreturned : e.progress = .planning todo (reports ++ [report])) :
    report = ⟨phase.name, phase.mode, phase.iterations,
        ⟨phase.iterations, (indicesOn s.batches.size (e.attempted true)).length⟩⟩ ∧
      e.isReleased s.batches.size = true := by
  obtain ⟨hr, hcounts, hreport⟩ :=
    hd.report_of_empty (h.ready hm) h.shared h.jobs hreturned
  refine ⟨?_, hr⟩
  rw [← hcounts, hreport]
  rfl

end Pooled

section Direct

/-- How far a phase has come after one of its steps. -/
def Turn.work (phase : Phase) (todo : List Phase) : Turn → Nat
  | .to point => point.work phase.iterations + planWork todo
  | .done => 2 + planWork todo
  | .fault _ | .panic _ => 0

/-- A step of a direct phase takes work away from what is left of it, and no work is added
elsewhere. Only a dial that was begun may wait once more. -/
theorem DirectMove.work_lt (h : DirectMove b e d phase point turn next) (todo : List Phase)
    (hdial : point ≠ .dialing)
    (hpast : ∀ index, point.IsPast index → index < phase.iterations) :
    total WorkerPool.work next.pools = total WorkerPool.work e.pools ∧
      turn.work phase todo < point.work phase.iterations + planWork todo := by
  cases h with
  | @dials _ _ dialed mid _ hp hdialed ht =>
      obtain rfl := hp.resolve_right hdial
      have hpools := hdialed.leaves.2.1
      cases dialed with
      | connected conn =>
          cases ht
          refine ⟨?_, ?_⟩
          · rw [← hpools]
            exact total_modify_eq _ _ _ _ fun p _ => rfl
          · simp only [Turn.work, Point.work, Nat.sub_zero]
            omega
      | parked =>
          cases ht
          refine ⟨congrArg _ hpools, ?_⟩
          simp only [Turn.work, Point.work]
          omega
      | failed fault | panicked message =>
          cases ht
          refine ⟨congrArg _ hpools, ?_⟩
          simp only [Turn.work, Point.work]
          omega
  | generates | stumbles | ends | collapses | stalls =>
      refine ⟨rfl, ?_⟩
      simp only [Turn.work, Point.work]
      omega
  | begins hd ht =>
      refine ⟨rfl, ?_⟩
      rcases ht with ⟨conduct, rfl⟩ | ⟨message, rfl⟩
      · simp only [Turn.work, Point.work]
        omega
      · simp only [Turn.work, Point.work]
        omega
  | @finishes run index _ fault gate hp =>
      refine ⟨by cases fault <;> rfl, ?_⟩
      rcases hp with ⟨conduct, rfl⟩ | ⟨fault', rfl⟩
      · simp only [Turn.work, Point.work]
        omega
      · have hlt := hpast index rfl
        simp only [Turn.work, Point.work, Phase.commandWork, Job.work]
        omega
  | @counts run index | @tallies run index | @countsFailure run index =>
      have hlt := hpast index rfl
      refine ⟨rfl, ?_⟩
      simp only [Turn.work, Point.work, Phase.commandWork, Job.work]
      omega

/-- What is left of a call after a step of its phase. -/
theorem work_goOn (e : Engine) (point : Point) (before : Tally) (todo : List Phase)
    (reports : List PhaseCount) (turn : Turn) (workers : Nat → Nat) :
    (e.goOn ⟨phase, before, point⟩ todo reports turn).progress.work workers =
      turn.work phase todo := by
  cases turn <;> rfl

/-- What the counters have moved by after some executions were counted. -/
theorem since_foldl_record (counted : List Bool) (t : Tally) :
    (counted.foldl Tally.record t).since t = ⟨counted.length, counted.count true⟩ := by
  have hfold (t : Tally) : counted.foldl Tally.record t =
      ⟨t.executed + counted.length, t.failed + counted.count true⟩ := by
    induction counted generalizing t with
    | nil => rfl
    | cons failed counted ih =>
        rw [List.foldl_cons, ih]
        cases failed <;> simp [Tally.record, Tally.add] <;> omega
  rw [hfold]
  simp [Tally.since]

theorem Connected.mem_executed {conn : Nat} {done attempts : List Execution} {events : List Event}
    {before : Tally} (h : Connected b s d before phase conn done events attempts e) {x : Execution}
    (hx : x ∈ attempts) : x ∈ s.executedSince e := by
  have hmem := List.mem_append_right done hx
  rw [← h.stands.logs.executed] at hmem
  exact List.mem_of_mem_filter hmem

namespace DirectLeg

variable (h : DirectLeg b s d phase todo reports e) (hconn : Connects b s d)

include h hconn

/-- A direct phase that is being run reads a counter, or is about to dial, or it has a command in
hand. -/
theorem running (hr : e.progress.isRunning = true) :
    ∃ direct, e.driver = some { d with direct } ∧ (e.progress.reads = true ∨
      ∃ before point, e.progress = .running ⟨phase, before, point⟩ todo reports ∧
        (point = .connecting ∨ ∃ conn done events attempts, direct = some conn ∧
          InHand phase s.directRuns conn done.length point events attempts ∧
          Connected b s d before phase conn done events attempts e)) := by
  cases h with
  | @dials before stalled hd hr' ha hn hw h =>
      refine ⟨none, h.driver, ?_⟩
      cases stalled with
      | true =>
          have hdial := hconn hd
          rw [hw rfl] at hdial
          cases hdial
      | false =>
          cases hr' with
          | enters entry hr' => exact .inl (by rw [hr']; rfl)
          | runs hr' => exact .inr ⟨before, .connecting, hr', .inl rfl⟩
  | @serves before conn done point events attempts hr' hh h =>
      refine ⟨some conn, h.stands.driver, ?_⟩
      cases hr' with
      | enters entry hr' => exact .inl (by rw [hr']; rfl)
      | runs hr' =>
          exact .inr ⟨before, point, hr', .inr ⟨conn, done, events, attempts, rfl, hh, h⟩⟩
  | @leaves _ conn _ executed hr' hall hx h =>
      exact ⟨some conn, h.stands.driver, .inl (by rw [hr']; rfl)⟩
  | refused _ hr' | reported _ hr' | stopped hr' =>
      rw [hr'] at hr
      cases hr

/-- A direct phase whose executions come to an end by themselves never has to wait. -/
theorem enabled (hsettles : ∀ x ∈ s.executedSince e, x.conduct.settles = true)
    (hm : phase.mode = .direct) (hr : e.progress.isRunning = true) :
    ∃ next, e.step b (.act .caller) = some next := by
  obtain ⟨direct, hd, hreads | ⟨before, point, hr', hpoint⟩⟩ := h.running hconn hr
  · exact exists_step_of_reads hd hreads
  suffices hs : (e.directStep b { d with direct } phase point).isSome = true by
    obtain ⟨x, hx⟩ := Option.isSome_iff_exists.mp hs
    refine ⟨x.2.goOn ⟨phase, before, point⟩ todo reports x.1, ?_⟩
    change e.callerStep b = _
    rw [callerStep_of_running hd hr', phaseTurn, hm, hx]
    rfl
  rcases hpoint with rfl | ⟨conn, done, _, _, rfl, hh, h⟩
  · rfl
  · cases hh with
    | prepares =>
        simp only [directStep]
        split
        · split <;> rfl
        · rfl
    | issues hlt hg =>
        simp only [directStep, Option.bind_eq_bind, Option.bind_some]
        split <;> rfl
    | executes hlt hg =>
        simp only [directStep]
        split
        · rfl
        · rfl
        · rfl
        · rfl
        · split <;> rfl
    | stalls hlt hg =>
        cases hsettles _ (h.mem_executed (List.mem_singleton_self _))
    | @finishes _ _ failed => cases failed <;> rfl
    | counts => rfl

/-- Each step of somebody takes work away from a direct phase. -/
theorem work (hm : phase.mode = .direct) (hr : e.progress.isRunning = true) {actor : Actor}
    (hs : e.step b (.act actor) = some next) : next.work < e.work := by
  cases actor with
  | worker i k => exact ((step_move hs).work_of_others rfl hr).2 _ rfl
  | caller =>
      obtain ⟨direct, hd, hreads | ⟨before, point, hr', hpoint⟩⟩ := h.running hconn hr
      · exact work_of_reads hreads rfl hs
      have hdial : point ≠ .dialing := by
        rcases hpoint with rfl | ⟨_, _, _, _, _, hh, _⟩
        · exact nofun
        · cases hh <;> exact nofun
      have hpast (index : Nat) (hp : point.IsPast index) : index < phase.iterations := by
        rcases hpoint with rfl | ⟨_, _, _, _, _, hh, _⟩
        · cases hp
        · cases hh with
          | stalls hlt | finishes hlt | counts hlt => exact hp ▸ hlt
          | prepares | issues | executes => cases hp
      change e.callerStep b = some next at hs
      rw [callerStep_of_running hd hr', phaseTurn, hm] at hs
      obtain ⟨⟨turn, mid⟩, hturn, rfl⟩ := Option.map_eq_some_iff.mp hs
      obtain ⟨hpools, hless⟩ := (directStep_cases hturn).work_lt todo hdial hpast
      have hgoes : (mid.goOn ⟨phase, before, point⟩ todo reports turn).pools = mid.pools :=
        (Notes.goOn d mid todo reports turn).pools
      rw [work_eq, work_eq, hgoes, hpools, work_goOn, hr']
      exact Nat.add_lt_add_right hless _

/-- What is left behind by a direct phase that has come to its end. -/
theorem concluded (hsettles : ∀ x ∈ s.executedSince e, x.conduct.settles = true)
    (hidle : Undisturbed s d) (hr : e.progress.isRunning = false) : ∃ done,
    Concluded s d phase todo reports (d.direct.getD s.connections) done e := by
  have hcounted {done : List Execution}
      (hsame : e.tallyAt d.tally =
        (done.map Execution.failed).foldl Tally.record (s.tallyAt d.tally)) :
      (e.tallyAt d.tally).since (s.tallyAt d.tally) =
        ⟨done.length, done.countP Execution.failed⟩ := by
    rw [hsame, since_foldl_record, List.length_map]
    simp [List.count, List.countP_map, Function.comp_def]
  cases h with
  | dials stalled hd hr' ha hn hw h | serves hr' hh h =>
      cases hr' with
      | enters entry hr' | runs hr' =>
          rw [hr'] at hr
          cases hr
  | leaves executed hr' =>
      rw [hr'] at hr
      cases hr
  | refused hd hr' hw ha h =>
      have hdial := hconn hd
      cases hw with
      | fails hb =>
          rw [hdial] at hb
          cases hb
      | givesUp hb =>
          rw [hdial] at hb
          cases hb
  | @reported before conn done after hr' hall ha h =>
      obtain rfl := h.holds
      refine ⟨done, h.ran, hcounted (h.counters hidle), ?_⟩
      have hafter : after = e.tallyAt d.tally := by
        have hexecuted := (ha .executed).undisturbed hidle
        have hfailed := (ha .failed).undisturbed hidle
        cases after
        exact congrArg₂ Tally.mk hexecuted hfailed
      rw [hr', h.stands.reads hidle, hafter, h.stands.logs.executed, List.append_nil]
      exact .completes hall
  | @stopped before conn done answer events attempts hr' hh h =>
      obtain rfl := h.holds
      have hquiet (t : Tally) : t.after events = t := by cases hh <;> rfl
      refine ⟨done, h.ran, hcounted ((h.counters hidle).trans (hquiet _)), ?_⟩
      have hmem {x : Execution} (hx : x ∈ attempts) := hsettles x (h.mem_executed hx)
      rw [hr', h.stands.logs.executed]
      cases hh with
      | stumbles hlt hg =>
          rw [List.append_nil]
          exact .stumbles hlt hg
      | @panics command conduct message hlt hg hc =>
          have hsettles := hmem (List.mem_singleton_self _)
          cases conduct with
          | panic message' =>
              cases hc
              exact .panics hlt hg
          | panicAtOnce message' => cases hsettles
          | _ => cases hc
      | givesUp hlt hg => cases hmem (List.mem_singleton_self _)

end DirectLeg

/-- A direct phase comes to its end. -/
theorem Idle.direct_ends (h : Idle b s d p phase todo reports) (hm : phase.mode = .direct)
    (hb : b.Settles) (hconn : Connects b s d) (hd : During b s e) :
    Inevitably b (fun e => During b s e ∧ e.progress.isRunning = false) e := by
  refine inevitably_of_work (During b s) hd fun e hd => ?_
  have hleg := hd.directLeg h.reachable h.driver h.planned hm
  have hsettles := (hd.heard h.driver h.planned).answered.all (P := (·.conduct.settles = true))
    fun history conn command _ => hb history conn command
  cases hr : e.progress.isRunning with
  | false => exact .inl ⟨hd, rfl⟩
  | true =>
      obtain ⟨next, hnext⟩ := hleg.enabled hconn hsettles hm hr
      refine .inr ⟨⟨.caller, next, hnext⟩, fun actor next hstep => ?_⟩
      exact ⟨.step _ hd hr hstep, hleg.work hconn hm hr hstep⟩

end Direct

end Engine

end LoadBench
