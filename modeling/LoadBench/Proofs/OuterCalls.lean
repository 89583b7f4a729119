import LoadBench.Proofs.Calm
import LoadBench.Proofs.Shutdown
import LoadBench.Proofs.Startup

/-!
The first and the last call of a run over a calm backend. The first one starts a driver, which fails
only for its sizes or at a dial. The last one shuts the driver down, and all that may happen to it
is that it is given up, since no worker panics. Neither of them executes anything.
-/

namespace LoadBench.Engine

/-- A start that does not succeed, by its answer. -/
inductive StartFails (b : Backend) (workers capacity : Nat) : Answer → Prop
  | sizes (h : workers = 0 ∨ capacity = 0) :
      StartFails b workers capacity (.fault (if workers = 0 then .noWorkers else .noCapacity))
  | panics (message : String) (h : JobQueue.maxCapacity < capacity ∨ tooManyWorkers ≤ workers) :
      StartFails b workers capacity (.panic message)
  | dial (attempt : Nat) (fault : Fault) (h : b.dial attempt = .fail fault) :
      StartFails b workers capacity (.fault fault)
  | blocked : StartFails b workers capacity .blocked

/-- How far a call to start a first driver has come. -/
inductive Starting (b : Backend) (workers capacity : Nat) (e : Engine) : Prop
  | dials {made : Nat} {stalled : Bool}
      (hu : Underway b {} workers capacity false made stalled e) (hw : 0 < workers)
  | started {d : Driver} (hr : e.progress = .returned (.started workers capacity))
      (hd : e.driver = some d) (hm : e.Manages d)
  | failed {answer : Answer} (hr : e.progress = .returned answer)
      (hf : StartFails b workers capacity answer)

/-- An engine on which nothing but the start of a first driver was called. -/
structure Fresh (b : Backend) (workers capacity : Nat) (e : Engine) : Prop where
  reachable : Reachable b e
  jobless : Jobless e
  batches : e.batches.size = 0
  directRuns : e.directRuns = 0
  logs : Logs (fun event => event.origin? = none) (fun _ => False) {} e
  starting : Starting b workers capacity e

/-- No worker of a pool has panicked. -/
def Unharmed (e : Engine) (i : Nat) : Prop :=
  ∀ (k : Nat) (w : Worker), e.worker? i k = some w →
    w.activity ≠ .leaving true ∧ w.activity ≠ .ended true

/-- How far a call to shut a driver down has come. -/
inductive Closes (i : Nat) (e : Engine) : Prop
  | joins (hr : e.progress = .joining i)
  | returned {answer : Answer} (hr : e.progress = .returned answer)
      (ha : answer = .ok ∨ answer = .blocked)

/-- An engine on which the driver of a pool is being shut down, or was, since the state `start`. -/
structure Winding (b : Backend) (start : Engine) (i : Nat) (e : Engine) : Prop where
  reachable : Reachable b e
  jobless : Jobless e
  pool : ∃ p, e.pools[i]? = some p
  unharmed : Unharmed e i
  logs : Logs Event.IsClosing (fun _ => False) start e
  closes : Closes i e

variable {b : Backend} {e mid next start : Engine} {d : Driver} {label : Label}
  {workers capacity pool i : Nat} {split stalled : Bool} {answer : Answer}

/-- A call that has returned waits for the next one. -/
theorem ofCaller_of_returned (hr : e.progress = .returned answer) (hl : label.attends = true)
    (hs : e.step b label = some next) : label.ofCaller = false := by
  cases label with
  | act actor =>
      cases actor with
      | caller => simp [Engine.step, advance, callerStep, hr] at hs
      | worker i k => rfl
  | cancel => simp [Engine.step, cancel, hr] at hs
  | call request => cases hl
  | release permits | newLatch jobs => rfl

/-- Latches are only made where a plan goes on. -/
theorem size_batches_of_step (hs : e.step b label = some next)
    (hl : ∀ jobs, label ≠ .newLatch jobs)
    (hr : label.ofCaller = true → ∀ todo reports, e.progress ≠ .planning todo reports) :
    next.batches.size = e.batches.size := by
  rcases step_latches hs hl with
    hsame | ⟨phase, todo, reports, _, hcaller, hplanning, _⟩
  · exact hsame
  · exact absurd hplanning (hr hcaller _ _)

section Start

/-- A step of a call to start puts at most a dial on record. -/
theorem startStep_adds (hs : e.startStep b pool workers split stalled = some next)
    (hd : e.driver = none) :
    Logs (fun event => event.origin? = none) (fun _ => False) e next ∧
      next.directRuns = e.directRuns := by
  simp only [startStep, Option.bind_eq_bind, Option.bind_eq_some_iff] at hs
  obtain ⟨p, _, hs⟩ := hs
  split at hs
  · cases hs
    simp only [completeStart, tell, setPool, hd]
    exact ⟨.same rfl rfl, rfl⟩
  · simp only [Option.bind_eq_some_iff] at hs
    obtain ⟨⟨dialed, mid⟩, hdial, hs⟩ := hs
    obtain ⟨⟨l, hadds, hl⟩, hruns⟩ := (dialStep_cases hdial).adds
    have hlogs : Logs (fun event => event.origin? = none) (fun _ => False) e mid := by
      refine ⟨l, [], hadds, fun event hmem => ?_, fun x hmem => absurd hmem List.not_mem_nil⟩
      obtain ⟨attempt, conn, rfl⟩ := hl event hmem
      rfl
    cases dialed <;> cases hs <;> exact ⟨hlogs.congr rfl rfl, hruns⟩

theorem GivenUp.startFails {made : Nat} (hg : GivenUp b {} capacity false made answer e)
    (hb : b.Calm) : StartFails b workers capacity answer := by
  obtain ⟨fault, hdial, rfl⟩ := DialConduct.fails_of_refusal hg.refused (hb.dials _)
  exact .dial _ fault hdial

/-- The driver of a start that succeeds. -/
theorem Underway.manages {made : Nat} {p : WorkerPool}
    (hu : Underway b {} workers capacity false made stalled mid) (hw : 0 < made)
    (hm : Reachable b mid) (hp : mid.pools[({} : Engine).pools.size]? = some p)
    (hc : p.Crew capacity made ({} : Engine).connections) :
    ∃ d, (mid.completeStart b ({} : Engine).pools.size p false).driver = some d ∧
      (mid.completeStart b ({} : Engine).pools.size p false).Manages d := by
  obtain ⟨_, hne⟩ := (housed_of_reachable hm).opening _ hu.opening
  obtain ⟨hpools, _⟩ := completeStart_frame b false hp hne
  refine ⟨_, rfl, p.dropReceiver, hpools, rfl, ?_⟩
  change 0 < p.workers.size
  rw [hc.size]
  exact hw

theorem Starting.others (h : Starting b workers capacity e) (hreachable : Reachable b e)
    (hs : e.step b label = some next) (hl : label.ofCaller = false) :
    Starting b workers capacity next := by
  obtain ⟨hprogress, _, hdriver⟩ := step_of_others hs hl
  cases h with
  | dials hu hw => exact .dials (hu.others hreachable hs hl) hw
  | started hr hd hm =>
      exact .started (hprogress.trans hr) (hdriver.trans hd) (hm.step hreachable hs)
  | failed hr hf => exact .failed (hprogress.trans hr) hf

/-- A step of the caller's, or of somebody who gives it up. -/
theorem Fresh.caller (h : Fresh b workers capacity e) (hb : b.Calm) (hl : label.attends = true)
    (hcaller : label.ofCaller = true) (hs : e.step b label = some next) :
    Starting b workers capacity next ∧
      Logs (fun event => event.origin? = none) (fun _ => False) e next ∧
        next.directRuns = e.directRuns := by
  have hreturned {answer : Answer} (hr : e.progress = .returned answer) : False := by
    rw [ofCaller_of_returned hr hl hs] at hcaller
    cases hcaller
  cases h.starting with
  | started hr hd hm => exact (hreturned hr).elim
  | failed hr hf => exact (hreturned hr).elim
  | dials hu hw =>
      rcases step_of_starting hu.progress hs with ⟨hothers, _⟩ | ⟨rfl, hstart⟩ | ⟨rfl, _, rfl⟩
      · rw [hcaller] at hothers
        cases hothers
      · refine ⟨?_, startStep_adds hstart hu.driver⟩
        cases hu.dials_next h.reachable hs with
        | waits hu' => exact .dials hu' hw
        | spawns hu' => exact .dials hu' hw
        | completes hmade hnow hp hcrew hnext =>
            subst hmade hnow
            obtain ⟨d, hd, hm⟩ := hu.manages hw h.reachable hp hcrew
            rw [← hnext] at hd hm
            have hstarted := hu.startedUp (h.reachable.step _ hs) h.reachable hp hcrew hnext
            exact .started hstarted.progress hd hm
        | fails _ hg => exact .failed hg.progress (hg.startFails hb)
      · exact ⟨.failed rfl .blocked, .same rfl rfl, rfl⟩

theorem Fresh.step (h : Fresh b workers capacity e) (hb : b.Calm) (hl : label.attends = true)
    (hs : e.step b label = some next) : Fresh b workers capacity next := by
  have hprogress : e.progress.latch? = none ∧
      ∀ todo reports, e.progress ≠ .planning todo reports := by
    cases h.starting with
    | dials hu hw => exact ⟨by rw [hu.progress]; rfl, by rw [hu.progress]; exact nofun⟩
    | started hr | failed hr => exact ⟨by rw [hr]; rfl, by rw [hr]; exact nofun⟩
  have hstarting : Starting b workers capacity next ∧
      Logs (fun event => event.origin? = none) (fun _ => False) e next ∧
        next.directRuns = e.directRuns := by
    cases hcaller : label.ofCaller with
    | true => exact h.caller hb hl hcaller hs
    | false =>
        refine ⟨h.starting.others h.reachable hs hcaller, ?_, (step_of_others hs hcaller).2.1⟩
        refine (h.jobless.logs hs hcaller).mono ?_ fun _ => id
        rintro event ⟨conn, rfl⟩
        rfl
  obtain ⟨hstarting, hlogs, hruns⟩ := hstarting
  exact {
    reachable := h.reachable.step label hs
    jobless := h.jobless.step h.reachable hs hprogress.1
    batches := (size_batches_of_step hs (ne_newLatch hl) fun _ => hprogress.2).trans h.batches
    directRuns := hruns.trans h.directRuns
    logs := h.logs.trans hlogs
    starting := hstarting }

theorem jobless_empty : Jobless {} := by
  rintro i job ⟨p, hp, _⟩
  cases hp

/-- The call to start a first driver begins. -/
theorem fresh_begin (b : Backend) (workers capacity : Nat) :
    Fresh b workers capacity (({} : Engine).begin b (.start workers capacity false)) := by
  have hs : ({} : Engine).step b (.call (.start workers capacity false)) =
      some (({} : Engine).begin b (.start workers capacity false)) := rfl
  have hbegun : Starting b workers capacity
        (({} : Engine).begin b (.start workers capacity false)) ∧
      Logs (fun event => event.origin? = none) (fun _ => False) {}
        (({} : Engine).begin b (.start workers capacity false)) ∧
      (({} : Engine).begin b (.start workers capacity false)).directRuns = 0 := by
    simp only [begin, beginStart]
    split
    · next hworkers =>
      have hfails : StartFails b workers capacity _ := .sizes (.inl hworkers)
      rw [if_pos hworkers] at hfails
      exact ⟨.failed rfl hfails, .same rfl rfl, rfl⟩
    · next hworkers =>
      split
      · next hcapacity =>
        have hfails : StartFails b workers capacity _ := .sizes (.inr hcapacity)
        rw [if_neg hworkers] at hfails
        exact ⟨.failed rfl hfails, .same rfl rfl, rfl⟩
      · split
        · next hslots => exact ⟨.failed rfl (.panics _ (.inl hslots)), .same rfl rfl, rfl⟩
        · split
          · next hhandles => exact ⟨.failed rfl (.panics _ (.inr hhandles)), .same rfl rfl, rfl⟩
          · have hu := underway_openPool (b := b) .start workers capacity false
            exact ⟨.dials hu (Nat.pos_of_ne_zero hworkers), .same rfl rfl, rfl⟩
  obtain ⟨hstarting, hlogs, hruns⟩ := hbegun
  exact {
    reachable := Reachable.start.step _ hs
    jobless := jobless_empty.step .start hs rfl
    batches := by
      refine (size_batches_of_step hs (fun jobs heq => ?_) fun _ todo reports heq => ?_).trans rfl
      · cases heq
      · cases heq
    directRuns := hruns
    logs := hlogs
    starting := hstarting }

/-- The first call of a run, at any time from when it begins. -/
theorem InCall.fresh (h : InCall b {} (.start workers capacity false) e) (hb : b.Calm) :
    Fresh b workers capacity e := by
  induction h with
  | begins hs =>
      cases hs
      exact fresh_begin b workers capacity
  | step label _ hl hs ih => exact ih.step hb hl hs

/-- A driver that was started stands still. -/
theorem Fresh.still (h : Fresh b workers capacity e)
    (hr : e.progress = .returned (.started workers capacity)) : ∃ d, Still b d e := by
  have howning : Owning e := by
    intro latch batch hbatch
    obtain ⟨hlt, _⟩ := Array.getElem?_eq_some_iff.mp hbatch
    have hnone := h.batches
    omega
  cases h.starting with
  | dials hu hw => cases hr.symm.trans hu.progress
  | started _ hd hm => exact ⟨_, h.reachable, hd, hm, h.jobless, howning⟩
  | failed hr' hf =>
      cases hr.symm.trans hr'
      cases hf

/-- What the first call of a run comes to. -/
theorem Fresh.outcome (h : Fresh b workers capacity e) :
    (e.progress = .returned (.started workers capacity) ∧ ∃ d, Still b d e) ∨
      StartFails b workers capacity (e.progress.answer?.getD .blocked) := by
  cases h.starting with
  | dials hu hw =>
      rw [hu.progress]
      exact .inr .blocked
  | started hr => exact .inl ⟨hr, h.still hr⟩
  | failed hr hf =>
      rw [hr]
      exact .inr hf

end Start

section Shutdown

theorem unharmed_of_live {w : Worker} (hlive : w.activity.isLive = true) :
    w.activity ≠ .leaving true ∧ w.activity ≠ .ended true := by
  constructor
  · intro ha
    rw [ha] at hlive
    cases hlive
  · intro ha
    rw [ha] at hlive
    cases hlive

theorem Unharmed.step (h : Unharmed e i) (hb : b.Calm) (hreachable : Reachable b e)
    (hjobless : Jobless e) (hs : e.step b label = some next) : Unharmed next i := by
  intro k w' hw'
  cases hlive : w'.activity.isLive with
  | true => exact unharmed_of_live hlive
  | false =>
      have hnone {p : WorkerPool} {w : Worker} {job : Job} (hp : e.pools[i]? = some p)
          (hw : p.workers[k]? = some w) (hj : w.activity.job? = some job) : False :=
        hjobless i job ⟨p, hp, .inr ⟨k, w, hw, hj⟩⟩
      rcases step_stopped hreachable hs hw' hlive with
        hold | ⟨_, p, w, panicked, hp, hw, _, ⟨hx, ha'⟩ | ⟨ha, ha'⟩⟩
      · exact h k w' hold
      · cases hx with
        | drained ha hd =>
            rw [ha']
            exact ⟨nofun, nofun⟩
        | collapsed ha hc => exact (hnone hp hw (by rw [ha]; rfl)).elim
        | misused ha hl => exact (hnone hp hw (by rw [ha]; rfl)).elim
      · have hcalm : panicked = false := by
          cases panicked with
          | false => rfl
          | true => exact absurd ha (h k w (worker?_eq_some.mpr ⟨p, hp, hw⟩)).1
        rw [ha', hcalm, hb.closes]
        exact ⟨nofun, nofun⟩

theorem Still.unharmed (h : Still b d e) (hb : b.Calm) : Unharmed e d.pool := by
  intro k w hw
  obtain ⟨p, hp, hw⟩ := worker?_eq_some.mp hw
  exact unharmed_of_live (live_of_calm h.reachable hb h.owning h.driver hp hw)

theorem closeDirect_logs : Logs Event.IsClosing (fun _ => False) e (e.closeDirect b d).2 := by
  unfold closeDirect
  split
  · next conn _ => exact .event rfl rfl rfl ⟨conn, rfl⟩
  · exact .same rfl rfl

theorem Still.winding (h : Still b d start) (hb : b.Calm)
    (hs : start.step b (.call .shutdown) = some e) : Winding b start d.pool e := by
  have hrest := atRest_of_call hs
  have hlatch : start.progress.latch? = none := by
    cases hr : start.progress with
    | idle | returned answer => rfl
    | _ =>
        rw [hr] at hrest
        cases hrest
  obtain ⟨p, hp, _⟩ := h.manages
  obtain ⟨p', hp', _⟩ := (step_views h.reachable hs).follows hp
  have hpanic : d.direct.bind b.closePanic = none := by
    cases d.direct with
    | none => rfl
    | some conn => exact hb.closes conn
  exact {
    reachable := h.reachable.step _ hs
    jobless := h.jobless.step h.reachable hs hlatch
    pool := ⟨p', hp'⟩
    unharmed := (h.unharmed hb).step hb h.reachable h.jobless hs
    logs := by
      simp only [Engine.step, hrest, if_true, Option.some.injEq, begin, h.driver] at hs
      subst hs
      have hlogs : Logs Event.IsClosing (fun _ => False) start
          (closeDirect b { start with driver := none } d).2 :=
        (Logs.same rfl rfl : Logs _ _ start { start with driver := none }).trans closeDirect_logs
      unfold beginShutdown
      simp only
      split
      · exact hlogs.congr rfl rfl
      · exact hlogs.congr rfl rfl
    closes := .joins (joining_of_shutdown h.driver hpanic hs) }

/-- The caller waits for workers none of whom has panicked. -/
theorem Winding.joins (h : Winding b start i e) (hr : e.progress = .joining i)
    (hl : label.ofCaller = true) (hs : e.step b label = some next) :
    Closes i next ∧ Logs Event.IsClosing (fun _ => False) e next := by
  obtain ⟨p, hp⟩ := h.pool
  rcases own_step_of_joining hr hp hl hs with ⟨_, rfl⟩ | ⟨_, _, answer, hverdict, rfl⟩
  · exact ⟨.returned rfl (.inr rfl), .same rfl rfl⟩
  · refine ⟨.returned rfl (.inl ?_), .same rfl rfl⟩
    cases hverdict with
    | ok => rfl
    | @panicked k hk _ =>
        obtain ⟨w, hw, ha⟩ := activity?_eq_some.mp hk
        exact absurd ha (h.unharmed k w (worker?_eq_some.mpr ⟨p, hp, hw⟩)).2

theorem Winding.step (h : Winding b start i e) (hb : b.Calm) (hl : label.attends = true)
    (hs : e.step b label = some next) : Winding b start i next := by
  obtain ⟨p, hp⟩ := h.pool
  obtain ⟨p', hp', _⟩ := (step_views h.reachable hs).follows hp
  have hlatch : e.progress.latch? = none := by
    cases h.closes with
    | joins hr | returned hr =>
        rw [hr]
        rfl
  have hstep : Closes i next ∧ Logs Event.IsClosing (fun _ => False) e next := by
    cases hcaller : label.ofCaller with
    | false =>
        refine ⟨?_, h.jobless.logs hs hcaller⟩
        have hprogress := (step_of_others hs hcaller).1
        cases h.closes with
        | joins hr => exact .joins (hprogress.trans hr)
        | returned hr ha => exact .returned (hprogress.trans hr) ha
    | true =>
        cases h.closes with
        | returned hr ha =>
            rw [ofCaller_of_returned hr hl hs] at hcaller
            cases hcaller
        | joins hr => exact h.joins hr hcaller hs
  exact {
    reachable := h.reachable.step label hs
    jobless := h.jobless.step h.reachable hs hlatch
    pool := ⟨p', hp'⟩
    unharmed := h.unharmed.step hb h.reachable h.jobless hs
    logs := h.logs.trans hstep.2
    closes := hstep.1 }

/-- The last call of a run, at any time from when it begins. -/
theorem InCall.winding (h : InCall b start .shutdown e) (hb : b.Calm) (hstill : Still b d start) :
    Winding b start d.pool e := by
  induction h with
  | begins hs => exact hstill.winding hb hs
  | step label _ hl hs ih => exact ih.step hb hl hs

/-- What the last call of a run comes to. -/
theorem Winding.outcome (h : Winding b start i e) :
    e.progress.answer?.getD .blocked = .ok ∨ e.progress.answer?.getD .blocked = .blocked := by
  cases h.closes with
  | joins hr =>
      rw [hr]
      exact .inr rfl
  | returned hr ha =>
      rw [hr]
      exact ha

end Shutdown

end LoadBench.Engine
