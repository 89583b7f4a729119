import LoadBench.Proofs.Dialing
import LoadBench.Proofs.Shutdown

/-!
For whom a dial that succeeds gets its connection. There are three ways in which the caller dials:
for a worker of a pool that is being started, for the direct phases of a driver, and for somebody
outside. Each of them counts the dial in the pool through which it was made, and no other step moves
what a pool has counted, adds a worker to it, or gives a driver a connection.
-/

namespace LoadBench

/-- For whom a connection is dialed. -/
inductive Dialer where
  | worker
  | direct
  | outside
deriving DecidableEq, Repr

namespace Dialer

/-- The driver after a connection was dialed. -/
def equip (conn : Nat) (driver : Option Driver) : Dialer → Option Driver
  | .direct => driver.map fun d => { d with direct := some conn }
  | _ => driver

/-- The connections outside after one was dialed. -/
def keep (conn : Nat) (conns : List Nat) : Dialer → List Nat
  | .outside => conns ++ [conn]
  | _ => conns

end Dialer

namespace Engine

/-- The dials that a pool has counted and its workers. A pool that is not there has neither. -/
def dealt (pools : Array WorkerPool) (i : Nat) : Nat × Nat :=
  (pools[i]?.map fun p => (p.dialed, p.workers.size)).getD (0, 0)

/-- The pool through which the call dials, and for whom. -/
def dialing? (e : Engine) : Option (Nat × Dialer) :=
  match e.progress with
  | .starting pool _ _ _ => some (pool, .worker)
  | .running { point := .connecting, .. } _ _ | .running { point := .dialing, .. } _ _ =>
      e.driver.map fun d => (d.pool, .direct)
  | .acquiring _ => e.driver.map fun d => (d.pool, .outside)
  | _ => none

/-- A step by which nobody gets a connection. A driver that has just been started has none for its
direct phases. -/
structure Undealt (e next : Engine) : Prop where
  connections : next.connections = e.connections
  pools : ∀ i, dealt next.pools i = dealt e.pools i
  driver : ∀ d, next.driver = some d → e.driver = some d ∨
    d.direct = none ∧ ∃ split, e.progress = .starting d.pool (e.workersOf d.pool) split false
  outside : next.outside = e.outside ∨ next.outside = []

/-- A step by which somebody gets the next connection. -/
structure Dealt (e next : Engine) (i : Nat) (who : Dialer) : Prop where
  dialing : e.dialing? = some (i, who)
  connections : next.connections = e.connections + 1
  pools : ∀ j, dealt next.pools j = dealt e.pools j +
    if j = i then (1, if who = .worker then 1 else 0) else (0, 0)
  driver : next.driver = who.equip e.connections e.driver
  outside : next.outside = who.keep e.connections e.outside

/-- What a step does to the connections that somebody has. -/
inductive Deals (e next : Engine) : Prop
  | nothing (h : Undealt e next)
  | connection {i : Nat} {who : Dialer} (h : Dealt e next i who)

variable {b : Backend} {e mid next : Engine} {d : Driver} {label : Label} {i : Nat} {p : WorkerPool}

section Pools

variable {pools : Array WorkerPool}

theorem dealt_modify {f : WorkerPool → WorkerPool}
    (hf : ∀ p, (f p).dialed = p.dialed ∧ (f p).workers = p.workers) (pools : Array WorkerPool)
    (j i : Nat) : dealt (pools.modify j f) i = dealt pools i := by
  unfold dealt
  rw [Array.getElem?_modify]
  split
  · cases pools[i]? with
    | none => rfl
    | some p =>
        obtain ⟨hdialed, hworkers⟩ := hf p
        simp [hdialed, hworkers]
  · rfl

theorem dealt_set {q : WorkerPool} (hp : pools[i]? = some p)
    (hq : q.dialed = p.dialed ∧ q.workers.size = p.workers.size) (j : Nat) :
    dealt (pools.set! i q) j = dealt pools j := by
  unfold dealt
  by_cases hj : i = j
  · subst hj
    rw [getElem?_set_self hp, hp]
    simp [hq]
  · rw [getElem?_set_ne hj]

theorem dealt_openPool (e : Engine) (workers capacity : Nat) (split : Bool) (i : Nat) :
    dealt (e.openPool workers capacity split).pools i = dealt e.pools i := by
  unfold dealt openPool
  rw [Array.getElem?_push]
  split
  · next hi =>
    rw [hi, Array.getElem?_size]
    rfl
  · rfl

/-- A dial is counted in the pool through which it was made. -/
theorem dealt_countDialed (hp : e.pools[i]? = some p) (j : Nat) :
    dealt (e.countDialed i).pools j = dealt e.pools j + if j = i then (1, 0) else (0, 0) := by
  unfold dealt countDialed
  rw [Array.getElem?_modify]
  by_cases hj : i = j
  · subst hj
    rw [hp]
    simp
  · rw [if_neg hj, if_neg (Ne.symm hj)]
    rfl

end Pools

theorem Undealt.same (hc : next.connections = e.connections) (hp : next.pools = e.pools)
    (hd : next.driver = e.driver) (ho : next.outside = e.outside) : Undealt e next :=
  ⟨hc, fun i => by rw [hp], fun d hnext => .inl (hd ▸ hnext), .inl ho⟩

theorem Undealt.trans (h : Undealt e mid) (hc : next.connections = mid.connections)
    (hp : next.pools = mid.pools) (hd : next.driver = mid.driver)
    (ho : next.outside = mid.outside) : Undealt e next where
  connections := hc.trans h.connections
  pools i := by
    rw [hp]
    exact h.pools i
  driver d hnext := h.driver d (hd ▸ hnext)
  outside := by
    rw [ho]
    exact h.outside

/-- What the caller does to a queue gives nobody a connection. -/
theorem Undealt.modify {f : WorkerPool → WorkerPool}
    (hf : ∀ p, (f p).dialed = p.dialed ∧ (f p).workers = p.workers)
    (hc : next.connections = e.connections) (hp : next.pools = e.pools.modify i f)
    (hd : next.driver = e.driver) (ho : next.outside = e.outside) : Undealt e next :=
  ⟨hc, fun j => by rw [hp, dealt_modify hf], fun d hnext => .inl (hd ▸ hnext), .inl ho⟩

theorem undealt_finish (e : Engine) (answer : Answer) : Undealt e (e.finish answer) :=
  .same rfl rfl rfl rfl

section Driver

theorem closeDirect_frame (b : Backend) (e : Engine) (d : Driver) :
    (e.closeDirect b d).2.connections = e.connections ∧
      (e.closeDirect b d).2.driver = e.driver ∧ (e.closeDirect b d).2.outside = e.outside := by
  unfold closeDirect
  cases d.direct <;> exact ⟨rfl, rfl, rfl⟩

theorem dealt_close (pools : Array WorkerPool) (j i : Nat) :
    dealt (pools.modify j .close) i = dealt pools i :=
  dealt_modify (f := .close) (fun _ => ⟨rfl, rfl⟩) pools j i

theorem Undealt.beginShutdown (b : Backend) (e : Engine) (d : Driver) :
    Undealt e (e.beginShutdown b d) := by
  obtain ⟨hconnections, hdriver, houtside⟩ := closeDirect_frame b { e with driver := none } d
  have hpools : (closeDirect b { e with driver := none } d).2.pools = e.pools := pools_closeDirect
  unfold Engine.beginShutdown
  simp only
  split
  all_goals
    refine ⟨hconnections, fun i => ?_, fun d' hd' => ?_, .inl houtside⟩
    · exact (dealt_close _ _ _).trans (by rw [hpools])
    · cases hdriver.symm.trans hd'

theorem Undealt.dropDriver (b : Backend) (e : Engine) (d : Driver) (answer : Answer) :
    Undealt e (({ e with driver := none }.dropDriver b d).2.finish answer) := by
  obtain ⟨hconnections, hdriver, houtside⟩ := closeDirect_frame b
    { e with driver := none, pools := e.pools.modify d.pool .close } d
  refine ⟨hconnections, fun i => ?_, fun d' hd' => ?_, .inl houtside⟩
  · change dealt ({ e with driver := none }.dropDriver b d).2.pools i = _
    rw [pools_dropDriver]
    exact dealt_close _ _ _
  · cases hdriver.symm.trans hd'

/-- Somebody outside closes all connections that are kept there. -/
theorem Undealt.closeOutside (b : Backend) (e : Engine) : Undealt e (e.closeOutside b) := by
  obtain ⟨answer, after, hclose, _, hconnections, hpools, hdriver, _⟩ := closeOutside_eq b e
  rw [hclose]
  refine ⟨hconnections, fun i => ?_, fun d hd => ?_, .inr rfl⟩
  · change dealt after.pools i = _
    rw [hpools]
  · exact .inl (hdriver.symm.trans hd)

theorem undealt_begin (b : Backend) (e : Engine) (request : Request) :
    Undealt e (e.begin b request) := by
  cases request with
  | start workers capacity split =>
      simp only [begin, beginStart]
      split
      · exact undealt_finish _ _
      · split
        · exact undealt_finish _ _
        · split
          · exact undealt_finish _ _
          · split
            · exact undealt_finish _ _
            · exact ⟨rfl, dealt_openPool e workers capacity split, fun d => .inl, .inl rfl⟩
  | plan phases | submit command latch times | watch latch | acquire =>
      simp only [begin]
      repeat' split
      all_goals exact .same rfl rfl rfl rfl
  | shutdown =>
      simp only [begin]
      split
      · exact .beginShutdown b e _
      · exact undealt_finish _ _
  | drop =>
      simp only [begin]
      split
      · exact .dropDriver b e _ _
      · exact undealt_finish _ _
  | closeOutside => exact .closeOutside b e

end Driver

section Dialing

/-- A start that is done makes a driver that has no connection for its direct phases. -/
theorem Undealt.completeStart {split : Bool} (hp : e.pools[i]? = some p)
    (hr : e.progress = .starting i p.workers.size split false) :
    Undealt e (e.completeStart b i p split) := by
  have hworkers : e.workersOf i = p.workers.size := by
    unfold workersOf
    rw [hp]
    rfl
  have hset (j : Nat) : dealt (e.pools.set! i p.dropReceiver) j = dealt e.pools j :=
    dealt_set (q := p.dropReceiver) hp ⟨rfl, rfl⟩ j
  unfold Engine.completeStart
  simp only
  refine ⟨?_, fun j => ?_, fun d hd => .inr ?_, .inl ?_⟩
  · split
    · exact (closeDirect_frame b _ _).1
    · rfl
  · split
    · next d hd =>
      change dealt (Engine.dropDriver b _ d).2.pools j = _
      rw [pools_dropDriver]
      exact (dealt_close _ _ _).trans (hset j)
    · exact hset j
  · cases hd
    refine ⟨rfl, split, ?_⟩
    rw [hworkers]
    exact hr
  · split
    · exact (closeDirect_frame b _ _).2.2
    · rfl

/-- A dial opens the next connection, and nothing else is concerned, or nobody gets one. -/
theorem DialMove.deals {dialed : Dialed} (h : DialMove e dialed next) :
    (dialed = .connected e.connections ∧ next.connections = e.connections + 1 ∧
        next.pools = e.pools ∧ next.driver = e.driver ∧ next.outside = e.outside) ∨
      (∀ conn, dialed ≠ .connected conn) ∧ Undealt e next := by
  cases h with
  | connects attempts attempt gate => exact .inl ⟨rfl, rfl, rfl, rfl, rfl⟩
  | fails attempts attempt hd =>
      refine .inr ⟨?_, .same rfl rfl rfl rfl⟩
      rintro conn rfl
      rcases hd with ⟨fault, hd⟩ | ⟨message, hd⟩ <;> cases hd
  | parks attempts gate => exact .inr ⟨nofun, .same rfl rfl rfl rfl⟩

theorem deals_startStep {workers : Nat} {split stalled : Bool}
    (hr : e.progress = .starting i workers split stalled)
    (hs : e.startStep b i workers split stalled = some next) : Deals e next := by
  simp only [startStep, Option.bind_eq_bind, Option.bind_eq_some_iff] at hs
  obtain ⟨p, hp, hs⟩ := hs
  split at hs
  · next hdone =>
    simp only [Bool.and_eq_true, Bool.not_eq_true', beq_iff_eq] at hdone
    obtain ⟨rfl, rfl⟩ := hdone
    cases hs
    exact .nothing (.completeStart hp hr)
  · simp only [Option.bind_eq_some_iff] at hs
    obtain ⟨⟨dialed, e'⟩, hdial, hs⟩ := hs
    rcases (dialStep_cases hdial).deals with
      ⟨rfl, hconnections, hpools, hdriver, houtside⟩ | ⟨hne, hundealt⟩
    · cases hs
      suffices hdealt : Dealt e _ i .worker from .connection hdealt
      refine ⟨?_, hconnections, fun j => ?_, hdriver, houtside⟩
      · unfold dialing?
        rw [hr]
      · change
          dealt ((e'.pools.modify i fun p => { p with dialed := p.dialed + 1 }).modify i _) j = _
        rw [hpools, modify_modify_eq_set _ _ hp]
        unfold dealt
        by_cases hj : i = j
        · subst hj
          rw [getElem?_set_self hp, hp]
          simp [WorkerPool.spawn]
        · rw [getElem?_set_ne hj, if_neg (Ne.symm hj)]
          rfl
    · have habandons : Undealt e (e'.abandonPool i) := by
        refine ⟨hundealt.connections, fun j => ?_, hundealt.driver, hundealt.outside⟩
        have hframe := dealt_modify (f := fun p => p.close.dropReceiver) (fun p => ⟨rfl, rfl⟩)
        exact (hframe _ _ _).trans (hundealt.pools j)
      cases dialed with
      | connected conn => exact absurd rfl (hne conn)
      | parked =>
          cases hs
          exact .nothing (hundealt.trans rfl rfl rfl rfl)
      | failed fault | panicked message =>
          cases hs
          exact .nothing (habandons.trans rfl rfl rfl rfl)

theorem deals_acquireStep {stalled : Bool} (hr : e.progress = .acquiring stalled)
    (hd : e.driver = some d) (hp : e.pools[d.pool]? = some p)
    (hs : e.acquireStep b d stalled = some next) : Deals e next := by
  simp only [acquireStep, Option.bind_eq_bind, Option.bind_eq_some_iff] at hs
  obtain ⟨⟨dialed, e'⟩, hdial, hs⟩ := hs
  rcases (dialStep_cases hdial).deals with
    ⟨rfl, hconnections, hpools, hdriver, houtside⟩ | ⟨hne, hundealt⟩
  · cases hs
    suffices hdealt : Dealt e _ d.pool .outside from .connection hdealt
    refine ⟨?_, hconnections, fun j => ?_, hdriver, ?_⟩
    · unfold dialing?
      rw [hr, hd]
      rfl
    · have hp' : e'.pools[d.pool]? = some p := by rw [hpools]; exact hp
      rw [← hpools]
      exact dealt_countDialed hp' j
    · exact congrArg (· ++ [e.connections]) houtside
  · cases dialed with
    | connected conn => exact absurd rfl (hne conn)
    | parked | failed fault | panicked message =>
        cases hs
        exact .nothing (hundealt.trans rfl rfl rfl rfl)

end Dialing

section Phases

variable {run : PhaseRun} {phase : Phase} {point : Point} {todo : List Phase}
  {reports : List PhaseCount} {turn : Turn}

/-- How the call goes on with its phase gives nobody a connection. -/
theorem goOn_frame (e : Engine) (run : PhaseRun) (todo : List Phase) (reports : List PhaseCount)
    (turn : Turn) :
    (e.goOn run todo reports turn).connections = e.connections ∧
      (e.goOn run todo reports turn).pools = e.pools ∧
      (e.goOn run todo reports turn).driver = e.driver ∧
      (e.goOn run todo reports turn).outside = e.outside := by
  cases turn with
  | _ => exact ⟨rfl, rfl, rfl, rfl⟩

theorem Deals.goOn (h : Deals e mid) (run : PhaseRun) (todo : List Phase)
    (reports : List PhaseCount) (turn : Turn) : Deals e (mid.goOn run todo reports turn) := by
  obtain ⟨hconnections, hpools, hdriver, houtside⟩ := goOn_frame mid run todo reports turn
  cases h with
  | nothing h => exact .nothing (h.trans hconnections hpools hdriver houtside)
  | connection h =>
      refine .connection ⟨h.dialing, hconnections.trans h.connections, fun j => ?_,
        hdriver.trans h.driver, houtside.trans h.outside⟩
      rw [hpools]
      exact h.pools j

theorem undealt_putQueue (e : Engine) (pool : Nat) (queue : JobQueue Job Unit Nat) :
    Undealt e (e.putQueue pool queue) :=
  .modify (f := fun p => { p with queue }) (fun _ => ⟨rfl, rfl⟩) rfl rfl rfl rfl

theorem PooledMove.undealt (h : PooledMove e d phase point turn next) : Undealt e next := by
  cases h with
  | accepts hpoint hp hq | parks hp hq => exact undealt_putQueue _ _ _
  | drops hpoint hp hq => exact (undealt_putQueue _ _ _).trans rfl rfl rfl rfl
  | _ => exact .same rfl rfl rfl rfl

/-- The dial of a direct phase gets the driver its connection. -/
theorem DirectMove.deals (h : DirectMove b e d phase point turn next) (hd : e.driver = some d)
    (hp : e.pools[d.pool]? = some p)
    (hdials : point = .connecting ∨ point = .dialing → e.dialing? = some (d.pool, .direct)) :
    Deals e next := by
  cases h with
  | @dials _ _ dialed e' _ hpoint hdial ht =>
      rcases hdial.deals with
        ⟨rfl, hconnections, hpools, hdriver, houtside⟩ | ⟨hne, hundealt⟩
      · cases ht
        suffices hdealt : Dealt e _ d.pool .direct from .connection hdealt
        refine ⟨hdials hpoint, hconnections, fun j => ?_, ?_, houtside⟩
        · have hp' : e'.pools[d.pool]? = some p := by rw [hpools]; exact hp
          rw [← hpools]
          exact dealt_countDialed hp' j
        · rw [hd]
          rfl
      · cases dialed with
        | connected conn => exact absurd rfl (hne conn)
        | parked | failed fault | panicked message =>
            cases ht
            exact .nothing hundealt
  | finishes fault gate hp =>
      cases fault with
      | none => exact .nothing (.same rfl rfl rfl rfl)
      | some fault => exact .nothing (.same rfl rfl rfl rfl)
  | _ => exact .nothing (.same rfl rfl rfl rfl)

theorem deals_phase (hd : e.driver = some d) (hp : e.pools[d.pool]? = some p)
    (hr : e.progress = .running run todo reports) (hs : e.phaseTurn b d run = some (turn, mid)) :
    Deals e (mid.goOn run todo reports turn) := by
  apply Deals.goOn
  cases hm : run.phase.mode with
  | pooled =>
      simp only [phaseTurn, hm] at hs
      exact .nothing (pooledStep_cases hs).undealt
  | direct =>
      simp only [phaseTurn, hm] at hs
      apply (directStep_cases hs).deals hd hp
      intro hpoint
      unfold dialing?
      obtain ⟨phase, before, point⟩ := run
      rcases hpoint with rfl | rfl
      · rw [hr, hd]
        rfl
      · rw [hr, hd]
        rfl

theorem undealt_beginPhase (e : Engine) (d : Driver) (phase : Phase) (todo : List Phase)
    (reports : List PhaseCount) : Undealt e (e.beginPhase d phase todo reports) := by
  obtain ⟨_, _, _, _, hbegun⟩ := beginPhase_eq e d phase todo reports
  rw [hbegun]
  exact .same rfl rfl rfl rfl

end Phases

section Steps

theorem undealt_submitStep {s : Submission} (hs : e.submitStep d s = some next) :
    Undealt e next := by
  have hput (queue : JobQueue Job Unit Nat) {next : Engine}
      (hc : next.connections = e.connections)
      (hp : next.pools = e.pools.modify d.pool fun p => { p with queue })
      (hd : next.driver = e.driver) (ho : next.outside = e.outside) : Undealt e next :=
    .modify (f := fun p => { p with queue }) (fun _ => ⟨rfl, rfl⟩) hc hp hd ho
  simp only [submitStep, Option.bind_eq_bind, Option.bind_eq_some_iff] at hs
  obtain ⟨p, hp, hs⟩ := hs
  split at hs
  · split at hs
    · cases hs
    · cases hs
      split
      · exact hput _ rfl rfl rfl rfl
      · exact hput _ rfl rfl rfl rfl
      · exact hput _ rfl rfl rfl rfl
  · split at hs
    · cases hs
      exact undealt_finish _ _
    · cases hs
      split
      · exact hput _ rfl rfl rfl rfl
      · exact hput _ rfl rfl rfl rfl
      · exact hput _ rfl rfl rfl rfl

theorem deals_callerStep (hh : e.Housed) (hs : e.callerStep b = some next) : Deals e next := by
  have hstep : e.step b (.act .caller) = some next := hs
  cases callerStep_cases hs with
  | starts hr hs => exact deals_startStep hr hs
  | enters hd hr | leaves hd hr | completes hd hr =>
      obtain ⟨_, _, _, _, rfl⟩ := step_of_reads (by rw [hr]; rfl) rfl hstep
      exact .nothing (.same rfl rfl rfl rfl)
  | reports hr hn | watches hr _ hn =>
      rw [hn]
      exact .nothing (undealt_finish _ _)
  | begins hd hr hn =>
      rw [hn]
      exact .nothing (undealt_beginPhase _ _ _ _ _)
  | @runs d run todo reports hd hr hs =>
      obtain ⟨p, hp, _⟩ := hh.driver d hd
      rw [phaseStep_eq, Option.map_eq_some_iff] at hs
      obtain ⟨⟨turn, mid⟩, hturn, rfl⟩ := hs
      exact deals_phase hd hp hr hturn
  | submits hd hr hs => exact .nothing (undealt_submitStep hs)
  | @acquires d stalled hd hr hs =>
      obtain ⟨p, hp, _⟩ := hh.driver d hd
      exact deals_acquireStep hr hd hp hs
  | joins hr _ _ hn =>
      rw [hn]
      exact .nothing (.same rfl rfl rfl rfl)

theorem undealt_withdrawJob (e : Engine) (job : Job) : Undealt e (e.withdrawJob job) := by
  unfold withdrawJob
  simp only
  split
  · next d hd =>
    have hmodify : Undealt e { e with pools := e.pools.modify d.pool fun p =>
        { p with queue := p.queue.withdrawOffer () } } :=
      .modify (f := fun p => { p with queue := p.queue.withdrawOffer () }) (fun _ => ⟨rfl, rfl⟩)
        rfl rfl rfl rfl
    exact hmodify.trans rfl rfl rfl rfl
  · exact .same rfl rfl rfl rfl

theorem undealt_cancelPoint {point : Point} (hs : e.cancelPoint point = some next) :
    Undealt e next := by
  cases point with
  | waiting latch index job =>
      cases hs
      exact undealt_withdrawJob e job
  | offering latch index job | awaiting latch | dialing | stalled number index fault =>
      cases hs
      exact .same rfl rfl rfl rfl
  | _ => cases hs

theorem undealt_cancel (hs : e.cancel = some next) : Undealt e next := by
  unfold cancel at hs
  split at hs
  · cases hs
    refine ⟨rfl, fun i => ?_, fun d => .inl, .inl rfl⟩
    exact dealt_modify (f := fun p => p.close.dropReceiver) (fun _ => ⟨rfl, rfl⟩) _ _ _
  · obtain ⟨mid, hcancel, rfl⟩ := Option.map_eq_some_iff.mp hs
    exact (undealt_cancelPoint hcancel).trans rfl rfl rfl rfl
  · cases hs
    split
    · next job _ => exact (undealt_withdrawJob e job).trans rfl rfl rfl rfl
    · exact undealt_finish e _
  · cases hs
    exact undealt_finish e _
  · cases hs
    exact undealt_finish e _
  · cases hs
    exact .same rfl rfl rfl rfl
  · cases hs

/-- What is not a step of the caller's gives nobody a connection. -/
theorem undealt_of_others (hs : e.step b label = some next) (hl : label.ofCaller = false) :
    Undealt e next := by
  have hdriver := (step_of_others hs hl).2.2
  have hconnections := (dials_of_others hs hl).2
  cases label with
  | act actor =>
      cases actor with
      | caller => cases hl
      | worker i k =>
          obtain ⟨p, w, hp, hw, hm⟩ := workerStep_move hs
          have houtside := (worker_frame hs).2.1
          obtain ⟨q, a, hpools, hworkers, hdialed, _⟩ := hm.frame
          refine ⟨hconnections, fun j => ?_, fun d hd => .inl (hdriver ▸ hd), .inl houtside⟩
          change dealt next.bare.pools j = _
          rw [hpools]
          refine dealt_set (q := q.setActivity k a) hp ⟨hdialed, ?_⟩ j
          simp [WorkerPool.setActivity, hworkers]
  | call request | cancel => cases hl
  | release permits | newLatch jobs =>
      cases hs
      exact .same rfl rfl rfl rfl

/-- What one step does to the connections that somebody has. -/
theorem step_deals (h : Reachable b e) (hs : e.step b label = some next) : Deals e next := by
  cases hl : label.ofCaller with
  | false => exact .nothing (undealt_of_others hs hl)
  | true =>
      cases label with
      | act actor =>
          cases actor with
          | caller => exact deals_callerStep (housed_of_reachable h) hs
          | worker i k => cases hl
      | call request =>
          simp only [step, Option.ite_none_right_eq_some, Option.some.injEq] at hs
          obtain ⟨_, rfl⟩ := hs
          exact .nothing (undealt_begin b e request)
      | cancel => exact .nothing (undealt_cancel hs)
      | release permits | newLatch jobs => cases hl

end Steps

end Engine

end LoadBench
