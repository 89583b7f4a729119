import LoadBench.Engine.Step
import LoadBench.Proofs.QueueSteps

/-!
What one step of the engine can do, said once. A step of a worker, of the caller's call, or of
somebody outside is one of the moves below, each with the pool, the latch, the job and the records
that it touches. What is proved of every run is proved of the moves.

The moves do not speak of the gate, of the notices and of the numbers that only tell connections
and direct phases apart: a backend decides freely when a stalled execution goes on, so nothing
about jobs depends on them.
-/

namespace LoadBench

/-- How an execution comes out: whether it fails, if it begins at all. -/
def Conduct.outcome? : Conduct → Option Bool
  | .succeed => some false
  | .fail _ | .panic _ => some true
  | .panicAtOnce _ => none
  | .stall fault => some fault.isSome

theorem Conduct.outcome?_eq_some {c : Conduct} (h : ∀ message, c ≠ .panicAtOnce message) :
    ∃ failed, c.outcome? = some failed := by
  cases c with
  | panicAtOnce message => exact absurd rfl (h message)
  | _ => exact ⟨_, rfl⟩

/-- Where the execution of a job comes from. -/
def Job.origin (job : Job) : Origin := .job job.latch job.index

/-- The job that is being executed and whether it fails. -/
def Activity.outcome? : Activity → Option (Job × Bool)
  | .executing job conduct => some (job, conduct.outcome?.getD true)
  | .stalled job fault => some (job, fault.isSome)
  | _ => none

/-- Whether an event is on record of a job. -/
def Event.ofJob : Event → Bool
  | .generated (.job _ _) | .begun (.job _ _) _ | .finished (.job _ _) _ | .tallied (.job _ _)
  | .counted (.job _ _) _ | .completed _ _ | .lost _ _ => true
  | _ => false

/-- Whether a point belongs to a pooled phase. -/
def Point.pooled : Point → Bool
  | .generating _ _ | .offering _ _ _ | .waiting _ _ _ | .awaiting _ => true
  | _ => false

namespace Progress

/-- The job that the caller has made and that is not in the queue, and whether it waits for a
slot there. -/
def hand : Progress → Option (Job × Bool)
  | .running { point := .offering _ _ job, .. } _ _ => some (job, false)
  | .running { point := .waiting _ _ job, .. } _ _ => some (job, true)
  | .submitting s => s.waiting.map (·, true)
  | _ => none

/-- How a call goes on once its job is in the queue. -/
def accepted : Progress → Progress
  | .running { phase, before, point := .offering latch index _ } todo reports
  | .running { phase, before, point := .waiting latch index _ } todo reports =>
      .running { phase, before, point := .generating latch (index + 1) } todo reports
  | .submitting s =>
      .submitting { s with waiting := none, left := s.left - 1, accepted := s.accepted + 1 }
  | progress => progress

/-- How a call goes on once its job waits for a slot. -/
def parked : Progress → Progress
  | .running { phase, before, point := .offering latch index job } todo reports =>
      .running { phase, before, point := .waiting latch index job } todo reports
  | progress => progress

/-- Whether a call makes no jobs. -/
def plain : Progress → Bool
  | .entering _ _ entry _ _ => !entry.point.pooled
  | .running run _ _ => !run.point.pooled
  | .submitting _ => false
  | _ => true

/-- The pool that is being started. -/
def opening : Progress → Option Nat
  | .starting pool _ _ _ => some pool
  | _ => none

/-- Whether the next step of a call reads a counter for a phase that has begun. -/
def reads : Progress → Bool
  | .entering _ _ _ _ _ | .leaving _ _ _ _ _ => true
  | _ => false

/-- How a call goes on that reads a counter, given what it would read. -/
def afterRead (load : Tally.Counter → Nat) : Progress → Progress
  | .entering phase executed entry todo reports =>
      .running { phase, before := ⟨executed, load .failed⟩, point := entry.point } todo reports
  | .leaving phase before none todo reports =>
      .leaving phase before (some (load .executed)) todo reports
  | .leaving phase before (some executed) todo reports =>
      .planning todo (reports ++ [phase.report before ⟨executed, load .failed⟩])
  | progress => progress

variable {progress : Progress} {s : Submission}

/-- A phase begins with no job in its hand. -/
theorem hand_of_entry {phase : Phase} {before : Tally} {entry : PhaseEntry} {todo : List Phase}
    {reports : List PhaseCount} :
    (Progress.running { phase, before, point := entry.point } todo reports).hand = none := by
  cases entry <;> rfl

/-- A call to submit whose jobs are all in the queue has none in its hand. -/
theorem hand_of_submitting (hr : progress = .submitting s) (hw : s.waiting = none) :
    progress.hand = none := by
  rw [hr]
  simp [hand, hw]

theorem hand_of_waiting {job : Job} (hr : progress = .submitting s) (hw : s.waiting = some job) :
    progress.hand = some (job, true) := by
  rw [hr]
  simp [hand, hw]

end Progress

namespace Engine

/-- The engine without what the moves do not speak of. -/
def bare (e : Engine) : Engine :=
  { e with
    gate := { free := 0 }
    outside := []
    dialAttempts := 0
    connections := 0
    opened := []
    directRuns := 0
    notices := #[] }

/-- Records several events. -/
def note (e : Engine) (events : List Event) : Engine :=
  { e with events := e.events ++ events.toArray }

/-- The pools after the queue of a driver that is let go has been closed. -/
def closeDriven (pools : Array WorkerPool) : Option Driver → Array WorkerPool
  | some d => pools.modify d.pool .close
  | none => pools

/-- The pools after the caller no longer waits for a slot in the queue of a driver. -/
def withdrawDriven (pools : Array WorkerPool) : Option Driver → Array WorkerPool
  | some d => pools.modify d.pool fun p => { p with queue := p.queue.withdrawOffer () }
  | none => pools

/-- What a worker can do. -/
inductive WorkerMove (b : Backend) (e : Engine) (i k : Nat) (p : WorkerPool) (w : Worker) :
    Engine → Prop
  | asks (ha : w.activity = .idle) :
      WorkerMove b e i k p w (e.put i { p with queue := p.queue.ask k } k
        (if (p.queue.ask k).receiving = some k then .receiving else .queued))
  | takesTurn (ha : w.activity = .queued) (hr : p.queue.turn.ready k = true) :
      WorkerMove b e i k p w (e.put i { p with queue := p.queue.takeTurn k } k .receiving)
  | takes {job : Job} {queue : JobQueue Job Unit Nat} (ha : w.activity = .receiving)
      (hq : p.queue.receive = (.item job, queue)) :
      WorkerMove b e i k p w (e.put i { p with queue } k (.holding job))
  | ends {queue : JobQueue Job Unit Nat} (ha : w.activity = .receiving)
      (hq : p.queue.receive = (.ended, queue)) :
      WorkerMove b e i k p w (e.put i { p with queue } k (.leaving false))
  | begins {job : Job} {failed : Bool} (ha : w.activity = .holding job)
      (hc : (b.execute e.executions w.conn job.command).outcome? = some failed) :
      WorkerMove b e i k p w ((e.beginExecution b w.conn job.command job.origin).2.put i p k
        (.executing job (b.execute e.executions w.conn job.command)))
  | collapses {job : Job} (ha : w.activity = .holding job)
      (hc : (b.execute e.executions w.conn job.command).outcome? = none) :
      WorkerMove b e i k p w (((e.beginExecution b w.conn job.command job.origin).2.record
        (.lost job.latch job.index)).put i p k (.leaving true))
  | stalls {job : Job} {fault : Option Fault} (ha : w.activity = .executing job (.stall fault)) :
      WorkerMove b e i k p w (e.put i p k (.stalled job fault))
  | finishes {job : Job} {failed : Bool} (ha : w.activity.outcome? = some (job, failed)) :
      WorkerMove b e i k p w (e.finishJob i p k job failed)
  | counts {job : Job} (ha : w.activity = .finished job false) :
      WorkerMove b e i k p w (((e.countExecution p.tally job.origin).record
        (.counted job.origin false)).put i p k (.recorded job))
  | tallies {job : Job} (ha : w.activity = .finished job true) :
      WorkerMove b e i k p w ((e.countExecution p.tally job.origin).put i p k (.failing job))
  | countsFailure {job : Job} (ha : w.activity = .failing job) :
      WorkerMove b e i k p w ((e.countFailure p.tally job.origin).put i p k (.recorded job))
  | completes {job : Job} {batch : Batch} {left : Latch} (ha : w.activity = .recorded job)
      (hb : e.batches[job.latch]? = some batch) (hl : batch.latch.countDown? = some left) :
      WorkerMove b e i k p w
        (({ e with batches := e.batches.set! job.latch { batch with latch := left } }.record
          (.completed job.latch job.index)).put i p k .idle)
  | misuses {job : Job} (ha : w.activity = .recorded job)
      (hl : ∀ batch, e.batches[job.latch]? = some batch → batch.latch.countDown? = none) :
      WorkerMove b e i k p w ((e.record (.lost job.latch job.index)).put i p k (.leaving true))
  | leaves {panicked panicked' : Bool} (ha : w.activity = .leaving panicked) :
      WorkerMove b e i k p w ((e.put i p.dropReceiver k (.ended panicked')).record (.closed w.conn))

/-- A step of a call that makes no jobs. -/
structure Quiet (e next : Engine) : Prop where
  pools : next.pools = e.pools ∨ ∃ pool, next.pools = (e.countDialed pool).pools
  tallies : next.tallies = e.tallies
  batches : next.batches = e.batches
  driver : next.driver = e.driver ∨
    ∃ d direct, e.driver = some d ∧ next.driver = some { d with direct }
  executions : next.executions = e.executions ∨
    ∃ x run index, next.executions = e.executions.push x ∧ x.origin = .direct run index
  events : ∃ events, next.events = (e.note events).events ∧ ∀ event ∈ events, event.ofJob = false
  hand : e.progress.hand = none
  before : e.progress.plain = true ∨ ∃ answer, next.progress = .returned answer
  after : next.progress.plain = true
  opening : next.progress.opening = e.progress.opening

/-- What the caller can do. -/
inductive CallerMove (e : Engine) : Engine → Prop
  | quiet {next : Engine} (h : Quiet e next) : CallerMove e next
  /-- A call to submit begins. -/
  | undertakes {latch : Nat} (hr : e.progress.atRest = true) (hl : e.isShared latch = true)
      (command : Command) (left : Nat) :
      CallerMove e { e with progress := .submitting { command, latch, left } }
  | opens {workers capacity : Nat} (hr : e.progress.atRest = true) (hw : 0 < workers)
      (hc : 0 < capacity) (split : Bool) : CallerMove e (e.openPool workers capacity split)
  | spawns {pool workers : Nat} {split stalled : Bool} {p : WorkerPool} {events : List Event}
      (hr : e.progress = .starting pool workers split stalled) (hp : e.pools[pool]? = some p)
      (he : ∀ event ∈ events, event.ofJob = false) (conn : Nat) :
      CallerMove e { (e.note events).setPool pool
        ({ p with dialed := p.dialed + 1 }.spawn conn) with
        progress := .starting pool workers split false }
  | abandons {pool workers : Nat} {split stalled : Bool} {events : List Event}
      (hr : e.progress = .starting pool workers split stalled)
      (he : ∀ event ∈ events, event.ofJob = false) (answer : Answer) :
      CallerMove e (((e.note events).abandonPool pool).finish answer)
  | starts {pool workers : Nat} {split : Bool} {p : WorkerPool} {events : List Event}
      (hr : e.progress = .starting pool workers split false) (hp : e.pools[pool]? = some p)
      (hw : p.workers.size = workers) (he : ∀ event ∈ events, event.ofJob = false)
      (answer : Answer) :
      CallerMove e ({ e.note events with
        pools := closeDriven (e.setPool pool p.dropReceiver).pools e.driver
        driver := some { pool, tally := if split then p.tally + 1 else p.tally } }.finish answer)
  /-- A driver is let go. -/
  | closes {d : Driver} {progress : Progress} {events : List Event} (hd : e.driver = some d)
      (hr : e.progress.atRest = true) (he : ∀ event ∈ events, event.ofJob = false)
      (hp : (∃ answer, progress = .returned answer) ∨ progress = .joining d.pool) :
      CallerMove e { e.note events with
        pools := closeDriven e.pools e.driver, driver := none, progress }
  | countsDirect {d : Driver} {phase : Phase} {before : Tally} {number index : Nat}
      {todo : List Phase} {reports : List PhaseCount} (hd : e.driver = some d)
      (hr : e.progress =
        .running { phase, before, point := .finished number index false } todo reports) :
      CallerMove e { (e.countExecution d.tally (.direct number index)).record
          (.counted (.direct number index) false) with
        progress :=
          .running { phase, before, point := .preparing number (index + 1) } todo reports }
  | talliesDirect {d : Driver} {phase : Phase} {before : Tally} {number index : Nat}
      {todo : List Phase} {reports : List PhaseCount} (hd : e.driver = some d)
      (hr : e.progress =
        .running { phase, before, point := .finished number index true } todo reports) :
      CallerMove e { e.countExecution d.tally (.direct number index) with
        progress := .running { phase, before, point := .failing number index } todo reports }
  | countsDirectFailure {d : Driver} {phase : Phase} {before : Tally} {number index : Nat}
      {todo : List Phase} {reports : List PhaseCount} (hd : e.driver = some d)
      (hr : e.progress =
        .running { phase, before, point := .failing number index } todo reports) :
      CallerMove e { e.countFailure d.tally (.direct number index) with
        progress :=
          .running { phase, before, point := .preparing number (index + 1) } todo reports }
  | beginsPhase {d : Driver} {phase : Phase} {todo : List Phase} {reports : List PhaseCount}
      (hd : e.driver = some d) (hr : e.progress = .planning (phase :: todo) reports)
      (hm : phase.mode = .pooled) :
      CallerMove e { (e.newBatch phase.iterations true).2 with
        progress := .entering phase (e.load d.tally .executed) (.pooled e.batches.size)
          todo reports }
  /-- The second counter is read. -/
  | entersPhase {d : Driver} {phase : Phase} {executed : Nat} {entry : PhaseEntry}
      {todo : List Phase} {reports : List PhaseCount} (hd : e.driver = some d)
      (hr : e.progress = .entering phase executed entry todo reports) :
      CallerMove e { e with
        progress := .running
          { phase, before := ⟨executed, e.load d.tally .failed⟩, point := entry.point }
          todo reports }
  | generates {phase : Phase} {before : Tally} {latch index : Nat} {todo : List Phase}
      {reports : List PhaseCount} {command : Command}
      (hr : e.progress = .running { phase, before, point := .generating latch index } todo reports)
      (hm : phase.mode = .pooled) (hi : index < phase.iterations)
      (hg : phase.generate index = .ok command) :
      CallerMove e { (e.newJob latch command).2.record (.generated (.job latch index)) with
        progress := .running
          { phase, before, point := .offering latch index (e.newJob latch command).1 }
          todo reports }
  | awaits {phase : Phase} {before : Tally} {latch index : Nat} {todo : List Phase}
      {reports : List PhaseCount}
      (hr : e.progress = .running { phase, before, point := .generating latch index } todo reports)
      (hm : phase.mode = .pooled) (hi : phase.iterations ≤ index) :
      CallerMove e
        { e with progress := .running { phase, before, point := .awaiting latch } todo reports }
  /-- A pooled phase has its commands done. -/
  | returns {phase : Phase} {before : Tally} {latch : Nat} {todo : List Phase}
      {reports : List PhaseCount}
      (hr : e.progress = .running { phase, before, point := .awaiting latch } todo reports)
      (hm : phase.mode = .pooled) (hl : e.isReleased latch = true) :
      CallerMove e { e with progress := .leaving phase before none todo reports }
  | accepts {d : Driver} {p : WorkerPool} {job : Job} {waits : Bool}
      {queue : JobQueue Job Unit Nat} (hd : e.driver = some d) (hp : e.pools[d.pool]? = some p)
      (hh : e.progress.hand = some (job, waits)) (hq : p.queue.enter waits job = (.taken, queue)) :
      CallerMove e { e.setPool d.pool { p with queue } with progress := e.progress.accepted }
  | parks {d : Driver} {p : WorkerPool} {job : Job} {queue : JobQueue Job Unit Nat}
      (hd : e.driver = some d) (hp : e.pools[d.pool]? = some p)
      (hh : e.progress.hand = some (job, false)) (hq : p.queue.offer () job = (.parked, queue)) :
      CallerMove e { e.setPool d.pool { p with queue } with progress := e.progress.parked }
  /-- The queue turns a job away. -/
  | drops {d : Driver} {p : WorkerPool} {job : Job} {waits : Bool} {queue : JobQueue Job Unit Nat}
      (hd : e.driver = some d) (hp : e.pools[d.pool]? = some p)
      (hh : e.progress.hand = some (job, waits)) (hq : p.queue.enter waits job = (.refused, queue))
      (answer : Answer) :
      CallerMove e (((e.setPool d.pool { p with queue }).record (.lost job.latch job.index)).finish
        answer)
  /-- A call is given up while its job is about to be offered. -/
  | forgets {job : Job} (hh : e.progress.hand = some (job, false)) (answer : Answer) :
      CallerMove e ((e.record (.lost job.latch job.index)).finish answer)
  /-- A call is given up while its job waits for a slot. -/
  | withdraws {job : Job} (hh : e.progress.hand = some (job, true)) (answer : Answer) :
      CallerMove e (({ e with pools := withdrawDriven e.pools e.driver }.record
        (.lost job.latch job.index)).finish answer)
  /-- A job is made for a latch from outside, and it is in the queue at once. -/
  | submits {d : Driver} {p : WorkerPool} {s : Submission} {left : Nat}
      {queue : JobQueue Job Unit Nat} (hd : e.driver = some d) (hp : e.pools[d.pool]? = some p)
      (hr : e.progress = .submitting s) (hw : s.waiting = none) (hl : s.left = left + 1)
      (hq : p.queue.offer () (e.newJob s.latch s.command).1 = (.taken, queue)) :
      CallerMove e { (e.newJob s.latch s.command).2.setPool d.pool { p with queue } with
        progress := .submitting { s with left, accepted := s.accepted + 1 } }
  | submitsParked {d : Driver} {p : WorkerPool} {s : Submission} {left : Nat}
      {queue : JobQueue Job Unit Nat} (hd : e.driver = some d) (hp : e.pools[d.pool]? = some p)
      (hr : e.progress = .submitting s) (hw : s.waiting = none) (hl : s.left = left + 1)
      (hq : p.queue.offer () (e.newJob s.latch s.command).1 = (.parked, queue)) :
      CallerMove e { (e.newJob s.latch s.command).2.setPool d.pool { p with queue } with
        progress := .submitting { s with waiting := some (e.newJob s.latch s.command).1 } }
  | submitsDropped {d : Driver} {p : WorkerPool} {s : Submission} {left : Nat}
      {queue : JobQueue Job Unit Nat} (hd : e.driver = some d) (hp : e.pools[d.pool]? = some p)
      (hr : e.progress = .submitting s) (hw : s.waiting = none) (hl : s.left = left + 1)
      (hq : p.queue.offer () (e.newJob s.latch s.command).1 = (.refused, queue))
      (answer : Answer) :
      CallerMove e ((((e.newJob s.latch s.command).2.setPool d.pool { p with queue }).record
        (.lost s.latch (e.newJob s.latch s.command).1.index)).finish answer)

/-- Whether a step is one of the caller's. -/
def Label.ofCaller : Label → Bool
  | .act .caller | .call _ | .cancel => true
  | _ => false

/-- What one step of anybody can do. -/
inductive Move (b : Backend) (e : Engine) : Label → Engine → Prop
  | stay (permits : Nat) : Move b e (.release permits) e
  | latch (size : Nat) : Move b e (.newLatch size) (e.newBatch size).2
  | worker {i k : Nat} {p : WorkerPool} {w : Worker} {next : Engine} (hp : e.pools[i]? = some p)
      (hw : p.workers[k]? = some w) (h : WorkerMove b e i k p w next) :
      Move b e (.act (.worker i k)) next
  | caller {label : Label} {next : Engine} (hl : label.ofCaller = true) (h : CallerMove e next) :
      Move b e label next

theorem Move.of_caller {b : Backend} {e next : Engine} {label : Label} (h : Move b e label next)
    (hl : label.ofCaller = true) : CallerMove e next := by
  cases h with
  | caller _ h => exact h
  | _ => cases hl

end Engine

end LoadBench
