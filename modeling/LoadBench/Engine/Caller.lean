import LoadBench.Engine

/-!
The calls of the engine's caller: how one begins, its steps, and how one is given up.

A call that cannot go on has no step. Between two of its steps anything may happen to the queue,
the latches and the gate, and a call that waits notices only when it takes its next step.
-/

namespace LoadBench.Engine

def finish (e : Engine) (answer : Answer) : Engine := { e with progress := .returned answer }

/-- The greatest number of workers for which there can be handles is one less. -/
def tooManyWorkers : Nat := 1152921504606846976

/-- What a caller is told that asks for more. -/
def tooManyWorkersMessage : String := "capacity overflow"

/-- What has become of a dial. -/
inductive Dialed where
  | connected (conn : Nat)
  /-- It waits for a permit. -/
  | parked
  | failed (fault : Fault)
  | panicked (message : String)
deriving DecidableEq, Repr

def connect (e : Engine) (attempt : Nat) : Dialed × Engine :=
  let (conn, e) := e.openConnection
  (.connected conn, e.record (.dialed attempt (some conn)))

/-- The caller begins a dial. -/
def beginDial (b : Backend) (e : Engine) : Dialed × Engine :=
  let attempt := e.dialAttempts
  let e := { e with dialAttempts := attempt + 1 }
  match b.dial attempt with
  | .connect => e.connect attempt
  | .fail fault => (.failed fault, e.record (.dialed attempt none))
  | .panic message => (.panicked message, e.record (.dialed attempt none))
  | .stall =>
      match e.gate.request .caller with
      | (.taken, gate) => { e with gate }.connect attempt
      | (_, gate) => (.parked, { e with gate })

/-- The caller goes on with a dial that waits. -/
def resumeDial (e : Engine) : Dialed × Engine :=
  match e.gate.resume .caller with
  | (.taken, gate) => { e with gate }.connect (e.dialAttempts - 1)
  | (_, gate) => (.parked, { e with gate })

/-- A dial that was begun before or that begins now. `none` is a dial that still waits. -/
def dialStep (b : Backend) (e : Engine) (stalled : Bool) : Option (Dialed × Engine) :=
  if !stalled then some (e.beginDial b)
  else if e.gate.ready .caller then some e.resumeDial
  else none

/-- Counts a connection that was dialed through a pool. -/
def countDialed (e : Engine) (pool : Nat) : Engine :=
  { e with pools := e.pools.modify pool fun p => { p with dialed := p.dialed + 1 } }

/-- Lets go of a pool of which not all workers were started. Those that were end on their own. -/
def abandonPool (e : Engine) (pool : Nat) : Engine :=
  { e with pools := e.pools.modify pool fun p => p.close.dropReceiver }

/-- Closes a connection on the caller's side. The answer is what it says if it panics. -/
def closeHeld (b : Backend) (e : Engine) (conn : Nat) : Option String × Engine :=
  (b.closePanic conn, e.closeConnection conn)

/-- Closes the connection of the direct phases, if there is one. -/
def closeDirect (b : Backend) (e : Engine) (d : Driver) : Option String × Engine :=
  match d.direct with
  | some conn => e.closeHeld b conn
  | none => (none, e)

/-- Lets go of a driver: its queue closes, and so does its own connection. -/
def dropDriver (b : Backend) (e : Engine) (d : Driver) : Option String × Engine :=
  closeDirect b { e with pools := e.pools.modify d.pool WorkerPool.close } d

/-- The answer of a call that is done, unless closing something made it panic. -/
def unlessPanicked (message : Option String) (answer : Answer) : Answer :=
  match message with
  | some message => .panic message
  | none => answer

/-- Makes an empty pool with its counters and the counters of its driver, and begins to dial. -/
def openPool (e : Engine) (workers capacity : Nat) (split : Bool) : Engine :=
  let pool := e.pools.size
  let tally := e.tallies.size
  let tallies := e.tallies.push {}
  { e with
    pools := e.pools.push { queue := JobQueue.ofCapacity capacity, tally }
    tallies := if split then tallies.push {} else tallies
    progress := .starting pool workers split false }

/-- A call to start begins. Sizes that cannot work are refused before any dial. -/
def beginStart (e : Engine) (workers capacity : Nat) (split : Bool) : Engine :=
  if workers = 0 then e.finish (.fault .noWorkers)
  else if capacity = 0 then e.finish (.fault .noCapacity)
  else if JobQueue.maxCapacity < capacity then e.finish (.panic JobQueue.capacityExceeded)
  else if tooManyWorkers ≤ workers then e.finish (.panic tooManyWorkersMessage)
  else e.openPool workers capacity split

/-- A call to shut down begins. The driver is gone from now on. Its own connection closes before
its queue does, but a panic there closes the queue as well. -/
def beginShutdown (b : Backend) (e : Engine) (d : Driver) : Engine :=
  let (message, e) := { e with driver := none }.closeDirect b d
  let pending := (e.pools[d.pool]?.map (·.queue.length)).getD 0
  let closed := { e with pools := e.pools.modify d.pool WorkerPool.close }
  match message with
  | some message => closed.finish (.panic message)
  | none => { closed.tell (.closing pending) with progress := .joining d.pool }

/-- Closes the connections that are kept outside. -/
def closeOutside (b : Backend) (e : Engine) : Engine :=
  let (message, e) := e.outside.foldl
    (fun (message, e) conn =>
      let (panicked, e) := closeHeld b e conn
      (message.or panicked, e))
    (none, e)
  { e with outside := [] }.finish (unlessPanicked message .ok)

def begin (b : Backend) (e : Engine) : Request → Engine
  | .start workers capacity split => e.beginStart workers capacity split
  | .plan phases =>
      if e.driver.isSome then { e with progress := .planning phases [] } else e.finish .noDriver
  | .submit command latch times =>
      if e.driver.isNone then e.finish .noDriver
      else if e.isShared latch then
        { e with progress := .submitting { command, latch, left := times } }
      else e.finish .noLatch
  | .watch latch =>
      if latch < e.batches.size then { e with progress := .watching latch } else e.finish .noLatch
  | .acquire =>
      if e.driver.isSome then { e with progress := .acquiring false } else e.finish .noDriver
  | .shutdown =>
      match e.driver with
      | some d => e.beginShutdown b d
      | none => e.finish .noDriver
  | .drop =>
      match e.driver with
      | some d =>
          let (message, e) := { e with driver := none }.dropDriver b d
          e.finish (unlessPanicked message .ok)
      | none => e.finish .ok
  | .closeOutside => e.closeOutside b

/-- All workers are started: the driver takes the place of an earlier one. If letting go of that
one makes something panic, nobody is told. -/
def completeStart (b : Backend) (e : Engine) (pool : Nat) (p : WorkerPool) (split : Bool) :
    Engine :=
  let workers := p.workers.size
  let e := (e.setPool pool p.dropReceiver).tell (.started workers p.queue.capacity)
  let next : Driver := { pool, tally := if split then p.tally + 1 else p.tally }
  let e := match e.driver with
    | some d => (e.dropDriver b d).2
    | none => e
  { e with driver := some next }.finish (.started workers p.queue.capacity)

/-- A call to start goes on: it dials for the next worker, or it is done. -/
def startStep (b : Backend) (e : Engine) (pool workers : Nat) (split stalled : Bool) :
    Option Engine := do
  let p ← e.pools[pool]?
  if !stalled && p.workers.size == workers then
    return e.completeStart b pool p split
  let (dialed, e) ← e.dialStep b stalled
  match dialed with
  | .connected conn =>
      let e := e.countDialed pool
      return { e with
        pools := e.pools.modify pool (·.spawn conn)
        progress := .starting pool workers split false }
  | .parked => return { e with progress := .starting pool workers split true }
  | .failed fault =>
      return ((e.tell (.dialFailed p.workers.size fault)).abandonPool pool).finish (.fault fault)
  | .panicked message => return (e.abandonPool pool).finish (.panic message)

/-- A call to dial a connection for somebody outside goes on. -/
def acquireStep (b : Backend) (e : Engine) (d : Driver) (stalled : Bool) : Option Engine := do
  let (dialed, e) ← e.dialStep b stalled
  match dialed with
  | .connected conn =>
      return { e.countDialed d.pool with outside := e.outside ++ [conn] }.finish .ok
  | .parked => return { e with progress := .acquiring true }
  | .failed fault => return e.finish (.fault fault)
  | .panicked message => return e.finish (.panic message)

def putQueue (e : Engine) (pool : Nat) (queue : JobQueue Job Unit Nat) : Engine :=
  { e with pools := e.pools.modify pool fun p => { p with queue } }

/-- Several offers go on. -/
def submitStep (e : Engine) (d : Driver) (s : Submission) : Option Engine := do
  let p ← e.pools[d.pool]?
  match s.waiting with
  | some job =>
      if !p.queue.offerReady () then none
      else
        let (admission, queue) := p.queue.reoffer () job
        let e := e.putQueue d.pool queue
        return match admission with
          | .taken =>
              let s := { s with waiting := none, left := s.left - 1, accepted := s.accepted + 1 }
              { e with progress := .submitting s }
          | .parked => e
          | .refused =>
              (e.record (.lost job.latch job.index)).finish
                (.submitted s.accepted (.fault .queueClosed))
  | none =>
      match s.left with
      | 0 => return e.finish (.submitted s.accepted .ok)
      | left + 1 =>
          let (job, e) := e.newJob s.latch s.command
          let (admission, queue) := p.queue.offer () job
          let e := e.putQueue d.pool queue
          return match admission with
            | .taken =>
                { e with progress := .submitting { s with left, accepted := s.accepted + 1 } }
            | .parked => { e with progress := .submitting { s with waiting := some job } }
            | .refused =>
                (e.record (.lost job.latch job.index)).finish
                  (.submitted s.accepted (.fault .queueClosed))

/-- A phase begins: the first counter is read, and a pooled phase makes its latch, which nobody else
sees before the second is read. A direct phase needs the driver's connection before it counts as
executing. -/
def beginPhase (e : Engine) (d : Driver) (phase : Phase) (todo : List Phase)
    (reports : List PhaseCount) : Engine :=
  let executed := e.load d.tally .executed
  match phase.mode with
  | .pooled =>
      let (latch, e) := e.newBatch phase.iterations true
      { e.tell (.stageChanged .pending .generating) with
        progress := .entering phase executed (.pooled latch) todo reports }
  | .direct =>
      match d.direct with
      | some _ =>
          { e.tell (.stageChanged .pending .executing) with
            directRuns := e.directRuns + 1
            progress := .entering phase executed (.direct e.directRuns) todo reports }
      | none => { e with progress := .entering phase executed .undialed todo reports }

/-- The second counter is read, and the phase goes on. -/
def enterPhase (e : Engine) (d : Driver) (phase : Phase) (executed : Nat)
    (entry : PhaseEntry) (todo : List Phase) (reports : List PhaseCount) : Engine :=
  let before := ⟨executed, e.load d.tally .failed⟩
  { e with progress := .running { phase, before, point := entry.point } todo reports }

/-- The commands of a phase are done with: the first counter is read again. -/
def leavePhase (e : Engine) (d : Driver) (phase : Phase) (before : Tally) (todo : List Phase)
    (reports : List PhaseCount) : Engine :=
  { e with progress := .leaving phase before (some (e.load d.tally .executed)) todo reports }

/-- A phase is done: the second counter is read again, and both are compared. -/
def completePhase (e : Engine) (d : Driver) (phase : Phase) (before : Tally) (executed : Nat)
    (todo : List Phase) (reports : List PhaseCount) : Engine :=
  let report := phase.report before ⟨executed, e.load d.tally .failed⟩
  let e := if 0 < report.counts.failed then e.tell (.phaseFailures phase.name report.counts) else e
  { e with progress := .planning todo (reports ++ [report]) }

/-- What a direct command that has come to its end leaves behind. -/
def finishDirect (e : Engine) (run index : Nat) (fault : Option Fault) : Point × Engine :=
  let e := match fault with
    | some fault => e.tell (.commandFailed fault)
    | none => e
  (.finished run index fault.isSome, e.record (.finished (.direct run index) fault.isSome))

/-- How a phase goes on from a point: at another point, with a panic, with a fault, or it is
done. -/
inductive Turn where
  | to (point : Point)
  | done
  | fault (f : Fault)
  | panic (message : String)

/-- The driver's dial for its own connection has come to something. -/
def directDialed (e : Engine) (d : Driver) (dialed : Dialed) : Turn × Engine :=
  match dialed with
  | .connected conn =>
      (.to (.preparing e.directRuns 0),
        { (e.countDialed d.pool).tell (.stageChanged .pending .executing) with
          driver := some { d with direct := some conn }
          directRuns := e.directRuns + 1 })
  | .parked => (.to .dialing, e)
  | .failed fault => (.fault fault, e)
  | .panicked message => (.panic message, e)

/-- The outcome of an offer of a phase's job. -/
def offered (e : Engine) (latch index : Nat) (job : Job) : Admission → Turn × Engine
  | .taken => (.to (.generating latch (index + 1)), e)
  | .parked => (.to (.waiting latch index job), e)
  | .refused => (.fault .queueClosed, e.record (.lost job.latch job.index))

def pooledStep (e : Engine) (d : Driver) (phase : Phase) : Point → Option (Turn × Engine)
  | .generating latch index =>
      if index < phase.iterations then
        match phase.generate index with
        | .ok command =>
            let (job, e) := e.newJob latch command
            some (.to (.offering latch index job), e.record (.generated (.job latch index)))
        | .error message => some (.panic message, e)
      else
        some (.to (.awaiting latch), e.tell (.stageChanged .generating .awaitingCompletion))
  | .offering latch index job => do
      let p ← e.pools[d.pool]?
      let (admission, queue) := p.queue.offer () job
      some ((e.putQueue d.pool queue).offered latch index job admission)
  | .waiting latch index job => do
      let p ← e.pools[d.pool]?
      if p.queue.offerReady () then
        let (admission, queue) := p.queue.reoffer () job
        some ((e.putQueue d.pool queue).offered latch index job admission)
      else none
  | .awaiting latch =>
      if e.isReleased latch then
        some (.done, e.tell (.stageChanged .awaitingCompletion .done))
      else none
  | _ => none

def directStep (b : Backend) (e : Engine) (d : Driver) (phase : Phase) :
    Point → Option (Turn × Engine)
  | .connecting => do
      let (dialed, e) ← e.dialStep b false
      some (e.directDialed d dialed)
  | .dialing => do
      let (dialed, e) ← e.dialStep b true
      some (e.directDialed d dialed)
  | .preparing run index =>
      if index < phase.iterations then
        match phase.generate index with
        | .ok command =>
            some (.to (.issuing run index command), e.record (.generated (.direct run index)))
        | .error message => some (.panic message, e)
      else some (.done, e.tell (.stageChanged .executing .done))
  | .issuing run index command => do
      let conn ← d.direct
      let (conduct, e) := e.beginExecution b conn command (.direct run index)
      match conduct with
      | .panicAtOnce message => some (.panic message, e)
      | conduct => some (.to (.executing run index conduct), e)
  | .executing run index conduct =>
      match conduct with
      | .succeed =>
          let (point, e) := e.finishDirect run index none
          some (.to point, e)
      | .fail fault =>
          let (point, e) := e.finishDirect run index (some fault)
          some (.to point, e)
      | .panic message | .panicAtOnce message => some (.panic message, e)
      | .stall fault =>
          match e.gate.request .caller with
          | (.taken, gate) =>
              let (point, e) := { e with gate }.finishDirect run index fault
              some (.to point, e)
          | (_, gate) => some (.to (.stalled run index fault), { e with gate })
  | .stalled run index fault =>
      if e.gate.ready .caller then
        let (point, e) := { e with gate := (e.gate.resume .caller).2 }.finishDirect run index fault
        some (.to point, e)
      else none
  | .finished run index false =>
      some (.to (.preparing run (index + 1)),
        (e.countExecution d.tally (.direct run index)).record (.counted (.direct run index) false))
  | .finished run index true =>
      some (.to (.failing run index), e.countExecution d.tally (.direct run index))
  | .failing run index =>
      some (.to (.preparing run (index + 1)), e.countFailure d.tally (.direct run index))
  | _ => none

def phaseStep (b : Backend) (e : Engine) (d : Driver) (run : PhaseRun) (todo : List Phase)
    (reports : List PhaseCount) : Option Engine := do
  let (turn, e) ← match run.phase.mode with
    | .pooled => e.pooledStep d run.phase run.point
    | .direct => e.directStep b d run.phase run.point
  return match turn with
    | .to point => { e with progress := .running { run with point } todo reports }
    | .done => { e with progress := .leaving run.phase run.before none todo reports }
    | .fault fault => e.finish (.fault fault)
    | .panic message => e.finish (.panic message)

/-- The caller waits for the workers of a pool, all of them. -/
def joinStep (e : Engine) (pool : Nat) : Option Engine := do
  let p ← e.pools[pool]?
  if p.allEnded then
    return (e.tell .shutDown).finish <|
      match p.firstPanicked with
      | some k => .fault (.workerPanicked k)
      | none => .ok
  else none

/-- The next step of the caller, if it has one. -/
def callerStep (b : Backend) (e : Engine) : Option Engine :=
  match e.progress with
  | .idle | .returned _ => none
  | .starting pool workers split stalled => e.startStep b pool workers split stalled
  | .planning [] reports => some (e.finish (.reports reports))
  | .planning (phase :: todo) reports => e.driver.map (e.beginPhase · phase todo reports)
  | .entering phase executed entry todo reports =>
      e.driver.map (e.enterPhase · phase executed entry todo reports)
  | .running run todo reports => e.driver.bind (e.phaseStep b · run todo reports)
  | .leaving phase before none todo reports =>
      e.driver.map (e.leavePhase · phase before todo reports)
  | .leaving phase before (some executed) todo reports =>
      e.driver.map (e.completePhase · phase before executed todo reports)
  | .submitting s => e.driver.bind (e.submitStep · s)
  | .watching latch => if e.isReleased latch then some (e.finish .released) else none
  | .acquiring stalled => e.driver.bind (e.acquireStep b · stalled)
  | .joining pool => e.joinStep pool

/-- The caller no longer waits at the gate. -/
def leaveGate (e : Engine) : Engine := { e with gate := e.gate.withdraw .caller }

/-- A job that waits for a slot is not offered any longer. -/
def withdrawJob (e : Engine) (job : Job) : Engine :=
  let e := match e.driver with
    | some d =>
        { e with pools := e.pools.modify d.pool fun p =>
            { p with queue := p.queue.withdrawOffer () } }
    | none => e
  e.record (.lost job.latch job.index)

/-- Gives up a phase at a point where it may be left, that is, where it waits or is about to offer
a job. -/
def cancelPoint (e : Engine) : Point → Option Engine
  | .offering _ _ job => some (e.record (.lost job.latch job.index))
  | .waiting _ _ job => some (e.withdrawJob job)
  | .awaiting _ => some e
  | .dialing | .stalled _ _ _ => some e.leaveGate
  | _ => none

/-- Gives up the call that is going on, if it is where it may be left. What it has done so far
stays done. -/
def cancel (e : Engine) : Option Engine :=
  match e.progress with
  | .starting pool _ _ true => some ((e.leaveGate.abandonPool pool).finish .blocked)
  | .running run _ _ => (e.cancelPoint run.point).map (·.finish .blocked)
  | .submitting s =>
      let e := match s.waiting with
        | some job => e.withdrawJob job
        | none => e
      some (e.finish (.submitted s.accepted .blocked))
  | .watching _ | .joining _ => some (e.finish .blocked)
  | .acquiring true => some (e.leaveGate.finish .blocked)
  | _ => none

end LoadBench.Engine
