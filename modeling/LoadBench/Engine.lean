import LoadBench.Engine.Notice
import LoadBench.WorkerPool

/-!
The engine and its caller, as one state.

The caller starts a driver over a pool of workers and makes it run phases, one call at a time. A
pooled phase makes a latch for its commands, offers them to the pool's queue as jobs, and waits for
the latch; a direct phase executes its commands itself, one after the other, on a connection that
the driver dials when it first needs one and then keeps. A call that waits may be given up at any
time.

A driver that is replaced or shut down leaves its workers behind: they end on their own once they
have drained their queue, so the state keeps every pool there ever was.

Backends that stall wait at one gate, whose permits come from outside.
-/

namespace LoadBench

/-- Who takes a step. -/
inductive Actor where
  | caller
  | worker (pool number : Nat)
deriving DecidableEq, Repr

/-- What drives the phases: a pool, the counters that are compared before and after a phase, and
the connection of the direct phases once there is one. The counters are the ones in which the
workers record, unless the driver was given counters of its own. -/
structure Driver where
  pool : Nat
  tally : Nat
  direct : Option Nat := none
deriving DecidableEq, Repr

/-- What the caller asks for. -/
inductive Request where
  /-- Start a driver. Its counters may be split off from those of the workers. -/
  | start (workers capacity : Nat) (split : Bool)
  | plan (phases : List Phase)
  /-- Offer the same command several times, on one latch. -/
  | submit (command : Command) (latch times : Nat)
  | watch (latch : Nat)
  /-- Dial a connection through the driver's pool and keep it outside. -/
  | acquire
  | shutdown
  | drop
  /-- Close the connections that are kept outside. -/
  | closeOutside

/-- What the caller is told. -/
inductive Answer where
  | ok
  /-- The call could only wait and was given up. -/
  | blocked
  | released
  | noDriver
  | noLatch
  | started (workers capacity : Nat)
  | reports (counts : List PhaseCount)
  /-- So many jobs were accepted, and the last offer had this outcome. -/
  | submitted (accepted : Nat) (last : Answer)
  | fault (f : Fault)
  | panic (message : String)
deriving DecidableEq, Repr

/-- How far a phase has come. The index counts the commands that are done with; a direct phase has
a run number instead of a latch. -/
inductive Point where
  | generating (latch index : Nat)
  | offering (latch index : Nat) (job : Job)
  /-- The job waits for a slot in the queue. -/
  | waiting (latch index : Nat) (job : Job)
  | awaiting (latch : Nat)
  /-- The driver has no connection yet. -/
  | connecting
  /-- The dial waits for a permit. -/
  | dialing
  | preparing (run index : Nat)
  | issuing (run index : Nat) (command : Command)
  | executing (run index : Nat) (conduct : Conduct)
  /-- The execution waits for a permit. -/
  | stalled (run index : Nat) (fault : Option Fault)
  | finished (run index : Nat) (failed : Bool)
  /-- The execution failed and is counted, but not yet its failure. -/
  | failing (run index : Nat)
deriving DecidableEq, Repr

/-- Where a phase begins. -/
inductive PhaseEntry where
  /-- A pooled phase begins with a latch of its own. -/
  | pooled (latch : Nat)
  | direct (run : Nat)
  /-- A direct phase begins, and the driver has no connection yet. -/
  | undialed
deriving DecidableEq, Repr

def PhaseEntry.point : PhaseEntry → Point
  | .pooled latch => .generating latch 0
  | .direct run => .preparing run 0
  | .undialed => .connecting

/-- A phase that is being run, with the counters as they were before it. -/
structure PhaseRun where
  phase : Phase
  before : Tally
  point : Point

/-- Jobs that are offered one after the other. -/
structure Submission where
  command : Command
  latch : Nat
  left : Nat
  accepted : Nat := 0
  /-- The job that waits for a slot in the queue. -/
  waiting : Option Job := none
deriving DecidableEq, Repr

/-- How far the caller's call has come. -/
inductive Progress where
  | idle
  /-- Workers are dialed for, one at a time. -/
  | starting (pool workers : Nat) (split stalled : Bool)
  | planning (todo : List Phase) (reports : List PhaseCount)
  /-- A phase begins. The first counter is read and the second is not. -/
  | entering (phase : Phase) (executed : Nat) (entry : PhaseEntry) (todo : List Phase)
      (reports : List PhaseCount)
  | running (run : PhaseRun) (todo : List Phase) (reports : List PhaseCount)
  /-- A phase is done but for its report. The counters are read again, and the first perhaps is. -/
  | leaving (phase : Phase) (before : Tally) (executed : Option Nat) (todo : List Phase)
      (reports : List PhaseCount)
  | submitting (s : Submission)
  | watching (latch : Nat)
  | acquiring (stalled : Bool)
  /-- The caller waits for every worker of a pool to end. -/
  | joining (pool : Nat)
  | returned (answer : Answer)

namespace Progress

/-- Whether no call is going on. -/
def atRest : Progress → Bool
  | .idle | .returned _ => true
  | _ => false

/-- The answer of the last call, once it has returned. -/
def answer? : Progress → Option Answer
  | .returned answer => some answer
  | _ => none

end Progress

/-- A record of what happened, for statements about the order of events. -/
inductive Event where
  | dialed (attempt : Nat) (conn : Option Nat)
  | generated (origin : Origin)
  | begun (origin : Origin) (conn : Nat)
  | finished (origin : Origin) (failed : Bool)
  /-- An execution is counted. If it failed its failure is not. -/
  | tallied (origin : Origin)
  /-- An execution is counted, and its failure if it failed. -/
  | counted (origin : Origin) (failed : Bool)
  | completed (latch index : Nat)
  /-- A job went away without being completed, and not from the queue. -/
  | lost (latch index : Nat)
  | closed (conn : Nat)
deriving DecidableEq, Repr

/-- The engine with its caller. The events only keep a record. -/
structure Engine where
  pools : Array WorkerPool := #[]
  tallies : Array Tally := #[]
  batches : Array Batch := #[]
  driver : Option Driver := none
  progress : Progress := .idle
  gate : FairSemaphore Actor := { free := 0 }
  /-- Connections that were dialed for somebody outside, oldest first. -/
  outside : List Nat := []
  dialAttempts : Nat := 0
  /-- How many connections there ever were. They are numbered in the order of their dials. -/
  connections : Nat := 0
  opened : List Nat := []
  executions : Array Execution := #[]
  directRuns : Nat := 0
  notices : Array Notice := #[]
  events : Array Event := #[]

namespace Engine

def record (e : Engine) (event : Event) : Engine := { e with events := e.events.push event }

def tell (e : Engine) (notice : Notice) : Engine := { e with notices := e.notices.push notice }

def setPool (e : Engine) (i : Nat) (p : WorkerPool) : Engine :=
  { e with pools := e.pools.set! i p }

/-- What two counters hold, which no step reads at once. -/
def tallyAt (e : Engine) (i : Nat) : Tally := e.tallies[i]?.getD {}

/-- Reads one counter. -/
def load (e : Engine) (tally : Nat) (c : Tally.Counter) : Nat := (e.tallyAt tally).get c

/-- Adds one to one counter. -/
def count (e : Engine) (tally : Nat) (c : Tally.Counter) : Engine :=
  { e with tallies := e.tallies.modify tally (·.add c) }

/-- Counts an execution. -/
def countExecution (e : Engine) (tally : Nat) (origin : Origin) : Engine :=
  (e.count tally .executed).record (.tallied origin)

/-- Counts the failure of an execution that is counted, which is all there was to count. -/
def countFailure (e : Engine) (tally : Nat) (origin : Origin) : Engine :=
  (e.count tally .failed).record (.counted origin true)

/-- Makes a latch for so many jobs, of a phase or of somebody outside. -/
def newBatch (e : Engine) (size : Nat) (owned : Bool := false) : Nat × Engine :=
  (e.batches.size, { e with batches := e.batches.push { latch := ⟨size⟩, size, owned } })

/-- Makes a job for a latch. -/
def newJob (e : Engine) (latch : Nat) (command : Command) : Job × Engine :=
  let index := (e.batches[latch]?.map (·.jobs)).getD 0
  ({ command, latch, index },
    { e with batches := e.batches.modify latch fun b => { b with jobs := b.jobs + 1 } })

/-- Whether somebody outside may make jobs for a latch. -/
def isShared (e : Engine) (latch : Nat) : Bool := e.batches[latch]?.any (!·.owned)

def isReleased (e : Engine) (latch : Nat) : Bool :=
  e.batches[latch]?.any (·.latch.released)

/-- Counts a latch down. `none` is a mistake of the caller. -/
def countDown? (e : Engine) (latch : Nat) : Option Engine := do
  let b ← e.batches[latch]?
  let latch' ← b.latch.countDown?
  return { e with batches := e.batches.set! latch { b with latch := latch' } }

def openConnection (e : Engine) : Nat × Engine :=
  (e.connections,
    { e with connections := e.connections + 1, opened := e.opened ++ [e.connections] })

def closeConnection (e : Engine) (conn : Nat) : Engine :=
  { e with opened := e.opened.erase conn }.record (.closed conn)

/-- Begins an execution: the backend decides what becomes of it. -/
def beginExecution (b : Backend) (e : Engine) (conn : Nat) (command : Command)
    (origin : Origin) : Conduct × Engine :=
  let conduct := b.execute e.executions conn command
  (conduct,
    { e with executions := e.executions.push { conn, command, origin, conduct } }.record
      (.begun origin conn))

/-- How many executions are begun and neither finished nor given up. -/
def inFlight (e : Engine) : Nat :=
  e.pools.foldl (fun n p => n + p.inFlight) <|
    match e.progress with
    | .running { point := .executing _ _ _, .. } _ _ => 1
    | .running { point := .stalled _ _ _, .. } _ _ => 1
    | _ => 0

def driverPool? (e : Engine) : Option WorkerPool := do e.pools[(← e.driver).pool]?

end Engine

end LoadBench
