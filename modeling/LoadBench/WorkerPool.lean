import LoadBench.Backend
import LoadBench.JobQueue
import LoadBench.Latch

/-!
A pool of workers behind one job queue. Every worker has a connection of its own for its whole
life. It takes a job, executes its command, records the outcome, and only then counts the job's
latch down, so that whoever waits for a batch sees all of it recorded. A failure takes two additions
to be recorded, first to the executions and then to the failures.

A failure or a panic of an execution is counted and otherwise swallowed. A worker ends when the
queue has ended, when the call of an execution panics before there is anything to wait for, and
when it counts down a latch that is released already.
-/

namespace LoadBench

/-- A command and the latch that waits for it. The index tells apart the jobs of one latch. -/
structure Job where
  command : Command
  latch : Nat
  index : Nat
deriving DecidableEq, Repr

/-- A latch with the number of jobs that it was made for and of those that were made for it. -/
structure Batch where
  latch : Latch
  size : Nat
  /-- Whether a phase made the latch for its own jobs. Nobody outside gets hold of such a latch. -/
  owned : Bool := false
  jobs : Nat := 0
deriving DecidableEq, Repr

/-- What a worker is doing. -/
inductive Activity where
  /-- It is about to ask for its turn at the queue. -/
  | idle
  /-- It waits for its turn. -/
  | queued
  /-- It is its turn, and it waits for a job. -/
  | receiving
  | holding (job : Job)
  | executing (job : Job) (conduct : Conduct)
  /-- The execution waits for a permit. -/
  | stalled (job : Job) (fault : Option Fault)
  | finished (job : Job) (failed : Bool)
  /-- The execution failed and is counted, but not yet its failure. -/
  | failing (job : Job)
  | recorded (job : Job)
  /-- It is about to let go of the queue and of its connection. -/
  | leaving (panicked : Bool)
  | ended (panicked : Bool)
deriving DecidableEq, Repr

namespace Activity

/-- The job that a worker has taken and not completed. -/
def job? : Activity → Option Job
  | .holding job | .executing job _ | .stalled job _ | .finished job _ | .failing job
  | .recorded job => some job
  | _ => none

/-- Whether an execution is begun and not finished. -/
def inFlight : Activity → Bool
  | .executing _ _ | .stalled _ _ => true
  | _ => false

def hasEnded : Activity → Bool
  | .ended _ => true
  | _ => false

end Activity

structure Worker where
  conn : Nat
  activity : Activity := .idle
deriving DecidableEq, Repr

/-- A pool of workers. The only producer at its queue is the engine's caller. -/
structure WorkerPool where
  queue : JobQueue Job Unit Nat
  workers : Array Worker := #[]
  /-- The counters in which its workers record. -/
  tally : Nat
  /-- How many connections were dialed for the pool or for whoever drives it. -/
  dialed : Nat := 0

namespace WorkerPool

/-- What the worker of a given number is doing. -/
def activity? (p : WorkerPool) (k : Nat) : Option Activity := p.workers[k]?.map (·.activity)

def setActivity (p : WorkerPool) (k : Nat) (a : Activity) : WorkerPool :=
  { p with workers := p.workers.modify k fun w => { w with activity := a } }

def allEnded (p : WorkerPool) : Bool := p.workers.all (·.activity.hasEnded)

/-- The first worker that ended by panicking. -/
def firstPanicked (p : WorkerPool) : Option Nat :=
  p.workers.findIdx? (·.activity == .ended true)

/-- How many executions are begun and not finished. -/
def inFlight (p : WorkerPool) : Nat := p.workers.countP (·.activity.inFlight)

/-- Adds a worker with its own handle to the queue. -/
def spawn (p : WorkerPool) (conn : Nat) : WorkerPool :=
  { p with queue := p.queue.cloneReceiver, workers := p.workers.push { conn } }

/-- Drops the handle to the queue from which the workers' handles were cloned. -/
def dropReceiver (p : WorkerPool) : WorkerPool := { p with queue := p.queue.dropReceiver }

/-- Closes the queue. Jobs in it are still executed. -/
def close (p : WorkerPool) : WorkerPool := { p with queue := p.queue.close }

end WorkerPool

end LoadBench
