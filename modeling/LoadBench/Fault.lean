import LoadBench.Text.Quoted

/-!
What can go wrong in the engine. A fault of a dial or of a command wraps what caused it, so that
faults form a chain that ends in the backend's own words or in a fault of the engine itself.
-/

namespace LoadBench

/-- A fault, by its cause. -/
inductive Fault where
  /-- The backend's own words. -/
  | told (message : String)
  /-- A connection could not be opened. -/
  | dial (cause : Fault)
  /-- The backend refused or failed a command. -/
  | command (name : String) (cause : Fault)
  | queueClosed
  /-- The engine was given sizes it cannot run with. -/
  | invalidConfig (reason : String)
  /-- A worker ended by panicking. -/
  | workerPanicked (id : Nat)
deriving DecidableEq, Repr

namespace Fault

/-- A pool needs a worker. -/
def noWorkers : Fault := .invalidConfig "number of workers must be greater than 0"

/-- A queue needs room for a job. -/
def noCapacity : Fault := .invalidConfig "queue capacity must be greater than 0"

/-- The message shown to a reader. A wrapped cause is part of it. -/
def message : Fault → String
  | .told text => text
  | .dial cause => "Dial error: " ++ cause.message
  | .command name cause => "Command `" ++ name ++ "` failed: " ++ cause.message
  | .queueClosed => "Job queue is closed"
  | .invalidConfig reason => "Invalid config: " ++ reason
  | .workerPanicked id => "Worker " ++ toString id ++ " panicked"

/-- The structure of the fault, for a developer. -/
def render : Fault → String
  | .told text => Text.quoted text
  | .dial cause => "Dial \x7b source: " ++ cause.render ++ " \x7d"
  | .command name cause =>
      "Command \x7b command: " ++ Text.quoted name ++ ", source: " ++ cause.render ++ " \x7d"
  | .queueClosed => "QueueClosed"
  | .invalidConfig reason => "InvalidConfig \x7b reason: " ++ Text.quoted reason ++ " \x7d"
  | .workerPanicked id => "WorkerPanicked \x7b worker_id: " ++ toString id ++ " \x7d"

/-- The faults below this one in the chain, nearest first. -/
def causes : Fault → List Fault
  | .dial cause | .command _ cause => cause :: cause.causes
  | _ => []

end Fault

end LoadBench
