import LoadBench.Command
import LoadBench.Fault

/-!
What the engine knows of a backend: what becomes of each dial, of each command on a connection,
and of a connection that is closed. A backend may do anything, and it may let what it does depend
on everything it was asked before.
-/

namespace LoadBench

/-- What becomes of a dial. -/
inductive DialConduct where
  | connect
  | fail (fault : Fault)
  | panic (message : String)
  /-- The dial waits for a permit from outside and then succeeds. -/
  | stall
deriving DecidableEq, Repr

/-- What becomes of the execution of a command. -/
inductive Conduct where
  | succeed
  | fail (fault : Fault)
  /-- The execution panics after it has begun. -/
  | panic (message : String)
  /-- The call panics before there is anything to wait for. -/
  | panicAtOnce (message : String)
  /-- The execution waits for a permit from outside. Then it fails with the fault, or succeeds if
  there is none. -/
  | stall (fault : Option Fault)
deriving DecidableEq, Repr

/-- Where an execution comes from. -/
inductive Origin where
  /-- A job, told apart by its latch and by how many jobs were made for that latch before. -/
  | job (latch index : Nat)
  /-- A command of a direct phase, told apart by how many direct phases ran before and by its
  index. -/
  | direct (run index : Nat)
deriving DecidableEq, Repr

structure Execution where
  conn : Nat
  command : Command
  origin : Origin
  conduct : Conduct
deriving DecidableEq, Repr

structure Backend where
  /-- What becomes of a dial, by the number of dials before it. -/
  dial : Nat → DialConduct
  /-- What becomes of a command on a connection after the executions before it. -/
  execute : Array Execution → Nat → Command → Conduct
  /-- What a connection says that panics when it is closed. -/
  closePanic : Nat → Option String

end LoadBench
