import LoadBench.Engine.Caller
import LoadBench.Engine.Worker

/-!
The engine as a transition system. A label says who acts, and a label that cannot act now has no
next state. No order of the labels is preferred here, so whatever holds of every run of this system
holds under every schedule.
-/

namespace LoadBench.Engine

/-- What may happen next. -/
inductive Label where
  | act (actor : Actor)
  | call (request : Request)
  | cancel
  /-- So many permits come to the gate. -/
  | release (permits : Nat)
  /-- Somebody makes a latch for jobs of their own. -/
  | newLatch (jobs : Nat)

/-- The next step of an actor, if it has one. -/
def advance (b : Backend) (e : Engine) : Actor → Option Engine
  | .caller => e.callerStep b
  | .worker pool k => e.workerStep b pool k

/-- The next state after a label, if it can act. -/
def step (b : Backend) (e : Engine) : Label → Option Engine
  | .act actor => e.advance b actor
  | .call request => if e.progress.atRest then some (e.begin b request) else none
  | .cancel => e.cancel
  | .release permits => some { e with gate := e.gate.releaseMany permits }
  | .newLatch jobs => some (e.newBatch jobs).2

/-- The states that a run can reach from the empty engine. -/
inductive Reachable (b : Backend) : Engine → Prop where
  | start : Reachable b {}
  | step {e next : Engine} (label : Label) (h : Reachable b e) (hs : e.step b label = some next) :
      Reachable b next

end LoadBench.Engine
