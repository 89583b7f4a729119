import LoadBench.Engine

/-!
How much is left to do. Every step of a worker or of the caller's call takes something away from
this number, whatever the backend does, so the steps of all of them together come to an end unless
somebody outside adds work.

A job costs nine while it is queued: the worker that takes it has ten then, where it had two.
-/

namespace LoadBench

/-- The steps that a worker may still take before it waits for another job or has ended. -/
def Activity.work : Activity → Nat
  | .ended _ => 0
  | .leaving _ => 1
  | .receiving => 2
  | .queued => 3
  | .idle => 4
  | .recorded _ => 5
  | .failing _ => 6
  | .finished _ _ => 7
  | .stalled _ _ => 8
  | .executing _ _ => 9
  | .holding _ => 10

/-- The work that a queued job stands for. -/
def Job.work : Nat := 9

/-- The work in a pool. -/
def WorkerPool.work (p : WorkerPool) : Nat :=
  Job.work * p.queue.buffer.length + p.workers.foldl (fun n w => n + w.activity.work) 0

/-- The work that making, offering and executing one command stands for. -/
def Phase.commandWork : Nat := Job.work + 3

def Phase.work (p : Phase) : Nat := Phase.commandWork * p.iterations + 7

/-- The work in a phase of so many commands from a point on. -/
def Point.work (iterations : Nat) : Point → Nat
  | .generating _ index => Phase.commandWork * (iterations - index) + 4
  | .offering _ index _ => Phase.commandWork * (iterations - index) + 3
  | .waiting _ index _ => Phase.commandWork * (iterations - index) + 2
  | .awaiting _ => 3
  | .connecting => Phase.commandWork * iterations + 5
  | .dialing => Phase.commandWork * iterations + 4
  | .preparing _ index => Phase.commandWork * (iterations - index) + 3
  | .issuing _ index _ => Phase.commandWork * (iterations - index) + 2
  | .executing _ index _ => Phase.commandWork * (iterations - index) + 1
  | .stalled _ index _ => Phase.commandWork * (iterations - index)
  | .finished _ index _ => Phase.commandWork * (iterations - index) - 1
  | .failing _ index => Phase.commandWork * (iterations - index) - 2

/-- The work in phases that have not begun. -/
def planWork : List Phase → Nat
  | [] => 1
  | phase :: todo => phase.work + planWork todo

/-- The work in a call, where a pool that is being started has so many workers so far. -/
def Progress.work (workersOf : Nat → Nat) : Progress → Nat
  | .idle | .returned _ => 0
  | .starting pool workers _ stalled =>
      7 * (workers - workersOf pool) + if stalled then 1 else 2
  | .planning todo _ => planWork todo
  | .entering phase _ entry todo _ => entry.point.work phase.iterations + 1 + planWork todo
  | .running run todo _ => run.point.work run.phase.iterations + planWork todo
  | .leaving _ _ executed todo _ => (if executed.isSome then 1 else 2) + planWork todo
  | .submitting s => Phase.commandWork * s.left + if s.waiting.isSome then 1 else 2
  | .watching _ | .joining _ => 1
  | .acquiring stalled => if stalled then 1 else 2

namespace Engine

/-- How many workers a pool has. -/
def workersOf (e : Engine) (pool : Nat) : Nat := (e.pools[pool]?.map (·.workers.size)).getD 0

/-- All the work there is. -/
def work (e : Engine) : Nat :=
  e.pools.foldl (fun n p => n + p.work) (e.progress.work e.workersOf)

end Engine

end LoadBench
