import LoadBench.Engine

/-!
One step of a worker. Each step is one operation on something that workers and caller share, so
that every interleaving of the steps of all of them is a possible run.
-/

namespace LoadBench.Engine

/-- The worker `k` of pool `i` does something else now, and its pool is otherwise `p`. -/
def put (e : Engine) (i : Nat) (p : WorkerPool) (k : Nat) (a : Activity) : Engine :=
  e.setPool i (p.setActivity k a)

/-- A worker begins to execute its job. A call that panics at once takes the worker with it, and
the job is neither counted nor completed. -/
def beginJob (b : Backend) (e : Engine) (i : Nat) (p : WorkerPool) (k : Nat) (w : Worker)
    (job : Job) : Engine :=
  let (conduct, e) := e.beginExecution b w.conn job.command (.job job.latch job.index)
  match conduct with
  | .panicAtOnce _ => (e.record (.lost job.latch job.index)).put i p k (.leaving true)
  | conduct => e.put i p k (.executing job conduct)

/-- A job's execution has come to its end. -/
def finishJob (e : Engine) (i : Nat) (p : WorkerPool) (k : Nat) (job : Job) (failed : Bool) :
    Engine :=
  (e.record (.finished (.job job.latch job.index) failed)).put i p k (.finished job failed)

/-- What a job's execution does next. A panic counts as a failure. -/
def proceedJob (e : Engine) (i : Nat) (p : WorkerPool) (k : Nat) (job : Job) :
    Conduct → Engine
  | .succeed => e.finishJob i p k job false
  | .fail _ | .panic _ | .panicAtOnce _ => e.finishJob i p k job true
  | .stall fault =>
      match e.gate.request (.worker i k) with
      | (.taken, gate) => { e with gate }.finishJob i p k job fault.isSome
      | (_, gate) => { e with gate }.put i p k (.stalled job fault)

/-- A worker counts its job's latch down. If the latch is released already the worker panics. -/
def completeJob (e : Engine) (i : Nat) (p : WorkerPool) (k : Nat) (job : Job) : Engine :=
  match e.countDown? job.latch with
  | some e => (e.record (.completed job.latch job.index)).put i p k .idle
  | none => (e.record (.lost job.latch job.index)).put i p k (.leaving true)

/-- A worker lets go of the queue and closes its connection. It counts as panicked also if only
the connection panics when it is closed. -/
def leave (b : Backend) (e : Engine) (i : Nat) (p : WorkerPool) (k : Nat) (w : Worker)
    (panicked : Bool) : Engine :=
  (e.put i p.dropReceiver k (.ended (panicked || (b.closePanic w.conn).isSome))).closeConnection
    w.conn

/-- A worker looks into the queue while it is its turn. -/
def receiveJob (e : Engine) (i : Nat) (p : WorkerPool) (k : Nat) : Option Engine :=
  match p.queue.receive with
  | (.item job, queue) => some (e.put i { p with queue } k (.holding job))
  | (.ended, queue) => some (e.put i { p with queue } k (.leaving false))
  | (.nothing, _) => none

/-- The next step of the worker `k` of pool `i`, if it has one. -/
def workerStep (b : Backend) (e : Engine) (i k : Nat) : Option Engine := do
  let p ← e.pools[i]?
  let w ← p.workers[k]?
  match w.activity with
  | .idle =>
      let queue := p.queue.ask k
      some (e.put i { p with queue } k (if queue.receiving = some k then .receiving else .queued))
  | .queued =>
      if p.queue.turn.ready k then
        some (e.put i { p with queue := p.queue.takeTurn k } k .receiving)
      else none
  | .receiving => e.receiveJob i p k
  | .holding job => some (e.beginJob b i p k w job)
  | .executing job conduct => some (e.proceedJob i p k job conduct)
  | .stalled job fault =>
      if e.gate.ready (.worker i k) then
        some ({ e with gate := (e.gate.resume (.worker i k)).2 }.finishJob i p k job fault.isSome)
      else none
  | .finished job false =>
      some (((e.countExecution p.tally (.job job.latch job.index)).record
        (.counted (.job job.latch job.index) false)).put i p k (.recorded job))
  | .finished job true =>
      some ((e.countExecution p.tally (.job job.latch job.index)).put i p k (.failing job))
  | .failing job =>
      some ((e.countFailure p.tally (.job job.latch job.index)).put i p k (.recorded job))
  | .recorded job => some (e.completeJob i p k job)
  | .leaving panicked => some (e.leave b i p k w panicked)
  | .ended _ => none

end LoadBench.Engine
