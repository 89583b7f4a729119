import LoadBench.JobQueue
import LoadBench.Fault
import LoadBench.Command
import LoadBench.Latch

/-!
A session at a queue: one caller, and calls that it has left running in the background. After every
step of the caller everything that can go on goes on, so that whatever still waits afterwards
waits for a later step. A call of the caller itself that could only wait is given up, and what
it offered is not accepted.

A background consumer has a handle of its own, which it drops when its call returns.
-/

namespace LoadBench.JobQueue

/-- A background call that has not returned, by the ticket under which it waits. -/
inductive Task where
  | enqueue (ticket : Nat) (id : String) (job : Command)
  | dequeue (ticket : Nat) (id : String)
deriving DecidableEq, Repr

/-- A background call that has returned. -/
inductive Event where
  | enqueued (id : String)
  | refused (id : String)
  | dequeued (id : String) (job : Command)
  | ended (id : String)
deriving DecidableEq, Repr

namespace Event

def render : Event → String
  | .enqueued id => "enqueue " ++ id ++ ": ok"
  | .refused id => "enqueue " ++ id ++ ": QueueClosed"
  | .dequeued id job => "dequeue " ++ id ++ ": " ++ job.render
  | .ended id => "dequeue " ++ id ++ ": none"

end Event

/-- The state of a session. All jobs count down one latch. The caller itself has ticket zero. -/
structure Session where
  queue : JobQueue Command Nat Nat
  /-- Whether the queue's producing side still exists. -/
  present : Bool := true
  latch : Latch
  /-- Jobs that were taken and neither completed nor dropped, oldest first. -/
  held : List Command := []
  /-- The caller's own handles to the consumers' side. -/
  handles : Nat := 1
  tasks : List Task := []
  tickets : Nat := 0
  events : List Event := []

inductive Action where
  | enqueue (job : Command) (times : Nat)
  | spawnEnqueue (id : String) (job : Command)
  | dequeue
  | spawnDequeue (id : String)
  /-- Completes all held jobs. -/
  | complete
  /-- Drops all held jobs uncompleted. -/
  | discard
  | cloneReceiver
  | dropReceiver
  | close
  | dropQueue
  | look
deriving DecidableEq, Repr

/-- What the caller is told. -/
inductive Answer where
  | ok
  | blocked
  /-- The end that the call needs is gone. -/
  | gone
  /-- A background call still uses the queue. -/
  | busy
  | job (c : Command)
  | ended
  | count (n : Nat)
  | fault (f : Fault)
  | panic (message : String)
deriving DecidableEq, Repr

namespace Session

/-- A session at a fresh queue. Nothing can be queued without room, and the room has an upper
bound. -/
def open? (capacity jobs : Nat) : Except Answer Session :=
  if capacity = 0 then .error (.fault .noCapacity)
  else if maxCapacity < capacity then .error (.panic capacityExceeded)
  else .ok { queue := ofCapacity capacity, latch := ⟨jobs⟩ }

/-- Lets one background call go on, and says whether it is still running. -/
def advance (s : Session) : Task → Bool × Session
  | .enqueue ticket id job =>
      if s.queue.offerReady ticket then
        match s.queue.reoffer ticket job with
        | (.taken, queue) => (false, { s with queue, events := s.events ++ [.enqueued id] })
        | (.refused, queue) => (false, { s with queue, events := s.events ++ [.refused id] })
        | (.parked, queue) => (true, { s with queue })
      else (true, s)
  | .dequeue ticket id =>
      let queue := if s.queue.turn.ready ticket then s.queue.takeTurn ticket else s.queue
      if queue.receiving = some ticket then
        match queue.receive with
        | (.item job, queue) =>
            (false,
              { s with
                queue := queue.dropReceiver
                held := s.held ++ [job]
                events := s.events ++ [.dequeued id job] })
        | (.ended, queue) =>
            (false, { s with queue := queue.dropReceiver, events := s.events ++ [.ended id] })
        | (.nothing, queue) => (true, { s with queue })
      else (true, { s with queue })

/-- Lets every background call go on once, in the order in which they were begun. -/
def sweep (s : Session) : Session :=
  s.tasks.foldl
    (fun s task =>
      let (running, s) := s.advance task
      if running then { s with tasks := s.tasks ++ [task] } else s)
    { s with tasks := [] }

/-- Lets the background calls go on until none can. Each sweep in which something happens ends a
call or gives one its turn, so twice as many sweeps as there are calls are enough. -/
def settle (s : Session) : Session :=
  (List.range (2 * s.tasks.length)).foldl (fun s _ => s.sweep) s

/-- How many offers the caller can make before everybody else has a turn. -/
def offersPerTurn : Nat := 128

/-- How many of them are left when a step begins. Having waited for everybody else took one. -/
def offersAtStep : Nat := offersPerTurn - 1

/-- The caller offers one job, and lets the background calls go on if it has to wait. The answer
says how many offers are left in its turn. -/
def enqueueOne (s : Session) (job : Command) (left : Nat) : Answer × Nat × Session :=
  match s.queue.offer 0 job with
  | (.taken, queue) => (.ok, left - 1, { s with queue })
  | (.refused, queue) => (.fault .queueClosed, left, { s with queue })
  | (.parked, queue) =>
      let s := { s with queue }.settle
      match s.queue.reoffer 0 job with
      | (.taken, queue) => (.ok, offersPerTurn - 1, { s with queue })
      | (.refused, queue) => (.fault .queueClosed, offersPerTurn, { s with queue })
      | (.parked, queue) =>
          (.blocked, offersPerTurn, { s with queue := queue.withdrawOffer 0 })

/-- The caller offers the same job several times, until one offer fails. When no offer is left in
its turn, the background calls go on, and then it has a new turn. -/
def enqueue (s : Session) (job : Command) : Nat → Nat → Answer × Session
  | _, 0 => (.ok, s)
  | left, n + 1 =>
      let (left, s) := if left = 0 then (offersPerTurn, s.settle) else (left, s)
      match s.enqueueOne job left with
      | (.ok, left, s) => s.enqueue job left n
      | (answer, _, s) => (answer, s)

/-- The caller looks into the buffer, if it is its turn. -/
def receiveOne (s : Session) : Option (Answer × Session) :=
  let queue := if s.queue.turn.ready 0 then s.queue.takeTurn 0 else s.queue
  if queue.receiving = some 0 then
    match queue.receive with
    | (.item job, queue) => some (.job job, { s with queue, held := s.held ++ [job] })
    | (.ended, queue) => some (.ended, { s with queue })
    | (.nothing, _) => none
  else none

/-- The caller takes one job, and lets the background calls go on if it has to wait. -/
def dequeue (s : Session) : Answer × Session :=
  if s.handles = 0 then (.gone, s)
  else
    let s := { s with queue := s.queue.ask 0 }
    match s.receiveOne with
    | some done => done
    | none =>
        let s := s.settle
        match s.receiveOne with
        | some done => done
        | none => (.blocked, { s with queue := s.queue.withdrawAsk 0 })

/-- Completes the given jobs, oldest first. The answer is how many there were, or what the last
call on a released latch was told. -/
def complete (s : Session) : Answer × Session :=
  let (answer, latch) := s.held.foldl
    (fun (answer, latch) _ =>
      match latch.countDown? with
      | some latch => (answer, latch)
      | none => (Answer.panic Latch.misuse, latch))
    (Answer.count s.held.length, s.latch)
  (answer, { s with latch, held := [] })

/-- Whether a background call waits for a slot. -/
def offering (s : Session) : Bool :=
  s.tasks.any fun
    | .enqueue .. => true
    | .dequeue .. => false

/-- One step of the caller, before the background calls go on. -/
def act (s : Session) : Action → Answer × Session
  | .enqueue job times => if s.present then s.enqueue job offersAtStep times else (.gone, s)
  | .spawnEnqueue id job =>
      if !s.present then (.ok, s)
      else
        let ticket := s.tickets + 1
        let s := { s with tickets := ticket }
        match s.queue.offer ticket job with
        | (.taken, queue) => (.ok, { s with queue, events := s.events ++ [.enqueued id] })
        | (.refused, queue) => (.ok, { s with queue, events := s.events ++ [.refused id] })
        | (.parked, queue) => (.ok, { s with queue, tasks := s.tasks ++ [.enqueue ticket id job] })
  | .dequeue => s.dequeue
  | .spawnDequeue id =>
      if s.handles = 0 then (.gone, s)
      else
        let ticket := s.tickets + 1
        (.ok,
          { s with
            queue := s.queue.cloneReceiver.ask ticket
            tickets := ticket
            tasks := s.tasks ++ [.dequeue ticket id] })
  | .complete => s.complete
  | .discard => (.count s.held.length, { s with held := [] })
  | .cloneReceiver =>
      if s.handles = 0 then (.count 0, s)
      else (.count (s.handles + 1),
        { s with queue := s.queue.cloneReceiver, handles := s.handles + 1 })
  | .dropReceiver =>
      if s.handles = 0 then (.count 0, s)
      else (.count (s.handles - 1),
        { s with queue := s.queue.dropReceiver, handles := s.handles - 1 })
  | .close =>
      if s.offering then (.busy, s) else (.ok, { s with queue := s.queue.close })
  | .dropQueue =>
      if s.offering then (.busy, s)
      else (.ok, { s with queue := s.queue.close, present := false })
  | .look => (.ok, s)

/-- One step of the caller, after which everything that can go on has gone on. -/
def perform (s : Session) (action : Action) : Answer × Session :=
  let (answer, s) := { s with events := [] }.act action
  (answer, s.settle)

end Session

end LoadBench.JobQueue
