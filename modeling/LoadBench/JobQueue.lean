import LoadBench.FairSemaphore

/-!
A bounded queue that many producers and many consumers share.

A producer takes a slot for its item before it adds it, and waits while there is none; that is the
only backpressure. Consumers take turns: only the consumer whose turn it is looks into the buffer,
and it keeps its turn while the buffer is empty. Taking an item frees its slot and ends the turn.
Both slots and turns are handed out first come first served, so items leave in the order in which
they were accepted and producers that wait are admitted in the order in which they came.

The queue ends in two ways. When the producers' side is closed, the consumers drain what is left
and are then told that nothing more comes. When the last receiver goes, what is left is discarded
and producers are turned away.
-/

namespace LoadBench

/-- A queue of items `α` between producers `π` and consumers `κ`, which are told apart by name
while they wait. The last three fields only keep a record of what happened. -/
structure JobQueue (α π κ : Type) where
  capacity : Nat
  /-- Accepted items that nobody has taken, oldest first. -/
  buffer : List α := []
  /-- One permit for each item that the buffer still has room for. -/
  slots : FairSemaphore π
  /-- One permit: the right to look into the buffer. -/
  turn : FairSemaphore κ := { free := 1 }
  /-- The consumer whose turn it is. -/
  receiving : Option κ := none
  /-- Whether the producers' side is open. -/
  producing : Bool := true
  /-- How many handles to the consumers' side there are. -/
  receivers : Nat := 1
  accepted : Array α := #[]
  delivered : Array α := #[]
  discarded : Array α := #[]

/-- What a consumer finds when it looks into the buffer. -/
inductive Received (α : Type) where
  | item (a : α)
  /-- The buffer is empty and nothing more will come. -/
  | ended
  /-- The buffer is empty for now. -/
  | nothing
deriving DecidableEq, Repr

namespace JobQueue

variable {α π κ : Type}

/-- The greatest number of permits that a semaphore can hold. -/
def maxCapacity : Nat := 2305843009213693951

/-- What a caller is told that asks for a larger queue. -/
def capacityExceeded : String :=
  "a semaphore may not have more than MAX_PERMITS permits (" ++ toString maxCapacity ++ ")"

/-- An empty queue with room for `capacity` items and one receiver. -/
def ofCapacity (capacity : Nat) : JobQueue α π κ :=
  { capacity, slots := { free := capacity } }

/-- How many items are accepted and not taken, as the producers' side sees it: it counts the slots
that are not free, and after it has been closed it sees none. -/
def length (q : JobQueue α π κ) : Nat :=
  if q.producing then q.capacity - q.slots.free else 0

/-- Whether the producers' side sees no item. -/
def isEmpty (q : JobQueue α π κ) : Bool := q.length == 0

/-- Whether an item offered now would be turned away. -/
def isClosed (q : JobQueue α π κ) : Bool := !q.producing || q.slots.closed

/-- Adds an item whose producer holds a slot. -/
def push (q : JobQueue α π κ) (a : α) : JobQueue α π κ :=
  { q with buffer := q.buffer ++ [a], accepted := q.accepted.push a }

/-- A producer offers an item. The item is accepted if the producer gets a slot at once. -/
def offer (q : JobQueue α π κ) (p : π) (a : α) : Admission × JobQueue α π κ :=
  if q.producing then
    match q.slots.request p with
    | (.taken, slots) => (.taken, { q with slots }.push a)
    | (answer, slots) => (answer, { q with slots })
  else (.refused, q)

/-- Whether a waiting producer has something to notice. -/
def offerReady [DecidableEq π] (q : JobQueue α π κ) (p : π) : Bool := q.slots.ready p

/-- A waiting producer looks again. Its item is accepted if it was given a slot. -/
def reoffer [DecidableEq π] (q : JobQueue α π κ) (p : π) (a : α) : Admission × JobQueue α π κ :=
  match q.slots.resume p with
  | (.taken, slots) => (.taken, { q with slots }.push a)
  | (answer, slots) => (answer, { q with slots })

/-- A waiting producer gives up, and its item is never accepted. -/
def withdrawOffer [DecidableEq π] (q : JobQueue α π κ) (p : π) : JobQueue α π κ :=
  { q with slots := q.slots.withdraw p }

/-- A consumer asks for its turn. -/
def ask (q : JobQueue α π κ) (c : κ) : JobQueue α π κ :=
  match q.turn.request c with
  | (.taken, turn) => { q with turn, receiving := some c }
  | (_, turn) => { q with turn }

/-- A consumer that was given its turn notices. -/
def takeTurn [DecidableEq κ] (q : JobQueue α π κ) (c : κ) : JobQueue α π κ :=
  match q.turn.resume c with
  | (.taken, turn) => { q with turn, receiving := some c }
  | (_, turn) => { q with turn }

/-- The turn goes to the next consumer. -/
def endTurn (q : JobQueue α π κ) : JobQueue α π κ :=
  { q with receiving := none, turn := q.turn.release }

/-- The consumer whose turn it is looks into the buffer. It keeps its turn if it finds nothing. -/
def receive (q : JobQueue α π κ) : Received α × JobQueue α π κ :=
  match q.buffer with
  | a :: rest =>
      (.item a,
        { q with
          buffer := rest
          slots := q.slots.release
          delivered := q.delivered.push a }.endTurn)
  | [] => if q.producing then (.nothing, q) else (.ended, q.endTurn)

/-- Whether the consumer whose turn it is would find an item or the end. -/
def receiveReady (q : JobQueue α π κ) : Bool := !q.buffer.isEmpty || !q.producing

/-- A consumer gives up, whether it waits for its turn or has it. It takes no item with it. -/
def withdrawAsk [DecidableEq κ] (q : JobQueue α π κ) (c : κ) : JobQueue α π κ :=
  if q.receiving = some c then q.endTurn else { q with turn := q.turn.withdraw c }

def close (q : JobQueue α π κ) : JobQueue α π κ := { q with producing := false }

/-- Adds a handle to the consumers' side. -/
def cloneReceiver (q : JobQueue α π κ) : JobQueue α π κ := { q with receivers := q.receivers + 1 }

/-- Drops a handle to the consumers' side. With the last one go the items in the buffer. -/
def dropReceiver (q : JobQueue α π κ) : JobQueue α π κ :=
  match q.receivers with
  | 0 => q
  | 1 =>
      { q with
        receivers := 0
        buffer := []
        slots := { q.slots.close with free := q.slots.free + q.buffer.length }
        discarded := q.discarded ++ q.buffer.toArray }
  | n + 2 => { q with receivers := n + 1 }

end JobQueue

end LoadBench
