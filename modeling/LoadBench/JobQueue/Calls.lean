import LoadBench.JobQueue

/-!
A queue with the calls that are made at it, one operation after the other in any order. Calls are
numbered as they begin, offers and asks each by themselves, and a call stands under its number
wherever it waits. What an offer brings is accepted under the number of the offer.

A call that has to wait goes on by itself later, or is given up by whoever made it. The producers'
side is closed, or dropped, by somebody who has it for itself, so not while an offer runs; and the
last handle to the consumers' side does not go while somebody asks through it.
-/

namespace LoadBench.JobQueue

/-- What has become of an offer. -/
inductive Offer (α : Type) where
  /-- It waits for a slot, or was given one and has not noticed. -/
  | running (a : α)
  | accepted (a : α)
  | refused (a : α)
  | withdrawn (a : α)
deriving DecidableEq, Repr

/-- What has become of a call for an item. -/
inductive Ask (α : Type) where
  /-- It waits for its turn or has it. -/
  | running
  | delivered (a : α)
  | ended
  | withdrawn
deriving DecidableEq, Repr

namespace Offer

variable {α : Type}

/-- An offer that got an answer from the queue. -/
def ofAdmission (a : α) : Admission → Offer α
  | .taken => .accepted a
  | .parked => .running a
  | .refused => .refused a

def isRunning : Offer α → Bool
  | .running _ => true
  | _ => false

end Offer

namespace Ask

variable {α : Type}

def isRunning : Ask α → Bool
  | .running => true
  | _ => false

/-- What the call has returned with. -/
def item? : Ask α → Option α
  | .delivered a => some a
  | _ => none

end Ask

/-- A queue and the calls at it by their numbers. -/
structure Calls (α : Type) where
  queue : JobQueue (Nat × α) Nat Nat
  offers : Array (Offer α) := #[]
  asks : Array (Ask (Nat × α)) := #[]

namespace Calls

variable {α : Type}

/-- One operation at the queue, by a new call or by one that runs. -/
inductive Label (α : Type) where
  | offer (a : α)
  /-- An offer goes on that has something to notice. -/
  | resume (offer : Nat)
  | withdraw (offer : Nat)
  | ask
  /-- A call for an item notices that it has its turn. -/
  | takeTurn (ask : Nat)
  /-- A call for an item returns, with an item or without. -/
  | receive (ask : Nat)
  | forsake (ask : Nat)
  | cloneReceiver
  | dropReceiver
  /-- The producers' side is closed or dropped. -/
  | close
deriving DecidableEq, Repr

def ofCapacity (capacity : Nat) : Calls α := { queue := .ofCapacity capacity }

/-- The state after one operation, or `none` if it cannot take place now. -/
def step (s : Calls α) : Label α → Option (Calls α)
  | .offer a =>
      let (answer, queue) := s.queue.offer s.offers.size (s.offers.size, a)
      some { s with queue, offers := s.offers.push (.ofAdmission a answer) }
  | .resume k =>
      match s.offers[k]? with
      | some (.running a) =>
          if s.queue.offerReady k then
            let (answer, queue) := s.queue.reoffer k (k, a)
            some { s with queue, offers := s.offers.set! k (.ofAdmission a answer) }
          else none
      | _ => none
  | .withdraw k =>
      match s.offers[k]? with
      | some (.running a) => some { s with
          queue := s.queue.withdrawOffer k
          offers := s.offers.set! k (.withdrawn a) }
      | _ => none
  | .ask =>
      if s.queue.receivers = 0 then none
      else some { s with queue := s.queue.ask s.asks.size, asks := s.asks.push .running }
  | .takeTurn k =>
      match s.asks[k]? with
      | some .running =>
          if s.queue.turn.ready k then some { s with queue := s.queue.takeTurn k } else none
      | _ => none
  | .receive k =>
      match s.asks[k]? with
      | some .running =>
          if s.queue.receiving = some k then
            match s.queue.receive with
            | (.item a, queue) => some { s with queue, asks := s.asks.set! k (.delivered a) }
            | (.ended, queue) => some { s with queue, asks := s.asks.set! k .ended }
            | (.nothing, _) => none
          else none
      | _ => none
  | .forsake k =>
      match s.asks[k]? with
      | some .running => some { s with
          queue := s.queue.withdrawAsk k
          asks := s.asks.set! k .withdrawn }
      | _ => none
  | .cloneReceiver =>
      if s.queue.receivers = 0 then none else some { s with queue := s.queue.cloneReceiver }
  | .dropReceiver =>
      if s.queue.receivers = 0 ∨ s.queue.receivers = 1 ∧ s.asks.toList.any Ask.isRunning then none
      else some { s with queue := s.queue.dropReceiver }
  | .close =>
      if s.offers.toList.any Offer.isRunning then none else some { s with queue := s.queue.close }

/-- What can come about at a queue of a capacity, by any operations in any order. -/
inductive Reachable (capacity : Nat) : Calls α → Prop
  | start : Reachable capacity (ofCapacity capacity)
  | step {s next : Calls α} (label : Label α) (h : Reachable capacity s)
      (hs : s.step label = some next) : Reachable capacity next

end Calls

end LoadBench.JobQueue
