import LoadBench.Latch

/-!
The latch at the level of its atomic operations, where callers that count down and callers that
wait may interleave in every order.

A waiter first registers, then looks at the count, and only then sleeps; a caller that takes the
count from one to zero wakes, in a later operation of its own, every waiter that is registered.
Registration before the look is what rules out a lost wake-up: a waiter that looks too early to
see zero is registered before the count can reach zero, hence before the wake-up.
-/

namespace LoadBench.Latch

/-- Where a waiter stands. -/
inductive Place where
  /-- About to register. -/
  | entering
  /-- Registered, and about to look at the count. -/
  | registered
  /-- Asleep until it is woken. -/
  | asleep
  /-- Its wait is over. -/
  | returned
deriving DecidableEq, Repr, Inhabited

/-- A waiter, and whether it was woken since it last registered. -/
structure Waiter where
  place : Place := .entering
  woken : Bool := false
deriving DecidableEq, Repr, Inhabited

/-- A latch with its waiters and the callers that have taken the count to zero but have not woken
anybody yet. The last three fields only keep a record. -/
structure Waiters where
  count : Nat
  waiters : Array Waiter := #[]
  waking : Nat := 0
  countDowns : Nat := 0
  wakeUps : Nat := 0
  misuses : Nat := 0
deriving DecidableEq, Repr

namespace Waiters

/-- One atomic operation. -/
inductive Label where
  | enter
  | advance (waiter : Nat)
  | countDown
  /-- A caller that took the count to zero wakes the registered waiters. -/
  | wake
deriving DecidableEq, Repr

/-- What a wake-up does to one waiter. Only a registered waiter can be reached. -/
def Waiter.wake (w : Waiter) : Waiter :=
  match w.place with
  | .registered | .asleep => { w with woken := true }
  | .entering | .returned => w

/-- The next step of a waiter that sees the given count, if it has one. -/
def Waiter.advance? (count : Nat) (w : Waiter) : Option Waiter :=
  match w.place with
  | .entering => some { place := .registered, woken := false }
  | .registered => some { w with place := if count = 0 then .returned else .asleep }
  | .asleep => if w.woken then some { place := .entering, woken := false } else none
  | .returned => none

/-- The state after one atomic operation, or `none` if nobody can take it now. Counting down a
released latch leaves the count and the waiters as they are. -/
def step (s : Waiters) : Label → Option Waiters
  | .enter => some { s with waiters := s.waiters.push {} }
  | .advance k =>
      match s.waiters[k]? with
      | none => none
      | some w => (Waiter.advance? s.count w).map fun next =>
          { s with waiters := s.waiters.set! k next }
  | .countDown =>
      let s := { s with countDowns := s.countDowns + 1 }
      match s.count with
      | 0 => some { s with misuses := s.misuses + 1 }
      | n + 1 => some { s with count := n, waking := if n = 0 then s.waking + 1 else s.waking }
  | .wake =>
      match s.waking with
      | 0 => none
      | n + 1 => some
          { s with waiters := s.waiters.map Waiter.wake, waking := n, wakeUps := s.wakeUps + 1 }

/-- A waiter takes steps of its own until it returns or sleeps. Five steps are enough: one to
notice a wake-up, one to register, one to look, and after a look at zero there is no further. -/
def rest (s : Waiters) (k : Nat) : Waiters :=
  (List.range 5).foldl (fun s _ => (s.step (.advance k)).getD s) s

/-- Every waiter takes its steps, in the order of arrival. -/
def settle (s : Waiters) : Waiters :=
  (List.range s.waiters.size).foldl rest s

/-- Counts down and wakes at once, as a caller does that nobody interleaves with. `none` is a call
on a released latch. -/
def countDown? (s : Waiters) : Option Waiters :=
  if s.count = 0 then none
  else do
    let s ← s.step .countDown
    if s.waking = 0 then pure s else s.step .wake

/-- A waiter comes and takes its steps. The answer says whether its wait is over. -/
def wait (s : Waiters) : Bool × Waiters :=
  let k := s.waiters.size
  let s := (s.step .enter).getD s
  let s := s.rest k
  (s.waiters[k]?.any (·.place = .returned), s)

/-- The last waiter gives up. -/
def forsake (s : Waiters) : Waiters := { s with waiters := s.waiters.pop }

end Waiters

end LoadBench.Latch
