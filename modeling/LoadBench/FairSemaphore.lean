/-!
A counting semaphore that serves its callers in the order in which they began to wait.

A permit that is given back goes to the first waiter if there is one, and only otherwise to the
free permits. A waiter that has been given a permit holds it from then on, although it may notice
only later, when it next gets to run; until then it stands among the granted. Closing the
semaphore turns every caller away, also one that was granted a permit and has not noticed.
-/

namespace LoadBench

/-- A semaphore for callers that are told apart by a ticket. -/
structure FairSemaphore (τ : Type) where
  /-- Permits that nobody holds. -/
  free : Nat
  /-- Who waits for a permit, first come first. -/
  waiting : List τ := []
  /-- Who was given a permit while waiting and has not noticed, in the order of the grants. -/
  granted : List τ := []
  closed : Bool := false
deriving DecidableEq, Repr

/-- What becomes of a call for a permit. -/
inductive Admission where
  | taken
  | parked
  | refused
deriving DecidableEq, Repr

namespace FairSemaphore

variable {τ : Type}

/-- Asks for a permit. Nobody waits while a permit is free, so a free permit may be taken at
once. -/
def request (s : FairSemaphore τ) (t : τ) : Admission × FairSemaphore τ :=
  if s.closed then (.refused, s)
  else match s.free with
    | 0 => (.parked, { s with waiting := s.waiting ++ [t] })
    | n + 1 => (.taken, { s with free := n })

/-- Gives one permit back: to the first waiter, or to the free permits. -/
def release (s : FairSemaphore τ) : FairSemaphore τ :=
  match s.waiting with
  | [] => { s with free := s.free + 1 }
  | t :: rest => { s with waiting := rest, granted := s.granted ++ [t] }

/-- Gives `n` permits back, one after the other. -/
def releaseMany (n : Nat) (s : FairSemaphore τ) : FairSemaphore τ :=
  let served := s.waiting.take n
  { s with
    waiting := s.waiting.drop n
    granted := s.granted ++ served
    free := s.free + (n - served.length) }

/-- From now on every caller is turned away. -/
def close (s : FairSemaphore τ) : FairSemaphore τ := { s with closed := true }

variable [DecidableEq τ]

/-- Whether a waiting caller has something to notice: a permit, or that the semaphore closed. -/
def ready (s : FairSemaphore τ) (t : τ) : Bool :=
  s.granted.contains t || (s.closed && s.waiting.contains t)

/-- A waiting caller looks again: it holds a permit now, still waits, or is turned away. A permit
that was granted to a caller that is turned away is given back. -/
def resume (s : FairSemaphore τ) (t : τ) : Admission × FairSemaphore τ :=
  if s.granted.contains t then
    let s := { s with granted := s.granted.erase t }
    if s.closed then (.refused, s.release) else (.taken, s)
  else if s.closed then (.refused, { s with waiting := s.waiting.erase t })
  else (.parked, s)

/-- A waiting caller gives up. A permit that was granted to it goes to the next one. -/
def withdraw (s : FairSemaphore τ) (t : τ) : FairSemaphore τ :=
  if s.granted.contains t then { s with granted := s.granted.erase t }.release
  else { s with waiting := s.waiting.erase t }

end FairSemaphore

end LoadBench
