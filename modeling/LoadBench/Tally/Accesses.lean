import LoadBench.Tally

/-!
The counters of executions at the level of their atomic accesses, where callers that record and
callers that take a snapshot may interleave in every order.

A call that records adds to the first counter, and then, if its execution failed, to the second. A
call that takes a snapshot loads the first counter and then the second. The counters have 64 bits:
an addition to the greatest count begins again at zero.
-/

namespace LoadBench.Tally

/-- Where a call stands that records an execution. -/
inductive Recording where
  | entering (failed : Bool)
  /-- It has counted the execution, and is about to count the failure. -/
  | failing
  | returned (failed : Bool)
deriving DecidableEq, Repr

/-- Where a call stands that takes a snapshot. -/
inductive Reading where
  | entering
  /-- It has loaded the first counter, and is about to load the second. -/
  | halfway (executed : UInt64)
  | returned (executed failed : UInt64)
deriving DecidableEq, Repr

/-- The two counters and the calls that use them. -/
structure Accesses where
  executed : UInt64 := 0
  failed : UInt64 := 0
  recordings : Array Recording := #[]
  readings : Array Reading := #[]
deriving DecidableEq, Repr

namespace Accesses

/-- The beginning of a call, or its next access. -/
inductive Label where
  | record (failed : Bool)
  | add (recording : Nat)
  | snapshot
  | load (reading : Nat)
deriving DecidableEq, Repr

/-- The state afterwards, or `none` if there is no such call or it has returned. -/
def step (s : Accesses) : Label → Option Accesses
  | .record failed => some { s with recordings := s.recordings.push (.entering failed) }
  | .add k =>
      match s.recordings[k]? with
      | some (.entering failed) => some { s with
          executed := s.executed + 1
          recordings := s.recordings.set! k (if failed then .failing else .returned false) }
      | some .failing => some { s with
          failed := s.failed + 1
          recordings := s.recordings.set! k (.returned true) }
      | _ => none
  | .snapshot => some { s with readings := s.readings.push .entering }
  | .load k =>
      match s.readings[k]? with
      | some .entering => some { s with readings := s.readings.set! k (.halfway s.executed) }
      | some (.halfway executed) => some { s with
          readings := s.readings.set! k (.returned executed s.failed) }
      | _ => none

/-- Records an execution at once, as a caller does that nobody interleaves with. -/
def record? (s : Accesses) (failed : Bool) : Option Accesses := do
  let k := s.recordings.size
  let s ← s.step (.record failed)
  let s ← s.step (.add k)
  if failed then s.step (.add k) else pure s

/-- Takes a snapshot at once. -/
def snapshot? (s : Accesses) : Option Accesses := do
  let k := s.readings.size
  let s ← s.step .snapshot
  let s ← s.step (.load k)
  s.step (.load k)

/-- What the counters hold. -/
def tally (s : Accesses) : Tally := ⟨s.executed.toNat, s.failed.toNat⟩

end Accesses

end LoadBench.Tally
