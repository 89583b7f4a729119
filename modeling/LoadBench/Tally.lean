/-!
Counters of executions. Failures are swallowed where they happen, so these counters are the only
place where they stay visible.

Each counter is written and read by itself. Whoever reads both may find an execution in the first
whose failure is not in the second yet.
-/

namespace LoadBench

/-- How many executions there were and how many of them failed. -/
structure Tally where
  executed : Nat := 0
  failed : Nat := 0
deriving DecidableEq, Repr, Inhabited

namespace Tally

/-- One of the two counters. -/
inductive Counter where
  | executed
  | failed
deriving DecidableEq, Repr

def get (t : Tally) : Counter → Nat
  | .executed => t.executed
  | .failed => t.failed

/-- The counters after an addition to one of them. -/
def add (t : Tally) : Counter → Tally
  | .executed => { t with executed := t.executed + 1 }
  | .failed => { t with failed := t.failed + 1 }

/-- The counters after one more execution has been counted in full. -/
def record (t : Tally) (failed : Bool) : Tally :=
  if failed then (t.add .executed).add .failed else t.add .executed

/-- What was counted between `earlier` and `t`. A counter that went back counts as unmoved. -/
def since (t earlier : Tally) : Tally :=
  ⟨t.executed - earlier.executed, t.failed - earlier.failed⟩

/-- An addition moves its own counter by one and leaves the other. -/
theorem get_add (t : Tally) (c c' : Counter) :
    (t.add c).get c' = t.get c' + if c = c' then 1 else 0 := by
  cases c <;> cases c' <;> rfl

end Tally

end LoadBench
