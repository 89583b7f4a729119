/-!
A countdown latch: it is made with the number of jobs of a batch, each job counts it down once,
and whoever waits for the batch may go on when the count is zero.
-/

namespace LoadBench

/-- A latch by the number of jobs that have not completed. -/
structure Latch where
  remaining : Nat
deriving DecidableEq, Repr, Inhabited

namespace Latch

/-- A latch is released once nothing remains. -/
def released (l : Latch) : Bool := l.remaining == 0

/-- Counts one job down. There is no count below zero: a further call is a mistake of its caller,
and `none` says so. -/
def countDown? (l : Latch) : Option Latch :=
  match l.remaining with
  | 0 => none
  | n + 1 => some ⟨n⟩

/-- What a caller is told that counts down a released latch. -/
def misuse : String := "count_down called on a released latch"

theorem countDown?_eq_none_iff (l : Latch) : l.countDown? = none ↔ l.released = true := by
  rcases l with ⟨_ | n⟩ <;> simp [countDown?, released]

theorem remaining_countDown? {l next : Latch} (h : l.countDown? = some next) :
    l.remaining = next.remaining + 1 := by
  rcases l with ⟨_ | n⟩
  · simp [countDown?] at h
  · simp only [countDown?, Option.some.injEq] at h
    simp [← h]

end Latch

end LoadBench
