/-!
Elapsed time, in whole seconds and nanoseconds. The text of a span uses the largest unit that the
span reaches and as many decimals as it needs, so it tells the span exactly.
-/

namespace LoadBench

def nanosPerSecond : Nat := 1000000000

/-- A stretch of time. The nanoseconds are those beyond the last full second. -/
structure Span where
  secs : Nat
  nanos : Nat
deriving DecidableEq, Repr, Inhabited

namespace Span

/-- The span of so many seconds and nanoseconds, where the latter may exceed a second. -/
def ofParts (secs nanos : Nat) : Span :=
  ⟨secs + nanos / nanosPerSecond, nanos % nanosPerSecond⟩

/-- The span in nanoseconds. -/
def toNanos (s : Span) : Nat := s.secs * nanosPerSecond + s.nanos

/-- A whole number in exactly `width` decimal digits, the lowest ones if it has more. -/
def fixedDigits : Nat → Nat → List Char
  | 0, _ => []
  | width + 1, n => fixedDigits width (n / 10) ++ [Nat.digitChar (n % 10)]

/-- Decimals after a point, without the zeros at the end; nothing if there are only zeros. -/
def decimals (digits : List Char) : List Char :=
  match (digits.reverse.dropWhile (· = '0')).reverse with
  | [] => []
  | kept => '.' :: kept

/-- `n` units of `10 ^ places` parts, with the parts as decimals. -/
def inUnit (n places : Nat) (unit : String) : String :=
  toString (n / Nat.pow 10 places) ++
    String.ofList (decimals (fixedDigits places (n % Nat.pow 10 places))) ++ unit

/-- The span as a reader sees it. -/
def render (s : Span) : String :=
  if 0 < s.secs then inUnit s.toNanos 9 "s"
  else if 1000000 ≤ s.nanos then inUnit s.nanos 6 "ms"
  else if 1000 ≤ s.nanos then inUnit s.nanos 3 "µs"
  else inUnit s.nanos 0 "ns"

/-- The span in seconds, as a floating-point number. -/
def toSeconds (s : Span) : Float :=
  (UInt64.ofNat s.secs).toFloat + (UInt64.ofNat s.nanos).toFloat / 1e9

/-- Every span that is not negligible at the scale of nanoseconds is a sum of full seconds and
fewer nanoseconds than a second has. -/
theorem nanos_ofParts_lt (secs nanos : Nat) : (ofParts secs nanos).nanos < nanosPerSecond :=
  Nat.mod_lt _ (by decide)

/-- Carrying full seconds over does not change the span. -/
theorem toNanos_ofParts (secs nanos : Nat) :
    (ofParts secs nanos).toNanos = secs * nanosPerSecond + nanos := by
  simp only [toNanos, ofParts, Nat.add_mul, Nat.add_assoc]
  rw [Nat.mul_comm (nanos / nanosPerSecond), Nat.div_add_mod]

end Span

end LoadBench
