/-!
The shortest decimal that reads back as a given floating-point number.

A positive number `m * 2 ^ q` is what a reader makes of every real nearer to it than to its
neighbours. The two ends of that interval belong to it when `m` is even. Among the decimals in
the interval those with the fewest digits are preferred, and of them the one nearest to the number.
Since a decimal grid that has a point in the interval has one next to the number, it is enough to
look, digit count by digit count, at the two grid points around the number. All of it is exact
arithmetic on natural numbers.
-/

namespace LoadBench.Decimal

/-- A positive fraction and the ends of the interval that reads back as it, over one
denominator. -/
structure Interval where
  low : Nat
  value : Nat
  high : Nat
  denominator : Nat
  /-- Whether the ends belong to the interval. -/
  closed : Bool
deriving DecidableEq, Repr

/-- A decimal `digits * 10 ^ exponent`. -/
structure Scientific where
  digits : Nat
  exponent : Int
deriving DecidableEq, Repr

/-- The interval of `m * 2 ^ q`. Below a power of two the lower neighbour is only half as far away
as the upper one, unless the numbers are already as dense as they get. -/
def interval (m : Nat) (q : Int) (powerOfTwo : Bool) : Interval :=
  let low := if powerOfTwo then 4 * m - 1 else 4 * m - 2
  let up := Nat.pow 2 (q - 2).toNat
  { low := low * up
    value := 4 * m * up
    high := (4 * m + 2) * up
    denominator := Nat.pow 2 (2 - q).toNat
    closed := m % 2 == 0 }

/-- The interval measured in units of `10 ^ e`. -/
def Interval.inUnits (i : Interval) (e : Int) : Interval :=
  let up := Nat.pow 10 (-e).toNat
  { i with
    low := i.low * up
    value := i.value * up
    high := i.high * up
    denominator := i.denominator * Nat.pow 10 e.toNat }

def Interval.contains (i : Interval) (d : Nat) : Bool :=
  let scaled := d * i.denominator
  if i.closed then decide (i.low ≤ scaled ∧ scaled ≤ i.high)
  else decide (i.low < scaled ∧ scaled < i.high)

def digitCount (n : Nat) : Nat := (Nat.toDigits 10 n).length

/-- The power of ten of the first digit of a fraction below one, found by counting the steps that
lift it to one. -/
def negativeOrder (value denominator : Nat) : Nat → Nat → Nat
  | 0, steps => steps
  | fuel + 1, steps =>
      if denominator ≤ value then steps
      else negativeOrder (value * 10) denominator fuel (steps + 1)

/-- The power of ten of the first digit. No floating-point number is so small that its first digit
is further than 400 places behind the point. -/
def Interval.order (i : Interval) : Int :=
  if i.denominator ≤ i.value then Int.ofNat (digitCount (i.value / i.denominator)) - 1
  else -Int.ofNat (negativeOrder i.value i.denominator 400 0)

/-- The grid point in the interval that is nearest to the number, of the two around it. A tie goes
to the even one. -/
def Interval.nearest? (i : Interval) : Option Nat :=
  let below := i.value / i.denominator
  let remainder := 2 * (i.value % i.denominator)
  let preferLow :=
    decide (remainder < i.denominator) ||
      (remainder == i.denominator && below % 2 == 0)
  let first := if preferLow then below else below + 1
  let second := if preferLow then below + 1 else below
  if i.contains first then some first
  else if i.contains second then some second
  else none

/-- Tries decimals of more and more digits. Seventeen digits are always enough. -/
def Interval.shortestFrom (i : Interval) (order : Int) : Nat → Nat → Scientific
  | 0, count =>
      let e := order - Int.ofNat count + 1
      let unit := i.inUnits e
      ⟨unit.value / unit.denominator, e⟩
  | fuel + 1, count =>
      let e := order - Int.ofNat count + 1
      match (i.inUnits e).nearest? with
      | some d => ⟨d, e⟩
      | none => i.shortestFrom order fuel (count + 1)

/-- Drops zeros at the end of the digits. -/
def Scientific.normalize (s : Scientific) : Scientific :=
  if h : s.digits ≠ 0 ∧ s.digits % 10 = 0 then
    Scientific.normalize ⟨s.digits / 10, s.exponent + 1⟩
  else s
termination_by s.digits
decreasing_by omega

/-- The shortest decimal of `m * 2 ^ q`, for a positive `m`. -/
def shortest (m : Nat) (q : Int) (powerOfTwo : Bool) : Scientific :=
  let i := interval m q powerOfTwo
  (i.shortestFrom i.order 17 1).normalize

/-- The number and the exponent of a finite floating-point number, given by its bits, and whether
it is a power of two with a closer neighbour below. -/
def parts (bits : Nat) : Nat × Int × Bool :=
  let fraction : Nat := bits % Nat.pow 2 52
  let biased : Nat := bits / Nat.pow 2 52 % Nat.pow 2 11
  if biased = 0 then (fraction, -1074, false)
  else (fraction + Nat.pow 2 52, (biased : Int) - 1075, fraction == 0 && decide (1 < biased))

/-- The shortest decimal of a finite floating-point number that is not negative. -/
def ofFloat (x : Float) : Scientific :=
  let (m, q, powerOfTwo) := parts x.toBits.toNat
  if m = 0 then ⟨0, 0⟩ else shortest m q powerOfTwo

end LoadBench.Decimal
