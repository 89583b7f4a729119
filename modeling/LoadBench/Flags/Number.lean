/-!
Whole numbers as they are given: decimal digits, after a plus sign at most. The first character
that is no digit, or the first digit that takes the number past its bound, is the fault.
-/

namespace LoadBench.Flags

/-- The least number that is too large. -/
def numberBound : Nat := Nat.pow 2 64

/-- Why a text is no number. -/
inductive NumberFault where
  | empty
  | badDigit
  | tooLarge
deriving DecidableEq, Repr

namespace NumberFault

def message : NumberFault → String
  | .empty => "cannot parse integer from empty string"
  | .badDigit => "invalid digit found in string"
  | .tooLarge => "number too large to fit in target type"

end NumberFault

def digit? (c : Char) : Option Nat :=
  if '0' ≤ c ∧ c ≤ '9' then some (c.toNat - '0'.toNat) else none

/-- Reads the rest of a number of which the digits so far make `n`. -/
def readDigits : List Char → Nat → Except NumberFault Nat
  | [], n => .ok n
  | c :: rest, n =>
      match digit? c with
      | none => .error .badDigit
      | some d =>
          if 10 * n + d < numberBound then readDigits rest (10 * n + d) else .error .tooLarge

/-- Reads a number. A sign alone is no number. -/
def readNumber (s : String) : Except NumberFault Nat :=
  match s.toList with
  | [] => .error .empty
  | ['+'] => .error .badDigit
  | '+' :: digits => readDigits digits 0
  | digits => readDigits digits 0

end LoadBench.Flags
