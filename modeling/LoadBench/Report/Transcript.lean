import LoadBench.Report.Reader

/-!
A reader of the report in the text format. A line is cut at its blanks, and its first word says what
the line tells. A time is a decimal number and a unit, and it is read as the number of seconds that
the two make, with nothing rounded. A line about failures belongs to the time in the line before it
and stands nowhere else.
-/

namespace LoadBench

/-- The kind of phase that a label in a header stands for. -/
def PhaseKind.ofLabel? (s : String) : Option PhaseKind := all.find? (·.label == s)

/-- The span in seconds, exactly. -/
def Span.seconds (s : Span) : Rat := s.secs + (s.nanos : Rat) / nanosPerSecond

namespace Report

/-! ## Numbers -/

/-- The natural number of digits. -/
def numeral (digits : List Char) : Nat := Nat.ofDigitChars 10 digits 0

/-- The number that a word is, if it is nothing but a number. -/
def natural? (word : String) : Option Nat :=
  if Json.isWhole word.toList then some (numeral word.toList) else none

/-- The value of digits behind a point. -/
def fraction (digits : List Char) : Rat := (numeral digits : Rat) / 10 ^ digits.length

/-- A decimal number, and what is left behind it. There are digits on both sides of a point. -/
def readDecimal (s : List Char) : Option (Rat × List Char) :=
  let whole := s.takeWhile Char.isDigit
  if Json.isWhole whole then
    match s.dropWhile Char.isDigit with
    | '.' :: rest =>
        let digits := rest.takeWhile Char.isDigit
        if Json.isDigits digits then
          some (numeral whole + fraction digits, rest.dropWhile Char.isDigit)
        else none
    | rest => some (numeral whole, rest)
  else none

/-- How many seconds a unit of time is. -/
def unitSeconds? (unit : String) : Option Rat :=
  match unit with
  | "s" => some 1
  | "ms" => some (1 / 1000)
  | "µs" => some (1 / 1000000)
  | "ns" => some (1 / 1000000000)
  | _ => none

/-- The seconds of a decimal number with a unit. -/
def seconds? (word : String) : Option Rat :=
  (readDecimal word.toList).bind fun (value, unit) =>
    (unitSeconds? (String.ofList unit)).map (value * ·)

/-! ## Lines -/

/-- What one line of text tells. -/
inductive Remark where
  /-- A phase of a kind starts, with so many commands. -/
  | run (kind : PhaseKind) (iterations : Nat)
  /-- A phase took so many seconds. -/
  | time (seconds : Rat)
  /-- So many of the commands that were executed failed. -/
  | failures (failed executed : Nat)
deriving DecidableEq, Repr

/-- The words of a line, which single blanks keep apart. -/
def words (line : String) : List String := (line.toList.splitOn ' ').map String.ofList

def Remark.ofWords? : List String → Option Remark
  | ["Run", label, iterations] => do
      some (.run (← PhaseKind.ofLabel? label) (← natural? iterations))
  | ["Time:", elapsed] => (seconds? elapsed).map .time
  | ["Failed:", failed, "of", executed, "commands", "(timing", "is", "not", "reliable)"] => do
      some (.failures (← natural? failed) (← natural? executed))
  | _ => none

def Remark.ofLine? (line : Bytes) : Option Remark :=
  line.text?.bind fun text => Remark.ofWords? (words text)

/-! ## Events -/

/-- What a reader is told of an event by the text format. -/
inductive Told where
  | started (kind : PhaseKind) (iterations : Nat)
  /-- The time that a phase took, and how many commands failed of how many, if any did. -/
  | finished (seconds : Rat) (failures : Option (Nat × Nat))
deriving DecidableEq, Repr

/-- Puts together the lines that tell of one event. -/
def gather? : List Remark → Option (List Told)
  | [] => some []
  | .run kind iterations :: rest => (gather? rest).map (.started kind iterations :: ·)
  | .time t :: .failures failed executed :: rest =>
      (gather? rest).map (.finished t (some (failed, executed)) :: ·)
  | .time t :: rest => (gather? rest).map (.finished t none :: ·)
  | .failures _ _ :: _ => none

/-- What a text tells, line by line. -/
def readRemarks? (bytes : Bytes) : Option (List Remark) :=
  (lines? bytes).bind (·.mapM Remark.ofLine?)

/-- What a text tells, event by event. -/
def readTranscript? (bytes : Bytes) : Option (List Told) := (readRemarks? bytes).bind gather?

/-- What the lines of an event tell, one by one. -/
def Event.remarks : Event → List Remark
  | .started kind iterations => [.run kind iterations]
  | .finished _ r =>
      .time r.elapsed.seconds ::
        if 0 < r.counts.failed then [.failures r.counts.failed r.counts.executed] else []

/-- What the text format has to tell of an event. -/
def Event.told : Event → Told
  | .started kind iterations => .started kind iterations
  | .finished _ r =>
      .finished r.elapsed.seconds <|
        if 0 < r.counts.failed then some (r.counts.failed, r.counts.executed) else none

end Report

end LoadBench
