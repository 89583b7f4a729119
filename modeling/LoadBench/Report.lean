import LoadBench.Decimal.Shortest
import LoadBench.Phase
import LoadBench.Span
import LoadBench.Workload

/-!
What the program tells about its phases. In the text format a phase has a header before it runs and
a block after it; in the line format it has one JSON object after it, on a line of its own.
-/

namespace LoadBench

/-- The two formats of the report. -/
inductive Format where
  | text
  | json
deriving DecidableEq, Repr, Inhabited

namespace Format

/-- Both formats, in the order in which they are listed to a reader. -/
def all : List Format := [.text, .json]

/-- The name by which a format is asked for. -/
def name : Format → String
  | .text => "text"
  | .json => "json"

/-- The format as a developer sees it. -/
def render : Format → String
  | .text => "Text"
  | .json => "Json"

def ofName? (s : String) : Option Format := all.find? (·.name == s)

end Format

/-- The outcome of a phase with the time that it took. -/
structure PhaseReport extends PhaseCount where
  elapsed : Span
deriving DecidableEq, Repr

namespace PhaseReport

/-- Commands per second over the time that the phase took; zero if it took none. -/
def throughput (r : PhaseReport) : Float :=
  let secs := r.elapsed.toSeconds
  if secs == 0 then 0 else (UInt64.ofNat r.iterations).toFloat / secs

/-- The time in milliseconds, as a floating-point number. -/
def elapsedMillis (r : PhaseReport) : Float := r.elapsed.toSeconds * 1000

end PhaseReport

namespace Report

/-- How a floating-point number is written: positionally while the power of ten of its first digit
lies between the two bounds, and with an exponent otherwise. -/
structure NumberStyle where
  leastPositional : Int
  greatestPositional : Int
deriving DecidableEq, Repr

/-- Numbers from `0.00001` up to sixteen digits before the point are written positionally. A whole
number keeps one decimal, and an exponent always has a sign. -/
def numberStyle : NumberStyle := ⟨-5, 15⟩

/-- A decimal in a given style. -/
def NumberStyle.write (style : NumberStyle) (s : Decimal.Scientific) : String :=
  let digits := Nat.toDigits 10 s.digits
  let order : Int := s.exponent + digits.length - 1
  if style.leastPositional ≤ order ∧ order ≤ style.greatestPositional then
    if 0 ≤ s.exponent then
      String.ofList (digits ++ List.replicate s.exponent.toNat '0') ++ ".0"
    else if 0 ≤ order then
      let whole := order.toNat + 1
      String.ofList (digits.take whole ++ '.' :: digits.drop whole)
    else
      "0." ++ String.ofList (List.replicate (-order - 1).toNat '0' ++ digits)
  else
    let mantissa := match digits with
      | [] => []
      | [d] => [d]
      | d :: rest => d :: '.' :: rest
    String.ofList mantissa ++ "e" ++ (if 0 ≤ order then "+" else "-") ++ toString order.natAbs

/-- A floating-point number that is finite and not negative, as it stands in a report. -/
def number (x : Float) : String := numberStyle.write (Decimal.ofFloat x)

/-- One character of a JSON string. Only what JSON does not allow to stand for itself is escaped. -/
def jsonChar (c : Char) : List Char :=
  if c = '"' then ['\\', '"']
  else if c = '\\' then ['\\', '\\']
  else if c = '\x08' then ['\\', 'b']
  else if c = '\t' then ['\\', 't']
  else if c = '\n' then ['\\', 'n']
  else if c = '\x0c' then ['\\', 'f']
  else if c = '\r' then ['\\', 'r']
  else if c.toNat < 0x20 then
    ['\\', 'u', '0', '0', Nat.digitChar (c.toNat / 16), Nat.digitChar (c.toNat % 16)]
  else [c]

def jsonString (s : String) : String :=
  String.ofList ('"' :: (s.toList.flatMap jsonChar ++ ['"']))

/-- The header of a phase. -/
def header (kind : PhaseKind) (iterations : Nat) : String :=
  "Run " ++ kind.label ++ " " ++ toString iterations ++ "\n"

/-- The block after a phase. Failures are mentioned if there were any, since the time of such a
phase says little. -/
def block (r : PhaseReport) : String :=
  let time := "Time: " ++ r.elapsed.render ++ "\n"
  if 0 < r.counts.failed then
    time ++ "Failed: " ++ toString r.counts.failed ++ " of " ++ toString r.counts.executed ++
      " commands (timing is not reliable)\n"
  else time

/-- A member of a JSON object. -/
def member (key value : String) : String := jsonString key ++ ":" ++ value

/-- The line after a phase. -/
def line (kind : PhaseKind) (r : PhaseReport) : String :=
  let members :=
    [member "phase" (jsonString r.name),
      member "mode" (jsonString r.mode.name),
      member "command" (jsonString kind.commandName),
      member "iterations" (toString r.iterations),
      member "elapsed_ms" (number r.elapsedMillis),
      member "ops_per_sec" (number r.throughput),
      member "executed" (toString r.counts.executed),
      member "failed" (toString r.counts.failed)]
  "\x7b" ++ String.intercalate "," members ++ "\x7d\n"

/-- Something that the report tells about. -/
inductive Event where
  | started (kind : PhaseKind) (iterations : Nat)
  | finished (kind : PhaseKind) (report : PhaseReport)
deriving DecidableEq, Repr

/-- The complete text of an event. -/
def Event.text : Format → Event → String
  | .text, .started kind iterations => header kind iterations
  | .json, .started _ _ => ""
  | .text, .finished _ report => block report
  | .json, .finished kind report => line kind report

/-- Whether the output is flushed after an event. An event without text does not touch it. -/
def Event.flushes : Format → Event → Bool
  | .json, .started _ _ => false
  | _, _ => true

end Report

end LoadBench
