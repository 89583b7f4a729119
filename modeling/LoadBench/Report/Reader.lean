import LoadBench.Json
import LoadBench.Report.Sink

/-!
A reader of the report in the line format. An output is lines, each of which ends in a line break; a
line is text, the text says an object, and its members are what is told about one phase. Nothing is
taken that is not there exactly once, and no output that breaks off within a line. How long a phase
took is a matter for a reader of floating-point numbers, which this one is not.
-/

namespace LoadBench

namespace Json

/-- The value of the member of a name, if an object has exactly one. -/
def member? (name : String) : Json → Option Json
  | .object members =>
      match members.filter (·.1 == name) with
      | [(_, v)] => some v
      | _ => none
  | _ => none

def string? : Json → Option String
  | .string text => some text
  | _ => none

/-- The natural number that is written here with nothing but digits. -/
def natural? : Json → Option Nat
  | .number text =>
      if isWhole text.toList then some (Nat.ofDigitChars 10 text.toList 0) else none
  | _ => none

end Json

namespace Report

/-- What a line tells about a phase, except how long it took. -/
structure Fields where
  phase : String
  mode : String
  command : String
  iterations : Nat
  executed : Nat
  failed : Nat
deriving DecidableEq, Repr

namespace Fields

/-- What there is to tell about a phase of a kind. -/
def ofReport (kind : PhaseKind) (r : PhaseReport) : Fields :=
  { phase := r.name
    mode := r.mode.name
    command := kind.commandName
    iterations := r.iterations
    executed := r.counts.executed
    failed := r.counts.failed }

def ofJson? (v : Json) : Option Fields := do
  some
    { phase := ← (← v.member? "phase").string?
      mode := ← (← v.member? "mode").string?
      command := ← (← v.member? "command").string?
      iterations := ← (← v.member? "iterations").natural?
      executed := ← (← v.member? "executed").natural?
      failed := ← (← v.member? "failed").natural? }

def ofLine? (bytes : Bytes) : Option Fields := do
  ofJson? (← Json.ofText? (← bytes.text?))

end Fields

/-- The lines of an output without their line breaks. What stands behind the last break is no
line. -/
def lines? (bytes : Bytes) : Option (List Bytes) :=
  let parts := bytes.splitOn 0x0a
  if parts.getLast? = some [] then some parts.dropLast else none

/-- What an output tells, line by line. -/
def readOutput? (bytes : Bytes) : Option (List Fields) := do
  (← lines? bytes).mapM Fields.ofLine?

/-- What a reader is told by an event in the line format: only a phase that has ended is told of. -/
def Event.fields? : Event → Option Fields
  | .started _ _ => none
  | .finished kind report => some (.ofReport kind report)

end Report

end LoadBench
