import LoadBench.Bytes
import LoadBench.Report.Pieces

/-!
Where the report goes. A sink may have room for only so many bytes, may take each write only in
part, and may refuse one flush. A piece of a text is written by as many writes as it takes. A piece
for which there is no room is written as far as it fits; then its text has failed, and neither the
other pieces nor a flush follow. A failure does not end the sink: a later event is written too, as
far as room remains.
-/

namespace LoadBench.Report

/-- Why an output failed. -/
inductive OutputFault where
  | full
  /-- The sink took nothing and did not say why. -/
  | nothingTaken
  | flushRefused
deriving DecidableEq, Repr

def OutputFault.message : OutputFault → String
  | .full => "sink is full"
  | .nothingTaken => "failed to write whole buffer"
  | .flushRefused => "flush refused"

structure Sink where
  /-- How many bytes still fit, if there is a bound. -/
  room : Option Nat := none
  /-- What a write says that finds no room. -/
  whenFull : OutputFault := .full
  /-- The flush that is refused, counted from one, if one is. -/
  refusedFlush : Option Nat := none
  /-- The next writes take no more than so many bytes each beyond the first one. The writes after
  them take whatever fits. -/
  bites : List Nat := []
  content : Bytes := []
  flushes : Nat := 0
deriving DecidableEq, Repr

namespace Sink

/-- How many of so many bytes the next write takes: at least one, if there is one and it fits. -/
def bite (s : Sink) (length : Nat) : Nat :=
  let fitting := match s.room with
    | none => length
    | some room => min length room
  match s.bites with
  | [] => fitting
  | more :: _ => min fitting (more + 1)

/-- A sink that takes bytes. -/
def take (s : Sink) (bytes : Bytes) : Sink :=
  { s with
    content := s.content ++ bytes
    room := s.room.map (· - bytes.length)
    bites := s.bites.tail }

/-- Writes a piece, by one write after the other until nothing is left of it. -/
def write (s : Sink) (bytes : Bytes) : Option OutputFault × Sink :=
  if bytes = [] then (none, s)
  else if s.bite bytes.length = 0 then (some s.whenFull, s.take [])
  else (s.take (bytes.take (s.bite bytes.length))).write (bytes.drop (s.bite bytes.length))
termination_by bytes.length
decreasing_by
  next hbytes hbite =>
  have := List.length_pos_iff.mpr hbytes
  rw [List.length_drop]
  omega

/-- Writes pieces one after the other until one fails. -/
def writeAll (s : Sink) : List Bytes → Option OutputFault × Sink
  | [] => (none, s)
  | piece :: rest =>
      match s.write piece with
      | (some fault, s) => (some fault, s)
      | (none, s) => s.writeAll rest

/-- Flushes what was written. A refused flush counts as well. -/
def flush (s : Sink) : Option OutputFault × Sink :=
  let s := { s with flushes := s.flushes + 1 }
  (if s.refusedFlush = some s.flushes then some .flushRefused else none, s)

end Sink

/-- Writes an event to a sink and flushes it if the event asks for it. -/
def Event.emit (format : Format) (event : Event) (s : Sink) : Option OutputFault × Sink :=
  match s.writeAll ((event.pieces format).map Bytes.ofText) with
  | (some fault, s) => (some fault, s)
  | (none, s) => if event.flushes format then s.flush else (none, s)

/-- Writes events one after the other, whatever becomes of each, and lists what did. -/
def emitAll (format : Format) : List Event → Sink → List (Option OutputFault) × Sink
  | [], s => ([], s)
  | event :: rest, s =>
      let (fault, s) := event.emit format s
      let (faults, s) := emitAll format rest s
      (fault :: faults, s)

end LoadBench.Report
