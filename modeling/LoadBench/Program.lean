import LoadBench.Engine.Schedule
import LoadBench.Environment.File
import LoadBench.Flags.Help
import LoadBench.Flags.Parse
import LoadBench.Log.Filter
import LoadBench.Program.Fault

/-!
The program. It reads its settings, opens the address, starts the workers, and then runs one phase
after the other: a header before the phase, the phase, a report after it. It stops at the first
phase or output that fails. Failures of commands alone are counted and never stop it.

What a run depends on from outside is given to it: the backend behind an address, in which order
the steps of the engine are taken, how long each phase took, how much the output takes, and who ends
it when it can only wait. An interruption is no fault: what was reported stays, and the rest is
skipped.
-/

namespace LoadBench.Program

/-- How a run is interrupted from outside. -/
inductive Signal where
  /-- From the terminal. -/
  | interrupt
  | terminate
deriving DecidableEq, Repr

/-- What the log says of a signal. -/
def Signal.message : Signal → String
  | .interrupt => "Received Ctrl+C signal"
  | .terminate => "Received SIGTERM signal"

/-- What a run depends on from outside. -/
structure World where
  /-- The backend behind an address. -/
  connect : String → Except AddressFault Backend
  /-- How a call to the engine is served. -/
  serve : Backend → Engine → Request → Answer × Engine := Engine.perform
  /-- How long a phase took, by the number of phases before it. -/
  elapsed : Nat → Span
  /-- The signal that comes when the run can only wait. -/
  signal : Signal := .terminate

structure Message where
  level : Log.Level
  target : String
  text : String
deriving DecidableEq, Repr

namespace Message

/-- The part of the program that speaks for itself. -/
def ownTarget : String := "kvpress"

/-- A message of the engine. -/
def ofNotice (n : Notice) : Message := ⟨n.level, n.target, n.message⟩

def line (m : Message) : String := m.level.name ++ " " ++ m.text ++ "\n"

end Message

/-- One thing that happened in a run, for statements about the order of such things. -/
inductive Act where
  | wrote (event : Report.Event) (fault : Option Report.OutputFault)
  /-- Something happened in the engine during a call. -/
  | happened (event : Event)
  /-- A call to the engine came to its end. -/
  | answered (answer : Answer)
deriving DecidableEq, Repr

/-- The state of a run. -/
structure Run where
  engine : Engine := {}
  sink : Report.Sink := {}
  log : Array Message := #[]
  /-- How many phases are done. -/
  done : Nat := 0
  acts : Array Act := #[]

/-- How a run ends early. -/
inductive Stop where
  | fault (f : Fault)
  | panic (message : String)
  /-- The run could only wait and was interrupted. -/
  | interrupted
deriving DecidableEq, Repr

namespace Run

/-- Tells the log. -/
def tell (r : Run) (level : Log.Level) (text : String) : Run :=
  { r with log := r.log.push ⟨level, Message.ownTarget, text⟩ }

/-- Makes a call to the engine. What the engine tells the log is passed on. -/
def call (w : World) (b : Backend) (r : Run) (request : Request) : Answer × Run :=
  let (answer, engine) := w.serve b r.engine request
  let notices := engine.notices.extract r.engine.notices.size engine.notices.size
  let events := engine.events.extract r.engine.events.size engine.events.size
  (answer,
    { r with
      engine
      log := r.log ++ notices.map Message.ofNotice
      acts := (r.acts ++ events.map Act.happened).push (.answered answer) })

def write (format : Format) (r : Run) (event : Report.Event) : Except Stop Unit × Run :=
  let (fault, sink) := event.emit format r.sink
  (match fault with
    | some f => .error (.fault (.output f))
    | none => .ok (),
    { r with sink, acts := r.acts.push (.wrote event fault) })

/-- Why a call that gave no result stops the run. -/
def stopOf (wrap : LoadBench.Fault → Fault) : Answer → Stop
  | .fault f => .fault (wrap f)
  | .panic message => .panic message
  | _ => .interrupted

/-- Runs one phase between its header and its report. -/
def phase (s : Settings) (w : World) (b : Backend) (r : Run) (kind : PhaseKind) :
    Except Stop Unit × Run :=
  match r.write s.format (.started kind s.iterations) with
  | (.error stop, r) => (.error stop, r)
  | (.ok _, r) =>
      match r.call w b (.plan [kind.phase s.iterations s.valueSuffix]) with
      | (.reports [counts], r) =>
          let report := { counts with elapsed := w.elapsed r.done : PhaseReport }
          { r with done := r.done + 1 }.write s.format (.finished kind report)
      | (answer, r) => (.error (stopOf (.phase kind) answer), r)

/-- Runs phases one after the other until one fails. -/
def phases (s : Settings) (w : World) (b : Backend) : Run → List PhaseKind →
    Except Stop Unit × Run
  | r, [] => (.ok (), r)
  | r, kind :: rest =>
      match r.phase s w b kind with
      | (.error stop, r) => (.error stop, r)
      | (.ok _, r) => phases s w b r rest

/-- Warns if commands failed, and shuts the engine down. -/
def conclude (w : World) (b : Backend) (r : Run) : Except Stop Unit × Run :=
  let totals := (r.engine.driver.map fun d => r.engine.tallyAt d.tally).getD {}
  let r := if 0 < totals.failed then
      r.tell .warn (toString totals.failed ++ " of " ++ toString totals.executed ++
        " commands failed; throughput numbers are suspect")
    else r
  match r.call w b .shutdown with
  | (.ok, r) => (.ok (), r)
  | (answer, r) => (.error (stopOf .shutdown answer), r)

def execute (s : Settings) (w : World) (r : Run) : Except Stop Unit × Run :=
  match w.connect s.url with
  | .error f => (.error (.fault (.address s.url f)), r)
  | .ok b =>
      match r.call w b (.start s.numWorkers s.queueCapacity false) with
      | (.started workers _, r) =>
          let r := r.tell .debug ("Dialed " ++ toString workers ++ " worker connections")
          match phases s w b r s.phases with
          | (.error stop, r) => (.error stop, r)
          | (.ok _, r) => r.conclude w b
      | (answer, r) => (.error (stopOf (.start s.numWorkers s.url) answer), r)

end Run

/-- How the program ended, and what it wrote. -/
structure Exit where
  code : Nat
  output : Bytes := []
  errors : String := ""
deriving DecidableEq, Repr

/-- The variable that holds the filter of the log. -/
def filterVariable : String := "RUST_LOG"

/-- The filter of the log that the environment asks for. -/
def filterOf (env : Environment) : Log.Filter :=
  (((env.get? filterVariable).bind Bytes.text?).bind Log.Filter.parse?).getD Log.Filter.standard

/-- What of the log passes a filter, as it is written. -/
def logText (filter : Log.Filter) (log : Array Message) : String :=
  String.join ((log.toList.filter fun m => filter.allows m.target m.level).map (·.line))

/-- What the log says of a run that was interrupted. -/
def interruptedText : String := "Benchmark interrupted; remaining phases skipped"

/-- What a reader is told when the program panics. -/
def panicText (message : String) : String := "thread 'main' panicked:\n" ++ message ++ "\n"

/-- The end of a run with given settings. -/
def runWith (s : Settings) (filter : Log.Filter) (w : World) (sink : Report.Sink) : Exit :=
  let r : Run := ({ sink } : Run).tell .info ("Starting benchmark with full config: " ++ s.render)
  let (outcome, r) := r.execute s w
  let log := logText filter r.log
  match outcome with
  | .ok _ => { code := 0, output := r.sink.content, errors := log }
  | .error (.fault f) => { code := 1, output := r.sink.content, errors := log ++ f.render }
  | .error (.panic message) =>
      { code := 101, output := r.sink.content, errors := log ++ panicText message }
  | .error .interrupted =>
      let r := (r.tell .info w.signal.message).tell .warn interruptedText
      { code := 0, output := r.sink.content, errors := logText filter r.log }

/-- The program with its arguments, its environment, and the file that adds to that. -/
def run (args : List Bytes) (env : Environment) (file : Option Bytes) (w : World)
    (sink : Report.Sink) : Exit :=
  let env := match file with
    | some file => env.addFile file
    | none => env
  match Flags.parse args env with
  | .error (.fault f) => { code := 2, errors := f.render }
  | .error .shortHelp => { code := 0, output := Bytes.ofText (Flags.shortHelp env) }
  | .error .longHelp => { code := 0, output := Bytes.ofText (Flags.longHelp env) }
  | .error .version => { code := 0, output := Bytes.ofText Flags.version }
  | .ok arguments =>
      match Settings.ofArguments arguments with
      | .error f => { code := 1, errors := (Fault.settings f).render }
      | .ok settings => runWith settings (filterOf env) w sink

end LoadBench.Program
