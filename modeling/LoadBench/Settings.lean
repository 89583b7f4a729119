import LoadBench.Report
import LoadBench.Text.Blank

/-!
The settings of a run. What is asked for is checked before anything is started: there must be a
worker, room for a job, a phase, and an address. An address without a scheme gets one.
-/

namespace LoadBench

/-- What is asked for. -/
structure Arguments where
  addr : String
  iterations : Nat
  numWorkers : Nat
  queueCapacity : Nat
  phases : List PhaseKind
  valueSuffix : String
  format : Format
deriving DecidableEq, Repr

/-- What a run works with. -/
structure Settings where
  url : String
  iterations : Nat
  numWorkers : Nat
  queueCapacity : Nat
  phases : List PhaseKind
  valueSuffix : String
  format : Format
deriving DecidableEq, Repr

/-- Why what is asked for cannot be run. -/
inductive SettingsFault where
  | noWorkers
  | noCapacity
  | noPhases
  | noAddress
deriving DecidableEq, Repr

namespace SettingsFault

def message : SettingsFault → String
  | .noWorkers => "KVPRESS_NUM_WORKERS must be greater than 0"
  | .noCapacity => "KVPRESS_QUEUE_CAPACITY must be greater than 0"
  | .noPhases => "KVPRESS_PHASES must name at least one phase"
  | .noAddress => "KVPRESS_ADDR must not be empty"

end SettingsFault

namespace Settings

def startsWith (s start : String) : Bool := start.toList.isPrefixOf s.toList

/-- Whether an address is written with one of the two schemes. Case matters. -/
def hasScheme (addr : String) : Bool :=
  startsWith addr "redis://" || startsWith addr "rediss://"

def urlOf (addr : String) : String :=
  if hasScheme addr then addr else "redis://" ++ addr ++ "/"

/-- Checks what is asked for. Of several faults the first one in this order is told. -/
def ofArguments (a : Arguments) : Except SettingsFault Settings :=
  if a.numWorkers = 0 then .error .noWorkers
  else if a.queueCapacity = 0 then .error .noCapacity
  else if a.phases.isEmpty then .error .noPhases
  else if (Text.trim a.addr).isEmpty then .error .noAddress
  else .ok
    { url := urlOf (Text.trim a.addr)
      iterations := a.iterations
      numWorkers := a.numWorkers
      queueCapacity := a.queueCapacity
      phases := a.phases
      valueSuffix := a.valueSuffix
      format := a.format }

/-- The lines of the settings for a developer. -/
def lines (s : Settings) : List String :=
  ["BenchConfig \x7b",
    "    url: " ++ Text.quoted s.url ++ ",",
    "    iterations: " ++ toString s.iterations ++ ",",
    "    num_workers: " ++ toString s.numWorkers ++ ",",
    "    queue_capacity: " ++ toString s.queueCapacity ++ ",",
    "    phases: ["] ++
  s.phases.map (fun kind => "        " ++ kind.render ++ ",") ++
  ["    ],",
    "    value_suffix: " ++ Text.quoted s.valueSuffix ++ ",",
    "    format: " ++ s.format.render ++ ",",
    "\x7d"]

def render (s : Settings) : String := String.intercalate "\n" s.lines

end Settings

end LoadBench
