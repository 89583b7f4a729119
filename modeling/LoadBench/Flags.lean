import LoadBench.Settings

/-!
The flags of the program. Each setting has a flag, an environment variable and a default; one of
them also has a short flag, and one may be given several times.
-/

namespace LoadBench

/-- The settings that can be asked for, one by one. -/
inductive Setting where
  | addr
  | iterations
  | numWorkers
  | queueCapacity
  | phases
  | valueSuffix
  | format
deriving DecidableEq, Repr

namespace Setting

/-- Every setting, in the order in which they are listed to a reader. -/
def all : List Setting :=
  [.addr, .iterations, .numWorkers, .queueCapacity, .phases, .valueSuffix, .format]

/-- The long flag, without its dashes. -/
def flag : Setting → String
  | .addr => "addr"
  | .iterations => "iterations"
  | .numWorkers => "num-workers"
  | .queueCapacity => "queue-capacity"
  | .phases => "phases"
  | .valueSuffix => "value-suffix"
  | .format => "format"

/-- The short flag, without its dash. -/
def short? : Setting → Option Char
  | .iterations => some 'n'
  | _ => none

/-- What stands for the value when the flag is described. -/
def placeholder : Setting → String
  | .addr => "ADDR"
  | .iterations => "ITERATIONS"
  | .numWorkers => "NUM_WORKERS"
  | .queueCapacity => "QUEUE_CAPACITY"
  | .phases => "PHASES"
  | .valueSuffix => "VALUE_SUFFIX"
  | .format => "FORMAT"

def envName (s : Setting) : String := "KVPRESS_" ++ s.placeholder

/-- The flag as it is described to a reader. -/
def usage (s : Setting) : String := "--" ++ s.flag ++ " <" ++ s.placeholder ++ ">"

/-- The values that may be given, if they can be listed. -/
def choices : Setting → List String
  | .phases => PhaseKind.all.map (·.name)
  | .format => Format.all.map (·.name)
  | _ => []

def ofFlag? (name : String) : Option Setting := all.find? (·.flag == name)

def ofShort? (c : Char) : Option Setting := all.find? (·.short? == some c)

theorem ofFlag?_flag (s : Setting) : ofFlag? s.flag = some s := by
  cases s <;> decide

end Setting

namespace Arguments

/-- What is asked for when nothing is given. -/
def default : Arguments where
  addr := "127.0.0.1:6379"
  iterations := 40000
  numWorkers := 50
  queueCapacity := 100
  phases := PhaseKind.all
  valueSuffix := "123456789809"
  format := .text

/-- The value of one setting, as it would be given. -/
def value (a : Arguments) : Setting → String
  | .addr => a.addr
  | .iterations => toString a.iterations
  | .numWorkers => toString a.numWorkers
  | .queueCapacity => toString a.queueCapacity
  | .phases => String.intercalate "," (a.phases.map (·.name))
  | .valueSuffix => a.valueSuffix
  | .format => a.format.name

end Arguments

end LoadBench
