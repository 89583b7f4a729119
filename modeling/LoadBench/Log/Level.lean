/-!
The levels of log messages, from the most severe one to the most talkative one.
-/

namespace LoadBench.Log

/-- How severe a message is. -/
inductive Level where
  | error
  | warn
  | info
  | debug
  | trace
deriving DecidableEq, Repr

namespace Level

/-- All levels, the most severe one first. -/
def all : List Level := [.error, .warn, .info, .debug, .trace]

/-- The level as it stands before a message. -/
def name : Level → String
  | .error => "ERROR"
  | .warn => "WARN"
  | .info => "INFO"
  | .debug => "DEBUG"
  | .trace => "TRACE"

/-- The number of a level, by which it is compared and may be asked for. -/
def rank : Level → Nat
  | .error => 1
  | .warn => 2
  | .info => 3
  | .debug => 4
  | .trace => 5

end Level

end LoadBench.Log
