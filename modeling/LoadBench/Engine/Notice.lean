import LoadBench.Fault
import LoadBench.Log.Level
import LoadBench.Phase

/-!
What the engine tells the log. Nothing of it changes what the engine does; a failure that is
swallowed is told here and counted elsewhere.
-/

namespace LoadBench

/-- Something that the engine tells the log. -/
inductive Notice where
  | stageChanged (before after : Stage)
  | commandFailed (fault : Fault)
  | phaseFailures (name : String) (counts : Tally)
  | dialFailed (worker : Nat) (fault : Fault)
  | started (workers capacity : Nat)
  | closing (pending : Nat)
  | shutDown
deriving DecidableEq, Repr

namespace Notice

def level : Notice → Log.Level
  | .stageChanged _ _ | .started _ _ | .closing _ | .shutDown => .debug
  | .commandFailed _ => .trace
  | .phaseFailures _ _ => .warn
  | .dialFailed _ _ => .error

/-- The part of the program that a filter names to select the notice. -/
def target : Notice → String
  | .stageChanged _ _ | .commandFailed _ | .phaseFailures _ _ => "kvpress::driver"
  | .dialFailed _ _ | .started _ _ | .closing _ | .shutDown => "kvpress::pool::manager"

def message : Notice → String
  | .stageChanged before after => before.render ++ " -> " ++ after.render
  | .commandFailed fault => "Direct connection swallowed error: " ++ fault.message
  | .phaseFailures name counts =>
      "Phase " ++ name ++ " swallowed " ++ toString counts.failed ++ " of " ++
        toString counts.executed ++ " command errors"
  | .dialFailed worker fault =>
      "Failed to dial connection for worker " ++ toString worker ++ ": " ++ fault.message
  | .started workers capacity =>
      "Started " ++ toString workers ++ " workers with queue capacity " ++ toString capacity
  | .closing pending => "Closing job queue (" ++ toString pending ++ " jobs pending)"
  | .shutDown => "Worker pool shutdown complete"

/-- The notice as one line of a log. -/
def line (n : Notice) : String := n.level.name ++ " " ++ n.message

end Notice

end LoadBench
