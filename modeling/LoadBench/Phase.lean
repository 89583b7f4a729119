import LoadBench.Command
import LoadBench.Tally

/-!
Phases. A phase is a named batch of commands, given by their number and by a function from the
index of a command to the command. Its mode says how the commands are handed out: spread over the
worker pool, or one at a time on one connection.
-/

namespace LoadBench

/-- How a phase hands out its commands. -/
inductive Mode where
  /-- Spread over the worker pool. -/
  | pooled
  /-- One at a time on the driver's own connection. -/
  | direct
deriving DecidableEq, Repr, Inhabited

namespace Mode

/-- The mode as a reader sees it. -/
def name : Mode → String
  | .pooled => "pooled"
  | .direct => "direct"

def render : Mode → String
  | .pooled => "Pooled"
  | .direct => "Direct"

end Mode

/-- How far a phase has come. A pooled phase is pending, generating, awaiting completion, done; a
direct phase is pending, executing, done. -/
inductive Stage where
  | pending
  | generating
  | awaitingCompletion
  | executing
  | done
deriving DecidableEq, Repr, Inhabited

namespace Stage

def render : Stage → String
  | .pending => "Pending"
  | .generating => "Generating"
  | .awaitingCompletion => "AwaitingCompletion"
  | .executing => "Executing"
  | .done => "Done"

/-- Whether a phase of this mode is ever in this stage. -/
def belongsTo : Stage → Mode → Bool
  | .pending, _ | .done, _ => true
  | .generating, .pooled | .awaitingCompletion, .pooled | .executing, .direct => true
  | .generating, .direct | .awaitingCompletion, .direct | .executing, .pooled => false

def isTerminal (s : Stage) : Bool := s == .done

/-- The stage that follows. A stage that the mode never visits has none. -/
def advance? (s : Stage) (mode : Mode) : Option Stage :=
  if s.belongsTo mode then
    some <| match s, mode with
      | .pending, .pooled => .generating
      | .pending, .direct => .executing
      | .generating, .pooled => .awaitingCompletion
      | _, _ => .done
  else none

/-- What a caller is told that advances a stage the mode never visits. -/
def misuse : String := "phase state does not belong to this dispatch mode"

theorem advance?_eq_none_iff (s : Stage) (mode : Mode) :
    s.advance? mode = none ↔ s.belongsTo mode = false := by
  cases s <;> cases mode <;> simp [advance?, belongsTo]

/-- A stage that a mode visits leads to another one that it visits. -/
theorem belongsTo_of_advance? {s next : Stage} {mode : Mode} (h : s.advance? mode = some next) :
    next.belongsTo mode = true := by
  cases s <;> cases mode <;> simp [advance?, belongsTo] at h <;> subst h <;> rfl

end Stage

/-- A named batch of commands. Making a command may fail, in which case it gives the text of the
panic. -/
structure Phase where
  name : String
  mode : Mode
  iterations : Nat
  generate : Nat → Except String Command

namespace Phase

/-- The phase for a developer. The function that makes the commands has no text. -/
def render (p : Phase) : String :=
  "Phase \x7b name: " ++ Text.quoted p.name ++ ", mode: " ++ p.mode.render ++
    ", iterations: " ++ toString p.iterations ++ ", .. \x7d"

end Phase

/-- What is known of a phase that has been run, apart from the time it took. -/
structure PhaseCount where
  name : String
  mode : Mode
  iterations : Nat
  counts : Tally
deriving DecidableEq, Repr

/-- What is known of a phase whose counters were read like this before and after it. -/
def Phase.report (phase : Phase) (before after : Tally) : PhaseCount where
  name := phase.name
  mode := phase.mode
  iterations := phase.iterations
  counts := after.since before

end LoadBench
