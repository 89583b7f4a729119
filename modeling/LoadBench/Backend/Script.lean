import LoadBench.Backend

/-!
Backends given by rules. The first rule that applies decides; a dial or a command to which none
applies succeeds.
-/

namespace LoadBench.Backend

/-- Which dials a rule is about. -/
inductive DialScope where
  | at (attempt : Nat)
  | from (attempt : Nat)
deriving DecidableEq, Repr

namespace DialScope

/-- Whether the scope holds a dial, by the number of dials before it. -/
def holds (scope : DialScope) (attempt : Nat) : Bool :=
  match scope with
  | .at k => attempt == k
  | .from k => decide (k ≤ attempt)

end DialScope

structure DialRule where
  scope : DialScope
  conduct : DialConduct
deriving DecidableEq, Repr

/-- What a rule about commands makes of them. -/
inductive Verdict where
  | succeed
  | fail (message : String)
  | panic (message : String)
  | panicAtOnce (message : String)
  | stall
  | stallThenFail (message : String)
deriving DecidableEq, Repr

/-- A rule about commands. All of its conditions must hold. -/
structure Rule where
  name : Option String := none
  /-- Some argument is this one. -/
  argument : Option Bytes := none
  /-- The number of executions before it is one of these. -/
  attempts : Option (List Nat) := none
  /-- It is the last of so many executions in a row. -/
  every : Option Nat := none
  conn : Option Nat := none
  verdict : Verdict
deriving DecidableEq, Repr

namespace Rule

/-- Whether the rule applies to a command on a connection after so many executions. -/
def applies (r : Rule) (attempt conn : Nat) (command : Command) : Bool :=
  r.name.all (· == command.name) &&
    r.argument.all (command.args.contains ·) &&
    r.attempts.all (·.contains attempt) &&
    r.every.all (fun n => decide (0 < n) && attempt % n == n - 1) &&
    r.conn.all (· == conn)

/-- The conduct that a verdict stands for. A failure is told as a fault of the command. -/
def conduct (r : Rule) (command : Command) : Conduct :=
  match r.verdict with
  | .succeed => .succeed
  | .fail message => .fail (.command command.name (.told message))
  | .panic message => .panic message
  | .panicAtOnce message => .panicAtOnce message
  | .stall => .stall none
  | .stallThenFail message => .stall (some (.command command.name (.told message)))

end Rule

/-- A backend as a list of rules. -/
structure Script where
  dials : List DialRule := []
  rules : List Rule := []
  /-- The connections that panic when they are closed. -/
  closePanics : List Nat := []
deriving DecidableEq, Repr

namespace Script

def toBackend (script : Script) : Backend where
  dial attempt :=
    match script.dials.find? (·.scope.holds attempt) with
    | some rule => rule.conduct
    | none => .connect
  execute history conn command :=
    match script.rules.find? (·.applies history.size conn command) with
    | some rule => rule.conduct command
    | none => .succeed
  closePanic conn :=
    if script.closePanics.contains conn then
      some ("connection " ++ toString conn ++ " blew up on drop")
    else none

end Script

end LoadBench.Backend
