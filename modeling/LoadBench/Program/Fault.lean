import LoadBench.Address
import LoadBench.Report.Sink
import LoadBench.Settings

/-!
Why a run ends early, and how a reader is told: what could not be done, and below it the chain of
what caused it.
-/

namespace LoadBench.Program

/-- Why a run ends early. -/
inductive Fault where
  | settings (f : SettingsFault)
  | address (url : String) (f : AddressFault)
  | start (workers : Nat) (url : String) (f : LoadBench.Fault)
  | phase (kind : PhaseKind) (f : LoadBench.Fault)
  | output (f : Report.OutputFault)
  | shutdown (f : LoadBench.Fault)
deriving DecidableEq, Repr

namespace Fault

/-- A fault of the engine and what caused it, nearest first. -/
def messages (f : LoadBench.Fault) : List String := (f :: f.causes).map (·.message)

/-- What could not be done, and then the causes, nearest first. -/
def chain : Fault → List String
  | .settings f => [f.message]
  | .address url f => ("invalid backend address `" ++ url ++ "`") :: messages f.fault
  | .start workers url f =>
      ("failed to start " ++ toString workers ++ " workers against " ++ url) :: messages f
  | .phase kind f => ("phase " ++ kind.name ++ " could not run") :: messages f
  | .output f => [f.message]
  | .shutdown f => messages f

/-- A cause as a paragraph, with its number in front if there are several. -/
def paragraph (number : Option Nat) (message : String) : String :=
  let (first, next) := match number with
    | some n =>
        let digits := toString n
        (String.ofList (List.replicate (5 - digits.length) ' ') ++ digits ++ ": ", "       ")
    | none => ("    ", "    ")
  first ++ String.intercalate ("\n" ++ next) (message.splitOn "\n")

/-- The causes below a heading of their own. -/
def causes : List String → String
  | [] => ""
  | [cause] => "\n\nCaused by:\n" ++ paragraph none cause
  | several =>
      "\n\nCaused by:\n" ++ String.intercalate "\n"
        (several.zipIdx.map fun (cause, n) => paragraph (some n) cause)

def render (f : Fault) : String :=
  match f.chain with
  | [] => ""
  | message :: rest => "Error: " ++ message ++ causes rest ++ "\n"

end Fault

end LoadBench.Program
