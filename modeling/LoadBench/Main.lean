import LoadBench.Offline
import LoadBench.Program

/-!
The command line. Without a network every dial fails, which is what the machine then tells.
-/

namespace LoadBench

/-- The variables that the program looks at. -/
def knownVariables : List String := Setting.all.map (·.envName) ++ [Program.filterVariable]

def readEnvironment : IO Environment :=
  knownVariables.filterMapM fun name => do
    return (← IO.getEnv name).map fun value => (name, Bytes.ofText value)

/-- The file that adds to the environment, if there is one. -/
def readEnvironmentFile : IO (Option Bytes) := do
  try
    let content ← IO.FS.readBinFile ".env"
    return some content.toList
  catch _ => return none

end LoadBench

open LoadBench

def main (args : List String) : IO UInt32 := do
  let world : Program.World := { connect := Offline.open?, elapsed := fun _ => ⟨0, 0⟩ }
  let exit := Program.run (args.map Bytes.ofText) (← readEnvironment) (← readEnvironmentFile)
    world {}
  (← IO.getStdout).write ⟨exit.output.toArray⟩
  (← IO.getStderr).putStr exit.errors
  return UInt32.ofNat exit.code
