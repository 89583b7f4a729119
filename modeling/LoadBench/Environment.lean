import LoadBench.Bytes

/-!
The environment of a process: names and what they stand for. A name stands for bytes, which need
not be text.
-/

namespace LoadBench

/-- An environment. Of two entries for one name the first counts. -/
abbrev Environment := List (String × Bytes)

namespace Environment

def get? (env : Environment) (name : String) : Option Bytes := env.lookup name

/-- Gives a name a meaning unless it stands for a text already. -/
def addNew (env : Environment) (name : String) (value : Bytes) : Environment :=
  if ((env.get? name).bind Bytes.text?).isSome then env else (name, value) :: env

end Environment

end LoadBench
