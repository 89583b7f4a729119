import LoadBench.Flags.Parse

/-!
How settings are written. A setting is given in one argument, its flag and its value with an equals
sign between them, or in the environment under its name. The phases may be spread over several
arguments, a piece of the list in each.
-/

namespace LoadBench

/-- What is asked for to run with these settings. -/
def Settings.asked (c : Settings) : Arguments where
  addr := c.url
  iterations := c.iterations
  numWorkers := c.numWorkers
  queueCapacity := c.queueCapacity
  phases := c.phases
  valueSuffix := c.valueSuffix
  format := c.format

namespace Flags

/-- A setting and a value for it. -/
structure Assignment where
  setting : Setting
  value : String
deriving DecidableEq, Repr

/-- The argument that makes an assignment. -/
def Assignment.argument (a : Assignment) : Bytes :=
  Bytes.ofText ("--" ++ a.setting.flag ++ "=" ++ a.value)

/-- The values that are assigned to a setting, in their order. -/
def valuesOf (assignments : List Assignment) (s : Setting) : List String :=
  (assignments.filter (·.setting == s)).map (·.value)

/-- Phases as they are asked for. -/
def phasesText (kinds : List PhaseKind) : String := String.intercalate "," (kinds.map (·.name))

/-- Values that say, one after the other, what is asked for of a setting. The list of phases may be
cut into pieces, none of which is empty; anything else is said at once. -/
def Spells (a : Arguments) : Setting → List String → Prop
  | .phases, values =>
      ∃ parts : List (List PhaseKind), (∀ part ∈ parts, part ≠ []) ∧ parts.flatten = a.phases ∧
        values = parts.map phasesText
  | s, values => values = [a.value s]

end Flags

end LoadBench
