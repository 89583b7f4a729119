import LoadBench.Bytes

/-!
A command is a name and an ordered list of arguments. The name is text; an argument may be any
bytes. Nothing here interprets either: both are handed to the backend as they are.
-/

namespace LoadBench

/-- A named command with its arguments in order. -/
structure Command where
  name : String
  args : List Bytes := []
deriving DecidableEq, Repr

namespace Command

def ofName (name : String) : Command := { name }

/-- The command with one more argument at the end. -/
def arg (c : Command) (a : Bytes) : Command := { c with args := c.args ++ [a] }

/-- The command with further arguments at the end, in their order. -/
def argsFrom (c : Command) (as : List Bytes) : Command := { c with args := c.args ++ as }

/-- The command with a text as one more argument. -/
def textArg (c : Command) (a : String) : Command := c.arg (Bytes.ofText a)

/-- One argument for display: as quoted text if it is text, as quoted bytes if not. The leading
`b` of the latter keeps the two apart. -/
def renderArg (a : Bytes) : String :=
  match a.text? with
  | some s => Text.quoted s
  | none => a.quoted

/-- The command for display, its name first, as a list in brackets. -/
def render (c : Command) : String :=
  "[" ++ String.intercalate ", " (Text.quoted c.name :: c.args.map renderArg) ++ "]"

@[simp] theorem args_arg (c : Command) (a : Bytes) : (c.arg a).args = c.args ++ [a] := rfl

@[simp] theorem args_argsFrom (c : Command) (as : List Bytes) :
    (c.argsFrom as).args = c.args ++ as := rfl

/-- Adding a list of arguments is adding them one by one. -/
theorem argsFrom_eq_foldl (c : Command) (as : List Bytes) :
    c.argsFrom as = as.foldl arg c := by
  induction as generalizing c with
  | nil => simp [argsFrom]
  | cons a as ih => simp [← ih, argsFrom, arg]

end Command

end LoadBench
