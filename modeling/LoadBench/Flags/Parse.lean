import LoadBench.Environment
import LoadBench.Flags.Fault

/-!
Reading the flags. Arguments are read from left to right. A flag without an attached value takes
the next argument, unless that looks like a flag itself; what was given that way is checked only
when the next flag comes or the arguments end, so a flag that does not exist is told first. After
two dashes alone no flag is recognised, and since nothing but flags is accepted, whatever follows
is a fault.

What no argument gives is taken from the environment, and what that does not give is the default.
-/

namespace LoadBench.Flags

/-- What was given so far. -/
structure Given where
  addr : Option String := none
  iterations : Option Nat := none
  numWorkers : Option Nat := none
  queueCapacity : Option Nat := none
  phases : Option (List PhaseKind) := none
  valueSuffix : Option String := none
  format : Option Format := none
deriving DecidableEq, Repr

namespace Given

/-- Whether a setting was given. -/
def has (g : Given) : Setting → Bool
  | .addr => g.addr.isSome
  | .iterations => g.iterations.isSome
  | .numWorkers => g.numWorkers.isSome
  | .queueCapacity => g.queueCapacity.isSome
  | .phases => g.phases.isSome
  | .valueSuffix => g.valueSuffix.isSome
  | .format => g.format.isSome

/-- What is asked for, where the defaults stand in for what was not given. -/
def toArguments (g : Given) : Arguments where
  addr := g.addr.getD Arguments.default.addr
  iterations := g.iterations.getD Arguments.default.iterations
  numWorkers := g.numWorkers.getD Arguments.default.numWorkers
  queueCapacity := g.queueCapacity.getD Arguments.default.queueCapacity
  phases := g.phases.getD Arguments.default.phases
  valueSuffix := g.valueSuffix.getD Arguments.default.valueSuffix
  format := g.format.getD Arguments.default.format

end Given

def textOf (value : Bytes) : Except Fault String :=
  match value.text? with
  | some s => .ok s
  | none => .error .notText

def numberOf (s : Setting) (value : Bytes) : Except Fault Nat := do
  let text ← textOf value
  match readNumber text with
  | .ok n => .ok n
  | .error reason => .error (.badNumber s text reason)

/-- A value that must be listed. Nothing at all counts as no value. -/
def listedOf {α : Type} (s : Setting) (ofName? : String → Option α) (value : Bytes) :
    Except Fault α :=
  if value.isEmpty then .error (.missing s)
  else
    let text := value.lenientText
    match value.text?.bind ofName? with
    | some a => .ok a
    | none => .error (.notListed s text)

/-- The pieces of a value between commas. -/
def pieces : Bytes → List Bytes
  | [] => [[]]
  | b :: rest =>
      if b = 0x2c then [] :: pieces rest
      else match pieces rest with
        | piece :: others => (b :: piece) :: others
        | [] => [[b]]

/-- Takes a value for a setting. Phases add to those that were given before. -/
def Given.put (g : Given) (s : Setting) (value : Bytes) : Except Fault Given :=
  match s with
  | .addr => do return { g with addr := some (← textOf value) }
  | .iterations => do return { g with iterations := some (← numberOf s value) }
  | .numWorkers => do return { g with numWorkers := some (← numberOf s value) }
  | .queueCapacity => do return { g with queueCapacity := some (← numberOf s value) }
  | .phases => do
      let kinds ← (pieces value).mapM (listedOf s PhaseKind.ofName?)
      return { g with phases := some (g.phases.getD [] ++ kinds) }
  | .valueSuffix => do return { g with valueSuffix := some (← textOf value) }
  | .format => do return { g with format := some (← listedOf s Format.ofName? value) }

/-- Whether a setting may be given several times. -/
def repeats : Setting → Bool
  | .phases => true
  | _ => false

/-- What one argument is. -/
inductive Token where
  /-- Two dashes alone. -/
  | separator
  | long (name : Bytes) (value : Option Bytes)
  | short (letters : Bytes)
  | plain (value : Bytes)
deriving DecidableEq, Repr

/-- A long flag and its attached value, which an equals sign begins. -/
def splitAtEquals : Bytes → Bytes × Option Bytes
  | [] => ([], none)
  | b :: rest =>
      if b = 0x3d then ([], some rest)
      else
        let (name, value) := splitAtEquals rest
        (b :: name, value)

/-- What one argument is. A dash alone is no flag. -/
def Token.of : Bytes → Token
  | [0x2d, 0x2d] => .separator
  | 0x2d :: 0x2d :: rest =>
      let (name, value) := splitAtEquals rest
      .long name value
  | 0x2d :: b :: rest => .short (b :: rest)
  | value => .plain value

/-- The first character of bytes, if they begin with one, and the rest. -/
def firstChar? (value : Bytes) : Option (Char × Bytes) :=
  [1, 2, 3, 4].findSome? fun n =>
    match (Bytes.text? (value.take n)).map (·.toList) with
    | some [c] => some (c, value.drop n)
    | _ => none

/-- Why reading stops before the end of the arguments. -/
inductive Stop where
  | fault (f : Fault)
  | shortHelp
  | longHelp
  | version
deriving DecidableEq, Repr

/-- How far the reading has come. -/
structure Scan where
  given : Given := {}
  /-- The settings that were given, in the order in which they first were. -/
  order : List Setting := []
  /-- A flag whose value has not been checked, and its value once there is one. -/
  pending : Option (Setting × Option Bytes) := none
deriving DecidableEq, Repr

namespace Scan

/-- Notes that a setting was given. -/
def mention (scan : Scan) (s : Setting) : Scan :=
  if scan.order.contains s then scan else { scan with order := scan.order ++ [s] }

/-- Takes a value that was given by a flag. -/
def take (scan : Scan) (s : Setting) (value : Bytes) : Except Fault Scan :=
  if scan.given.has s && !repeats s then .error (.repeated s)
  else do return { scan.mention s with given := ← scan.given.put s value }

/-- Checks what is pending. -/
def resolve (scan : Scan) : Except Fault Scan :=
  match scan.pending with
  | none => .ok scan
  | some (s, none) => .error (.missing s)
  | some (s, some value) => { scan with pending := none }.take s value

/-- The settings that were given, counting one that is pending with a value. One that was given
before and is pending again, although it may not be, is not counted at all. -/
def named (scan : Scan) : List Setting :=
  match scan.pending with
  | some (s, some _) =>
      if scan.order.contains s && !repeats s then scan.order.erase s else (scan.mention s).order
  | _ => scan.order

/-- A setting's flag was read, with its value if one is attached. -/
def flag (scan : Scan) (s : Setting) (value : Option Bytes) : Except Fault Scan := do
  let scan ← scan.resolve
  match value with
  | some value => scan.take s value
  | none => return { scan with pending := some (s, none) }

/-- A switch was read, which ends the reading unless something pending is at fault. -/
def switch (scan : Scan) (stop : Stop) : Stop :=
  match scan.resolve with
  | .ok _ => stop
  | .error f => .fault f

/-- A long flag was read. -/
def long (scan : Scan) (name : Bytes) (value : Option Bytes) : Except Stop Scan :=
  match name.text?.bind Setting.ofFlag? with
  | some s => (scan.flag s value).mapError .fault
  | none =>
      match name.text?.bind Switch.ofFlag? with
      | some switch =>
          match value with
          | some value =>
              let settings := !scan.order.isEmpty
              .error (.fault (.unexpectedValue switch value.lenientText settings))
          | none =>
              match switch with
              | .help => .error (scan.switch .longHelp)
              | .version => .error (scan.switch .version)
      | none =>
          let name := name.lenientText
          .error (.fault (.unknown ("--" ++ name) (some name) scan.named))

/-- The value attached to a short flag: the rest of the argument, without an equals sign. -/
def attached : Bytes → Option Bytes
  | [] => none
  | 0x3d :: rest => some rest
  | rest => some rest

/-- Short flags were read. The first of them decides, since each takes the rest as its value or
ends the reading. -/
def short (scan : Scan) (letters : Bytes) : Except Stop Scan :=
  match firstChar? letters with
  | none => .error (.fault (.unknown ("-" ++ letters.lenientText) none []))
  | some (c, rest) =>
      match Setting.ofShort? c with
      | some s => (scan.flag s (attached rest)).mapError .fault
      | none =>
          match Switch.ofShort? c with
          | some .help => .error (scan.switch .shortHelp)
          | some .version => .error (scan.switch .version)
          | none => .error (.fault (.unknown ("-" ++ String.singleton c) none []))

/-- An argument that is no flag was read: the value that a flag waits for, or a fault. -/
def plain (scan : Scan) (value : Bytes) : Except Stop Scan :=
  match scan.pending with
  | some (s, none) => .ok { scan with pending := some (s, some value) }
  | _ => .error (.fault (.unknown value.lenientText none []))

/-- Reads the arguments. -/
def read : Scan → List Bytes → Except Stop Scan
  | scan, [] => scan.resolve.mapError .fault
  | scan, arg :: rest =>
      match Token.of arg with
      | .separator =>
          match rest with
          | [] => scan.resolve.mapError .fault
          | extra :: _ => .error (.fault (.unknown extra.lenientText none []))
      | .long name value => do read (← scan.long name value) rest
      | .short letters => do read (← scan.short letters) rest
      | .plain value => do read (← scan.plain value) rest

end Scan

/-- Takes one setting from the environment unless it was given. -/
def takeVariable (env : Environment) (g : Given) (s : Setting) : Except Fault Given :=
  if g.has s then .ok g
  else match env.get? s.envName with
    | some value => g.put s value
    | none => .ok g

/-- Reads the arguments, and then the environment for what they do not give. -/
def parse (args : List Bytes) (env : Environment) : Except Stop Arguments := do
  let scan ← Scan.read {} args
  let given ← (Setting.all.foldlM (takeVariable env) scan.given).mapError Stop.fault
  return given.toArguments

end LoadBench.Flags
