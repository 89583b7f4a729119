import LoadBench.Flags
import LoadBench.Flags.Number
import LoadBench.Text.Plain
import LoadBench.Text.Similarity

/-!
What can be wrong with the flags, and what a reader is told of it: the fault itself, what may have
been meant, how the program is called, and where there is help.
-/

namespace LoadBench.Flags

/-- A flag without a value. -/
inductive Switch where
  | help
  | version
deriving DecidableEq, Repr

namespace Switch

/-- The long flag, without its dashes. -/
def flag : Switch → String
  | .help => "help"
  | .version => "version"

/-- The short flag, without its dash. -/
def short : Switch → Char
  | .help => 'h'
  | .version => 'V'

def ofFlag? (name : String) : Option Switch := [help, version].find? (·.flag == name)

def ofShort? (c : Char) : Option Switch := [help, version].find? (·.short == c)

end Switch

inductive Fault where
  /-- There is no such argument. A long flag may be meant to be another one, and then the settings
  that were given so far are recalled. -/
  | unknown (shown : String) (flag : Option String) (given : List Setting)
  | repeated (setting : Setting)
  | missing (setting : Setting)
  | badNumber (setting : Setting) (text : String) (reason : NumberFault)
  /-- The value is not among those that may be given. -/
  | notListed (setting : Setting) (text : String)
  /-- Some argument or variable is no text. -/
  | notText
  /-- A switch was given a value, after some settings or before any. -/
  | unexpectedValue (switch : Switch) (value : String) (settings : Bool)
deriving DecidableEq, Repr

namespace Fault

/-- The values that may be given, on a line of their own. -/
def choicesLine (s : Setting) : String :=
  match s.choices with
  | [] => ""
  | choices => "\n  [possible values: " ++ String.intercalate ", " choices ++ "]"

/-- A text that was given, in quotes. -/
def given (text : String) : String := "'" ++ Text.bold text ++ "'"

def summary : Fault → String
  | .unknown shown _ _ => "unexpected argument " ++ given shown ++ " found"
  | .repeated s => "the argument '" ++ s.usage ++ "' cannot be used multiple times"
  | .missing s =>
      "a value is required for '" ++ s.usage ++ "' but none was supplied" ++ choicesLine s
  | .badNumber s text reason =>
      "invalid value " ++ given text ++ " for '" ++ s.usage ++ "': " ++ reason.message
  | .notListed s text =>
      "invalid value " ++ given text ++ " for '" ++ s.usage ++ "'" ++ choicesLine s
  | .notText => "invalid UTF-8 was detected in one or more arguments"
  | .unexpectedValue switch value _ =>
      "unexpected value " ++ given value ++ " for '--" ++ switch.flag ++
        "' found; no more were expected"

def longFlags : List String :=
  Setting.all.map (·.flag) ++ [Switch.help.flag, Switch.version.flag]

/-- The long flag that may have been meant. -/
def meantFlag? : Fault → Option String
  | .unknown _ (some flag) _ => Text.mostSimilar? flag longFlags
  | _ => none

/-- What may have been meant, as a paragraph. -/
def tip (f : Fault) : String :=
  match f with
  | .notListed s text =>
      match Text.mostSimilar? text s.choices with
      | some choice => "\n\n  tip: a similar value exists: '" ++ choice ++ "'"
      | none => ""
  | _ =>
      match f.meantFlag? with
      | some flag => "\n\n  tip: a similar argument exists: '--" ++ flag ++ "'"
      | none => ""

/-- A long flag with what stands for its value. -/
def flagUsage (flag : String) : String :=
  match Setting.ofFlag? flag with
  | some s => s.usage
  | none => "--" ++ flag

/-- How the program is called with some flags, or in general. -/
def usageLine (flags : List String) : String :=
  "\n\nUsage: kvpress" ++
    match flags with
    | [] => " [OPTIONS]"
    | flags => String.join (flags.map (" " ++ flagUsage ·))

/-- All settings, of which any may be given. -/
def anySetting : String := " <" ++ String.intercalate "|" (Setting.all.map (·.usage)) ++ ">"

/-- How the program is called, as a paragraph, where the fault is about the form of the call. -/
def usage (f : Fault) : String :=
  match f with
  | .unknown _ none _ | .repeated _ | .notText => usageLine []
  | .unknown _ (some _) given =>
      let meant := f.meantFlag?.toList
      usageLine (given.map (·.flag) ++ meant.filter fun flag => !(given.map (·.flag)).contains flag)
  | .unexpectedValue switch _ settings =>
      usageLine [switch.flag] ++ if settings then anySetting else ""
  | _ => ""

/-- Everything that a reader is told. -/
def render (f : Fault) : String :=
  Text.plain <|
    "error: " ++ f.summary ++ f.tip ++ f.usage ++ "\n\nFor more information, try '--help'.\n"

end Fault

end LoadBench.Flags
