import LoadBench.Log.Level
import LoadBench.Log.Pattern
import LoadBench.Text.Blank

/-!
Filters of log messages. A filter is a list of directives between commas. A directive is a level, or
it names a part of the program and may then give a level after an equals sign. Between brackets
behind the part it may name a span, and between braces there a field with a value.

A directive that names a span is about what is told within that span, and so is one that gives a
field a value. All others are about single messages: of those that are about a message the one that
names the longest part decides, of equally long ones the one that asks for a field, and of equal
ones the last. A message that no directive is about does not pass.
-/

namespace LoadBench.Log

structure Field where
  name : String
  /-- Whether the directive asks for a value as well. -/
  valued : Bool
deriving DecidableEq, Repr

/-- A directive. Nothing passes a directive without a level. -/
structure Directive where
  /-- The part of the program that it is about, or all of it. -/
  target : Option String := none
  span : Option String := none
  field : Option Field := none
  level : Option Level
deriving DecidableEq, Repr

abbrev Filter := List Directive

namespace Filter

/-- A number without regard to its size. A plus sign may stand before it. -/
def number? (s : List Char) : Option Nat :=
  let digits := if s.head? = some '+' then s.drop 1 else s
  if digits.isEmpty || !digits.all Char.isDigit then none
  else some (digits.foldl (fun n c => 10 * n + (c.toNat - '0'.toNat)) 0)

/-- The level with a given name or number, where the outer `none` is no level at all. -/
def level? (s : List Char) : Option (Option Level) :=
  let word := (String.ofList s).toLower
  if word = "off" || number? s = some 0 then some none
  else (Level.all.find? fun l => l.name.toLower == word || number? s == some l.rank).map some

/-- The level after an equals sign. Nothing at all stands for the most talkative level. -/
def levelAfter? (s : List Char) : Option (Option Level) :=
  if s.isEmpty then some (some .trace) else level? s

/-- Whether a text is a fraction or a power of ten, such as may follow a sign. -/
def isDecimal (s : List Char) : Bool :=
  let mantissa := s.takeWhile fun c => c ≠ 'e' && c ≠ 'E'
  let isExponent : List Char → Bool
    | [] => true
    | _ :: rest =>
        let digits := if rest.head? = some '+' || rest.head? = some '-' then rest.drop 1 else rest
        !digits.isEmpty && digits.all Char.isDigit
  let fraction := mantissa.dropWhile Char.isDigit
  mantissa.any Char.isDigit && isExponent (s.drop mantissa.length) &&
    (fraction.isEmpty || fraction.head? = some '.' && (fraction.drop 1).all Char.isDigit)

/-- Whether a text is a value: a pattern, or a number with a plus sign, which would be none. -/
def isValue : List Char → Bool
  | '+' :: rest =>
      isDecimal rest || ["inf", "infinity", "nan"].contains (String.ofList rest).toLower
  | s => Pattern.isWellFormed s

/-- Reads a field with its value, if it has one. -/
def field? (s : List Char) : Option Field :=
  let name := s.takeWhile (· ≠ '=')
  match s.drop name.length with
  | [] => if name.isEmpty then none else some { name := String.ofList name, valued := false }
  | _ :: rest =>
      if isValue (rest.takeWhile (· ≠ '=')) then
        some { name := String.ofList name, valued := true }
      else none

/-- Where the reader of a directive stands. A number is the place at which a name began. -/
inductive Place where
  | start
  /-- In a level or in the name of a part. -/
  | word (start : Nat)
  | span (start : Nat)
  | field (start : Nat)
  | afterField
  | afterSpan
  | level (start : Nat)
deriving DecidableEq, Repr

/-- Whether a directive may begin with a character. -/
def mayBegin (c : Char) : Bool := c = '-' || c = ':' || c = '_' || Text.isAlphanumeric c

/-- The text between two places. -/
def cut (text : List Char) (start stop : Nat) : List Char := (text.drop start).take (stop - start)

/-- Takes the character at a place. Names are cut out of `text`. -/
def take? (text : List Char) (d : Directive) (place : Place) (i : Nat) (c : Char) :
    Option (Directive × Place) :=
  match place with
  | .start =>
      if c = '[' then some (d, .span (i + 1))
      else if mayBegin c then some (d, .word i)
      else none
  | .word start =>
      let named := { d with target := some (String.ofList (cut text start i)) }
      if c = '=' then some (named, .level (i + 1))
      else if c = '[' then some (named, .span (i + 1))
      else some (d, place)
  | .span start =>
      let name := cut text start i
      if c = ']' then some ({ d with span := some (String.ofList name) }, .afterSpan)
      else if c = '\x7b' then
        let span := if name.isEmpty then none else some (String.ofList name)
        some ({ d with span }, .field (i + 1))
      else some (d, place)
  | .field start =>
      if c = '\x7d' then do
        return ({ d with field := some (← field? (cut text start i)) }, .afterField)
      else some (d, place)
  | .afterField => if c = ']' then some (d, .afterSpan) else none
  | .afterSpan => if c = '=' then some (d, .level (i + 1)) else none
  | .level _ => some (d, place)

/-- The directive at the end of a text. -/
def finish? (text : List Char) (d : Directive) : Place → Option Directive
  | .word start =>
      match level? (text.drop start) with
      | some level => some { d with level }
      | none => some { d with target := some (String.ofList (text.drop start)) }
  | .level start => do return { d with level := ← levelAfter? (text.drop start) }
  | .afterSpan => some d
  | _ => none

/-- Takes characters from a place on. -/
def takeAll? (text : List Char) (d : Directive) (place : Place) :
    Nat → List Char → Option Directive
  | _, [] => finish? text d place
  | i, c :: rest => do
      let (d, place) ← take? text d place i c
      takeAll? text d place (i + 1) rest

/-- Reads a directive. Without a level it passes everything. The places are counted without the
blanks at both ends but the names are cut with them, so blanks hardly ever make sense. -/
def directive? (s : String) : Option Directive :=
  takeAll? s.toList { level := some .trace } .start 0 (Text.trimChars s.toList)

/-- Reads a filter: directives between commas, where nothing between two of them counts as
nothing. -/
def parse? (s : String) : Option Filter :=
  ((s.splitOn ",").filter (!·.isEmpty)).mapM directive?

/-- The filter when none is given, or one that cannot be read. -/
def standard : Filter := [{ level := some .info }]

/-- Whether a directive is about single messages. -/
def isAboutMessages (d : Directive) : Bool := d.span.isNone && !d.field.any (·.valued)

/-- The one field of a message, which is its text. -/
def messageField : String := "message"

/-- How closely a directive is about a message from a target: by the length of the part that it
names, and by whether it asks for a field. -/
def reach (d : Directive) (target : String) : Option (Nat × Nat) :=
  let named := match d.target with
    | none => some 0
    | some part => if part.toList.isPrefixOf target.toList then some (part.length + 1) else none
  let asked := match d.field with
    | none => some 0
    | some field => if field.name = messageField then some 1 else none
  if isAboutMessages d then named.bind fun n => asked.map (n, ·) else none

/-- Whether one directive yields to another that is about the same message this closely. -/
def yields (first second : Nat × Nat) : Bool :=
  first.1 < second.1 || first.1 == second.1 && first.2 ≤ second.2

/-- The directive that decides about a target. -/
def deciding? (f : Filter) (target : String) : Option Directive :=
  (f.foldl
    (fun (best : Option ((Nat × Nat) × Directive)) d =>
      match reach d target, best with
      | none, best => best
      | some n, none => some (n, d)
      | some n, some (m, e) => if yields m n then some (n, d) else some (m, e))
    none).map (·.2)

/-- Whether a message passes. -/
def allows (f : Filter) (target : String) (level : Level) : Bool :=
  match f.deciding? target with
  | some { level := some bound, .. } => decide (level.rank ≤ bound.rank)
  | _ => false

end Filter

end LoadBench.Log
