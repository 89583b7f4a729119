import LoadBench.Environment
import LoadBench.Text.Alphanumeric
import LoadBench.Text.Blank

/-!
A file that adds to the environment. Each entry is a name, an equals sign and a value; there may be
an `export` before it and a comment after it. Single quotes keep everything as it is, double quotes
keep blanks, and outside single quotes a backslash takes the next character as it is and a dollar
sign stands before the name of what is to be inserted. A quoted value may run over several lines.

Entries never change a text that the environment already holds. An entry that makes no sense ends
the reading; those before it have been taken.
-/

namespace LoadBench.Environment

/-- Where the reader of lines stands in an entry. It looks only for where the entry ends. -/
inductive LineState where
  | complete
  | blank
  | escape
  | single
  | singleEscape
  | double
  | doubleEscape
deriving DecidableEq, Repr

/-- The state after one more character, or `none` if a comment begins there. -/
def LineState.next (s : LineState) (c : Char) : Option LineState :=
  let fresh : LineState :=
    if c = '\\' then .escape else if c = '"' then .double else if c = '\'' then .single
    else .complete
  match s with
  | .complete =>
      some (if Text.isBlank c && c ≠ '\n' && c ≠ '\r' then .blank else fresh)
  | .blank => if c = '#' then none else some fresh
  | .escape => some .complete
  | .single => some (if c = '\\' then .singleEscape else if c = '\'' then .complete else .single)
  | .singleEscape => some .single
  | .double => some (if c = '\\' then .doubleEscape else if c = '"' then .complete else .double)
  | .doubleEscape => some .double

/-- Reads one line. The answer is what of it belongs to the entry, and the state at its end, or
`none` if a comment cut it short. -/
def scanLine : LineState → List Char → List Char × Option LineState
  | s, [] => ([], some s)
  | s, c :: rest =>
      match s.next c with
      | none => ([], none)
      | some next =>
          let (kept, state) := scanLine next rest
          (c :: kept, state)

/-- An entry without the line break at its end. -/
def withoutBreak (s : List Char) : List Char :=
  match s.reverse with
  | '\n' :: '\r' :: rest | '\n' :: rest => rest.reverse
  | _ => s

/-- The entries of a text, each of one line or several. A line that begins with a number sign is
left out together with what it would have continued. The last entry is `none` if the text ends
within it. -/
def entries : LineState → List Char → List (List Char) → List (Option (List Char))
  | .complete, [], [] => []
  | _, _, [] => [none]
  | s, before, line :: lines =>
      if (before ++ line).dropWhile Text.isBlank |>.head? |> (· = some '#') then
        some [] :: entries .complete [] lines
      else
        match scanLine s line with
        | (kept, none) => some (before ++ kept) :: entries .complete [] lines
        | (kept, some .complete) =>
            some (withoutBreak (before ++ kept)) :: entries .complete [] lines
        | (kept, some state) => entries state (before ++ kept) lines

/-- What a name stands for when a value asks for it: what the environment says, or else the entry
before. Nothing at all is the empty text. -/
def insertion (env : Environment) (before : List (String × String)) (name : List Char) :
    List Char :=
  let name := String.ofList name
  match (env.get? name).bind Bytes.text? with
  | some value => value.toList
  | none => ((before.lookup name).getD "").toList

/-- Where the reader of a value stands. -/
inductive ValueState where
  | bare
  | double
  | single
  /-- A character after a backslash is due, in double quotes or out of them. -/
  | escape (quoted : Bool)
  /-- A name is being read, within braces or without. -/
  | name (quoted braced : Bool) (letters : List Char)
  /-- Only a comment may follow. -/
  | done
deriving DecidableEq, Repr

/-- Outside of names and escapes. -/
def ValueState.ofQuoted (quoted : Bool) : ValueState := if quoted then .double else .bare

/-- Reads a value. `look` tells what a name stands for. -/
def readValue (look : List Char → List Char) : ValueState → List Char → Option (List Char)
  | .bare, [] | .done, [] | .escape false, [] => some []
  | .name false false letters, [] => some (look letters)
  | _, [] => none
  | .done, c :: rest =>
      if c = ' ' || c = '\t' then readValue look .done rest
      else if c = '#' then some []
      else none
  | .escape quoted, c :: rest =>
      if ['\\', '\'', '"', '$', ' '].contains c then
        (readValue look (.ofQuoted quoted) rest).map (c :: ·)
      else if c = 'n' then (readValue look (.ofQuoted quoted) rest).map ('\n' :: ·)
      else none
  | .single, c :: rest =>
      if c = '\'' then readValue look .bare rest else (readValue look .single rest).map (c :: ·)
  | .name quoted braced letters, c :: rest =>
      if Text.isAlphanumeric c then readValue look (.name quoted braced (letters ++ [c])) rest
      else if braced then
        if c = '\x7d' then (readValue look (.ofQuoted quoted) rest).map (look letters ++ ·)
        else readValue look (.name quoted true (letters ++ [c])) rest
      else if c = '\x7b' && letters.isEmpty then readValue look (.name quoted true []) rest
      else if c = '$' then (readValue look (.name quoted false []) rest).map (look letters ++ ·)
      else (readValue look (.ofQuoted quoted) rest).map (look letters ++ c :: ·)
  | .double, c :: rest =>
      if c = '$' then readValue look (.name true false []) rest
      else if c = '"' then readValue look .bare rest
      else if c = '\\' then readValue look (.escape true) rest
      else (readValue look .double rest).map (c :: ·)
  | .bare, c :: rest =>
      if c = '$' then readValue look (.name false false []) rest
      else if c = '\'' then readValue look .single rest
      else if c = '"' then readValue look .double rest
      else if c = '\\' then readValue look (.escape false) rest
      else if c = ' ' || c = '\t' then readValue look .done rest
      else (readValue look .bare rest).map (c :: ·)

/-- Whether a character may stand in a name that is given a value. -/
def isKeyChar (c : Char) : Bool := c.isAlphanum || c = '_' || c = '.'

/-- A name and what follows it and the blanks behind it. -/
def key? (s : List Char) : Option (List Char × List Char) :=
  match s with
  | c :: _ =>
      if c.isAlpha || c = '_' then
        some (s.takeWhile isKeyChar, (s.dropWhile isKeyChar).dropWhile Text.isBlank)
      else none
  | [] => none

inductive Entry where
  | nothing
  | pair (name value : String)
deriving DecidableEq, Repr

def valueOf (look : List Char → List Char) (name rest : List Char) : Option Entry :=
  let rest := rest.dropWhile Text.isBlank
  if rest.isEmpty || rest.head? = some '#' then some (.pair (String.ofList name) "")
  else (readValue look .bare rest).map fun value =>
    .pair (String.ofList name) (String.ofList value)

/-- Reads an entry. `export` may stand before a name, and may be a name itself. -/
def entry? (look : List Char → List Char) (line : List Char) : Option Entry := do
  let line := Text.trimChars line
  if line.isEmpty || line.head? = some '#' then return .nothing
  let (name, rest) ← key? line
  match rest with
  | '=' :: rest => valueOf look name rest
  | rest =>
      if String.ofList name = "export" then
        match ← key? rest with
        | (name, '=' :: rest) => valueOf look name rest
        | _ => none
      else none

/-- Takes entries until one makes no sense. -/
def takeEntries : Environment → List (String × String) → List (Option (List Char)) → Environment
  | env, before, some line :: lines =>
      match entry? (insertion env before) line with
      | none => env
      | some .nothing => takeEntries env before lines
      | some (.pair name value) =>
          takeEntries (env.addNew name (Bytes.ofText value)) ((name, value) :: before) lines
  | env, _, _ => env

/-- The lines of a file, each with its line break. -/
def byteLines : Bytes → List Bytes
  | [] => []
  | b :: rest =>
      if b = 0x0a then [b] :: byteLines rest
      else match byteLines rest with
        | [] => [[b]]
        | line :: lines => (b :: line) :: lines

/-- The lines of a file up to the first one that is no text. -/
def textLines (file : Bytes) : List (List Char) :=
  ((byteLines file).map Bytes.text?).takeWhile (·.isSome) |>.map fun s => (s.getD "").toList

/-- The file without the mark that may stand at its beginning. -/
def withoutMark : Bytes → Bytes
  | 0xef :: 0xbb :: 0xbf :: rest => rest
  | file => file

/-- The environment with what a file adds to it. -/
def addFile (env : Environment) (file : Bytes) : Environment :=
  takeEntries env [] (entries .complete [] (textLines (withoutMark file)))

end LoadBench.Environment
