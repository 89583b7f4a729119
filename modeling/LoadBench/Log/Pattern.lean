import LoadBench.Text.Alphanumeric
import LoadBench.Text.Hex

/-!
Patterns for the values of fields. A pattern is a regular expression, and all that is asked of it
here is whether it is well formed. Classes that depend on tables of Unicode are not supported, nor
are word boundaries and repetitions in braces.
-/

namespace LoadBench.Log.Pattern

/-- What a backslash and what follows it stand for. -/
inductive Escape where
  | char (c : Char)
  /-- The beginning or the end of the text. -/
  | border
deriving DecidableEq, Repr

/-- A character by its code point in so many hexadecimal digits. -/
def codePoint? (width : Nat) (s : List Char) : Option (Escape × List Char) := do
  let digits := s.take width
  if digits.length < width then none
  else
    let n ← digits.foldlM (fun n c => (Text.hexDigit? c).map (16 * n + ·)) 0
    if n.isValidChar then some (.char (Char.ofNat n), s.drop width) else none

/-- Reads what follows a backslash. -/
def escape? : List Char → Option (Escape × List Char)
  | [] => none
  | 'x' :: rest => codePoint? 2 rest
  | 'u' :: rest => codePoint? 4 rest
  | 'U' :: rest => codePoint? 8 rest
  | 'A' :: rest | 'z' :: rest => some (.border, rest)
  | 'a' :: rest => some (.char '\x07', rest)
  | 't' :: rest => some (.char '\t', rest)
  | 'n' :: rest => some (.char '\n', rest)
  | 'v' :: rest => some (.char '\x0b', rest)
  | 'f' :: rest => some (.char '\x0c', rest)
  | 'r' :: rest => some (.char '\r', rest)
  | c :: rest =>
      if c.toNat < 0x80 && !c.isAlphanum && c ≠ '<' && c ≠ '>' then some (.char c, rest) else none

/-- The classes that have a name. -/
def classNames : List String :=
  ["alnum", "alpha", "ascii", "blank", "cntrl", "digit", "graph", "lower", "print", "punct",
    "space", "upper", "word", "xdigit"]

/-- What follows a named class, given what follows its opening bracket. -/
def namedClass? : List Char → Option (List Char)
  | ':' :: rest =>
      let rest := if rest.head? = some '^' then rest.drop 1 else rest
      let name := rest.takeWhile (· ≠ ':')
      match rest.drop name.length with
      | ':' :: ']' :: after => if classNames.contains (String.ofList name) then some after else none
      | _ => none
  | _ => none

/-- What follows the beginning of a class: a negation, and then dashes or a closing bracket, which
stand for themselves there. -/
def classBody (s : List Char) : List Char :=
  let s := if s.head? = some '^' then s.drop 1 else s
  match s with
  | ']' :: rest => rest
  | s => s.dropWhile (· = '-')

/-- One character of a class. -/
def classChar? : List Char → Option (Char × List Char)
  | [] => none
  | '\\' :: rest =>
      match escape? rest with
      | some (.char c, rest) => some (c, rest)
      | _ => none
  | c :: rest => some (c, rest)

/-- One character of a class, or a range of characters, which must not be empty. -/
def classItem? (s : List Char) : Option (List Char) := do
  let (first, rest) ← classChar? s
  match rest with
  | '-' :: next =>
      if next.head? = some ']' || next.head? = some '-' then some rest
      else
        let (last, rest) ← classChar? next
        if first ≤ last then some rest else none
  | rest => some rest

/-- What follows a class, given what follows its opening bracket and those of the classes around
it. -/
def afterClass? : Nat → Nat → List Char → Option (List Char)
  | 0, _, _ | _, _, [] => none
  | fuel + 1, depth, '[' :: rest =>
      match namedClass? rest with
      | some rest => afterClass? fuel depth rest
      | none => afterClass? fuel (depth + 1) (classBody rest)
  | fuel + 1, depth, ']' :: rest =>
      match depth with
      | 0 => some rest
      | depth + 1 => afterClass? fuel depth rest
  | fuel + 1, depth, '&' :: '&' :: rest | fuel + 1, depth, '-' :: '-' :: rest
  | fuel + 1, depth, '~' :: '~' :: rest => afterClass? fuel depth rest
  | fuel + 1, depth, s => (classItem? s).bind (afterClass? fuel depth)

/-- Whether a text names a group. -/
def isGroupName : List Char → Bool
  | [] => false
  | first :: rest =>
      (first = '_' || Text.isAlphanumeric first && !first.isDigit) &&
        rest.all fun c => c = '_' || c = '.' || c = '[' || c = ']' || Text.isAlphanumeric c

/-- Whether options make sense: each at most once, and after a dash at least one that is switched
off. To ignore case takes tables. -/
def areOptions (s : List Char) : Bool :=
  s.all (['i', 'm', 's', 'U', 'u', 'R', 'x', '-'].contains ·) && decide s.Nodup &&
    s.getLast? ≠ some '-' && !(s.takeWhile (· ≠ '-')).contains 'i'

/-- What follows the beginning of a group, and whether it was one: options may stand alone. -/
def group? : List Char → Option (Bool × List Char)
  | '?' :: 'P' :: '<' :: rest | '?' :: '<' :: rest =>
      let name := rest.takeWhile (· ≠ '>')
      match rest.drop name.length with
      | _ :: after => if isGroupName name then some (true, after) else none
      | [] => none
  | '?' :: rest =>
      let options := rest.takeWhile fun c => c ≠ ':' && c ≠ ')'
      match rest.drop options.length with
      | ':' :: after => if areOptions options then some (true, after) else none
      | ')' :: after =>
          if areOptions options && !options.isEmpty then some (false, after) else none
      | _ => none
  | rest => some (true, rest)

/-- Whether the rest of a pattern is well formed, within so many groups. `operand` says whether
there is something before it that may be repeated. -/
def scan : Nat → Nat → Bool → List Char → Bool
  | 0, _, _, _ => false
  | _, depth, _, [] => depth == 0
  | fuel + 1, depth, _, '(' :: rest =>
      match group? rest with
      | some (true, rest) => scan fuel (depth + 1) false rest
      | some (false, rest) => scan fuel depth false rest
      | none => false
  | fuel + 1, depth, _, ')' :: rest => decide (0 < depth) && scan fuel (depth - 1) true rest
  | fuel + 1, depth, _, '|' :: rest => scan fuel depth false rest
  | fuel + 1, depth, operand, '*' :: rest | fuel + 1, depth, operand, '+' :: rest
  | fuel + 1, depth, operand, '?' :: rest =>
      operand && scan fuel depth true (if rest.head? = some '?' then rest.drop 1 else rest)
  | _ + 1, _, _, '\x7b' :: _ => false
  | fuel + 1, depth, _, '[' :: rest =>
      match afterClass? fuel 0 (classBody rest) with
      | some rest => scan fuel depth true rest
      | none => false
  | fuel + 1, depth, _, '\\' :: rest =>
      match escape? rest with
      | some (_, rest) => scan fuel depth true rest
      | none => false
  | fuel + 1, depth, _, _ :: rest => scan fuel depth true rest

/-- Whether a text is a well-formed pattern. Each step of the reader takes a character away. -/
def isWellFormed (s : List Char) : Bool := scan (s.length + 1) 0 false s

end LoadBench.Log.Pattern
