import LoadBench.Address.Inet6
import LoadBench.Address.Percent

/-!
URLs, as far as addresses of a backend need them: a scheme, then credentials, host and port after
two slashes, then a path and a query. Blanks and controls around the URL, and tabs and line breaks
in it, are ignored. Dot segments of a path are resolved. Percent codes are left as they are.
-/

namespace LoadBench.Address

/-- A path: segments after a slash, or anything else. -/
inductive Path where
  | segments (parts : List (List Char))
  | verbatim (text : List Char)
deriving DecidableEq, Repr

/-- The parts of a URL. -/
structure Url where
  scheme : String
  username : List Char := []
  password : Option (List Char) := none
  host : Option String := none
  port : Option Nat := none
  path : Path
  query : Option (List Char) := none
deriving DecidableEq, Repr

namespace Url

def isAlphanumeric (c : Char) : Bool :=
  ('a' ≤ c && c ≤ 'z') || ('A' ≤ c && c ≤ 'Z') || ('0' ≤ c && c ≤ '9')

/-- Whether a character may stand in a scheme after its first letter. -/
def isSchemeChar (c : Char) : Bool := isAlphanumeric c || c = '+' || c = '-' || c = '.'

/-- What is left of the text of a URL when what is ignored is gone. -/
def clean (s : List Char) : List Char :=
  let outside := fun (c : Char) => decide (c.toNat ≤ 0x20)
  (((s.dropWhile outside).reverse.dropWhile outside).reverse).filter
    fun c => !(c = '\t' || c = '\n' || c = '\r')

/-- The scheme in small letters, and what follows its colon. -/
def scheme? (s : List Char) : Option (String × List Char) :=
  let scheme := s.takeWhile isSchemeChar
  match scheme, s.dropWhile isSchemeChar with
  | first :: _, ':' :: rest =>
      if isAlphanumeric first && !('0' ≤ first && first ≤ '9') then
        some (String.ofList (scheme.map Char.toLower), rest)
      else none
  | _, _ => none

/-- Whether a character ends the part with credentials, host and port. -/
def endsAuthority (c : Char) : Bool := c = '/' || c = '?' || c = '#'

/-- Splits at the last character that is `sep`. -/
def splitAtLast (sep : Char) (s : List Char) : Option (List Char × List Char) :=
  if s.contains sep then
    let after := (s.reverse.takeWhile (· ≠ sep)).reverse
    some (s.take (s.length - after.length - 1), after)
  else none

/-- User name and password, which the first colon separates. An empty password is none. -/
def credentials (s : List Char) : List Char × Option (List Char) :=
  match s.dropWhile (· ≠ ':') with
  | [] | [_] => (s.takeWhile (· ≠ ':'), none)
  | _ :: password => (s.takeWhile (· ≠ ':'), some password)

/-- The host and what follows it. A colon between brackets belongs to the host. -/
def spanHost : Bool → List Char → List Char × List Char
  | _, [] => ([], [])
  | inside, c :: rest =>
      if (c = ':' && !inside) || endsAuthority c then ([], c :: rest)
      else
        let inside := if c = '[' then true else if c = ']' then false else inside
        let (host, rest) := spanHost inside rest
        (c :: host, rest)

def badHostChar (c : Char) : Bool :=
  ['\x00', '\t', '\n', '\r', ' ', '#', '/', ':', '<', '>', '?', '@', '[', '\\', ']', '^',
    '|'].contains c

/-- Reads a host. An address of 128 bits stands between brackets. The empty name is no host. -/
def host? (s : List Char) : Option (Option String) :=
  match s with
  | [] => some none
  | '[' :: rest =>
      if rest.getLast? = some ']' then
        (inet6? rest.dropLast).map fun pieces => some (writeInet6 pieces)
      else none
  | s =>
      if s.any badHostChar then none
      else some (some (String.ofList (s.flatMap hostChar)))

def maxPort : Nat := 65535

/-- Reads a port up to the end of its part. No digits are no port. -/
def port? : List Char → Option Nat → Option (Option Nat × List Char)
  | [], port => some (port, [])
  | c :: rest, port =>
      if '0' ≤ c ∧ c ≤ '9' then
        let n := 10 * port.getD 0 + (c.toNat - '0'.toNat)
        if n ≤ maxPort then port? rest (some n) else none
      else if endsAuthority c || c = '\\' then some (port, c :: rest)
      else none

/-- A segment with the percent codes of dots written out. -/
def dots : List Char → List Char
  | '%' :: '2' :: 'e' :: rest | '%' :: '2' :: 'E' :: rest => '.' :: dots rest
  | c :: rest => c :: dots rest
  | [] => []

/-- Whether a segment names a drive: a letter, and a colon or a bar. A backslash ends the name. -/
def isDrive : List Char → Bool
  | letter :: mark :: rest =>
      letter.isAlpha && (mark = ':' || mark = '|') && (rest.isEmpty || rest.head? = some '\\')
  | _ => false

/-- Goes up one segment, given those before it, the last one first. A drive is never left. -/
def up : List (List Char) → List (List Char)
  | [] => []
  | segment :: before => if isDrive segment then segment :: before else before

/-- Resolves the dot segments of a path: one dot stays, two dots go up. A dot segment at the end
leaves an empty segment. -/
def resolve : List (List Char) → List (List Char) → List (List Char)
  | done, [] => done.reverse
  | done, segment :: rest =>
      if dots segment = ['.', '.'] then
        resolve (if rest.isEmpty then [] :: up done else up done) rest
      else if dots segment = ['.'] then resolve (if rest.isEmpty then [] :: done else done) rest
      else resolve (segment :: done) rest

/-- The path after its first slash. -/
def pathOf (s : List Char) : Path := .segments (resolve [] (splitAt '/' s))

/-- The query, which a question mark begins and a number sign ends. -/
def query? : List Char → Option (List Char)
  | '?' :: rest => some (rest.takeWhile (· ≠ '#'))
  | _ => none

def endsPath (c : Char) : Bool := c = '?' || c = '#'

/-- Adds path and query. After an authority a path begins with a slash, also one that is not
written unless the URL ends there. -/
def withPath (url : Url) (s : List Char) : Url :=
  let text := s.takeWhile (!endsPath ·)
  let path := match text with
    | [] => Path.verbatim []
    | '/' :: rest => pathOf rest
    | text => pathOf text
  { url with path, query := query? (s.dropWhile (!endsPath ·)) }

/-- Reads what follows the two slashes. Credentials or a port without a host are a fault. -/
def authority? (scheme : String) (s : List Char) : Option Url := do
  let part := s.takeWhile (!endsAuthority ·)
  let ((username, password), rest, named) ← match splitAtLast '@' part with
    | none => some (([], none), s, false)
    | some (before, after) =>
        let rest := after ++ s.dropWhile (!endsAuthority ·)
        let (username, password) := credentials before
        if before.isEmpty && after.isEmpty && !rest.isEmpty then none
        else some ((username, password), rest, !username.isEmpty || password.isSome)
  let (name, rest) := spanHost false rest
  let host ← host? name
  if host.isNone && (rest.head? = some ':' || named) then none
  else
    let (port, rest) ← match rest with
      | ':' :: rest => port? rest none
      | rest => some (none, rest)
    return withPath { scheme, username, password, host, port, path := .verbatim [] } rest

def parse? (s : String) : Option Url := do
  let (scheme, rest) ← scheme? (clean s.toList)
  match rest with
  | '/' :: '/' :: rest => authority? scheme rest
  | '/' :: _ => some (withPath { scheme, path := .verbatim [] } rest)
  | rest =>
      some
        { scheme
          path := .verbatim (rest.takeWhile (!endsPath ·))
          query := query? (rest.dropWhile (!endsPath ·)) }

/-- One side of a pair in a query: a plus sign stands for a blank. -/
def formDecode (s : List Char) : String :=
  let bytes := (Bytes.ofText (String.ofList s)).map fun b => if b = 0x2b then 0x20 else b
  Bytes.lenientText (percentDecode bytes)

/-- The pairs of a query. A piece without an equals sign has an empty value. -/
def pairs (url : Url) : List (String × String) :=
  ((splitAt '&' (url.query.getD [])).filter (!·.isEmpty)).map fun piece =>
    (formDecode (piece.takeWhile (· ≠ '=')), formDecode ((piece.dropWhile (· ≠ '=')).drop 1))

/-- What a name stands for in the query. The last pair counts. -/
def get? (url : Url) (name : String) : Option String := url.pairs.reverse.lookup name

end Url

end LoadBench.Address
