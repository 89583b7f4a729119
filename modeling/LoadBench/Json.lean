import LoadBench.Text.Hex

/-!
A reader of JSON. A text is cut into tokens, and the tokens are put together with a stack of the
arrays and objects that are open. Everything that JSON allows is read, and nothing else. A number is
kept as it is written, since a reader may take it for whatever kind of number it has; the members
of an object stand in the order of the text, also those of one name.
-/

namespace LoadBench

/-- What a JSON text says. -/
inductive Json where
  | null
  | bool (b : Bool)
  | number (text : String)
  | string (text : String)
  | array (elements : List Json)
  | object (members : List (String × Json))
deriving Repr, Inhabited

namespace Json

/-! ## Numbers -/

/-- The characters of which numbers are made. -/
def inNumber (c : Char) : Bool := c.isDigit || c ∈ ['+', '-', '.', 'e', 'E']

/-- What is left behind a sign, if one of the given stands in front. -/
def behindSign (signs : List Char) : List Char → List Char
  | [] => []
  | c :: rest => if c ∈ signs then rest else c :: rest

def isDigits (cs : List Char) : Bool := !cs.isEmpty && cs.all Char.isDigit

/-- Whether characters are the digits of a whole number, where only zero begins with a zero. -/
def isWhole (cs : List Char) : Bool := isDigits cs && (cs == ['0'] || cs.head? != some '0')

/-- Whether an exponent or nothing stands here. -/
def isExponent : List Char → Bool
  | [] => true
  | mark :: rest => (mark == 'e' || mark == 'E') && isDigits (behindSign ['+', '-'] rest)

/-- Whether what stands here can go on a number behind its whole part. -/
def isFraction : List Char → Bool
  | [] => true
  | c :: rest =>
      if c = '.' then isDigits (rest.takeWhile Char.isDigit) &&
        isExponent (rest.dropWhile Char.isDigit)
      else isExponent (c :: rest)

def isNumber (cs : List Char) : Bool :=
  let cs := behindSign ['-'] cs
  isWhole (cs.takeWhile Char.isDigit) && isFraction (cs.dropWhile Char.isDigit)

/-! ## Strings -/

/-- A piece of a string: a character, or a number of sixteen bits, which is a character or half of
one. -/
inductive Piece where
  | char (c : Char)
  | unit (n : Nat)
deriving DecidableEq, Repr

/-- The character that a letter behind a backslash stands for. -/
def escaped? (c : Char) : Option Char :=
  if c = '"' ∨ c = '\\' ∨ c = '/' then some c
  else if c = 'b' then some '\x08'
  else if c = 'f' then some '\x0c'
  else if c = 'n' then some '\n'
  else if c = 'r' then some '\r'
  else if c = 't' then some '\t'
  else none

/-- The number of four hexadecimal digits. -/
def unit? (a b c d : Char) : Option Nat := do
  let a ← Text.hexDigit? a
  let b ← Text.hexDigit? b
  let c ← Text.hexDigit? c
  let d ← Text.hexDigit? d
  some (((a * 16 + b) * 16 + c) * 16 + d)

/-- The pieces of a string up to the quote that ends it, and what is left behind that. -/
def scan : List Char → Option (List Piece × List Char)
  | [] => none
  | c :: rest =>
      if c = '"' then some ([], rest)
      else if c = '\\' then
        match rest with
        | [] => none
        | e :: rest =>
            if e = 'u' then
              match rest with
              | h₁ :: h₂ :: h₃ :: h₄ :: rest =>
                  (unit? h₁ h₂ h₃ h₄).bind fun n =>
                    (scan rest).map fun (pieces, rest) => (.unit n :: pieces, rest)
              | _ => none
            else
              (escaped? e).bind fun c =>
                (scan rest).map fun (pieces, rest) => (.char c :: pieces, rest)
      else if c.toNat < 0x20 then none
      else (scan rest).map fun (pieces, rest) => (.char c :: pieces, rest)

/-- Whether a number of sixteen bits is the first half of a character, or the second. -/
def isFirstHalf (n : Nat) : Bool := decide (0xd800 ≤ n ∧ n < 0xdc00)

def isSecondHalf (n : Nat) : Bool := decide (0xdc00 ≤ n ∧ n < 0xe000)

/-- The characters of some pieces. No half of a character may stand alone. -/
def chars? : List Piece → Option (List Char)
  | [] => some []
  | .char c :: rest => (chars? rest).map (c :: ·)
  | .unit n :: rest =>
      if isFirstHalf n then
        match rest with
        | .unit m :: rest =>
            if isSecondHalf m then
              (chars? rest).map (Char.ofNat (0x10000 + (n - 0xd800) * 0x400 + (m - 0xdc00)) :: ·)
            else none
        | _ => none
      else if isSecondHalf n then none
      else (chars? rest).map (Char.ofNat n :: ·)

/-- The string whose first quote has been read, and what is left behind it. -/
def readString (s : List Char) : Option (String × List Char) :=
  (scan s).bind fun (pieces, rest) =>
    (chars? pieces).map fun cs => (String.ofList cs, rest)

/-! ## Tokens -/

inductive Token where
  /-- A value that has no parts. -/
  | atom (v : Json)
  | openArray
  | closeArray
  | openObject
  | closeObject
  | colon
  | comma
deriving Repr

def isBlank (c : Char) : Bool := c ∈ [' ', '\t', '\n', '\r']

def mark? (c : Char) : Option Token :=
  if c = '[' then some .openArray
  else if c = ']' then some .closeArray
  else if c = '\x7b' then some .openObject
  else if c = '\x7d' then some .closeObject
  else if c = ':' then some .colon
  else if c = ',' then some .comma
  else none

def words : List (List Char × Json) :=
  [("null".toList, .null), ("true".toList, .bool true), ("false".toList, .bool false)]

/-- The value without parts that begins with a character, and what is left behind it. -/
def readAtom (c : Char) (rest : List Char) : Option (Json × List Char) :=
  if c = '"' then (readString rest).map fun (text, rest) => (.string text, rest)
  else if inNumber c then
    let text := c :: rest.takeWhile inNumber
    if isNumber text then some (.number (String.ofList text), rest.dropWhile inNumber) else none
  else
    words.findSome? fun (word, v) =>
      if word <+: c :: rest then some (v, (c :: rest).drop word.length) else none

theorem length_scan {s rest : List Char} {pieces : List Piece}
    (h : scan s = some (pieces, rest)) : rest.length < s.length := by
  have hmore {tail : List Char} {piece : Piece} {all : List Piece}
      (ih : ∀ {pieces}, scan tail = some (pieces, rest) → rest.length < tail.length)
      (h : (scan tail).map (fun (pieces, rest) => (piece :: pieces, rest)) = some (all, rest)) :
      rest.length < tail.length := by
    obtain ⟨⟨tailPieces, _⟩, htail, heq⟩ := Option.map_eq_some_iff.mp h
    cases heq
    exact ih htail
  fun_induction scan s generalizing pieces with
  | case1 => cases h
  | case2 =>
      cases h
      exact Nat.lt_succ_self _
  | case3 => cases h
  | case4 _ h₁ h₂ h₃ h₄ tail ih =>
      obtain ⟨n, _, h⟩ := Option.bind_eq_some_iff.mp h
      have hlength := hmore ih h
      simp only [List.length_cons]
      omega
  | case5 => cases h
  | case6 e tail _ _ ih =>
      obtain ⟨c, _, h⟩ := Option.bind_eq_some_iff.mp h
      have hlength := hmore ih h
      simp only [List.length_cons]
      omega
  | case7 => cases h
  | case8 c tail _ _ _ ih => exact Nat.lt_succ_of_lt (hmore ih h)

theorem length_readAtom {c : Char} {s rest : List Char} {v : Json}
    (h : readAtom c s = some (v, rest)) : rest.length ≤ s.length := by
  simp only [readAtom] at h
  split at h
  · obtain ⟨⟨text, _⟩, hread, heq⟩ := Option.map_eq_some_iff.mp h
    cases heq
    obtain ⟨⟨pieces, _⟩, hscan, hchars⟩ := Option.bind_eq_some_iff.mp hread
    obtain ⟨cs, _, heq⟩ := Option.map_eq_some_iff.mp hchars
    cases heq
    exact Nat.le_of_lt (length_scan hscan)
  · split at h
    · split at h
      · cases h
        exact (List.dropWhile_suffix _).length_le
      · cases h
    · obtain ⟨⟨word, _⟩, hword, hv⟩ := List.exists_of_findSome?_eq_some h
      split at hv
      · cases hv
        have hpos : 0 < word.length := by
          revert hword
          simp only [words, List.mem_cons, List.not_mem_nil, or_false, Prod.mk.injEq]
          rintro (⟨rfl, _⟩ | ⟨rfl, _⟩ | ⟨rfl, _⟩) <;> decide
        rw [List.length_drop, List.length_cons]
        dsimp only
        omega
      · cases hv

/-- The tokens of a text. Blanks between them say nothing. -/
def tokens (s : List Char) : Option (List Token) :=
  match s with
  | [] => some []
  | c :: rest =>
      if isBlank c then tokens rest
      else
        match mark? c with
        | some token => (tokens rest).map (token :: ·)
        | none =>
            match _h : readAtom c rest with
            | none => none
            | some (v, left) => (tokens left).map (.atom v :: ·)
termination_by s.length
decreasing_by
  · exact Nat.lt_succ_self _
  · exact Nat.lt_succ_self _
  · exact Nat.lt_succ_of_le (length_readAtom _h)

/-! ## Values -/

/-- An array or an object that has begun, with what it has so far. Of an object the name of a member
has been read too. -/
inductive Frame where
  | array (elements : List Json)
  | object (members : List (String × Json)) (key : String)

/-- What must come next, within the arrays and objects that are open, innermost first. -/
inductive State where
  /-- A value, or the end of the array that has just begun. -/
  | value (stack : List Frame) (begun : Bool)
  /-- The name of a member, or the end of the object that has just begun. -/
  | name (members : List (String × Json)) (stack : List Frame) (begun : Bool)
  | colon (members : List (String × Json)) (key : String) (stack : List Frame)
  /-- What can follow a value. -/
  | after (v : Json) (stack : List Frame)

/-- The state after a token, or `none` if it cannot stand here. -/
def State.next? : State → Token → Option State
  | .value stack _, .atom v => some (.after v stack)
  | .value stack _, .openArray => some (.value (.array [] :: stack) true)
  | .value stack _, .openObject => some (.name [] stack true)
  | .value (.array [] :: stack) true, .closeArray => some (.after (.array []) stack)
  | .name members stack _, .atom (.string text) => some (.colon members text stack)
  | .name [] stack true, .closeObject => some (.after (.object []) stack)
  | .colon members key stack, .colon => some (.value (.object members key :: stack) false)
  | .after v (.array elements :: stack), .comma =>
      some (.value (.array (elements ++ [v]) :: stack) false)
  | .after v (.array elements :: stack), .closeArray =>
      some (.after (.array (elements ++ [v])) stack)
  | .after v (.object members key :: stack), .comma =>
      some (.name (members ++ [(key, v)]) stack false)
  | .after v (.object members key :: stack), .closeObject =>
      some (.after (.object (members ++ [(key, v)])) stack)
  | _, _ => none

/-- The value that tokens make from a state on, if they are all of it. -/
def State.read : State → List Token → Option Json
  | .after v [], [] => some v
  | _, [] => none
  | state, token :: rest => (state.next? token).bind (·.read rest)

/-- What a text says, if it is JSON. -/
def ofText? (s : String) : Option Json :=
  (tokens s.toList).bind (State.value [] false).read

end Json

end LoadBench
