/-!
Text as it reaches a reader who sees no colours: escape sequences and control characters are left
out. An escape sequence begins with the escape character and ends as terminals define it; ASCII
white space is kept, other than the vertical tab. A sequence that has not ended swallows what
follows, up to the next escape character at most, so it never reaches past a part that is set in
bold.
-/

namespace LoadBench.Text

/-- Where a terminal stands in an escape sequence. -/
inductive Sequence where
  | escape
  | escapeIntermediate
  | controlEntry
  | controlParameter
  | controlIntermediate
  | controlIgnored
  | deviceEntry
  | deviceParameter
  | deviceIntermediate
  | deviceIgnored
  | devicePassed
  /-- A command to the operating system, which a bell ends. -/
  | systemCommand
  /-- A string that only a string terminator ends. -/
  | message
deriving DecidableEq, Repr

namespace Sequence

/-- Whether a code lies between two others. -/
def within (low high n : Nat) : Bool := decide (low ≤ n ∧ n ≤ high)

/-- The sequence after one more code below 128, or `none` if the code ends it. -/
def next (s : Sequence) (n : Nat) : Option Sequence :=
  if n == 0x1b then some .escape
  else if n == 0x18 || n == 0x1a then none
  else match s with
  | .escape =>
      if n < 0x20 || n == 0x7f then some .escape
      else if within 0x20 0x2f n then some .escapeIntermediate
      else if n == 0x5b then some .controlEntry
      else if n == 0x50 then some .deviceEntry
      else if n == 0x5d then some .systemCommand
      else if n == 0x58 || n == 0x5e || n == 0x5f then some .message
      else none
  | .escapeIntermediate =>
      if n < 0x30 || n == 0x7f then some .escapeIntermediate else none
  | .controlEntry =>
      if n < 0x20 || n == 0x7f then some .controlEntry
      else if within 0x20 0x2f n then some .controlIntermediate
      else if within 0x30 0x3f n then some .controlParameter
      else none
  | .controlParameter =>
      if n < 0x20 || n == 0x7f then some .controlParameter
      else if within 0x20 0x2f n then some .controlIntermediate
      else if within 0x30 0x3b n then some .controlParameter
      else if within 0x3c 0x3f n then some .controlIgnored
      else none
  | .controlIntermediate =>
      if n < 0x30 || n == 0x7f then some .controlIntermediate
      else if within 0x30 0x3f n then some .controlIgnored
      else none
  | .controlIgnored => if n < 0x40 || n == 0x7f then some .controlIgnored else none
  | .deviceEntry =>
      if n < 0x20 || n == 0x7f then some .deviceEntry
      else if within 0x20 0x2f n then some .deviceIntermediate
      else if within 0x30 0x3f n then some .deviceParameter
      else some .devicePassed
  | .deviceParameter =>
      if n < 0x20 || n == 0x7f then some .deviceParameter
      else if within 0x20 0x2f n then some .deviceIntermediate
      else if within 0x30 0x3b n then some .deviceParameter
      else if within 0x3c 0x3f n then some .deviceIgnored
      else some .devicePassed
  | .deviceIntermediate =>
      if n < 0x30 || n == 0x7f then some .deviceIntermediate
      else if within 0x30 0x3f n then some .deviceIgnored
      else some .devicePassed
  | .deviceIgnored => some .deviceIgnored
  | .devicePassed => some .devicePassed
  | .systemCommand => if n == 0x07 then none else some .systemCommand
  | .message => some .message

end Sequence

/-- Whether a character outside a sequence is kept. -/
def isPlain (c : Char) : Bool :=
  let n := c.toNat
  decide (0x20 ≤ n) && n != 0x7f || n == 0x09 || n == 0x0a || n == 0x0c || n == 0x0d

/-- Whether white space within a sequence ends it for the reader. It does not where a terminal would
take it for a part of what is sent to it. -/
def Sequence.endsAtSpace : Sequence → Bool
  | .escape | .escapeIntermediate | .controlEntry | .controlParameter | .controlIntermediate
  | .controlIgnored => true
  | _ => false

/-- The sequence after a character beyond ASCII. Only the byte that terminates strings can end one,
wherever it stands in the character. -/
def Sequence.beyond (s : Sequence) (c : Char) : Option Sequence :=
  match s with
  | .deviceIgnored | .devicePassed | .message =>
      if (String.utf8EncodeChar c).contains 0x9c then none else some s
  | s => some s

/-- The characters that are kept, given the sequence that is open, if one is. -/
def plainChars : Option Sequence → List Char → List Char
  | _, [] => []
  | none, c :: rest =>
      if c = '\x1b' then plainChars (some .escape) rest
      else if isPlain c then c :: plainChars none rest
      else plainChars none rest
  | some s, c :: rest =>
      if 0x80 ≤ c.toNat then plainChars (s.beyond c) rest
      else if c.toNat < 0x20 && isPlain c && s.endsAtSpace then c :: plainChars none rest
      else plainChars (s.next c.toNat) rest

/-- A text without its escape sequences and control characters. -/
def plain (s : String) : String := String.ofList (plainChars none s.toList)

def bold (s : String) : String := "\x1b[1m" ++ s ++ "\x1b[0m"

end LoadBench.Text
