import LoadBench.Text.Hex
import LoadBench.Text.Invisible

/-!
Quoted text: a text between double quotes in which every character is visible. A quote, a
backslash and the four common control characters have a one-letter escape, every other invisible
character is written by its code point in hexadecimal, and all else stands for itself. A single
quote needs no escape, since it cannot end the text.
-/

namespace LoadBench.Text

/-- The letter that follows the backslash, for the characters that have a one-letter escape. -/
def escapeLetter? (c : Char) : Option Char :=
  if c = '\x00' then some '0'
  else if c = '\t' then some 't'
  else if c = '\r' then some 'r'
  else if c = '\n' then some 'n'
  else if c = '"' then some '"'
  else if c = '\\' then some '\\'
  else none

/-- One character as it stands between the quotes. -/
def quotedChar (c : Char) : List Char :=
  match escapeLetter? c with
  | some letter => ['\\', letter]
  | none =>
      if isInvisible c then
        ['\\', 'u', '\x7b'] ++ hexDigits c.toNat ++ ['\x7d']
      else [c]

/-- The characters of a text between its quotes. -/
def quotedChars (cs : List Char) : List Char := cs.flatMap quotedChar

/-- A text between double quotes. -/
def quoted (s : String) : String :=
  String.ofList ('"' :: (quotedChars s.toList ++ ['"']))

end LoadBench.Text
