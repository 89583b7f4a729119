import LoadBench.Command

/-!
A reader of commands as they are displayed. What is quoted ends at the first quote that is not part
of an escape, so nothing within it can be taken for the end or for another item of the list. A `b`
in front of the quote says that bytes are quoted and not text, and the two have escapes of their
own.
-/

namespace LoadBench

namespace Text

/-- The number of hexadecimal digits. -/
def hexNumber? (digits : List Char) : Option Nat :=
  digits.foldlM (fun n c => (hexDigit? c).map (16 * n + ·)) 0

/-- The character that a letter behind a backslash stands for. -/
def escaped? (letter : Char) : Option Char :=
  if letter = '0' then some '\x00'
  else if letter = 't' then some '\t'
  else if letter = 'r' then some '\r'
  else if letter = 'n' then some '\n'
  else if letter = '"' then some '"'
  else if letter = '\\' then some '\\'
  else none

/-- The first character of a quoted text, and what is left behind it. -/
def readChar : List Char → Option (Char × List Char)
  | '\\' :: 'u' :: '\x7b' :: rest =>
      match rest.dropWhile (· != '\x7d') with
      | [] => none
      | _ :: left =>
          (hexNumber? (rest.takeWhile (· != '\x7d'))).bind fun n =>
            if n.isValidChar then some (Char.ofNat n, left) else none
  | '\\' :: letter :: rest => (escaped? letter).map fun c => (c, rest)
  | ['\\'] => none
  | c :: rest => some (c, rest)
  | [] => none

/-- Reads one thing after the other up to a character that ends them, and leaves what is behind
that. -/
def readUntil {α : Type} (stop : Char) (read : List Char → Option (α × List Char))
    (s : List Char) : Option (List α × List Char) :=
  match s with
  | [] => none
  | c :: rest =>
      if c = stop then some ([], rest)
      else
        match read (c :: rest) with
        | none => none
        | some (a, left) =>
            if _h : left.length ≤ rest.length then
              (readUntil stop read left).map fun (as, left) => (a :: as, left)
            else none
termination_by s.length
decreasing_by exact Nat.lt_succ_of_le _h

end Text

/-- The first byte of a quoted byte string, and what is left behind it. -/
def Bytes.readByte : List Char → Option (UInt8 × List Char)
  | '\\' :: 'x' :: high :: low :: rest =>
      (Text.hexNumber? [high, low]).map fun n => (UInt8.ofNat n, rest)
  | '\\' :: letter :: rest => (Text.escaped? letter).map fun c => (UInt8.ofNat c.toNat, rest)
  | ['\\'] => none
  | c :: rest =>
      if 0x20 ≤ c.toNat ∧ c.toNat < 0x7f then some (UInt8.ofNat c.toNat, rest) else none
  | [] => none

namespace Command

/-- An argument, which is quoted text or quoted bytes, and what is left behind it. -/
def readArg : List Char → Option (Bytes × List Char)
  | '"' :: s =>
      (Text.readUntil '"' Text.readChar s).map fun (cs, rest) =>
        (Bytes.ofText (String.ofList cs), rest)
  | 'b' :: '"' :: s => Text.readUntil '"' Bytes.readByte s
  | _ => none

/-- An argument behind another item of the list. -/
def readNext : List Char → Option (Bytes × List Char)
  | ',' :: ' ' :: s => readArg s
  | _ => none

/-- A command, and what is left behind it. -/
def read : List Char → Option (Command × List Char)
  | '[' :: '"' :: s =>
      (Text.readUntil '"' Text.readChar s).bind fun (name, s) =>
        (Text.readUntil ']' readNext s).map fun (args, rest) =>
          (⟨String.ofList name, args⟩, rest)
  | _ => none

/-- The command that a text displays, if it displays one and nothing else. -/
def ofText? (s : String) : Option Command :=
  match read s.toList with
  | some (c, []) => some c
  | _ => none

end Command

end LoadBench
