import LoadBench.Text.Hex

/-!
Internet addresses of 128 bits, as eight pieces of 16 bits. Two colons stand for as many zero
pieces as are missing, at least one; the last two pieces may be written as four decimal numbers.
-/

namespace LoadBench.Address

/-- Splits at every place where a character is `sep`. There is always a first piece. -/
def splitAt (sep : Char) : List Char → List (List Char)
  | [] => [[]]
  | c :: rest =>
      if c = sep then [] :: splitAt sep rest
      else match splitAt sep rest with
        | piece :: others => (c :: piece) :: others
        | [] => [[c]]

/-- Splits at the first two colons, if there are any. -/
def splitAtGap : List Char → Option (List Char × List Char)
  | ':' :: ':' :: rest => some ([], rest)
  | c :: rest => (splitAtGap rest).map fun (before, after) => (c :: before, after)
  | [] => none

/-- One to four hexadecimal digits. -/
def piece? (digits : List Char) : Option Nat :=
  if digits.isEmpty ∨ 4 < digits.length then none
  else digits.foldlM (fun n c => (Text.hexDigit? c).map (16 * n + ·)) 0

/-- A decimal number below 256 without leading zeros. -/
def octet? (digits : List Char) : Option Nat :=
  if digits.isEmpty ∨ 3 < digits.length ∨ (digits.head? = some '0' ∧ 1 < digits.length) then none
  else do
    let n ← digits.foldlM
      (fun n c => if '0' ≤ c ∧ c ≤ '9' then some (10 * n + (c.toNat - '0'.toNat)) else none) 0
    if n < 256 then some n else none

/-- Four decimal numbers between dots, as two pieces. -/
def dotted? (s : List Char) : Option (List Nat) := do
  match ← (splitAt '.' s).mapM octet? with
  | [a, b, c, d] => some [256 * a + b, 256 * c + d]
  | _ => none

/-- Pieces between colons. Only the last one may be written with dots, and only where the address
ends. -/
def pieces? (atEnd : Bool) (s : List Char) : Option (List Nat) :=
  if s.isEmpty then some []
  else
    let groups := splitAt ':' s
    let last := groups.getLastD []
    if atEnd && last.contains '.' then do
      return (← groups.dropLast.mapM piece?) ++ (← dotted? last)
    else groups.mapM piece?

/-- Reads an address: exactly eight pieces, or fewer around two colons. -/
def inet6? (s : List Char) : Option (List Nat) :=
  match splitAtGap s with
  | some (before, after) => do
      let high ← pieces? false before
      let low ← pieces? true after
      if high.length + low.length ≤ 7 then
        return high ++ List.replicate (8 - high.length - low.length) 0 ++ low
      else none
  | none => do
      let pieces ← pieces? true s
      if !s.isEmpty && pieces.length == 8 then some pieces else none

/-- The first of the longest stretches of zeros: where it begins and how long it is. -/
def longestZeros : List Nat → Nat → Nat × Nat → Nat × Nat → Nat × Nat
  | [], _, _, best => best
  | 0 :: rest, i, (start, length), best =>
      let run := if length = 0 then (i, 1) else (start, length + 1)
      longestZeros rest (i + 1) run (if best.2 < run.2 then run else best)
  | _ :: rest, i, _, best => longestZeros rest (i + 1) (0, 0) best

/-- Pieces in hexadecimal digits between colons. -/
def joinPieces (pieces : List Nat) : String :=
  String.intercalate ":" (pieces.map fun n => String.ofList (Text.hexDigits n))

/-- The address as it is written: two colons for the longest stretch of zeros, if it is longer
than one, and decimal numbers if it embeds an address of 32 bits. -/
def writeInet6 (pieces : List Nat) : String :=
  match pieces with
  | [0, 0, 0, 0, 0, 0xffff, high, low] =>
      "::ffff:" ++ String.intercalate "."
        ([high / 256, high % 256, low / 256, low % 256].map toString)
  | pieces =>
      let (start, length) := longestZeros pieces 0 (0, 0) (0, 0)
      if 1 < length then
        joinPieces (pieces.take start) ++ "::" ++ joinPieces (pieces.drop (start + length))
      else joinPieces pieces

end LoadBench.Address
