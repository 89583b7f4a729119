import LoadBench.Bytes

/-!
Percent codes: a percent sign and two hexadecimal digits stand for one byte. A percent sign that
is not followed by two such digits stands for itself.
-/

namespace LoadBench.Address

/-- The value of a hexadecimal digit, given as a byte. -/
def hexValue? (b : UInt8) : Option Nat := Text.hexDigit? (Char.ofNat b.toNat)

/-- The bytes that percent codes stand for. -/
def percentDecode : Bytes → Bytes
  | 0x25 :: high :: low :: rest =>
      match hexValue? high, hexValue? low with
      | some h, some l => UInt8.ofNat (16 * h + l) :: percentDecode rest
      | _, _ => 0x25 :: percentDecode (high :: low :: rest)
  | b :: rest => b :: percentDecode rest
  | [] => []

/-- The percent code of a byte, with capital letters. -/
def percentCode (b : UInt8) : List Char :=
  '%' :: (Bytes.hexPair b).map Char.toUpper

/-- A character as it may stand in the name of a host: controls and whatever is beyond ASCII
become percent codes. -/
def hostChar (c : Char) : List Char :=
  if 0x20 ≤ c.toNat ∧ c.toNat < 0x7f then [c]
  else (Bytes.ofText (String.singleton c)).flatMap percentCode

end LoadBench.Address
