import LoadBench.Text.Quoted

/-!
Strings of bytes, which need not be text. A byte string is read as UTF-8 in two ways: strictly,
where an ill-formed sequence means that there is no text, and leniently, where each longest
ill-formed piece becomes one replacement character.
-/

namespace LoadBench

abbrev Bytes := List UInt8

namespace Bytes

/-- The UTF-8 form of a text. -/
def ofText (s : String) : Bytes := s.toUTF8.data.toList

@[simp] theorem ofText_append (s t : String) : ofText (s ++ t) = ofText s ++ ofText t := by
  simp [ofText]

theorem ofText_ofList (cs : List Char) :
    ofText (String.ofList cs) = cs.flatMap String.utf8EncodeChar := by
  simp [ofText, List.utf8Encode]

/-- A text can be told from its UTF-8 form. -/
theorem ofText_inj {s t : String} : ofText s = ofText t ↔ s = t := by
  rw [ofText, ofText, Array.toList_inj, ← ByteArray.ext_iff, String.toUTF8_eq_toByteArray,
    String.toUTF8_eq_toByteArray, String.toByteArray_inj]

/-- The text whose UTF-8 form this is, if there is one. -/
def text? (bytes : Bytes) : Option String := String.fromUTF8? ⟨bytes.toArray⟩

theorem text?_ofText (s : String) : text? (ofText s) = some s := by
  have hbytes : (⟨(ofText s).toArray⟩ : ByteArray) = s.toByteArray := by
    rw [ofText, Array.toArray_toList, String.toUTF8_eq_toByteArray]
  rw [text?, hbytes]
  exact dif_pos s.isValidUTF8

/-- A text is read from its UTF-8 form and from nothing else. -/
theorem text?_eq_some_iff {bytes : Bytes} {s : String} :
    bytes.text? = some s ↔ bytes = ofText s := by
  constructor
  · intro h
    simp only [text?, String.fromUTF8?] at h
    split at h
    · cases h
      simp only [ofText, String.toUTF8_eq_toByteArray]
      rfl
    · cases h
  · rintro rfl
    exact text?_ofText s

/-- A piece of a byte string: a character, or bytes that are no text. -/
inductive Piece where
  | char (c : Char)
  | broken (bytes : Bytes)
deriving DecidableEq, Repr

/-- A UTF-8 sequence that has begun: its bytes and the bits read from them so far, how many bytes
are still due, and the bounds of the next one. The first continuation byte of some sequences has
narrower bounds, which is what shuts out overlong forms, surrogates and numbers past the last code
point. -/
structure Partial where
  bytes : Bytes
  bits : Nat
  due : Nat
  low : Nat
  high : Nat

/-- What a byte can begin: `none` for a byte that begins nothing. -/
def beginning? (byte : UInt8) : Option Partial :=
  let b := byte.toNat
  if b < 0xc2 then none
  else if b < 0xe0 then some ⟨[byte], b - 0xc0, 1, 0x80, 0xbf⟩
  else if b < 0xf0 then
    some ⟨[byte], b - 0xe0, 2, if b = 0xe0 then 0xa0 else 0x80, if b = 0xed then 0x9f else 0xbf⟩
  else if b < 0xf5 then
    some ⟨[byte], b - 0xf0, 3, if b = 0xf0 then 0x90 else 0x80, if b = 0xf4 then 0x8f else 0xbf⟩
  else none

/-- The pieces of a byte string, given the sequence that is open, if one is. A sequence that does
not go on as it began is one broken piece. -/
def piecesFrom : Option Partial → Bytes → List Piece
  | none, [] => []
  | some p, [] => [.broken p.bytes]
  | open?, byte :: rest =>
      let b := byte.toNat
      let fresh : List Piece :=
        if b < 0x80 then .char (Char.ofNat b) :: piecesFrom none rest
        else match beginning? byte with
          | none => .broken [byte] :: piecesFrom none rest
          | some p => piecesFrom (some p) rest
      match open? with
      | none => fresh
      | some p =>
          if p.low ≤ b ∧ b ≤ p.high then
            let bits := p.bits * 64 + (b - 0x80)
            if p.due ≤ 1 then .char (Char.ofNat bits) :: piecesFrom none rest
            else piecesFrom (some ⟨p.bytes ++ [byte], bits, p.due - 1, 0x80, 0xbf⟩) rest
          else .broken p.bytes :: fresh

/-- The pieces of a byte string: its characters, and what is no text between them. -/
def pieces (bytes : Bytes) : List Piece := piecesFrom none bytes

/-- The character that stands for bytes that are no text. -/
def replacement : Char := '\ufffd'

/-- The text of a byte string, with a replacement character for each ill-formed piece. -/
def lenientText (bytes : Bytes) : String :=
  String.ofList <| bytes.pieces.map fun
    | .char c => c
    | .broken _ => replacement

/-- Two lower-case hexadecimal digits. -/
def hexPair (b : UInt8) : List Char :=
  [Nat.digitChar (b.toNat / 16), Nat.digitChar (b.toNat % 16)]

/-- One byte between the quotes of a quoted byte string. Unlike in a text, a byte outside the
visible ASCII characters is always two hexadecimal digits. -/
def quotedByte (b : UInt8) : List Char :=
  if b = 0x0a then ['\\', 'n']
  else if b = 0x0d then ['\\', 'r']
  else if b = 0x09 then ['\\', 't']
  else if b = 0x5c then ['\\', '\\']
  else if b = 0x22 then ['\\', '"']
  else if b = 0x00 then ['\\', '0']
  else if 0x20 ≤ b ∧ b < 0x7f then [Char.ofNat b.toNat]
  else ['\\', 'x'] ++ hexPair b

/-- A byte string in quotes, marked by a leading `b`. -/
def quoted (bytes : Bytes) : String :=
  String.ofList ('b' :: '"' :: (bytes.flatMap quotedByte ++ ['"']))

end Bytes

end LoadBench
