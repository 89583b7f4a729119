import LoadBench.Command.Reader

/-!
A displayed command can be read back. Each character and each byte is read from what is written of
it, whatever follows, and nothing that is written of one begins with the quote that ends all of
them. So an argument ends where it was ended, even if it holds quotes, backslashes, brackets or text
that looks like another argument, and the list of arguments is taken apart as it was put together.
-/

namespace LoadBench

namespace Text

/-! ## Hexadecimal numbers -/

theorem hexNumber?_append (digits : List Char) (d : Char) :
    hexNumber? (digits ++ [d]) =
      (hexNumber? digits).bind fun n => (hexDigit? d).map (16 * n + ·) := by
  simp [hexNumber?, List.foldlM_append]

theorem hexDigits_of_lt {n : Nat} (h : n < 16) : hexDigits n = [Nat.digitChar n] :=
  Nat.toDigits_of_lt_base h

theorem hexDigits_of_le {n : Nat} (h : 16 ≤ n) :
    hexDigits n = hexDigits (n / 16) ++ [Nat.digitChar (n % 16)] :=
  Nat.toDigits_of_base_le (by decide) h

theorem hexNumber?_hexDigits (n : Nat) : hexNumber? (hexDigits n) = some n := by
  induction n using Nat.strongRecOn with
  | ind n ih =>
      by_cases h : n < 16
      · have hdigit := hexDigit?_digitChar ⟨n, h⟩
        simp [hexDigits_of_lt h, hexNumber?, hdigit]
      · have hdigit := hexDigit?_digitChar ⟨n % 16, Nat.mod_lt n (by decide)⟩
        rw [hexDigits_of_le (by omega), hexNumber?_append, ih (n / 16) (by omega), hdigit,
          Option.bind_some, Option.map_some, Nat.div_add_mod]

theorem brace_not_mem_hexDigits (n : Nat) : '\x7d' ∉ hexDigits n := by
  induction n using Nat.strongRecOn with
  | ind n ih =>
      by_cases h : n < 16
      · rw [hexDigits_of_lt h, List.mem_singleton]
        exact (Nat.digitChar_ne '\x7d' rfl).symm
      · rw [hexDigits_of_le (by omega), List.mem_append, List.mem_singleton, not_or]
        exact ⟨ih (n / 16) (by omega), (Nat.digitChar_ne '\x7d' rfl).symm⟩

/-! ## Characters -/

theorem escaped?_of_escapeLetter? {c letter : Char} (h : escapeLetter? c = some letter) :
    escaped? letter = some c ∧ letter ≠ 'u' ∧ letter ≠ 'x' := by
  unfold escapeLetter? at h
  iterate 6
    split at h
    next hc =>
      cases h
      subst hc
      decide
  cases h

theorem readChar_letter {c letter : Char} (hu : letter ≠ 'u') (h : escaped? letter = some c)
    (rest : List Char) : readChar ('\\' :: letter :: rest) = some (c, rest) := by
  rw [readChar.eq_def]
  simp [hu, h]

theorem readChar_number (c : Char) (rest : List Char) :
    readChar ('\\' :: 'u' :: '\x7b' :: (hexDigits c.toNat ++ '\x7d' :: rest)) =
      some (c, rest) := by
  have hdigits : ∀ d ∈ hexDigits c.toNat, (d != '\x7d') = true := by
    intro d hd
    rw [bne_iff_ne]
    rintro rfl
    exact brace_not_mem_hexDigits c.toNat hd
  have hvalid : c.toNat.isValidChar := c.valid
  rw [readChar, List.dropWhile_append_of_pos hdigits, List.takeWhile_append_of_pos hdigits]
  simp [hexNumber?_hexDigits, hvalid]

theorem readChar_plain {c : Char} (h : c ≠ '\\') (rest : List Char) :
    readChar (c :: rest) = some (c, rest) := by
  rw [readChar.eq_def]
  simp [h]

theorem readChar_quotedChar (c : Char) (rest : List Char) :
    readChar (quotedChar c ++ rest) = some (c, rest) := by
  unfold quotedChar
  split
  · next letter h =>
    obtain ⟨hread, hu, _⟩ := escaped?_of_escapeLetter? h
    exact readChar_letter hu hread rest
  · next h =>
    split
    · have hnumber := readChar_number c rest
      simpa using hnumber
    · apply readChar_plain
      rintro rfl
      exact absurd h (by decide)

theorem head_quotedChar (c : Char) : (quotedChar c).head? ≠ some '"' ∧ quotedChar c ≠ [] := by
  unfold quotedChar
  split
  · exact ⟨by simp, List.cons_ne_nil _ _⟩
  · next h =>
    split
    · exact ⟨by simp, by simp⟩
    · refine ⟨?_, List.cons_ne_nil _ _⟩
      rw [List.head?_cons, Ne, Option.some.injEq]
      rintro rfl
      exact absurd h (by decide)

/-! ## One after the other -/

/-- Things are read one after the other if each is read in front of whatever follows, and if none
begins like the end. -/
theorem readUntil_flatMap {α : Type} {stop : Char} {read : List Char → Option (α × List Char)}
    {write : α → List Char} (hread : ∀ a rest, read (write a ++ rest) = some (a, rest))
    (hstart : ∀ a, (write a).head? ≠ some stop ∧ write a ≠ []) (as : List α) (rest : List Char) :
    readUntil stop read (as.flatMap write ++ stop :: rest) = some (as, rest) := by
  induction as with
  | nil =>
      rw [List.flatMap_nil, List.nil_append, readUntil, if_pos rfl]
  | cons a as ih =>
      obtain ⟨hstop, hne⟩ := hstart a
      obtain ⟨c, cs, hwrite⟩ := List.exists_cons_of_ne_nil hne
      have hc : c ≠ stop := by
        rintro rfl
        exact hstop (by rw [hwrite, List.head?_cons])
      have hone := hread a (as.flatMap write ++ stop :: rest)
      rw [hwrite, List.cons_append] at hone
      have hlength : (as.flatMap write ++ stop :: rest).length ≤
          (cs ++ (as.flatMap write ++ stop :: rest)).length := by simp
      rw [List.flatMap_cons, hwrite, List.append_assoc, List.cons_append, readUntil, if_neg hc]
      simp only [hone, hlength, ih, dite_true, Option.map_some]

theorem readUntil_quotedChars (cs rest : List Char) :
    readUntil '"' readChar (quotedChars cs ++ '"' :: rest) = some (cs, rest) :=
  readUntil_flatMap readChar_quotedChar head_quotedChar cs rest

end Text

namespace Bytes

theorem readByte_letter {c letter : Char} (hx : letter ≠ 'x') (h : Text.escaped? letter = some c)
    (rest : List Char) :
    readByte ('\\' :: letter :: rest) = some (UInt8.ofNat c.toNat, rest) := by
  rw [readByte.eq_def]
  simp [hx, h]

theorem readByte_hexPair (b : UInt8) (rest : List Char) :
    readByte ('\\' :: 'x' :: (hexPair b ++ rest)) = some (b, rest) := by
  have hb : b.toNat < 256 := b.toNat_lt
  have hhigh := Text.hexDigit?_digitChar ⟨b.toNat / 16, by omega⟩
  have hlow := Text.hexDigit?_digitChar ⟨b.toNat % 16, by omega⟩
  have hnumber : Text.hexNumber? (hexPair b) = some b.toNat := by
    simp only [Text.hexNumber?, hexPair, List.foldlM_cons, List.foldlM_nil, hhigh, hlow,
      Option.map_some, Option.bind_eq_bind, Option.bind_some, Nat.mul_zero, Nat.zero_add,
      Nat.div_add_mod]
    rfl
  simp only [hexPair, List.cons_append, List.nil_append] at hnumber ⊢
  simp only [readByte, hnumber, Option.map_some, UInt8.ofNat_toNat]

theorem toNat_ofNat_visible {b : UInt8} (h : 0x20 ≤ b ∧ b < 0x7f) :
    (Char.ofNat b.toNat).toNat = b.toNat := by
  have hhigh : b.toNat < 0x7f := UInt8.lt_iff_toNat_lt.mp h.2
  rw [Char.ofNat, dif_pos (.inl (by omega))]
  rfl

theorem readByte_plain {b : UInt8} (h : 0x20 ≤ b ∧ b < 0x7f) (hslash : b ≠ 0x5c)
    (rest : List Char) : readByte (Char.ofNat b.toNat :: rest) = some (b, rest) := by
  have hlow : 0x20 ≤ b.toNat := UInt8.le_iff_toNat_le.mp h.1
  have hhigh : b.toNat < 0x7f := UInt8.lt_iff_toNat_lt.mp h.2
  have hchar := toNat_ofNat_visible h
  have hne : Char.ofNat b.toNat ≠ '\\' := by
    intro heq
    rw [heq] at hchar
    exact hslash (UInt8.toNat_inj.mp hchar.symm)
  rw [readByte.eq_def]
  simp [hne, hchar, hlow, hhigh]

theorem readByte_quotedByte (b : UInt8) (rest : List Char) :
    readByte (quotedByte b ++ rest) = some (b, rest) := by
  have hletter {c letter : Char} (h : Text.escaped? letter = some c) (hx : letter ≠ 'x')
      (hb : b = UInt8.ofNat c.toNat) : readByte (['\\', letter] ++ rest) = some (b, rest) := by
    rw [hb]
    exact readByte_letter hx h rest
  unfold quotedByte
  split
  next h => exact hletter (c := '\n') rfl (by decide) h
  split
  next h => exact hletter (c := '\r') rfl (by decide) h
  split
  next h => exact hletter (c := '\t') rfl (by decide) h
  split
  next h => exact hletter (c := '\\') rfl (by decide) h
  next hslash =>
  split
  next h => exact hletter (c := '"') rfl (by decide) h
  split
  next h => exact hletter (c := '\x00') rfl (by decide) h
  split
  next h => exact readByte_plain h hslash rest
  next => exact readByte_hexPair b rest

theorem head_quotedByte (b : UInt8) : (quotedByte b).head? ≠ some '"' ∧ quotedByte b ≠ [] := by
  have hslash {cs : List Char} : ('\\' :: cs).head? ≠ some '"' ∧ '\\' :: cs ≠ [] :=
    ⟨by simp, List.cons_ne_nil _ _⟩
  unfold quotedByte
  iterate 4
    split
    next => exact hslash
  split
  next => exact hslash
  next hquote =>
  split
  next => exact hslash
  split
  next h =>
    refine ⟨?_, List.cons_ne_nil _ _⟩
    rw [List.head?_cons, Ne, Option.some.injEq]
    intro heq
    have hbyte := congrArg Char.toNat heq
    rw [toNat_ofNat_visible h] at hbyte
    exact hquote (UInt8.toNat_inj.mp hbyte)
  next => exact hslash

theorem readUntil_quotedByte (bytes : Bytes) (rest : List Char) :
    Text.readUntil '"' readByte (bytes.flatMap quotedByte ++ '"' :: rest) = some (bytes, rest) :=
  Text.readUntil_flatMap readByte_quotedByte head_quotedByte bytes rest

end Bytes

namespace Command

/-! ## Arguments -/

/-- An argument is displayed as text exactly if it is text. -/
theorem renderArg_cases (a : Bytes) :
    (∃ s, a = Bytes.ofText s ∧ renderArg a = Text.quoted s) ∨
      (∀ s, a ≠ Bytes.ofText s) ∧ renderArg a = a.quoted := by
  unfold renderArg
  split
  · next s h => exact .inl ⟨s, Bytes.text?_eq_some_iff.mp h, rfl⟩
  · next h =>
    refine .inr ⟨fun s hs => ?_, rfl⟩
    rw [Bytes.text?_eq_some_iff.mpr hs] at h
    cases h

theorem readArg_renderArg (a : Bytes) (rest : List Char) :
    readArg ((renderArg a).toList ++ rest) = some (a, rest) := by
  rcases renderArg_cases a with ⟨s, rfl, h⟩ | ⟨_, h⟩
  · simp [h, Text.quoted, readArg, Text.readUntil_quotedChars]
  · simp [h, Bytes.quoted, readArg, Bytes.readUntil_quotedByte]

/-- What stands in the list for an argument behind another item. -/
def nextArg (a : Bytes) : List Char := ',' :: ' ' :: (renderArg a).toList

theorem readNext_nextArg (a : Bytes) (rest : List Char) :
    readNext (nextArg a ++ rest) = some (a, rest) := readArg_renderArg a rest

theorem head_nextArg (a : Bytes) : (nextArg a).head? ≠ some ']' ∧ nextArg a ≠ [] :=
  ⟨by simp [nextArg], List.cons_ne_nil _ _⟩

theorem toList_intercalate_render (first : String) (args : List Bytes) :
    (String.intercalate ", " (first :: args.map renderArg)).toList =
      first.toList ++ args.flatMap nextArg := by
  induction args generalizing first with
  | nil => simp
  | cons a args ih =>
      rw [List.map_cons, String.intercalate_cons_cons, String.toList_append, ih]
      simp [nextArg]

theorem toList_render (c : Command) :
    c.render.toList = '[' :: '"' :: (Text.quotedChars c.name.toList ++
      '"' :: (c.args.flatMap nextArg ++ [']'])) := by
  simp only [render, String.toList_append, toList_intercalate_render, Text.quoted,
    String.toList_ofList]
  simp

theorem read_render (c : Command) (rest : List Char) :
    read (c.render.toList ++ rest) = some (c, rest) := by
  have hname := Text.readUntil_quotedChars c.name.toList
    (c.args.flatMap nextArg ++ ']' :: rest)
  have hargs := Text.readUntil_flatMap readNext_nextArg head_nextArg c.args rest
  simp [toList_render, read, hname, hargs]

/-- A displayed command is read as the command that it is, whatever follows, so no two commands are
displayed alike and none like the beginning of another. Each argument is quoted text if it is
UTF-8, and quoted bytes if it is not. -/
theorem display_reads_back :
    (∀ c rest, read (c.render.toList ++ rest) = some (c, rest)) ∧
      (∀ c : Command, ofText? c.render = some c) ∧
      (∀ c d : Command, c.render = d.render ↔ c = d) ∧
      ∀ a, (∃ s, a = Bytes.ofText s ∧ renderArg a = Text.quoted s) ∨
        (∀ s, a ≠ Bytes.ofText s) ∧ renderArg a = a.quoted := by
  have hread (c : Command) : ofText? c.render = some c := by
    have hwhole := read_render c []
    rw [List.append_nil] at hwhole
    simp only [ofText?, hwhole]
  refine ⟨read_render, hread, fun c d => ⟨fun h => ?_, congrArg render⟩, renderArg_cases⟩
  have hsame := hread c
  rw [h, hread d, Option.some.injEq] at hsame
  exact hsame.symm

end Command

end LoadBench
