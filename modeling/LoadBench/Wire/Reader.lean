import LoadBench.Wire.Request

/-!
Requests as a receiver reads them. A reader knows nothing of the commands: it takes the bytes apart
by the counts and lengths that stand in them, and it refuses bytes that are no array of strings.

The form of such bytes is stated apart from the reader, and the reader accepts exactly the bytes of
this form. A number may be written with zeros in front of it, which a request never does.
-/

namespace LoadBench.Wire

def isDigit (b : UInt8) : Bool := 0x30 ≤ b && b ≤ 0x39

/-- The number that digits stand for, the first of them being the most significant one. -/
def numeral (digits : Bytes) : Nat := digits.foldl (fun n d => 10 * n + (d.toNat - 0x30)) 0

/-- A line that has a mark and then a number. -/
def IsHeader (mark : UInt8) (n : Nat) (t : Bytes) : Prop :=
  ∃ digits, digits ≠ [] ∧ (∀ d ∈ digits, isDigit d = true) ∧ numeral digits = n ∧
    t = mark :: (digits ++ lineEnd)

/-- A string behind a line with its length. -/
def IsBulk (value t : Bytes) : Prop :=
  ∃ line, IsHeader 0x24 value.length line ∧ t = line ++ (value ++ lineEnd)

/-- Things that are written one after the other, with nothing between them. -/
inductive Series {α : Type} (IsForm : α → Bytes → Prop) : List α → Bytes → Prop
  | nil : Series IsForm [] []
  | cons {a : α} {as : List α} {t u : Bytes} (h : IsForm a t) (hs : Series IsForm as u) :
      Series IsForm (a :: as) (t ++ u)

/-- An array of strings: a line that says how many there are, and then the strings. -/
def IsArray (values : List Bytes) (t : Bytes) : Prop :=
  ∃ line u, IsHeader 0x2a values.length line ∧ Series IsBulk values u ∧ t = line ++ u

/-- What follows after bytes that must come first. -/
def after? (first s : Bytes) : Option Bytes :=
  if first.isPrefixOf s then some (s.drop first.length) else none

def readHeader (mark : UInt8) (s : Bytes) : Option (Nat × Bytes) :=
  (after? [mark] s).bind fun s =>
    let digits := s.takeWhile isDigit
    if digits = [] then none
    else (after? lineEnd (s.dropWhile isDigit)).map fun rest => (numeral digits, rest)

def readBulk (s : Bytes) : Option (Bytes × Bytes) :=
  (readHeader 0x24 s).bind fun (length, s) =>
    (after? lineEnd (s.drop length)).map fun rest => (s.take length, rest)

/-- Reads so many strings. -/
def readBulks : Nat → Bytes → Option (List Bytes × Bytes)
  | 0, s => some ([], s)
  | n + 1, s =>
      (readBulk s).bind fun (value, s) =>
        (readBulks n s).map fun (values, rest) => (value :: values, rest)

def readArray (s : Bytes) : Option (List Bytes × Bytes) :=
  (readHeader 0x2a s).bind fun (count, s) => readBulks count s

variable {s rest first value line : Bytes} {values : List Bytes} {mark : UInt8} {n : Nat}

theorem after?_eq_some_iff : after? first s = some rest ↔ s = first ++ rest := by
  unfold after?
  constructor
  · intro h
    split at h
    · next hprefix =>
      obtain ⟨u, rfl⟩ := List.isPrefixOf_iff_prefix.mp hprefix
      rw [List.drop_left, Option.some.injEq] at h
      rw [h]
    · cases h
  · rintro rfl
    rw [if_pos (List.isPrefixOf_iff_prefix.mpr (List.prefix_append first rest)), List.drop_left]

/-- The digits of a line end where its end begins. -/
theorem span_digits {digits : Bytes} (h : ∀ d ∈ digits, isDigit d = true) (rest : Bytes) :
    (digits ++ (lineEnd ++ rest)).takeWhile isDigit = digits ∧
      (digits ++ (lineEnd ++ rest)).dropWhile isDigit = lineEnd ++ rest := by
  have hend : isDigit 0x0d = false := by decide
  rw [List.takeWhile_append_of_pos h, List.dropWhile_append_of_pos h]
  simp [lineEnd, hend]

theorem readHeader_eq_some_iff :
    readHeader mark s = some (n, rest) ↔ ∃ line, IsHeader mark n line ∧ s = line ++ rest := by
  constructor
  · intro h
    simp only [readHeader, Option.bind_eq_some_iff] at h
    obtain ⟨u, hmark, h⟩ := h
    split at h
    · cases h
    · next hne =>
      obtain ⟨v, hend, hv⟩ := Option.map_eq_some_iff.mp h
      cases hv
      have hdigits : ∀ d ∈ u.takeWhile isDigit, isDigit d = true := fun d hd =>
        List.all_eq_true.mp List.all_takeWhile d hd
      refine ⟨_, ⟨_, hne, hdigits, rfl, rfl⟩, ?_⟩
      calc s = mark :: u := after?_eq_some_iff.mp hmark
        _ = mark :: (u.takeWhile isDigit ++ u.dropWhile isDigit) := by
          rw [List.takeWhile_append_dropWhile]
        _ = mark :: (u.takeWhile isDigit ++ lineEnd) ++ rest := by
          rw [after?_eq_some_iff.mp hend]
          simp
  · rintro ⟨line, ⟨digits, hne, hdigits, rfl, rfl⟩, rfl⟩
    have hmark : after? [mark] (mark :: (digits ++ lineEnd) ++ rest) =
        some (digits ++ (lineEnd ++ rest)) := after?_eq_some_iff.mpr (by simp)
    obtain ⟨htake, hdrop⟩ := span_digits hdigits rest
    simp only [readHeader, hmark, Option.bind_some, htake, hdrop]
    rw [if_neg hne, after?_eq_some_iff.mpr rfl]
    rfl

theorem readBulk_eq_some_iff :
    readBulk s = some (value, rest) ↔ ∃ t, IsBulk value t ∧ s = t ++ rest := by
  constructor
  · intro h
    simp only [readBulk, Option.bind_eq_some_iff] at h
    obtain ⟨⟨length, u⟩, hheader, h⟩ := h
    obtain ⟨v, hend, hv⟩ := Option.map_eq_some_iff.mp h
    cases hv
    obtain ⟨line, hline, rfl⟩ := readHeader_eq_some_iff.mp hheader
    have hdrop : u.drop length = lineEnd ++ rest := after?_eq_some_iff.mp hend
    -- The line end stands behind the string, so the string is as long as it has to be.
    have hlength : (u.take length).length = length := by
      have hnonempty := congrArg List.length hdrop
      simp only [List.length_drop, List.length_append, lineEnd, List.length_cons,
        List.length_nil] at hnonempty
      rw [List.length_take]
      omega
    refine ⟨_, ⟨line, hlength.symm ▸ hline, rfl⟩, ?_⟩
    calc line ++ u = line ++ (u.take length ++ u.drop length) := by rw [List.take_append_drop]
      _ = line ++ (u.take length ++ lineEnd) ++ rest := by simp [hdrop]
  · rintro ⟨t, ⟨line, hline, rfl⟩, rfl⟩
    have hheader : readHeader 0x24 (line ++ (value ++ lineEnd) ++ rest) =
        some (value.length, value ++ (lineEnd ++ rest)) :=
      readHeader_eq_some_iff.mpr ⟨line, hline, by simp⟩
    simp only [readBulk, hheader, Option.bind_some, List.drop_left, List.take_left]
    rw [after?_eq_some_iff.mpr rfl]
    rfl

theorem readBulks_eq_some_iff :
    readBulks n s = some (values, rest) ↔
      values.length = n ∧ ∃ t, Series IsBulk values t ∧ s = t ++ rest := by
  induction n generalizing s values with
  | zero =>
      constructor
      · intro h
        cases h
        exact ⟨rfl, [], .nil, rfl⟩
      · rintro ⟨hlength, t, hseries, rfl⟩
        cases List.length_eq_zero_iff.mp hlength
        cases hseries
        rfl
  | succ n ih =>
      constructor
      · intro h
        simp only [readBulks, Option.bind_eq_some_iff] at h
        obtain ⟨⟨value, u⟩, hbulk, h⟩ := h
        obtain ⟨⟨others, v⟩, hbulks, hv⟩ := Option.map_eq_some_iff.mp h
        cases hv
        obtain ⟨t, hform, rfl⟩ := readBulk_eq_some_iff.mp hbulk
        obtain ⟨rfl, w, hseries, rfl⟩ := ih.mp hbulks
        exact ⟨rfl, _, .cons hform hseries, (List.append_assoc _ _ _).symm⟩
      · rintro ⟨hlength, t, hseries, rfl⟩
        cases hseries with
        | nil => cases hlength
        | @cons value others t u hform hseries =>
            have hbulk : readBulk (t ++ u ++ rest) = some (value, u ++ rest) :=
              readBulk_eq_some_iff.mpr ⟨t, hform, List.append_assoc _ _ _⟩
            have hbulks : readBulks n (u ++ rest) = some (others, rest) :=
              ih.mpr ⟨Nat.succ.inj hlength, u, hseries, rfl⟩
            simp only [readBulks, hbulk, hbulks, Option.bind_some, Option.map_some]

/-- The reader takes exactly the arrays of strings, and it leaves what stands behind them. -/
theorem readArray_eq_some_iff :
    readArray s = some (values, rest) ↔ ∃ t, IsArray values t ∧ s = t ++ rest := by
  constructor
  · intro h
    simp only [readArray, Option.bind_eq_some_iff] at h
    obtain ⟨⟨count, u⟩, hheader, hbulks⟩ := h
    obtain ⟨line, hline, rfl⟩ := readHeader_eq_some_iff.mp hheader
    obtain ⟨rfl, t, hseries, rfl⟩ := readBulks_eq_some_iff.mp hbulks
    exact ⟨_, ⟨line, t, hline, hseries, rfl⟩, (List.append_assoc _ _ _).symm⟩
  · rintro ⟨t, ⟨line, u, hline, hseries, rfl⟩, rfl⟩
    have hheader : readHeader 0x2a (line ++ u ++ rest) = some (values.length, u ++ rest) :=
      readHeader_eq_some_iff.mpr ⟨line, hline, List.append_assoc _ _ _⟩
    simp only [readArray, hheader, Option.bind_some]
    exact readBulks_eq_some_iff.mpr ⟨rfl, u, hseries, rfl⟩

theorem length_of_readArray (h : readArray s = some (values, rest)) :
    rest.length < s.length := by
  obtain ⟨t, ⟨line, u, ⟨digits, _, _, _, rfl⟩, _, rfl⟩, rfl⟩ := readArray_eq_some_iff.mp h
  simp only [List.length_append, List.length_cons]
  omega

/-- Reads arrays one after the other until nothing is left. -/
def readAll (s : Bytes) : Option (List (List Bytes)) :=
  if s = [] then some []
  else
    match _h : readArray s with
    | none => none
    | some (values, rest) => (readAll rest).map (values :: ·)
termination_by s.length
decreasing_by exact length_of_readArray _h

theorem Series.cases_eq {α : Type} {IsForm : α → Bytes → Prop} {as : List α}
    (h : Series IsForm as s) : as = [] ∧ s = [] ∨
      ∃ a rest t u, as = a :: rest ∧ s = t ++ u ∧ IsForm a t ∧ Series IsForm rest u := by
  cases h with
  | nil => exact .inl ⟨rfl, rfl⟩
  | @cons a rest t u h hs => exact .inr ⟨a, rest, t, u, rfl, rfl, h, hs⟩

/-- The reader takes exactly the arrays that stand one after the other. -/
theorem readAll_eq_some_iff {arrays : List (List Bytes)} :
    readAll s = some arrays ↔ Series IsArray arrays s := by
  fun_induction readAll s generalizing arrays with
  | case1 =>
      constructor
      · intro h
        cases h
        exact .nil
      · intro h
        rcases h.cases_eq with ⟨rfl, _⟩ | ⟨values, others, t, u, _, hempty, harray, _⟩
        · rfl
        · have hread : readArray (t ++ u) = some (values, u) :=
            readArray_eq_some_iff.mpr ⟨t, harray, rfl⟩
          have hlength := length_of_readArray hread
          rw [← hempty] at hlength
          cases hlength
  | case2 s hne hnone =>
      constructor
      · intro h
        cases h
      · intro h
        rcases h.cases_eq with ⟨_, rfl⟩ | ⟨values, others, t, u, _, rfl, harray, _⟩
        · exact absurd rfl hne
        · rw [readArray_eq_some_iff.mpr ⟨t, harray, rfl⟩] at hnone
          cases hnone
  | case3 s hne values rest hread ih =>
      constructor
      · intro h
        obtain ⟨others, hothers, rfl⟩ := Option.map_eq_some_iff.mp h
        obtain ⟨t, harray, rfl⟩ := readArray_eq_some_iff.mp hread
        exact .cons harray (ih.mp hothers)
      · intro h
        rcases h.cases_eq with ⟨_, rfl⟩ | ⟨values', others, t, u, rfl, rfl, harray, hseries⟩
        · exact absurd rfl hne
        · rw [readArray_eq_some_iff.mpr ⟨t, harray, rfl⟩] at hread
          cases hread
          rw [ih.mpr hseries]
          rfl

end LoadBench.Wire
