import Mathlib.Data.List.TakeWhile
import Mathlib.Data.List.Forall2
import LoadBench.Json
import LoadBench.Report

/-!
A reader of JSON finds in a written object what was put into it. A string is read back character by
character, whatever it holds, and a number as the text that it is. So an object is read back whose
members are strings and numbers, under the names that they were given, in the order in which they
stand, and it has no line break in it.
-/

namespace LoadBench.Json

open Report (jsonChar jsonString member)

/-! ## Strings -/

theorem scan_escape {e c : Char} (hu : e ≠ 'u') (he : escaped? e = some c) (rest : List Char) :
    scan ('\\' :: e :: rest) =
      (scan rest).map fun (pieces, left) => (.char c :: pieces, left) := by
  rw [scan.eq_def]
  simp [hu, he]

theorem scan_unit {h₁ h₂ h₃ h₄ : Char} {n : Nat} (hn : unit? h₁ h₂ h₃ h₄ = some n)
    (rest : List Char) : scan ('\\' :: 'u' :: h₁ :: h₂ :: h₃ :: h₄ :: rest) =
      (scan rest).map fun (pieces, left) => (.unit n :: pieces, left) := by
  rw [scan.eq_def]
  simp [hn]

theorem scan_plain {c : Char} (hquote : c ≠ '"') (hslash : c ≠ '\\') (hc : ¬ c.toNat < 0x20)
    (rest : List Char) : scan (c :: rest) =
      (scan rest).map fun (pieces, left) => (.char c :: pieces, left) := by
  rw [scan.eq_def]
  simp [hquote, hslash, hc]

theorem chars?_unit {n : Nat} (hn : n < 0xd800) (pieces : List Piece) :
    chars? (.unit n :: pieces) = (chars? pieces).map (Char.ofNat n :: ·) := by
  have hfirst : isFirstHalf n = false := by
    simp only [isFirstHalf, decide_eq_false_iff_not]
    omega
  have hsecond : isSecondHalf n = false := by
    simp only [isSecondHalf, decide_eq_false_iff_not]
    omega
  rw [chars?.eq_def]
  simp only [hfirst, hsecond, Bool.false_eq_true, if_false]

/-- What is written of a character is read as one piece, which is that character again. -/
theorem scan_jsonChar (c : Char) : ∃ piece,
    (∀ rest, scan (jsonChar c ++ rest) =
      (scan rest).map fun (pieces, left) => (piece :: pieces, left)) ∧
    ∀ pieces, chars? (piece :: pieces) = (chars? pieces).map (c :: ·) := by
  have hescape {e : Char} (hu : e ≠ 'u') (he : escaped? e = some c) : ∃ piece,
      (∀ rest, scan (['\\', e] ++ rest) =
        (scan rest).map fun (pieces, left) => (piece :: pieces, left)) ∧
      ∀ pieces, chars? (piece :: pieces) = (chars? pieces).map (c :: ·) :=
    ⟨.char c, scan_escape hu he, fun _ => rfl⟩
  unfold jsonChar
  iterate 7
    split
    next h => exact hescape (by decide) (by subst h; decide)
  split
  · next h =>
      have hhigh := Text.hexDigit?_digitChar ⟨c.toNat / 16, by omega⟩
      have hlow := Text.hexDigit?_digitChar ⟨c.toNat % 16, by omega⟩
      have hzero : Text.hexDigit? '0' = some 0 := by decide
      have hunit : unit? '0' '0' (Nat.digitChar (c.toNat / 16)) (Nat.digitChar (c.toNat % 16)) =
          some c.toNat := by
        simp only [unit?, hzero, hhigh, hlow, Option.bind_eq_bind, Option.bind_some]
        rw [show ((0 * 16 + 0) * 16 + c.toNat / 16) * 16 + c.toNat % 16 = c.toNat by omega]
      refine ⟨.unit c.toNat, scan_unit hunit, fun pieces => ?_⟩
      rw [chars?_unit (by omega), Char.ofNat_toNat]
  · next hquote hslash _ _ _ _ _ hcontrol =>
      exact ⟨.char c, scan_plain hquote hslash hcontrol, fun _ => rfl⟩

theorem scan_jsonChars (cs rest : List Char) :
    ∃ pieces, scan (cs.flatMap jsonChar ++ '"' :: rest) = some (pieces, rest) ∧
      chars? pieces = some cs := by
  induction cs with
  | nil =>
      refine ⟨[], ?_, rfl⟩
      rw [List.flatMap_nil, List.nil_append, scan.eq_def]
      rfl
  | cons c cs ih =>
      obtain ⟨pieces, hscan, hchars⟩ := ih
      obtain ⟨piece, hone, hchar⟩ := scan_jsonChar c
      refine ⟨piece :: pieces, ?_, ?_⟩
      · rw [List.flatMap_cons, List.append_assoc, hone, hscan]
        rfl
      · rw [hchar, hchars]
        rfl

/-! ## Numbers -/

theorem isDigits_iff {cs : List Char} :
    isDigits cs = true ↔ cs ≠ [] ∧ ∀ c ∈ cs, c.isDigit = true := by
  simp [isDigits]

theorem inNumber_of_isDigit {c : Char} (h : c.isDigit = true) : inNumber c = true := by
  simp [inNumber, h]

theorem inNumber_of_behindSign (signs : List Char) {cs : List Char}
    (hs : signs.all inNumber = true) (h : ∀ c ∈ behindSign signs cs, inNumber c = true) :
    ∀ c ∈ cs, inNumber c = true := by
  cases cs with
  | nil => exact fun _ hc => absurd hc List.not_mem_nil
  | cons d rest =>
      simp only [behindSign] at h
      split at h
      · next hd =>
          intro c hc
          rcases List.mem_cons.mp hc with rfl | hc
          · exact List.all_eq_true.mp hs c hd
          · exact h c hc
      · exact h

theorem inNumber_of_isExponent {cs : List Char} (h : isExponent cs = true) :
    ∀ c ∈ cs, inNumber c = true := by
  cases cs with
  | nil => exact fun _ hc => absurd hc List.not_mem_nil
  | cons mark rest =>
      simp only [isExponent, Bool.and_eq_true, Bool.or_eq_true, beq_iff_eq] at h
      have hdigits := (isDigits_iff.mp h.2).2
      have hrest := inNumber_of_behindSign ['+', '-'] rfl
        fun c hc => inNumber_of_isDigit (hdigits c hc)
      intro c hc
      rcases List.mem_cons.mp hc with rfl | hc
      · rcases h.1 with rfl | rfl <;> rfl
      · exact hrest c hc

/-- A number has no other characters than those of which numbers are made. -/
theorem inNumber_of_isNumber {cs : List Char} (h : isNumber cs = true) :
    ∀ c ∈ cs, inNumber c = true := by
  have hsplit {tail : List Char}
      (ht : ∀ c ∈ tail.dropWhile Char.isDigit, inNumber c = true) :
      ∀ c ∈ tail, inNumber c = true := by
    intro c hc
    rw [← List.takeWhile_append_dropWhile (p := Char.isDigit) (l := tail)] at hc
    rcases List.mem_append.mp hc with hc | hc
    · exact inNumber_of_isDigit (List.mem_takeWhile_imp hc)
    · exact ht c hc
  simp only [isNumber, Bool.and_eq_true] at h
  apply inNumber_of_behindSign ['-'] rfl
  apply hsplit
  revert h
  cases (behindSign ['-'] cs).dropWhile Char.isDigit with
  | nil => exact fun _ _ hc => absurd hc List.not_mem_nil
  | cons d rest =>
      rintro ⟨_, hfraction⟩ c hc
      simp only [isFraction] at hfraction
      split at hfraction
      · next hd =>
          rw [Bool.and_eq_true] at hfraction
          rcases List.mem_cons.mp hc with rfl | hc
          · rw [hd]
            rfl
          · exact hsplit (inNumber_of_isExponent hfraction.2) c hc
      · exact inNumber_of_isExponent hfraction c hc

/-! ## Values without parts -/

/-- What stands behind a number does not go on it. -/
def Apart (rest : List Char) : Prop := ∀ c ∈ rest.head?, inNumber c = false

theorem apart_cons {c : Char} (h : inNumber c = false) (rest : List Char) : Apart (c :: rest) := by
  rintro d ⟨⟩
  exact h

theorem Apart.while {rest : List Char} (h : Apart rest) :
    rest.takeWhile inNumber = [] ∧ rest.dropWhile inNumber = rest := by
  cases rest with
  | nil => exact ⟨rfl, rfl⟩
  | cons c rest => simp [h c rfl]

theorem tokens_mark {c : Char} {token : Token} (hb : isBlank c = false)
    (hm : mark? c = some token) (rest : List Char) :
    tokens (c :: rest) = (tokens rest).map (token :: ·) := by
  rw [tokens]
  simp only [hb, hm, Bool.false_eq_true, if_false]

theorem tokens_atom {c : Char} {rest left : List Char} {v : Json} (hb : isBlank c = false)
    (hm : mark? c = none) (hr : readAtom c rest = some (v, left)) :
    tokens (c :: rest) = (tokens left).map (.atom v :: ·) := by
  rw [tokens]
  simp only [hb, hm, Bool.false_eq_true, if_false]
  split
  · next hnone =>
      rw [hr] at hnone
      cases hnone
  · next hsome =>
      rw [hr] at hsome
      cases hsome
      rfl

/-- A text is read as a value without parts, whatever follows that does not go on it, and it does
not break the line. -/
structure Written (text : String) (v : Json) : Prop where
  reads : ∀ rest, Apart rest → tokens (text.toList ++ rest) = (tokens rest).map (.atom v :: ·)
  oneLine : '\n' ∉ text.toList

theorem not_mem_jsonChar (c : Char) : '\n' ∉ jsonChar c := by
  unfold jsonChar
  iterate 7
    split
    next => decide
  split
  · next h =>
      have hlow (n : Fin 16) : '\n' ≠ Nat.digitChar n := by
        revert n
        decide
      have hhigh := hlow ⟨c.toNat / 16, by omega⟩
      have hlow := hlow ⟨c.toNat % 16, by omega⟩
      simp [hhigh, hlow]
  · next hbreak _ _ _ => exact fun hc => hbreak (List.mem_singleton.mp hc).symm

theorem written_string (text : String) : Written (jsonString text) (.string text) := by
  constructor
  · intro rest _
    obtain ⟨pieces, hscan, hchars⟩ := scan_jsonChars text.toList rest
    have hread : readAtom '"' (text.toList.flatMap jsonChar ++ '"' :: rest) =
        some (.string text, rest) := by
      simp [readAtom, readString, hscan, hchars]
    have htext : (jsonString text).toList ++ rest =
        '"' :: (text.toList.flatMap jsonChar ++ '"' :: rest) := by
      simp [jsonString]
    rw [htext]
    exact tokens_atom rfl rfl hread
  · simp [jsonString, not_mem_jsonChar]

/-- Nothing else begins like a number. -/
theorem plain_of_inNumber {c : Char} (h : inNumber c = true) :
    isBlank c = false ∧ mark? c = none ∧ c ≠ '"' := by
  have hne {d : Char} (hd : inNumber d = false) : c ≠ d := by
    rintro rfl
    rw [h] at hd
    cases hd
  refine ⟨?_, ?_, hne rfl⟩
  · simp only [isBlank, List.mem_cons, List.not_mem_nil, or_false, decide_eq_false_iff_not,
      hne (d := ' ') rfl, hne (d := '\t') rfl, hne (d := '\n') rfl, hne (d := '\r') rfl,
      not_false_iff]
  · simp only [mark?, hne (d := '[') rfl, hne (d := ']') rfl, hne (d := '\x7b') rfl,
      hne (d := '\x7d') rfl, hne (d := ':') rfl, hne (d := ',') rfl, if_false]

theorem written_number {text : String} (h : isNumber text.toList = true) :
    Written text (.number text) := by
  have hall := inNumber_of_isNumber h
  constructor
  · intro rest hrest
    rcases hcs : text.toList with _ | ⟨c, cs⟩
    · rw [hcs] at h
      cases h
    · rw [hcs] at hall h
      obtain ⟨hblank, hmark, hquote⟩ := plain_of_inNumber (hall c List.mem_cons_self)
      have hcs' (d : Char) (hd : d ∈ cs) := hall d (List.mem_cons_of_mem c hd)
      have htake : (cs ++ rest).takeWhile inNumber = cs := by
        rw [List.takeWhile_append_of_pos hcs', hrest.while.1, List.append_nil]
      have hdrop : (cs ++ rest).dropWhile inNumber = rest := by
        rw [List.dropWhile_append_of_pos hcs', hrest.while.2]
      rw [List.cons_append]
      apply tokens_atom hblank hmark
      simp only [readAtom, hquote, if_false, hall c List.mem_cons_self, if_true, htake, hdrop, h]
      rw [← hcs, String.ofList_toList]
  · intro hbreak
    exact absurd (hall _ hbreak) (by decide)

/-! ## Objects -/

/-- What is read from a state on. -/
def State.readText (state : State) (s : List Char) : Option Json := (tokens s).bind state.read

theorem State.readText_of_tokens {state next : State} {s rest : List Char} {token : Token}
    (ht : tokens s = (tokens rest).map (token :: ·)) (hn : state.next? token = some next) :
    state.readText s = next.readText rest := by
  have hread (ts : List Token) : state.read (token :: ts) = next.read ts := by
    rw [State.read, hn]
    rfl
  rw [readText, ht, Option.bind_map]
  exact congrArg (Option.bind _) (funext hread)

theorem State.readText_mark {state : State} (next : State) {c : Char} {token : Token}
    (hm : mark? c = some token) (hb : isBlank c = false) (hn : state.next? token = some next)
    (rest : List Char) : state.readText (c :: rest) = next.readText rest :=
  readText_of_tokens (tokens_mark hb hm rest) hn

theorem State.readText_atom {state : State} (next : State) {text : String} {v : Json}
    (h : Written text v) (hn : state.next? (.atom v) = some next) {rest : List Char}
    (hrest : Apart rest) : state.readText (text.toList ++ rest) = next.readText rest :=
  readText_of_tokens (h.reads rest hrest) hn

theorem State.readText_end (v : Json) : (State.after v []).readText [] = some v := by
  rw [readText, tokens]
  rfl

/-- A text is that of a member of an object. -/
def MemberText (m : String × Json) (text : String) : Prop :=
  ∃ value, Written value m.2 ∧ text = member m.1 value

theorem MemberText.readText {m : String × Json} {text : String} (h : MemberText m text)
    (before : List (String × Json)) (stack : List Frame) (begun : Bool) {rest : List Char}
    (hrest : Apart rest) : (State.name before stack begun).readText (text.toList ++ rest) =
      (State.after m.2 (.object before m.1 :: stack)).readText rest := by
  obtain ⟨value, hvalue, rfl⟩ := h
  have htext : (member m.1 value).toList ++ rest =
      (jsonString m.1).toList ++ ':' :: (value.toList ++ rest) := by
    simp [member]
  rw [htext, State.readText_atom (.colon before m.1 stack) (written_string m.1) rfl,
    State.readText_mark (.value (.object before m.1 :: stack) false) rfl rfl rfl,
    State.readText_atom (.after m.2 (.object before m.1 :: stack)) hvalue rfl hrest]
  exact apart_cons rfl _

/-- The members of an object are read one after the other. -/
theorem readText_members {members : List (String × Json)} {texts : List String}
    (h : List.Forall₂ MemberText members texts) (hne : members ≠ [])
    (before : List (String × Json)) (begun : Bool) :
    (State.name before [] begun).readText ((String.intercalate "," texts).toList ++ ['\x7d']) =
      some (.object (before ++ members)) := by
  induction h generalizing before begun with
  | nil => exact absurd rfl hne
  | @cons m text members texts hentry htail ih =>
      cases htail with
      | nil =>
          rw [String.toList_intercalate, List.map_singleton, List.intercalate_singleton,
            hentry.readText before [] begun (apart_cons rfl _),
            State.readText_mark (.after (.object (before ++ [m])) []) rfl rfl rfl,
            State.readText_end]
      | @cons m' text' members texts hentry' htail =>
          have hrest := ih (List.cons_ne_nil m' members) (before ++ [m]) false
          have htext : (String.intercalate "," (text :: text' :: texts)).toList ++ ['\x7d'] =
              text.toList ++
                ',' :: ((String.intercalate "," (text' :: texts)).toList ++ ['\x7d']) := by
            rw [String.toList_intercalate, String.toList_intercalate, List.map_cons, List.map_cons,
              List.intercalate_cons_cons]
            simp
          rw [htext, hentry.readText before [] begun (apart_cons rfl _),
            State.readText_mark (.name (before ++ [m]) [] false) rfl rfl rfl, hrest,
            List.append_assoc]
          rfl

/-- An object is read as its members. -/
theorem ofText?_object {members : List (String × Json)} {texts : List String}
    (h : List.Forall₂ MemberText members texts) (hne : members ≠ []) :
    ofText? ("\x7b" ++ String.intercalate "," texts ++ "\x7d") = some (.object members) := by
  have htext : ("\x7b" ++ String.intercalate "," texts ++ "\x7d").toList =
      '\x7b' :: ((String.intercalate "," texts).toList ++ ['\x7d']) := by
    simp [-String.toList_intercalate]
  have hobject := readText_members h hne [] true
  calc ofText? ("\x7b" ++ String.intercalate "," texts ++ "\x7d")
      = (State.value [] false).readText
          ('\x7b' :: ((String.intercalate "," texts).toList ++ ['\x7d'])) := by
        rw [← htext]
        rfl
    _ = (State.name [] [] true).readText
          ((String.intercalate "," texts).toList ++ ['\x7d']) :=
        State.readText_mark _ rfl rfl rfl _
    _ = some (.object members) := hobject

theorem MemberText.oneLine {m : String × Json} {text : String} (h : MemberText m text) :
    '\n' ∉ text.toList := by
  obtain ⟨value, hvalue, rfl⟩ := h
  have hname := (written_string m.1).oneLine
  have hbreak := hvalue.oneLine
  simp [member, hname, hbreak]

theorem oneLine_object {members : List (String × Json)} {texts : List String}
    (h : List.Forall₂ MemberText members texts) :
    '\n' ∉ ("\x7b" ++ String.intercalate "," texts ++ "\x7d").toList := by
  have hentries : '\n' ∉ (String.intercalate "," texts).toList := by
    induction h with
    | nil => exact List.not_mem_nil
    | @cons m text members texts hentry htail ih =>
        cases texts with
        | nil =>
            rw [String.toList_intercalate, List.map_singleton, List.intercalate_singleton]
            exact hentry.oneLine
        | cons text' texts =>
            rw [String.toList_intercalate] at ih ⊢
            rw [List.map_cons, List.map_cons, List.intercalate_cons_cons, ← List.map_cons]
            simp only [List.mem_append, not_or]
            exact ⟨⟨hentry.oneLine, by decide⟩, ih⟩
  simp [-String.toList_intercalate, hentries]

end LoadBench.Json
