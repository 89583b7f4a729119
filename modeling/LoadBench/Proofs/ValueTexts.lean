import Mathlib.Data.List.Basic
import LoadBench.Flags.Assignment
import LoadBench.Proofs.NumberTexts

/-!
The values of settings as they are given. A number is read from its decimal text if it is below the
bound, a listed value from its name, and phases from their names with commas between them, since no
name has a comma in it. What a value does to a setting depends on nothing but what is known of that
setting, and what is known of the others stays as it is.
-/

namespace LoadBench.Flags

/-! ## Numbers -/

theorem digit?_of_isDigit {c : Char} (h : c.isDigit = true) :
    digit? c = some (c.toNat - '0'.toNat) := by
  have hbounds : '0' ≤ c ∧ c ≤ '9' := by
    simpa [Char.isDigit, Char.le_def] using h
  rw [digit?, if_pos hbounds]

theorem le_ofDigitChars (digits : List Char) (n : Nat) : n ≤ Nat.ofDigitChars 10 digits n := by
  induction digits generalizing n with
  | nil => exact Nat.le_refl n
  | cons c digits ih =>
      rw [Nat.ofDigitChars_cons]
      exact Nat.le_trans (by omega) (ih _)

/-- Digits are read as the number that they make, if that is below the bound. -/
theorem readDigits_eq {digits : List Char} {n : Nat} (hd : ∀ c ∈ digits, c.isDigit = true)
    (hn : Nat.ofDigitChars 10 digits n < numberBound) :
    readDigits digits n = .ok (Nat.ofDigitChars 10 digits n) := by
  induction digits generalizing n with
  | nil => rfl
  | cons c digits ih =>
      rw [Nat.ofDigitChars_cons] at hn ⊢
      have hfits : 10 * n + (c.toNat - '0'.toNat) < numberBound :=
        Nat.lt_of_le_of_lt (le_ofDigitChars digits _) hn
      rw [readDigits, digit?_of_isDigit (hd c List.mem_cons_self)]
      dsimp only
      rw [if_pos hfits]
      exact ih (fun c' hc' => hd c' (List.mem_cons_of_mem c hc')) hn

theorem readNumber_toString {n : Nat} (hn : n < numberBound) :
    readNumber (toString n) = .ok n := by
  obtain ⟨hne, hd⟩ := Json.isDigits_iff.mp (Json.isDigits_toString n)
  have hvalue := Json.ofDigitChars_toString n
  have hread : readDigits (toString n).toList 0 = .ok n := by
    rw [readDigits_eq hd (by rwa [hvalue]), hvalue]
  have hsign : (toString n).toList.head? ≠ some '+' := by
    intro hhead
    have hplus := hd '+' (List.mem_of_mem_head? hhead)
    cases hplus
  unfold readNumber
  split
  · next h => exact absurd h hne
  · next h => exact absurd (by rw [h]; rfl) hsign
  · next h => exact absurd (by rw [h]; rfl) hsign
  · exact hread

/-! ## Texts -/

theorem textOf_ofText (s : String) : textOf (Bytes.ofText s) = .ok s := by
  rw [textOf, Bytes.text?_ofText]

theorem numberOf_ofText (s : Setting) {n : Nat} (hn : n < numberBound) :
    numberOf s (Bytes.ofText (toString n)) = .ok n := by
  simp only [numberOf, textOf_ofText, bind, Except.bind, readNumber_toString hn]

theorem listedOf_ofText {α : Type} {s : Setting} {ofName? : String → Option α} {name : String}
    {a : α} (hne : name ≠ "") (h : ofName? name = some a) :
    listedOf s ofName? (Bytes.ofText name) = .ok a := by
  have hfull : (Bytes.ofText name).isEmpty = false := by
    rw [List.isEmpty_eq_false_iff]
    exact fun hnil => hne (Bytes.ofText_inj.mp hnil)
  simp [listedOf, hfull, Bytes.text?_ofText, h]

theorem listedOf_phase (kind : PhaseKind) :
    listedOf .phases PhaseKind.ofName? (Bytes.ofText kind.name) = .ok kind :=
  listedOf_ofText (by cases kind <;> decide) (PhaseKind.ofName?_name kind)

theorem listedOf_format (format : Format) :
    listedOf .format Format.ofName? (Bytes.ofText format.name) = .ok format :=
  listedOf_ofText (by cases format <;> decide) (by cases format <;> decide)

/-! ## Pieces -/

theorem pieces_of_not_mem {piece : Bytes} (h : 0x2c ∉ piece) : pieces piece = [piece] := by
  induction piece with
  | nil => rfl
  | cons b piece ih =>
      rw [List.mem_cons, not_or] at h
      rw [pieces, if_neg (Ne.symm h.1), ih h.2]

theorem pieces_append {piece : Bytes} (h : 0x2c ∉ piece) (rest : Bytes) :
    pieces (piece ++ 0x2c :: rest) = piece :: pieces rest := by
  induction piece with
  | nil => rw [List.nil_append, pieces, if_pos rfl]
  | cons b piece ih =>
      rw [List.mem_cons, not_or] at h
      rw [List.cons_append, pieces, if_neg (Ne.symm h.1), ih h.2]

/-- Texts without a comma are found again between the commas that were put between them. -/
theorem pieces_intercalate {texts : List String} (hne : texts ≠ [])
    (h : ∀ text ∈ texts, 0x2c ∉ Bytes.ofText text) :
    pieces (Bytes.ofText (String.intercalate "," texts)) = texts.map Bytes.ofText := by
  induction texts with
  | nil => exact absurd rfl hne
  | cons text texts ih =>
      have hcomma := h text List.mem_cons_self
      cases texts with
      | nil => rw [String.intercalate_singleton, pieces_of_not_mem hcomma, List.map_singleton]
      | cons next texts =>
          have hbytes : Bytes.ofText (String.intercalate "," (text :: next :: texts)) =
              Bytes.ofText text ++
                0x2c :: Bytes.ofText (String.intercalate "," (next :: texts)) := by
            rw [String.intercalate_cons_cons, Bytes.ofText_append, Bytes.ofText_append,
              List.append_assoc]
            rfl
          have hrest := ih (List.cons_ne_nil next texts) fun t ht =>
            h t (List.mem_cons_of_mem text ht)
          rw [hbytes, pieces_append hcomma, hrest, List.map_cons (a := text)]

theorem comma_not_mem_name (kind : PhaseKind) : 0x2c ∉ Bytes.ofText kind.name := by
  cases kind <;> decide

theorem pieces_phasesText {kinds : List PhaseKind} (hne : kinds ≠ []) :
    pieces (Bytes.ofText (phasesText kinds)) = kinds.map (Bytes.ofText ·.name) := by
  have hnames : kinds.map (·.name) ≠ [] := fun hnil => hne (List.map_eq_nil_iff.mp hnil)
  rw [phasesText, pieces_intercalate hnames, List.map_map]
  · rfl
  · intro text htext
    obtain ⟨kind, _, rfl⟩ := List.mem_map.mp htext
    exact comma_not_mem_name kind

theorem mapM_listedOf (kinds : List PhaseKind) :
    (kinds.map (Bytes.ofText ·.name)).mapM (listedOf .phases PhaseKind.ofName?) = .ok kinds := by
  induction kinds with
  | nil => rfl
  | cons kind kinds ih =>
      rw [List.map_cons, List.mapM_cons, listedOf_phase, ih]
      rfl

/-! ## Taking a value -/

namespace Given

/-- Everything is given as it is asked for. -/
def full (a : Arguments) : Given where
  addr := a.addr
  iterations := a.iterations
  numWorkers := a.numWorkers
  queueCapacity := a.queueCapacity
  phases := a.phases
  valueSuffix := a.valueSuffix
  format := a.format

/-- The same is known of a setting. -/
def Agree (g g' : Given) : Setting → Prop
  | .addr => g.addr = g'.addr
  | .iterations => g.iterations = g'.iterations
  | .numWorkers => g.numWorkers = g'.numWorkers
  | .queueCapacity => g.queueCapacity = g'.queueCapacity
  | .phases => g.phases = g'.phases
  | .valueSuffix => g.valueSuffix = g'.valueSuffix
  | .format => g.format = g'.format

theorem Agree.refl (g : Given) (s : Setting) : g.Agree g s := by
  cases s <;> rfl

theorem Agree.symm {g g' : Given} {s : Setting} (h : g.Agree g' s) : g'.Agree g s := by
  cases s <;> exact Eq.symm h

theorem Agree.trans {g g' g'' : Given} {s : Setting} (h : g.Agree g' s) (h' : g'.Agree g'' s) :
    g.Agree g'' s := by
  cases s <;> exact Eq.trans h h'

theorem Agree.has {g g' : Given} {s : Setting} (h : g.Agree g' s) : g.has s = g'.has s := by
  cases s <;> exact congrArg Option.isSome h

theorem has_full (a : Arguments) (s : Setting) : (full a).has s = true := by
  cases s <;> rfl

theorem phases_eq_none {g : Given} (h : g.has .phases = false) : g.phases = none :=
  Option.isNone_iff_eq_none.mp (Option.isSome_eq_false_iff.mp h)

theorem eq_of_agree {g g' : Given} (h : ∀ s, g.Agree g' s) : g = g' := by
  cases g
  cases g'
  simp only [mk.injEq]
  exact ⟨h .addr, h .iterations, h .numWorkers, h .queueCapacity, h .phases, h .valueSuffix,
    h .format⟩

theorem bind_eq_ok {α : Type} {read : Except Fault α} {f : α → Given} {g : Given} :
    (do return f (← read)) = Except.ok g ↔ ∃ a, read = .ok a ∧ f a = g := by
  constructor
  · intro h
    cases read with
    | error fault => cases h
    | ok a => exact ⟨a, rfl, Except.ok.inj h⟩
  · rintro ⟨a, rfl, rfl⟩
    rfl

/-- A value that can be taken where the same is known of its setting has the same effect, and it
has no effect on what is known of another setting. -/
theorem put_of_agree {g h g' : Given} {s : Setting} {value : Bytes} (hagree : g.Agree h s)
    (hput : g.put s value = .ok g') :
    ∃ h', h.put s value = .ok h' ∧ g'.Agree h' s ∧ ∀ t, t ≠ s → h'.Agree h t := by
  cases s
  -- The phases are the one setting of which the new state depends on the old one.
  case phases =>
    obtain ⟨kinds, hread, rfl⟩ := bind_eq_ok.mp hput
    refine ⟨_, bind_eq_ok.mpr ⟨kinds, hread, rfl⟩, ?_, fun t ht => ?_⟩
    · exact congrArg (fun known : Option (List PhaseKind) => some (known.getD [] ++ kinds)) hagree
    · cases t <;> first | rfl | exact absurd rfl ht
  all_goals
    obtain ⟨a, hread, rfl⟩ := bind_eq_ok.mp hput
    refine ⟨_, bind_eq_ok.mpr ⟨a, hread, rfl⟩, rfl, fun t ht => ?_⟩
    cases t <;> first | rfl | exact absurd rfl ht

theorem agree_of_put {g g' : Given} {s t : Setting} {value : Bytes}
    (hput : g.put s value = .ok g') (ht : t ≠ s) : g.Agree g' t := by
  obtain ⟨h', hput', _, hothers⟩ := put_of_agree (Agree.refl g s) hput
  obtain rfl : g' = h' := Except.ok.inj (hput.symm.trans hput')
  exact (hothers t ht).symm

/-- A piece of the list of phases is added to those that are known. -/
theorem put_phasesText (g : Given) {kinds : List PhaseKind} (hne : kinds ≠ []) :
    g.put .phases (Bytes.ofText (phasesText kinds)) =
      .ok { g with phases := some (g.phases.getD [] ++ kinds) } := by
  refine bind_eq_ok.mpr ⟨kinds, ?_, rfl⟩
  rw [pieces_phasesText hne, mapM_listedOf]

end Given

/-- What is asked for is within the bounds of what can be given. -/
structure Writable (a : Arguments) : Prop where
  iterations : a.iterations < numberBound
  numWorkers : a.numWorkers < numberBound
  queueCapacity : a.queueCapacity < numberBound
  phases : a.phases ≠ []

/-- The value of a setting of which nothing is known makes it what is asked for. -/
theorem Given.put_value {a : Arguments} (ha : Writable a) {g : Given} {s : Setting}
    (hnew : g.has s = false) :
    ∃ g', g.put s (Bytes.ofText (a.value s)) = .ok g' ∧ g'.Agree (full a) s := by
  cases s
  case addr => exact ⟨_, bind_eq_ok.mpr ⟨_, textOf_ofText a.addr, rfl⟩, rfl⟩
  case iterations => exact ⟨_, bind_eq_ok.mpr ⟨_, numberOf_ofText _ ha.iterations, rfl⟩, rfl⟩
  case numWorkers => exact ⟨_, bind_eq_ok.mpr ⟨_, numberOf_ofText _ ha.numWorkers, rfl⟩, rfl⟩
  case queueCapacity =>
    exact ⟨_, bind_eq_ok.mpr ⟨_, numberOf_ofText _ ha.queueCapacity, rfl⟩, rfl⟩
  case phases =>
    refine ⟨_, put_phasesText g ha.phases, ?_⟩
    rw [phases_eq_none hnew]
    rfl
  case valueSuffix => exact ⟨_, bind_eq_ok.mpr ⟨_, textOf_ofText a.valueSuffix, rfl⟩, rfl⟩
  case format => exact ⟨_, bind_eq_ok.mpr ⟨_, listedOf_format a.format, rfl⟩, rfl⟩

end LoadBench.Flags
