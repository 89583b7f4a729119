import LoadBench.Proofs.AddressForm
import LoadBench.Proofs.ValueTexts

/-!
Settings can be written down and read back. Values of different settings do not meet, so it is
enough to know of each setting that the values which it is given, in their order, make it what was
asked for. An argument changes what is known of its own setting only and takes the first of these
values away; when the arguments end, a setting has become what was asked for, or nothing is known of
it and the environment has its value. Nothing else that the environment has is looked at.
-/

namespace LoadBench.Flags

/-! ## One argument -/

theorem splitAtEquals_append {name : Bytes} (h : 0x3d ∉ name) (value : Bytes) :
    splitAtEquals (name ++ 0x3d :: value) = (name, some value) := by
  induction name with
  | nil => rw [List.nil_append, splitAtEquals, if_pos rfl]
  | cons b name ih =>
      rw [List.mem_cons, not_or] at h
      rw [List.cons_append, splitAtEquals, if_neg (Ne.symm h.1), ih h.2]

theorem equals_not_mem_flag (s : Setting) : 0x3d ∉ Bytes.ofText s.flag := by
  cases s <;> decide

theorem token_of_argument (a : Assignment) :
    Token.of a.argument = .long (Bytes.ofText a.setting.flag) (some (Bytes.ofText a.value)) := by
  have hbytes : a.argument =
      0x2d :: 0x2d :: (Bytes.ofText a.setting.flag ++ 0x3d :: Bytes.ofText a.value) := by
    rw [Assignment.argument, Bytes.ofText_append, Bytes.ofText_append, Bytes.ofText_append,
      List.append_assoc, List.append_assoc]
    rfl
  have hmore : Bytes.ofText a.setting.flag ++ 0x3d :: Bytes.ofText a.value ≠ [] :=
    List.append_ne_nil_of_right_ne_nil _ (List.cons_ne_nil _ _)
  rw [hbytes, Token.of]
  · rw [splitAtEquals_append (equals_not_mem_flag a.setting)]
  · exact hmore

/-- An assignment is read by taking its value, unless the setting was given and may not be again. -/
theorem read_argument {scan : Scan} (hpending : scan.pending = none) {a : Assignment} {g : Given}
    (hfree : (scan.given.has a.setting && !repeats a.setting) = false)
    (hput : scan.given.put a.setting (Bytes.ofText a.value) = .ok g) (rest : List Bytes) :
    Scan.read scan (a.argument :: rest) =
      Scan.read { scan.mention a.setting with given := g } rest := by
  have hresolve : scan.resolve = .ok scan := by
    rw [Scan.resolve, hpending]
  have htake : scan.take a.setting (Bytes.ofText a.value) =
      .ok { scan.mention a.setting with given := g } := by
    rw [Scan.take, hfree, hput]
    rfl
  have hlong : scan.long (Bytes.ofText a.setting.flag) (some (Bytes.ofText a.value)) =
      .ok { scan.mention a.setting with given := g } := by
    simp only [Scan.long, Bytes.text?_ofText, Option.bind_some, Setting.ofFlag?_flag, Scan.flag,
      hresolve, bind, Except.bind, htake, Except.mapError]
  rw [Scan.read.eq_def]
  simp only [token_of_argument, hlong, bind, Except.bind]

/-! ## The values of one setting -/

theorem valuesOf_cons_self (a : Assignment) (rest : List Assignment) :
    valuesOf (a :: rest) a.setting = a.value :: valuesOf rest a.setting := by
  simp [valuesOf]

theorem valuesOf_cons_of_ne {a : Assignment} {s : Setting} (h : s ≠ a.setting)
    (rest : List Assignment) : valuesOf (a :: rest) s = valuesOf rest s := by
  simp [valuesOf, Ne.symm h]

/-- Values that can be taken one after the other and make of a setting what is asked for. -/
def Completes (a : Arguments) (s : Setting) : Given → List String → Prop
  | g, [] => g.Agree (.full a) s
  | g, value :: values =>
      (g.has s && !repeats s) = false ∧
        ∃ g', g.put s (Bytes.ofText value) = .ok g' ∧ Completes a s g' values

/-- Whether values complete a setting depends on nothing but what is known of it. -/
theorem completes_of_agree {a : Arguments} {s : Setting} {g h : Given} {values : List String}
    (hagree : g.Agree h s) (hvalues : Completes a s g values) : Completes a s h values := by
  induction values generalizing g h with
  | nil => exact hagree.symm.trans hvalues
  | cons value values ih =>
      obtain ⟨hfree, g', hput, hrest⟩ := hvalues
      obtain ⟨h', hput', hagree', _⟩ := Given.put_of_agree hagree hput
      rw [hagree.has] at hfree
      exact ⟨hfree, h', hput', ih hagree' hrest⟩

theorem completes_parts {a : Arguments} (ha : Writable a) {parts : List (List PhaseKind)}
    (hparts : ∀ part ∈ parts, part ≠ []) {g : Given}
    (hphases : g.phases.getD [] ++ parts.flatten = a.phases) :
    Completes a .phases g (parts.map phasesText) := by
  induction parts generalizing g with
  | nil =>
      rw [List.flatten_nil, List.append_nil] at hphases
      cases hknown : g.phases with
      | none =>
          rw [hknown] at hphases
          exact absurd hphases.symm ha.phases
      | some kinds =>
          rw [hknown, Option.getD_some] at hphases
          exact hknown.trans (congrArg some hphases)
  | cons part parts ih =>
      have hput := Given.put_phasesText g (hparts part List.mem_cons_self)
      have hrest : ∀ p ∈ parts, p ≠ [] := fun p hp => hparts p (List.mem_cons_of_mem part hp)
      refine ⟨by simp [repeats], _, hput, ih hrest ?_⟩
      rw [Option.getD_some, List.append_assoc]
      exact hphases

theorem spells_iff {a : Arguments} {s : Setting} (hs : s ≠ .phases) {values : List String} :
    Spells a s values ↔ values = [a.value s] := by
  cases s <;> first | exact Iff.rfl | exact absurd rfl hs

theorem completes_of_spells {a : Arguments} (ha : Writable a) {g : Given} {s : Setting}
    (hnew : g.has s = false) {values : List String} (hvalues : Spells a s values) :
    Completes a s g values := by
  by_cases hs : s = .phases
  · subst hs
    obtain ⟨parts, hparts, hflatten, rfl⟩ := hvalues
    apply completes_parts ha hparts
    rw [Given.phases_eq_none hnew]
    exact hflatten
  · obtain rfl := (spells_iff hs).mp hvalues
    obtain ⟨g', hput, hagree⟩ := Given.put_value ha hnew
    exact ⟨by rw [hnew]; rfl, g', hput, hagree⟩

/-! ## All settings -/

/-- Nothing is known of a setting, and the environment has what is asked for. -/
structure LeftToVariable (env : Environment) (a : Arguments) (g : Given) (s : Setting) : Prop where
  new : g.has s = false
  value : env.get? s.envName = some (Bytes.ofText (a.value s))

theorem LeftToVariable.of_agree {env : Environment} {a : Arguments} {g h : Given} {s : Setting}
    (hleft : LeftToVariable env a g s) (hagree : g.Agree h s) : LeftToVariable env a h s :=
  ⟨hagree.has ▸ hleft.new, hleft.value⟩

/-- Assignments are read in whatever order they come, if those of each setting make it what is asked
for. -/
theorem read_assignments {env : Environment} {a : Arguments} {assignments : List Assignment}
    {scan : Scan} (hpending : scan.pending = none)
    (h : ∀ s, Completes a s scan.given (valuesOf assignments s) ∨
      valuesOf assignments s = [] ∧ LeftToVariable env a scan.given s) :
    ∃ scan', Scan.read scan (assignments.map Assignment.argument) = .ok scan' ∧
      ∀ s, scan'.given.Agree (.full a) s ∨ LeftToVariable env a scan'.given s := by
  induction assignments generalizing scan with
  | nil =>
      refine ⟨scan, ?_, fun s => (h s).imp id And.right⟩
      rw [List.map_nil, Scan.read, Scan.resolve, hpending]
      rfl
  | cons x rest ih =>
      have hfirst := h x.setting
      rw [valuesOf_cons_self] at hfirst
      rcases hfirst with ⟨hfree, g, hput, hrest⟩ | ⟨hnil, _⟩
      · have hpending' : ({ scan.mention x.setting with given := g } : Scan).pending = none := by
          rw [← hpending, Scan.mention]
          split <;> rfl
        rw [List.map_cons, read_argument hpending hfree hput]
        -- The setting is due one value less, and the others are due what they were.
        apply ih hpending'
        intro s
        by_cases hs : s = x.setting
        · subst hs
          exact .inl hrest
        · have hagree := Given.agree_of_put hput hs
          have hlater := h s
          rw [valuesOf_cons_of_ne hs] at hlater
          exact hlater.imp (completes_of_agree hagree) (And.imp_right (·.of_agree hagree))
      · cases hnil

/-- What is left is taken from the environment, setting by setting. -/
theorem foldlM_takeVariable {env : Environment} {a : Arguments} (ha : Writable a)
    (settings : List Setting) {g : Given}
    (h : ∀ s, g.Agree (.full a) s ∨ s ∈ settings ∧ LeftToVariable env a g s) :
    settings.foldlM (takeVariable env) g = .ok (.full a) := by
  induction settings generalizing g with
  | nil =>
      have hfull : g = .full a := Given.eq_of_agree fun s =>
        (h s).resolve_right fun hmem => absurd hmem.1 List.not_mem_nil
      rw [hfull]
      rfl
  | cons x settings ih =>
      rw [List.foldlM_cons]
      rcases h x with hknown | ⟨_, hleft⟩
      · have hhas : g.has x = true := hknown.has.trans (Given.has_full a x)
        have htake : takeVariable env g x = .ok g := by
          rw [takeVariable, if_pos hhas]
        rw [htake]
        refine ih fun s => (h s).imp_right fun ⟨hmem, hleft⟩ => ⟨?_, hleft⟩
        rcases List.mem_cons.mp hmem with rfl | hmem
        · rw [hleft.new] at hhas
          cases hhas
        · exact hmem
      · obtain ⟨g', hput, hagree⟩ := Given.put_value ha hleft.new
        have htake : takeVariable env g x = .ok g' := by
          rw [takeVariable, if_neg (by simp [hleft.new]), hleft.value]
          exact hput
        rw [htake]
        apply ih
        intro s
        by_cases hs : s = x
        · subst hs
          exact .inl hagree
        · have hother := Given.agree_of_put hput hs
          refine (h s).imp (hother.symm.trans ·) fun ⟨hmem, hleft⟩ => ⟨?_, hleft.of_agree hother⟩
          exact (List.mem_cons.mp hmem).resolve_left hs

theorem setting_mem_all (s : Setting) : s ∈ Setting.all := by
  cases s <;> decide

/-- Arguments and variables that say what is asked for are read as that. -/
theorem parse_assignments {a : Arguments} (ha : Writable a) {assignments : List Assignment}
    {env : Environment}
    (h : ∀ s, Spells a s (valuesOf assignments s) ∨
      valuesOf assignments s = [] ∧ env.get? s.envName = some (Bytes.ofText (a.value s))) :
    parse (assignments.map Assignment.argument) env = .ok a := by
  have hnew (s : Setting) : ({} : Given).has s = false := by
    cases s <;> rfl
  have hstart (s : Setting) : Completes a s {} (valuesOf assignments s) ∨
      valuesOf assignments s = [] ∧ LeftToVariable env a {} s :=
    (h s).imp (completes_of_spells ha (hnew s)) (And.imp_right fun hvalue => ⟨hnew s, hvalue⟩)
  have hpending : ({} : Scan).pending = none := rfl
  obtain ⟨scan, hread, hscan⟩ := read_assignments hpending hstart
  have hvariables := foldlM_takeVariable ha Setting.all fun s =>
    (hscan s).imp_right fun hleft => ⟨setting_mem_all s, hleft⟩
  simp only [parse, hread, hvariables, bind, Except.bind, Except.mapError]
  rfl

/-! ## Settings -/

/-- Settings that were accepted are accepted again as what they are. -/
theorem ofArguments_asked {a : Arguments} {c : Settings} (hc : Settings.ofArguments a = .ok c) :
    Settings.ofArguments c.asked = .ok c := by
  obtain ⟨hworkers, hcapacity, hphases, _, hsettings⟩ := Settings.ofArguments_eq_ok.mp hc
  have hurl : c.url = Settings.urlOf (Text.trim a.addr) := by
    rw [hsettings]
  have hscheme := Settings.hasScheme_urlOf (Text.trim a.addr)
  have htrim := Text.trim_of_tight (Settings.tight_urlOf (Text.tight_trim a.addr))
  rw [← hurl] at hscheme htrim
  rw [Settings.ofArguments_eq_ok, Settings.asked, htrim, Settings.urlOf_of_hasScheme hscheme]
  refine ⟨?_, ?_, ?_, ?_, rfl⟩
  · rwa [hsettings]
  · rwa [hsettings]
  · rwa [hsettings]
  · intro hempty
    rw [hempty] at hscheme
    exact absurd hscheme (by decide)

/-- Settings that were accepted and whose numbers are below the bound are written down, each in an
argument of its own, the phases in one or in several, and all of these in any order, or in the
environment if no argument has it. They are read as what is asked for to run with them, whatever
else the environment holds, and what is asked for is accepted as these settings. An address that was
brought into its form begins with one of the two schemes and has no blank at either end, and it is
left as it is when it is brought into its form again. -/
theorem settings_read_back :
    (∀ (a : Arguments) (c : Settings) (assignments : List Assignment) (env : Environment),
      Settings.ofArguments a = .ok c →
      c.iterations < numberBound → c.numWorkers < numberBound → c.queueCapacity < numberBound →
      (∀ s, Spells c.asked s (valuesOf assignments s) ∨
        valuesOf assignments s = [] ∧
          env.get? s.envName = some (Bytes.ofText (c.asked.value s))) →
      parse (assignments.map Assignment.argument) env = .ok c.asked ∧
        Settings.ofArguments c.asked = .ok c) ∧
    ∀ addr, let url := Settings.urlOf (Text.trim addr)
      ((∃ rest, url = "redis://" ++ rest) ∨ ∃ rest, url = "rediss://" ++ rest) ∧
        Text.Tight url.toList ∧ Settings.urlOf (Text.trim url) = url := by
  refine ⟨fun a c assignments env hc hi hw hq h => ⟨?_, ofArguments_asked hc⟩, fun addr => ?_⟩
  · obtain ⟨_, _, hphases, _⟩ := Settings.ofArguments_eq_ok.mp (ofArguments_asked hc)
    exact parse_assignments ⟨hi, hw, hq, hphases⟩ h
  · exact ⟨Settings.hasScheme_iff.mp (Settings.hasScheme_urlOf _),
      Settings.tight_urlOf (Text.tight_trim addr),
      Settings.urlOf_trim_urlOf _ (Text.tight_trim addr)⟩

/-- The phases are given in two arguments with others between them, one setting is left to the
environment, and the environment has bytes that are no text for a setting which is given. -/
theorem settings_read_back_of_parts :
    let c : Settings :=
      ⟨"redis://localhost/", 3, 1, 2, [.directGet, .pooledPut, .directGet], "a=b,c", .json⟩
    parse ([⟨.phases, "direct-get"⟩, ⟨.format, "json"⟩, ⟨.valueSuffix, "a=b,c"⟩,
          ⟨.addr, "redis://localhost/"⟩, ⟨.phases, "pooled-put,direct-get"⟩,
          ⟨.queueCapacity, "2"⟩, ⟨.numWorkers, "1"⟩].map Assignment.argument)
        [("KVPRESS_FORMAT", [0xff]), ("KVPRESS_ITERATIONS", Bytes.ofText "3")] = .ok c.asked ∧
      Settings.ofArguments c.asked = .ok c := by
  intro c
  refine settings_read_back.1
    ⟨" localhost\u3000", 3, 1, 2, [.directGet, .pooledPut, .directGet], "a=b,c", .json⟩ c _ _
    (by decide) (by decide) (by decide) (by decide) fun s => ?_
  cases s
  case iterations => exact .inr ⟨rfl, by decide⟩
  case phases =>
    exact .inl ⟨[[.directGet], [.pooledPut, .directGet]], by decide, rfl, by decide⟩
  all_goals exact .inl ((spells_iff (by decide)).mpr (by decide))

end LoadBench.Flags
