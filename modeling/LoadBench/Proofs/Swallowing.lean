import LoadBench.Proofs.PhaseEnd

/-!
Failures in either mode, with a backend whose outcome for a command depends on nothing but the
command. Errors are swallowed and counted alike: the report of a phase has each of its commands as
executed, and those that fail as failed. A panic that comes while a command is being executed is
another matter. A worker catches it and counts it as one more failure, but a direct phase does not:
its call panics at the first such command, with no report, and nothing has been counted but the
commands before that one.
-/

namespace LoadBench

/-- Whether a backend's outcome for a command depends on the command alone: the command fails or it
does not, or its execution panics after it has begun, which is no outcome. -/
def Backend.Judges (b : Backend) (judge : Command → Option Bool) : Prop :=
  ∀ history conn command, (b.execute history conn command).settles = true ∧
    (b.execute history conn command).result? = judge command

/-- The same phase in another mode. -/
def Phase.inMode (phase : Phase) (mode : Mode) : Phase := { phase with mode }

/-- How many of the first commands of a phase are of a kind. -/
def Phase.countOf (phase : Phase) (kind : Command → Bool) (n : Nat) : Nat :=
  (List.range n).countP fun index => (phase.generate index).toOption.any kind

/-- Whether a command fails or panics. -/
def unsound (judge : Command → Option Bool) (command : Command) : Bool :=
  (judge command).getD true

/-- Whether the command with an index panics. -/
def Phase.PanicsAt (phase : Phase) (judge : Command → Option Bool) (index : Nat) : Prop :=
  ∃ command, phase.generate index = .ok command ∧ judge command = none

/-- A panic counts as a failure where it is caught. -/
theorem Conduct.outcome?_eq_some_true {conduct : Conduct} (h : conduct.settles = true) :
    conduct.outcome? = some true ↔ conduct.result?.getD true = true := by
  cases conduct with
  | panicAtOnce | stall => cases h
  | _ => simp [outcome?, result?]

theorem Backend.Judges.settles {b : Backend} {judge : Command → Option Bool} (hb : b.Judges judge) :
    b.Settles :=
  fun history conn command => (hb history conn command).1

namespace Engine

/-- The call has the report of a phase, with these counts. -/
def Counts (phase : Phase) (todo : List Phase) (reports : List PhaseCount) (counts : Tally)
    (e : Engine) : Prop :=
  e.progress = .planning todo
    (reports ++ [⟨phase.name, phase.mode, phase.iterations, counts⟩])

/-- A direct phase has stopped at a command whose execution panicked. The commands up to that one
were attempted in order, and those before it were counted. -/
structure StoppedAt (s : Engine) (d : Driver) (phase : Phase) (judge : Command → Option Bool)
    (index : Nat) (e : Engine) : Prop where
  attempts : ((s.executedSince e).filter Execution.isDirect).map Execution.attempt =
    (List.range (index + 1)).map (phase.attempt s.directRuns)
  returned : ∃ x message, ((s.executedSince e).filter Execution.isDirect).getLast? = some x ∧
    x.conduct = .panic message ∧ e.progress = .returned (.panic message)
  counted : (e.tallyAt d.tally).since (s.tallyAt d.tally) =
    ⟨index, phase.countOf (unsound judge) index⟩

/-- A phase that is about to begin can begin, and whoever takes the next step it comes to states of
some kind, unless its call is given up. -/
structure ComesTo (b : Backend) (s : Engine) (goal : Engine → Prop) : Prop where
  begins : ∃ e, s.step b (.act .caller) = some e
  ends : ∀ e, During b s e → e.progress ≠ .returned .blocked → Inevitably b goal e

variable {b : Backend} {e s s' : Engine} {d d' : Driver} {p p' : WorkerPool} {phase : Phase}
  {todo todo' : List Phase} {reports reports' : List PhaseCount} {judge : Command → Option Bool}
  {latch : Nat} {done : List Execution} {kind : Command → Bool}

/-- Each execution on record since the phase began came out as its command does. -/
theorem Heard.judged (h : Heard b s e) (hb : b.Judges judge) :
    ∀ x ∈ s.executedSince e, x.conduct.settles = true ∧ x.conduct.result? = judge x.command :=
  h.answered.all (P := fun x => x.conduct.settles = true ∧ x.conduct.result? = judge x.command)
    fun history conn command _ => hb history conn command

theorem Idle.begins (h : Idle b s d p phase todo reports) :
    ∃ e, s.step b (.act .caller) = some e := by
  refine ⟨s.beginPhase d phase todo reports, ?_⟩
  change s.callerStep b = _
  simp only [callerStep, h.planned, h.driver, Option.map_some]

section Pooled

/-- What was executed on a latch that a phase has made was executed since the phase began. -/
theorem mem_executedSince (hs : Reachable b s) (h : Heard b s e) {x : Execution} {index : Nat}
    (hx : x ∈ e.executions) (ho : x.origin = .job s.batches.size index) :
    x ∈ s.executedSince e := by
  rw [← Array.mem_toList_iff, h.grown, List.mem_append] at hx
  refine hx.resolve_left fun hold => ?_
  have hmem : index ∈ indicesOn s.batches.size s.begun :=
    mem_indicesOn.mpr (ho ▸ List.mem_map_of_mem hold)
  rw [begun_of_unmade hs (Nat.le_refl _)] at hmem
  cases hmem

/-- The failed executions of a phase, by the indices that they belong to. -/
theorem length_attempted {n : Nat} {f : Nat → Bool}
    (hbegun : (indicesOn latch e.begun).Perm (List.range n))
    (hf : ∀ x ∈ e.executions, ∀ index, x.origin = .job latch index →
      (x.conduct.outcome? = some true ↔ f index = true)) :
    (indicesOn latch (e.attempted true)).length = (List.range n).countP f := by
  have hfilter : indicesOn latch (e.attempted true) = (indicesOn latch e.begun).filter f := by
    rw [indicesOn, attempted, List.filterMap_filterMap, indicesOn, begun, List.filterMap_map,
      List.filter_filterMap]
    refine List.filterMap_congr fun x hx => ?_
    have hiff := hf x (Array.mem_toList_iff.mp hx)
    obtain ⟨conn, command, origin, conduct⟩ := x
    cases origin with
    | direct run index =>
        simp only [Function.comp_apply, Origin.indexOn]
        split <;> rfl
    | job latch' index =>
        simp only [Function.comp_apply, Origin.indexOn]
        by_cases hl : latch' = latch
        · subst hl
          have hindex := hiff index rfl
          by_cases ho : conduct.outcome? = some true
          · simp [ho, Origin.indexOn, Option.filter, hindex.mp ho]
          · have hnot : f index = false := by
              rw [← Bool.not_eq_true]
              exact fun hf => ho (hindex.mpr hf)
            simp [ho, Option.filter, hnot]
        · split <;> simp [Origin.indexOn, hl]
  rw [hfilter, ← List.countP_eq_length_filter]
  exact hbegun.countP_eq f

/-- A pooled phase reports all of its commands, and as failed those that fail or panic. -/
theorem Idle.pooled_swallows (h : Idle b s d p phase todo reports) (hm : phase.mode = .pooled)
    (hb : b.Judges judge) (hg : phase.Generates) :
    ComesTo b s (Counts phase todo reports
      ⟨phase.iterations, phase.countOf (unsound judge) phase.iterations⟩) := by
  refine ⟨h.begins, fun e hd hnot => ?_⟩
  refine (h.pooled_ends hm hb.settles hg hd hnot).mono ?_
  rintro e ⟨hd, counts, hreturned⟩
  obtain ⟨hreport, hr⟩ := h.pooled_counts hm hd hreturned
  have hready := h.ready hm
  have hlatch := hd.phaseLatch hready
  have hheard := hd.heard h.driver h.planned
  have hgoing := (hd.going hready).resolve_left (not_returned_of_planning hreturned)
  have hfailed : (indicesOn s.batches.size (e.attempted true)).length =
      phase.countOf (unsound judge) phase.iterations := by
    refine length_attempted (counted_indices hlatch hr).2.2 fun x hx index ho => ?_
    have hcommand := (hgoing.executed hready hlatch hr hx ho).command
    obtain ⟨hsettles, hresult⟩ := hheard.judged hb x (mem_executedSince h.reachable hheard hx ho)
    rw [hcommand, Except.toOption, Option.any_some, unsound, ← hresult]
    exact Conduct.outcome?_eq_some_true hsettles
  rw [hfailed] at hreport
  rw [hreport] at hreturned
  exact hreturned

end Pooled

section Direct

variable {number conn : Nat}
  (hran : ∀ (index : Nat) (x : Execution), done[index]? = some x → x.Ran phase number conn index)

include hran

/-- What a direct phase has executed, by the indices that it belongs to. -/
theorem map_attempt_of_ran : done.map Execution.attempt =
    (List.range done.length).map (phase.attempt number) := by
  refine List.ext_getElem? fun index => ?_
  rw [List.getElem?_map, List.getElem?_map]
  rcases hx : done[index]? with _ | x
  · have hle := List.getElem?_eq_none_iff.mp hx
    rw [List.getElem?_eq_none (by rwa [List.length_range])]
    rfl
  · obtain ⟨hlt, _⟩ := List.getElem?_eq_some_iff.mp hx
    rw [List.getElem?_range hlt, Option.map_some, Option.map_some, (hran index x hx).attempt]

theorem countP_failed (hkind : ∀ x ∈ done, x.failed = kind x.command) :
    done.countP Execution.failed = phase.countOf kind done.length := by
  have hcount := congrArg (List.countP fun attempt => attempt.2.toOption.any kind)
    (map_attempt_of_ran hran)
  rw [List.countP_map, List.countP_map] at hcount
  refine Eq.trans (List.countP_congr fun x hx => ?_) hcount
  rw [hkind x hx]
  exact Iff.rfl

omit hran

/-- What a direct phase has counted is what it has executed, up to a command that panicked. -/
theorem Concludes.subset {progress : Progress} {xs : List Execution}
    (h : Concludes phase number conn todo reports done progress xs) : ∀ x ∈ done, x ∈ xs := by
  cases h with
  | completes | stumbles => exact fun _ => id
  | panics => exact fun x hx => List.mem_append_left _ hx

/-- A direct phase that has come to its end, where the backend judges each command by itself. -/
structure Judged (s : Engine) (d : Driver) (phase : Phase) (judge : Command → Option Bool)
    (todo : List Phase) (reports : List PhaseCount) (conn : Nat) (done : List Execution)
    (e : Engine) : Prop extends Concluded s d phase todo reports conn done e where
  executed : ∀ x ∈ s.executedSince e, x.conduct.result? = judge x.command
  failed : done.countP Execution.failed = phase.countOf (unsound judge) done.length
  sound : ∀ index < done.length, ¬ phase.PanicsAt judge index

theorem Concluded.judged (h : Concluded s d phase todo reports conn done e)
    (hexecuted : ∀ x ∈ s.executedSince e, x.conduct.result? = judge x.command) :
    Judged s d phase judge todo reports conn done e := by
  have hjudge (x : Execution) (hx : x ∈ done) : x.conduct.result? = judge x.command :=
    hexecuted x (List.mem_of_mem_filter (h.ends.subset x hx))
  refine ⟨h, hexecuted, countP_failed h.ran fun x hx => ?_, fun index hlt hpanics => ?_⟩
  · rw [Execution.failed, hjudge x hx, unsound]
  · obtain ⟨command, hg, hnone⟩ := hpanics
    have hx := List.getElem?_eq_getElem hlt
    have hran := h.ran index _ hx
    have hcommand : phase.generate index = .ok done[index].command :=
      (congrArg Prod.snd hran.attempt).symm
    obtain rfl : command = done[index].command := Except.ok.inj (hg.symm.trans hcommand)
    obtain ⟨failed, hended⟩ := hran.ended
    rw [hjudge _ (List.mem_of_getElem? hx), hnone] at hended
    cases hended

/-- Such a phase has its report, or it has stopped at a command that panics. -/
theorem Judged.outcome (h : Judged s d phase judge todo reports conn done e)
    (hm : phase.mode = .direct) (hg : phase.Generates) :
    done.length = phase.iterations ∧ Counts phase todo reports
        ⟨phase.iterations, phase.countOf (unsound judge) phase.iterations⟩ e ∨
      done.length < phase.iterations ∧ phase.PanicsAt judge done.length ∧
        StoppedAt s d phase judge done.length e := by
  have hends := h.ends
  have hcounted := h.counted
  rw [h.failed] at hcounted
  have hmem : ∀ x ∈ (s.executedSince e).filter Execution.isDirect,
      x.conduct.result? = judge x.command := fun x hx => h.executed x (List.mem_of_mem_filter hx)
  generalize hprogress : e.progress = progress at hends
  generalize hxs : (s.executedSince e).filter Execution.isDirect = xs at hends hmem
  cases hends with
  | completes hall =>
      refine .inl ⟨hall, ?_⟩
      rw [Counts, hprogress, Phase.report, hcounted, hall]
  | stumbles hlt hstumbles =>
      obtain ⟨command, hcommand⟩ := hg done.length hlt
      cases hcommand.symm.trans hstumbles
  | @panics command message hlt hcommand =>
      have hlast := hmem _ (List.mem_append_right _ (List.mem_singleton_self _))
      refine .inr ⟨hlt, ⟨command, hcommand, hlast.symm⟩, ?_, ?_, hcounted⟩
      · rw [hxs, List.map_append, map_attempt_of_ran h.ran, List.range_succ, List.map_append,
          List.map_singleton, List.map_singleton, Phase.attempt, Phase.origin_direct hm, hcommand]
        rfl
      · rw [hxs, List.getLast?_concat]
        exact ⟨_, message, rfl, rfl, hprogress⟩

/-- The end of a direct phase is the same under every schedule. -/
theorem Idle.direct_comesTo (h : Idle b s d p phase todo reports) (hm : phase.mode = .direct)
    (hb : b.Judges judge) (hconn : Connects b s d) {goal : Engine → Prop}
    (hgoal : ∀ conn done e, Judged s d phase judge todo reports conn done e → goal e) :
    ComesTo b s goal := by
  refine ⟨h.begins, fun e hd _ => (h.direct_ends hm hb.settles hconn hd).mono ?_⟩
  rintro e ⟨hd, hr⟩
  have hjudged := (hd.heard h.driver h.planned).judged hb
  obtain ⟨done, hconcluded⟩ := (hd.directLeg h.reachable h.driver h.planned hm).concluded hconn
    (fun x hx => (hjudged x hx).1) h.undisturbed hr
  exact hgoal _ done e (hconcluded.judged fun x hx => (hjudged x hx).2)

/-- A direct phase of which no command panics reports all of its commands, and as failed those that
fail. -/
theorem Idle.direct_swallows (h : Idle b s d p phase todo reports) (hm : phase.mode = .direct)
    (hb : b.Judges judge) (hg : phase.Generates) (hconn : Connects b s d)
    (hsound : ∀ index < phase.iterations, ¬ phase.PanicsAt judge index) :
    ComesTo b s (Counts phase todo reports
      ⟨phase.iterations, phase.countOf (unsound judge) phase.iterations⟩) := by
  refine h.direct_comesTo hm hb hconn fun conn done e hend => ?_
  rcases hend.outcome hm hg with ⟨_, hcounts⟩ | ⟨hlt, hpanics, _⟩
  · exact hcounts
  · exact absurd hpanics (hsound _ hlt)

/-- A direct phase stops at the first command that panics. -/
theorem Idle.direct_stops (h : Idle b s d p phase todo reports) (hm : phase.mode = .direct)
    (hb : b.Judges judge) (hg : phase.Generates) (hconn : Connects b s d) {index : Nat}
    (hlt : index < phase.iterations) (hpanics : phase.PanicsAt judge index)
    (hfirst : ∀ before < index, ¬ phase.PanicsAt judge before) :
    ComesTo b s (StoppedAt s d phase judge index) := by
  refine h.direct_comesTo hm hb hconn fun conn done e hend => ?_
  have hle : done.length ≤ index := by
    by_contra hgt
    exact hend.sound index (Nat.lt_of_not_le hgt) hpanics
  rcases hend.outcome hm hg with ⟨hall, _⟩ | ⟨_, hpanics', hstopped⟩
  · omega
  · have hindex : done.length = index :=
      Nat.le_antisymm hle (Nat.le_of_not_lt fun hlt => hfirst _ hlt hpanics')
    rwa [hindex] at hstopped

end Direct

/-- How a phase ends in either mode. Errors are swallowed and counted alike. A panic is one more
failure of a pooled phase, and it is the end of a direct one. -/
structure Swallowing (b : Backend) (judge : Command → Option Bool) (phase : Phase) (s : Engine)
    (todo : List Phase) (reports : List PhaseCount) (s' : Engine) (d' : Driver)
    (todo' : List Phase) (reports' : List PhaseCount) : Prop where
  pooled : ComesTo b s (Counts (phase.inMode .pooled) todo reports
    ⟨phase.iterations, phase.countOf (unsound judge) phase.iterations⟩)
  direct : (∀ index < phase.iterations, ¬ phase.PanicsAt judge index) →
    ComesTo b s' (Counts (phase.inMode .direct) todo' reports'
      ⟨phase.iterations, phase.countOf (unsound judge) phase.iterations⟩)
  stops : ∀ index < phase.iterations, phase.PanicsAt judge index →
    (∀ before < index, ¬ phase.PanicsAt judge before) →
      ComesTo b s' (StoppedAt s' d' (phase.inMode .direct) judge index)

/-- If the backend judges each command by itself, a phase has the same counts in either mode, but a
direct phase gets no further than to the first command that panics. -/
theorem swallowing (hb : b.Judges judge) (hg : phase.Generates)
    (hpooled : Idle b s d p (phase.inMode .pooled) todo reports)
    (hdirect : Idle b s' d' p' (phase.inMode .direct) todo' reports')
    (hconn : Connects b s' d') :
    Swallowing b judge phase s todo reports s' d' todo' reports' where
  pooled := hpooled.pooled_swallows rfl hb hg
  direct hsound := hdirect.direct_swallows rfl hb hg hconn hsound
  stops _ hlt hpanics hfirst := hdirect.direct_stops rfl hb hg hconn hlt hpanics hfirst

/-- A driver that was just started may be given any phase. -/
theorem idle_of_start (b : Backend) (hdial : b.dial = fun _ => .connect) (phase : Phase) : ∃ s p,
    Idle b s ⟨0, 0, none⟩ p phase [] [] ∧ Connects b s ⟨0, 0, none⟩ ∧ p.workers.size = 1 ∧
      s.pools = #[p] ∧ s.executions = #[] := by
  obtain ⟨dial, execute, closePanic⟩ := b
  obtain rfl := hdial
  obtain ⟨s, hs⟩ : ∃ s, Engine.run ⟨fun _ => .connect, execute, closePanic⟩ {}
      [.call (.start 1 1 false), .act .caller, .act .caller, .call (.plan [phase])] = some s :=
    ⟨_, rfl⟩
  have hreachable := Reachable.start.run hs
  cases hs
  refine ⟨_, _, ⟨hreachable, rfl, rfl, rfl, rfl, rfl, Nat.one_pos, fun k w hw => ?_⟩,
    fun _ => rfl, rfl, rfl, rfl⟩
  have hmem := Array.mem_of_getElem? hw
  cases List.mem_singleton.mp (Array.mem_toList_iff.mpr hmem)
  rfl

/-- A phase of one command that panics: as a pooled phase it counts a failure, as a direct phase it
has no report. -/
theorem swallowing_of_panic : ∃ s s',
    Swallowing (.always (.panic "injected failure")) (fun _ => none) (.pings 1) s [] [] s'
        ⟨0, 0, none⟩ [] [] ∧
      ComesTo (.always (.panic "injected failure")) s
        (Counts (.pings 1) [] [] ⟨1, 1⟩) ∧
      ComesTo (.always (.panic "injected failure")) s'
        (StoppedAt s' ⟨0, 0, none⟩ ((Phase.pings 1).inMode .direct) (fun _ => none) 0) := by
  obtain ⟨s, p, hpooled, _⟩ :=
    idle_of_start (.always (.panic "injected failure")) rfl ((Phase.pings 1).inMode .pooled)
  obtain ⟨s', p', hdirect, hconn, _⟩ :=
    idle_of_start (.always (.panic "injected failure")) rfl ((Phase.pings 1).inMode .direct)
  have hpanics : (Phase.pings 1).PanicsAt (fun _ => none) 0 := ⟨_, rfl, rfl⟩
  have h := swallowing (b := .always (.panic "injected failure")) (fun _ _ _ => ⟨rfl, rfl⟩)
    (fun _ _ => ⟨_, rfl⟩) hpooled hdirect hconn
  exact ⟨s, s', h, h.pooled, h.stops 0 Nat.one_pos hpanics nofun⟩

end Engine

end LoadBench
