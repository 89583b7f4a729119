import LoadBench.Proofs.ActOrder

/-!
A whole run over a calm backend, whatever becomes of the dials, of the commands and of the output.
The report is that of the phases that were run, in the order of the plan, with the header of the
phase that could not be run behind it if there is one; as far as there is room, it arrives. Nothing
happens for a phase before its header and the report of the phase before it have arrived and are
flushed, and nothing at all after the first failure.

The proof goes through the run as it is made: what is the case between two phases is kept by each
phase, or the run has ended as it may end.
-/

namespace LoadBench.Program

open Engine (Attends Still)

/-- How a run ends early, by the last of its acts. A command that fails is never the reason. -/
inductive Stops (s : Settings) (w : World) : Option Act → Stop → Prop
  | address {fault : AddressFault} (h : w.connect s.url = .error fault) :
      Stops s w none (.fault (.address s.url fault))
  | sizes (h : s.numWorkers = 0 ∨ s.queueCapacity = 0) :
      Stops s w
        (some (.answered (.fault (if s.numWorkers = 0 then .noWorkers else .noCapacity))))
        (.fault (.start s.numWorkers s.url (if s.numWorkers = 0 then .noWorkers else .noCapacity)))
  | tooMany {message : String}
      (h : JobQueue.maxCapacity < s.queueCapacity ∨ Engine.tooManyWorkers ≤ s.numWorkers) :
      Stops s w (some (.answered (.panic message))) (.panic message)
  | start {b : Backend} {attempt : Nat} {fault : LoadBench.Fault}
      (hb : w.connect s.url = .ok b) (h : b.dial attempt = .fail fault) :
      Stops s w (some (.answered (.fault fault))) (.fault (.start s.numWorkers s.url fault))
  | phase {b : Backend} {kind : PhaseKind} {attempt : Nat} {fault : LoadBench.Fault}
      (hb : w.connect s.url = .ok b) (hm : kind.mode = .direct)
      (h : b.dial attempt = .fail fault) :
      Stops s w (some (.answered (.fault fault))) (.fault (.phase kind fault))
  | output {event : Report.Event} {fault : Report.OutputFault} :
      Stops s w (some (.wrote event (some fault))) (.fault (.output fault))
  | interrupted : Stops s w (some (.answered .blocked)) .interrupted

/-- How a run unfolds that has run some phases, and has stopped at one that could not be run if
there is such a phase. -/
structure Unfolds (s : Settings) (w : World) (sink : Report.Sink) (outcome : Except Stop Unit)
    (r : Run) (ran : List (PhaseKind × PhaseReport)) (stopped : Option PhaseKind) : Prop
    extends Consistent s sink r where
  /-- The phases are the first ones of the plan. -/
  plan : kinds ran ++ stopped.toList <+: s.phases
  /-- Each phase that was run has its header and its block, one right after the other, and the one
  that could not be run its header. -/
  reported : told r.acts.toList = chapters s ran ++ stopped.toList.map (.started · s.iterations)
  /-- The output gets that as far as there is room, and so the beginning of it. -/
  content : r.sink.content =
    sink.content ++ sink.portion (Report.textOf s.format (told r.acts.toList))
  beginning : sink.portion (Report.textOf s.format (told r.acts.toList)) <+:
    Report.textOf s.format (told r.acts.toList)
  /-- As long as no output fails, it gets all of that. -/
  whole : (∀ fault ∈ verdicts r.acts.toList, fault = none) →
    r.sink.content = sink.content ++ Report.textOf s.format (told r.acts.toList)
  /-- Nothing is written unless the address is one and the workers were started. -/
  started : told r.acts.toList ≠ [] → (∃ b, w.connect s.url = .ok b) ∧
    ∃ workers capacity, .answered (.started workers capacity) ∈ r.acts.toList
  /-- Whatever was written before something happens has arrived by then, and is flushed. -/
  flushed : ∀ before event after, r.acts.toList = before ++ .happened event :: after →
    (Report.emitAll s.format (told before) sink).2.content =
        sink.content ++ Report.textOf s.format (told before) ∧
      (Report.emitAll s.format (told before) sink).2.flushes =
        sink.flushes + (told before).countP (·.flushes s.format)
  /-- Nothing comes after an act that went wrong. -/
  halts : ∀ before act after, r.acts.toList = before ++ act :: after → act.succeeded = false →
    after = []
  /-- The run succeeds if the address is one and every act went well, and only then. -/
  succeeds : outcome = .ok () ↔
    (∃ b, w.connect s.url = .ok b) ∧ ∀ act ∈ r.acts.toList, act.succeeded = true
  /-- Then the workers were started, all phases were run, and the workers were shut down. -/
  complete : outcome = .ok () →
    (∃ workers capacity, .answered (.started workers capacity) ∈ r.acts.toList) ∧
      kinds ran = s.phases ∧ stopped = none ∧ r.acts.toList.getLast? = some (.answered .ok)
  stops : ∀ stop, outcome = .error stop → Stops s w r.acts.toList.getLast? stop

/-- How far a run has come with its phases. -/
inductive Stage where
  | between
  /-- The header of a phase is written. -/
  | headed (kind : PhaseKind)
  /-- A phase has been run, and its block is not written yet. -/
  | counted (kind : PhaseKind) (counts : PhaseCount)

/-- The phase whose block is missing. -/
def Stage.open? : Stage → Option PhaseKind
  | .between => none
  | .headed kind | .counted kind _ => some kind

/-- The phase that has been run, and whose block is missing. -/
def Stage.run? : Stage → Option PhaseKind
  | .counted kind _ => some kind
  | _ => none

/-- What is the case while the phases of a run are being run and all has gone well. -/
structure Underway (s : Settings) (b : Backend) (sink : Report.Sink)
    (ran : List (PhaseKind × PhaseReport)) (stage : Stage) (r : Run) : Prop
    extends Consistent s sink r where
  well : ∀ act ∈ r.acts.toList, act.succeeded = true
  started : ∃ workers capacity, .answered (.started workers capacity) ∈ r.acts.toList
  reported : told r.acts.toList = chapters s ran ++ stage.open?.toList.map (.started · s.iterations)
  still : ∃ d, Still b d r.engine
  atRest : r.engine.progress.atRest = true
  numbers : ∀ mode, r.engine.nextNumber mode =
    PhaseKind.numberAfter (kinds ran ++ stage.run?.toList) mode
  counted : ∀ kind counts, stage = .counted kind counts → counts.label = (s.phaseOf kind).label ∧
    r.acts.toList.getLast? = some (.answered (.reports [counts]))

/-- What is the case at the end of a run. -/
structure Ended (s : Settings) (w : World) (sink : Report.Sink) (outcome : Except Stop Unit)
    (r : Run) (ran : List (PhaseKind × PhaseReport)) (stopped : Option PhaseKind) : Prop
    extends Consistent s sink r where
  plan : kinds ran ++ stopped.toList <+: s.phases
  reported : told r.acts.toList = chapters s ran ++ stopped.toList.map (.started · s.iterations)
  started : told r.acts.toList ≠ [] → (∃ b, w.connect s.url = .ok b) ∧
    ∃ workers capacity, .answered (.started workers capacity) ∈ r.acts.toList
  comes : (outcome = .ok () ∧ (∃ b, w.connect s.url = .ok b) ∧
      (∀ act ∈ r.acts.toList, act.succeeded = true) ∧
      (∃ workers capacity, .answered (.started workers capacity) ∈ r.acts.toList) ∧
      kinds ran = s.phases ∧ stopped = none ∧
      r.acts.toList.getLast? = some (.answered .ok)) ∨
    ∃ stop, outcome = .error stop ∧ Stops s w r.acts.toList.getLast? stop

variable {s : Settings} {w : World} {b : Backend} {sink : Report.Sink} {r : Run}
  {ran : List (PhaseKind × PhaseReport)} {kind : PhaseKind} {rest : List PhaseKind}
  {outcome : Except Stop Unit} {stopped : Option PhaseKind} {stop : Stop} {last : Option Act}

/-- A run that ends early was refused its address, or its last act went wrong. -/
theorem Stops.failed (h : Stops s w last stop) : (∃ fault, w.connect s.url = .error fault) ∨
    ∃ act, last = some act ∧ act.succeeded = false := by
  cases h with
  | address h => exact .inl ⟨_, h⟩
  | _ => exact .inr ⟨_, rfl, rfl⟩

theorem Ended.unfolds (h : Ended s w sink outcome r ran stopped) :
    Unfolds s w sink outcome r ran stopped where
  toConsistent := h.toConsistent
  plan := h.plan
  reported := h.reported
  content := h.content
  beginning := sink.portion_start _
  whole hnone := by
    have hcontent := (h.delivered (List.append_nil _).symm hnone).1
    rwa [h.emitted] at hcontent
  started := h.started
  flushed before event after heq :=
    h.delivered heq (verdicts_of_succeeded (h.inTurn before _ after heq).1)
  halts before act after := h.inTurn.halts
  succeeds := by
    constructor
    · rintro rfl
      rcases h.comes with ⟨_, hb, hwell, _⟩ | ⟨stop, hstop, _⟩
      · exact ⟨hb, hwell⟩
      · cases hstop
    · rintro ⟨⟨b, hb⟩, hwell⟩
      rcases h.comes with ⟨hok, _⟩ | ⟨stop, _, hstops⟩
      · exact hok
      · rcases hstops.failed with ⟨fault, hrefused⟩ | ⟨act, hlast, hfailed⟩
        · cases hb.symm.trans hrefused
        · rw [hwell act (List.mem_of_getLast? hlast)] at hfailed
          cases hfailed
  complete hok := by
    rcases h.comes with ⟨_, _, _, hall⟩ | ⟨stop, hstop, _⟩
    · exact hall
    · cases hok.symm.trans hstop
  stops stop hstop := by
    rcases h.comes with ⟨hok, _⟩ | ⟨stop', hstop', hstops⟩
    · cases hok.symm.trans hstop
    · cases hstop'.symm.trans hstop
      exact hstops

section Steps

variable {stage : Stage} {ran' : List (PhaseKind × PhaseReport)}

theorem kinds_append (kind : PhaseKind) (report : PhaseReport) :
    kinds (ran ++ [(kind, report)]) = kinds ran ++ [kind] := List.map_append

theorem chapters_append (kind : PhaseKind) (report : PhaseReport) :
    chapters s (ran ++ [(kind, report)]) =
      chapters s ran ++ [.started kind s.iterations, .finished kind report] := by
  simp [chapters]

/-- A run that stops once its phases have begun. -/
theorem Underway.ended {r' : Run} (h : Underway s b sink ran stage r)
    (hb : w.connect s.url = .ok b) (hconsistent : Consistent s sink r')
    (hmore : r.acts.toList <+: r'.acts.toList) (hplan : kinds ran' ++ stopped.toList <+: s.phases)
    (htold : told r'.acts.toList =
      chapters s ran' ++ stopped.toList.map (.started · s.iterations))
    (hstop : Stops s w r'.acts.toList.getLast? stop) :
    Ended s w sink (.error stop) r' ran' stopped := by
  obtain ⟨workers, capacity, hmem⟩ := h.started
  exact ⟨hconsistent, hplan, htold, fun _ => ⟨⟨b, hb⟩, workers, capacity, hmore.mem hmem⟩,
    .inr ⟨stop, rfl, hstop⟩⟩

/-- The next event of the report is written. -/
theorem Underway.write (h : Underway s b sink ran stage r) (event : Report.Event)
    (ran' : List (PhaseKind × PhaseReport)) (stage' : Stage) (hb : w.connect s.url = .ok b)
    (hf : ∀ fault, Follows s r.acts.toList (.wrote event fault))
    (hplan : kinds ran' ++ stage'.open?.toList <+: s.phases)
    (htold : told r.acts.toList ++ [event] =
      chapters s ran' ++ stage'.open?.toList.map (.started · s.iterations))
    (hran : kinds ran ++ stage.run?.toList = kinds ran' ++ stage'.run?.toList)
    (hstage : ∀ kind counts, stage' ≠ .counted kind counts) :
    (∃ r', r.write s.format event = (.ok (), r') ∧ Underway s b sink ran' stage' r') ∨
    ∃ stop r', r.write s.format event = (.error stop, r') ∧
      Ended s w sink (.error stop) r' ran' stage'.open? := by
  have hconsistent := h.toConsistent.write h.well hf
  rcases r.write_cases s.format event with
    ⟨r', hwrite, hengine, hacts⟩ | ⟨fault, r', hwrite, hacts⟩
  · rw [hwrite] at hconsistent
    refine .inl ⟨r', hwrite, {
      toConsistent := hconsistent
      well := ?_
      started := ?_
      reported := ?_
      still := hengine ▸ h.still
      atRest := hengine ▸ h.atRest
      numbers := fun mode => by rw [hengine, h.numbers, hran]
      counted := fun kind counts heq => absurd heq (hstage kind counts) }⟩
    · rw [hacts]
      intro act hmem
      rcases List.mem_append.mp hmem with hold | hnew
      · exact h.well act hold
      · rw [List.mem_singleton.mp hnew]
        rfl
    · obtain ⟨workers, capacity, hmem⟩ := h.started
      exact ⟨workers, capacity, hacts ▸ List.mem_append_left _ hmem⟩
    · rw [hacts, told_append, told_wrote, htold]
  · rw [hwrite] at hconsistent
    refine .inr ⟨_, r', hwrite, h.ended hb hconsistent ?_ hplan ?_ ?_⟩
    · exact hacts ▸ List.prefix_append _ _
    · rw [hacts, told_append, told_wrote, htold]
    · rw [hacts, List.getLast?_concat]
      exact .output

/-- What happens in the course of a call to run a phase is in turn after the header of the phase. -/
theorem Underway.calls (h : Underway s b sink ran (.headed kind) r)
    (hplan : s.phases = kinds ran ++ kind :: rest)
    (hlogs : Engine.LogsPhase r.engine (s.phaseOf kind)
      (w.serve b r.engine (.plan [s.phaseOf kind])).2) :
    Consistent s sink (r.call w b (.plan [s.phaseOf kind])).2 ∧
      AddsCall r.acts.toList (w.serve b r.engine (.plan [s.phaseOf kind])).1
        (r.call w b (.plan [s.phaseOf kind])).2.acts.toList := by
  have htold (earlier : List Event) :
      told (r.acts.toList ++ earlier.map .happened) =
        chapters s ran ++ [.started kind s.iterations] := by
    rw [told_append, told_happened, List.append_nil]
    exact h.reported
  have hnumber : r.engine.numberOf (s.phaseOf kind) =
      PhaseKind.numberAfter (kinds ran) kind.mode := by
    rw [Engine.numberOf_eq_nextNumber, h.numbers]
    exact congrArg (PhaseKind.numberAfter · _) (List.append_nil _)
  rw [Engine.LogsPhase, hnumber] at hlogs
  refine h.toConsistent.call h.well hlogs (fun event hevent earlier => ?_)
    (fun x hx => ⟨kinds ran, kind, rest, hplan, hx⟩)
    (fun earlier _ => .answers hplan (htold earlier))
  rcases hevent with hown | ⟨conn, rfl⟩
  · exact .serves hplan (htold earlier) hown
  · exact .closes

/-- A call to run a phase is made after the header of the phase. -/
theorem Underway.call (h : Underway s b sink ran (.headed kind) r)
    (hb : w.connect s.url = .ok b) (hcalm : b.Calm) (hattends : Attends b (w.serve b))
    (hplan : s.phases = kinds ran ++ kind :: rest) :
    (∃ counts r', r.call w b (.plan [s.phaseOf kind]) = (.reports [counts], r') ∧
      Underway s b sink ran (.counted kind counts) r') ∨
    ∃ answer r', r.call w b (.plan [s.phaseOf kind]) = (answer, r') ∧
      Engine.PhaseFails b (s.phaseOf kind) answer ∧
      Ended s w sink (.error (Run.stopOf (.phase kind) answer)) r' ran (some kind) := by
  obtain ⟨d, hstill⟩ := h.still
  obtain ⟨hcall, hanswer⟩ := hattends r.engine (.plan [s.phaseOf kind]) h.atRest
  obtain ⟨hlogs, hends⟩ := (hcall.phaseCall hcalm hstill (s.generates kind)).outcome
  obtain ⟨hconsistent, hadds⟩ := h.calls hplan hlogs
  have hafter := hadds.told.trans h.reported
  rcases hends with ⟨direct, counts, hreturned, hreporting⟩ | hfails
  · have hreports : (w.serve b r.engine (.plan [s.phaseOf kind])).1 = .reports [counts] := by
      rw [hanswer, hreturned]
      rfl
    rw [hreports] at hadds
    refine .inl ⟨counts, _, Prod.ext hreports rfl, {
      toConsistent := hconsistent
      well := hadds.well h.well rfl
      started := ?_
      reported := hafter
      still := ⟨_, hreporting.toStill⟩
      atRest := ?_
      numbers := fun mode => ?_
      counted := ?_ }⟩
    · obtain ⟨workers, capacity, hmem⟩ := h.started
      exact ⟨workers, capacity, hadds.more.mem hmem⟩
    · rw [Run.engine_call, hreturned]
      rfl
    · have hbefore := h.numbers mode
      simp only [Stage.run?, Option.toList_none, List.append_nil] at hbefore
      rw [Run.engine_call, hreporting.numbers, hbefore]
      exact (PhaseKind.numberAfter_append _ _ _).symm
    · rintro _ _ ⟨⟩
      exact ⟨hreporting.label, hadds.last⟩
  · rw [← hanswer] at hfails
    refine .inr ⟨(w.serve b r.engine (.plan [s.phaseOf kind])).1,
      (r.call w b (.plan [s.phaseOf kind])).2, rfl, hfails,
      h.ended hb hconsistent hadds.more ⟨rest, ?_⟩ hafter ?_⟩
    · simp [hplan]
    · rw [hadds.last]
      generalize (w.serve b r.engine (.plan [s.phaseOf kind])).1 = answer at hfails
      cases hfails with
      | dial attempt fault hm hdial => exact .phase hb hm hdial
      | blocked => exact .interrupted

theorem Underway.congr {r' : Run} (h : Underway s b sink ran stage r)
    (hengine : r'.engine = r.engine) (hsink : r'.sink = r.sink) (hacts : r'.acts = r.acts) :
    Underway s b sink ran stage r' where
  toConsistent := h.toConsistent.congr hengine hsink hacts
  well := hacts ▸ h.well
  started := hacts ▸ h.started
  reported := hacts ▸ h.reported
  still := hengine ▸ h.still
  atRest := hengine ▸ h.atRest
  numbers := hengine ▸ h.numbers
  counted := hacts ▸ h.counted

/-- A phase between its header and its block. -/
theorem Underway.phase (h : Underway s b sink ran .between r) (hb : w.connect s.url = .ok b)
    (hcalm : b.Calm) (hattends : Attends b (w.serve b))
    (hplan : s.phases = kinds ran ++ kind :: rest) :
    (∃ report r', r.phase s w b kind = (.ok (), r') ∧
      Underway s b sink (ran ++ [(kind, report)]) .between r') ∨
    ∃ stop r' ran' stopped, r.phase s w b kind = (.error stop, r') ∧
      Ended s w sink (.error stop) r' ran' stopped := by
  have htold : told r.acts.toList = chapters s ran := h.reported.trans (List.append_nil _)
  have hheader := h.write (.started kind s.iterations) ran (.headed kind) hb
    (fun _ => .header hplan h.started htold) ⟨rest, by simp [Stage.open?, hplan]⟩
    (by rw [htold]; rfl) rfl nofun
  rcases hheader with ⟨r₁, hwrite, h₁⟩ | ⟨stop, r₁, hwrite, hended⟩
  · rcases h₁.call hb hcalm hattends hplan with
      ⟨counts, r₂, hcall, h₂⟩ | ⟨answer, r₂, hcall, hfails, hended⟩
    · rw [Settings.phaseOf] at hcall
      simp only [Run.phase, hwrite, hcall]
      have h₃ : Underway s b sink ran (.counted kind counts) { r₂ with done := r₂.done + 1 } :=
        h₂.congr rfl rfl rfl
      obtain ⟨hlabel, hreported⟩ := h₂.counted kind counts rfl
      let report : PhaseReport := { counts with elapsed := w.elapsed r₂.done }
      have hblock := h₃.write (.finished kind report) (ran ++ [(kind, report)]) .between hb
        (fun _ => .block hplan h₂.reported hreported hlabel) ⟨rest, ?_⟩ ?_ ?_ nofun
      · rcases hblock with ⟨r₃, hwrite, h₄⟩ | ⟨stop, r₃, hwrite, hended⟩
        · exact .inl ⟨report, r₃, hwrite, h₄⟩
        · exact .inr ⟨stop, r₃, _, none, hwrite, hended⟩
      · simp [kinds_append, hplan, Stage.open?]
      · rw [h₃.reported, chapters_append]
        simp [Stage.open?]
      · rw [kinds_append]
        exact (List.append_nil _).symm
    · refine .inr ⟨_, r₂, ran, some kind, ?_, hended⟩
      rw [Settings.phaseOf] at hcall
      simp only [Run.phase, hwrite, hcall]
      cases hfails <;> rfl
  · refine .inr ⟨stop, r₁, ran, some kind, ?_, hended⟩
    simp only [Run.phase, hwrite]

/-- The phases that are left, one after the other. -/
theorem Underway.phases (h : Underway s b sink ran .between r) (hb : w.connect s.url = .ok b)
    (hcalm : b.Calm) (hattends : Attends b (w.serve b)) (hplan : s.phases = kinds ran ++ rest) :
    (∃ ran' r', r.phases s w b rest = (.ok (), r') ∧ kinds ran' = s.phases ∧
      Underway s b sink ran' .between r') ∨
    ∃ stop r' ran' stopped, r.phases s w b rest = (.error stop, r') ∧
      Ended s w sink (.error stop) r' ran' stopped := by
  -- The induction is on the phases that are left, whatever was run before.
  induction rest generalizing ran r with
  | nil =>
      rw [List.append_nil] at hplan
      exact .inl ⟨ran, r, rfl, hplan.symm, h⟩
  | cons kind rest ih =>
      rcases h.phase hb hcalm hattends hplan with
        ⟨report, r', hphase, h'⟩ | ⟨stop, r', ran', stopped, hphase, hended⟩
      · simp only [Run.phases, hphase]
        refine ih h' ?_
        rw [kinds_append, hplan, List.append_assoc]
        rfl
      · refine .inr ⟨stop, r', ran', stopped, ?_, hended⟩
        simp only [Run.phases, hphase]

/-- The last call of a run. -/
theorem Underway.shutdown (h : Underway s b sink ran .between r) (hb : w.connect s.url = .ok b)
    (hcalm : b.Calm) (hattends : Attends b (w.serve b)) (hplan : kinds ran = s.phases) :
    (∃ r', r.call w b .shutdown = (.ok, r') ∧ Ended s w sink (.ok ()) r' ran none) ∨
    ∃ r', r.call w b .shutdown = (.blocked, r') ∧
      Ended s w sink (.error .interrupted) r' ran none := by
  obtain ⟨d, hstill⟩ := h.still
  have htold (earlier : List Event) :
      told (r.acts.toList ++ earlier.map .happened) = chapters s ran := by
    rw [told_append, told_happened, List.append_nil]
    exact h.reported.trans (List.append_nil _)
  obtain ⟨hcall, hanswer⟩ := hattends r.engine .shutdown h.atRest
  have hwinding := hcall.winding hcalm hstill
  obtain ⟨hconsistent, hadds⟩ := h.toConsistent.call h.well hwinding.logs
    (fun event ⟨conn, hevent⟩ _ => hevent ▸ .closes) (fun x => False.elim)
    (fun earlier _ => .shutsDown hplan.symm (htold earlier))
  have hafter := hadds.told.trans h.reported
  have hall : kinds ran ++ [] <+: s.phases := by
    rw [List.append_nil, hplan]
  rcases hwinding.outcome with hok | hblocked
  · rw [← hanswer] at hok
    rw [hok] at hadds
    obtain ⟨workers, capacity, hmem⟩ := h.started
    have hstarted := hadds.more.mem hmem
    exact .inl ⟨_, Prod.ext hok rfl, hconsistent, hall, hafter,
      fun _ => ⟨⟨b, hb⟩, workers, capacity, hstarted⟩,
      .inl ⟨rfl, ⟨b, hb⟩, hadds.well h.well rfl, ⟨workers, capacity, hstarted⟩, hplan, rfl,
        hadds.last⟩⟩
  · rw [← hanswer] at hblocked
    rw [hblocked] at hadds
    refine .inr ⟨_, Prod.ext hblocked rfl, h.ended hb hconsistent hadds.more hall hafter ?_⟩
    rw [hadds.last]
    exact .interrupted

/-- A run whose phases were all run comes to its end. -/
theorem Underway.conclude (h : Underway s b sink ran .between r) (hb : w.connect s.url = .ok b)
    (hcalm : b.Calm) (hattends : Attends b (w.serve b)) (hplan : kinds ran = s.phases) :
    Ended s w sink (r.conclude w b).1 (r.conclude w b).2 ran none := by
  unfold Run.conclude
  dsimp only
  generalize hr₁ : (if 0 < _ then _ else r) = r₁
  have h₁ : Underway s b sink ran .between r₁ := by
    rw [← hr₁]
    split_ifs
    · exact h.congr rfl rfl rfl
    · exact h
  rcases h₁.shutdown hb hcalm hattends hplan with ⟨r', hcall, hended⟩ | ⟨r', hcall, hended⟩
  · rw [hcall]
    exact hended
  · rw [hcall]
    exact hended

/-- The first call of a run. -/
theorem begins_or_ended (sink : Report.Sink) (log : Array Message) (hb : w.connect s.url = .ok b)
    (hcalm : b.Calm) (hattends : Attends b (w.serve b)) :
    (∃ r', Run.call w b { sink, log } (.start s.numWorkers s.queueCapacity false) =
        (.started s.numWorkers s.queueCapacity, r') ∧ Underway s b sink [] .between r') ∨
    ∃ answer r', Run.call w b { sink, log } (.start s.numWorkers s.queueCapacity false) =
        (answer, r') ∧ Engine.StartFails b s.numWorkers s.queueCapacity answer ∧
      Ended s w sink (.error (Run.stopOf (.start s.numWorkers s.url) answer)) r' [] none := by
  let request : Request := .start s.numWorkers s.queueCapacity false
  let r : Run := { sink, log }
  have hfirst (earlier : List Event) :
      ∀ act ∈ r.acts.toList ++ earlier.map Act.happened, ∃ event, act = .happened event := by
    intro act hmem
    obtain ⟨event, _, rfl⟩ := List.mem_map.mp hmem
    exact ⟨event, rfl⟩
  obtain ⟨hcall, hanswer⟩ := hattends r.engine request rfl
  have hfresh := hcall.fresh hcalm
  obtain ⟨hconsistent, hadds⟩ := (consistent_start s sink log).call nofun hfresh.logs
    (fun event hevent earlier => by
      cases event with
      | dialed attempt conn => exact .dials (hfirst earlier)
      | closed conn => exact .closes
      | _ => cases hevent)
    (fun x => False.elim) (fun earlier _ => .starts (hfirst earlier))
  have hafter : told (r.call w b request).2.acts.toList = [] := hadds.told
  rcases hfresh.outcome with ⟨hreturned, hstill⟩ | hfails
  · have hstarted : (w.serve b r.engine request).1 =
        .started s.numWorkers s.queueCapacity := by
      rw [hanswer, hreturned]
      rfl
    rw [hstarted] at hadds
    refine .inl ⟨_, Prod.ext hstarted rfl, {
      toConsistent := hconsistent
      well := hadds.well nofun rfl
      started := ⟨_, _, List.mem_of_getLast? hadds.last⟩
      reported := hafter
      still := hstill
      atRest := ?_
      numbers := ?_
      counted := nofun }⟩
    · rw [Run.engine_call, hreturned]
      rfl
    · intro mode
      cases mode with
      | pooled => exact hfresh.batches
      | direct => exact hfresh.directRuns
  · rw [← hanswer] at hfails
    refine .inr ⟨(w.serve b r.engine request).1, (r.call w b request).2, rfl, hfails, hconsistent,
      List.nil_prefix, hafter, fun hne => absurd hafter hne, .inr ⟨_, rfl, ?_⟩⟩
    rw [hadds.last]
    generalize (w.serve b r.engine request).1 = answer at hfails
    cases hfails with
    | sizes h => exact .sizes h
    | panics message h => exact .tooMany h
    | dial attempt fault h => exact .start hb h
    | blocked => exact .interrupted

end Steps

/-- A whole run over a calm backend. It unfolds in the order of the plan until something goes wrong
that is not a command, whatever dials, commands and the output come to. -/
theorem unfolds_in_order (s : Settings) (w : World) (sink : Report.Sink) (log : Array Message)
    (hw : ∀ b, w.connect s.url = .ok b → b.Calm ∧ Attends b (w.serve b)) :
    ∃ ran stopped, Unfolds s w sink (Run.execute s w { sink, log }).1
      (Run.execute s w { sink, log }).2 ran stopped := by
  suffices h : ∃ ran stopped, Ended s w sink (Run.execute s w { sink, log }).1
      (Run.execute s w { sink, log }).2 ran stopped by
    obtain ⟨ran, stopped, h⟩ := h
    exact ⟨ran, stopped, h.unfolds⟩
  cases hconnect : w.connect s.url with
  | error fault =>
      refine ⟨[], none, ?_⟩
      simp only [Run.execute, hconnect]
      refine ⟨consistent_start s sink log, List.nil_prefix, rfl, fun hne => absurd rfl hne, .inr ?_⟩
      exact ⟨_, rfl, .address hconnect⟩
  | ok b =>
      obtain ⟨hcalm, hattends⟩ := hw b hconnect
      rcases begins_or_ended sink log hconnect hcalm hattends with
        ⟨r₁, hstart, h₁⟩ | ⟨answer, r₁, hstart, hfails, hended⟩
      · have h₂ : Underway s b sink [] .between (r₁.tell .debug
            ("Dialed " ++ toString s.numWorkers ++ " worker connections")) := h₁.congr rfl rfl rfl
        rcases h₂.phases hconnect hcalm hattends rfl with
          ⟨ran, r₃, hphases, hran, h₃⟩ | ⟨stop, r₃, ran, stopped, hphases, hended⟩
        · refine ⟨ran, none, ?_⟩
          simp only [Run.execute, hconnect, hstart, hphases]
          exact h₃.conclude hconnect hcalm hattends hran
        · refine ⟨ran, stopped, ?_⟩
          simp only [Run.execute, hconnect, hstart, hphases]
          exact hended
      · refine ⟨[], none, ?_⟩
        simp only [Run.execute, hconnect, hstart]
        cases hfails <;> exact hended

/-- A backend that answers the first dial and no other. -/
def oneDial : Backend :=
  { Backend.always .succeed with
    dial := fun attempt => if attempt = 0 then .connect else .fail (.told "refused") }

theorem calm_oneDial : oneDial.Calm := by
  refine ⟨fun attempt message hpanic => ?_, fun _ _ _ => rfl, fun _ => rfl⟩
  change (if attempt = 0 then DialConduct.connect else .fail (.told "refused")) = _ at hpanic
  split at hpanic <;> cases hpanic

/-- One worker and one direct phase. -/
def oneRead : Settings := ⟨"redis://db/", 1, 1, 1, [.directGet], "v", .json⟩

/-- A world in which every address is that of the backend with one dial. -/
def narrowWorld : World := { connect := fun _ => .ok oneDial, elapsed := fun _ => ⟨0, 0⟩ }

/-- The worker gets the only connection, so the phase cannot run. -/
theorem unfolds_in_order_of_oneDial :
    (∀ b, narrowWorld.connect oneRead.url = .ok b →
      b.Calm ∧ Attends b (narrowWorld.serve b)) ∧
    (Run.execute oneRead narrowWorld { sink := {}, log := #[] }).1.isOk = false ∧
    told (Run.execute oneRead narrowWorld { sink := {}, log := #[] }).2.acts.toList =
      [.started .directGet 1] ∧
    ∃ ran stopped, Unfolds oneRead narrowWorld {}
      (Run.execute oneRead narrowWorld { sink := {}, log := #[] }).1
      (Run.execute oneRead narrowWorld { sink := {}, log := #[] }).2 ran stopped := by
  have hw : ∀ b, narrowWorld.connect oneRead.url = .ok b →
      b.Calm ∧ Attends b (narrowWorld.serve b) := by
    rintro _ ⟨⟩
    exact ⟨calm_oneDial, Engine.perform_attends oneDial⟩
  exact ⟨hw, by decide +kernel, by decide +kernel, unfolds_in_order oneRead narrowWorld {} #[] hw⟩

end LoadBench.Program
