import LoadBench.Program
import LoadBench.Proofs.Delivery
import LoadBench.Proofs.PhaseCall

/-!
The acts of a run in their order: what was written of the report, what happened in the engine, and
how the calls to the engine came out. `Follows` says what may come after some acts, and `InTurn`
that each act does so, and that all acts before it went well.

A run goes on by writing an event or by making a call, so there is one lemma for each.
-/

namespace LoadBench

/-- The phase of a kind with what is asked for. -/
def Settings.phaseOf (s : Settings) (kind : PhaseKind) : Phase :=
  kind.phase s.iterations s.valueSuffix

/-- The number of the next phase of a mode after phases of some kinds. -/
def PhaseKind.numberAfter (earlier : List PhaseKind) (mode : Mode) : Nat :=
  earlier.countP (·.mode = mode)

theorem PhaseKind.numberAfter_append (earlier : List PhaseKind) (kind : PhaseKind) (mode : Mode) :
    numberAfter (earlier ++ [kind]) mode =
      numberAfter earlier mode + if mode = kind.mode then 1 else 0 := by
  simp [numberAfter, List.countP_append, List.countP_singleton, eq_comm]

theorem Settings.generates (s : Settings) (kind : PhaseKind) : (s.phaseOf kind).Generates :=
  fun _ _ => ⟨_, rfl⟩

namespace Program

namespace Act

/-- The event of the report that an act has written, whether it arrived or not. -/
def told? : Act → Option Report.Event
  | .wrote event _ => some event
  | _ => none

/-- What has become of the event that an act has written. -/
def verdict? : Act → Option (Option Report.OutputFault)
  | .wrote _ fault => some fault
  | _ => none

def happening? : Act → Option Event
  | .happened event => some event
  | _ => none

/-- Whether an act went well. A command that fails is no act of its own. -/
def succeeded : Act → Bool
  | .wrote _ fault => fault.isNone
  | .happened _ => true
  | .answered .ok | .answered (.started _ _) | .answered (.reports _) => true
  | .answered _ => false

end Act

/-- What was written of the report. -/
def told (acts : List Act) : List Report.Event := acts.filterMap Act.told?

/-- What has become of it. -/
def verdicts (acts : List Act) : List (Option Report.OutputFault) := acts.filterMap Act.verdict?

/-- What happened in the engine. -/
def happenings (acts : List Act) : List Event := acts.filterMap Act.happening?

/-- The report of phases that were run: a header and a block for each. -/
def chapters (s : Settings) (ran : List (PhaseKind × PhaseReport)) : List Report.Event :=
  ran.flatMap fun (kind, report) => [.started kind s.iterations, .finished kind report]

/-- The kinds of phases that were run. -/
def kinds (ran : List (PhaseKind × PhaseReport)) : List PhaseKind := ran.map Prod.fst

/-- What may come after some acts of a run. -/
inductive Follows (s : Settings) (before : List Act) : Act → Prop
  /-- The workers are dialed for before anything else. -/
  | dials {attempt : Nat} {conn : Option Nat}
      (hfirst : ∀ act ∈ before, ∃ event, act = .happened event) :
      Follows s before (.happened (.dialed attempt conn))
  /-- A connection may be closed at any time. -/
  | closes {conn : Nat} : Follows s before (.happened (.closed conn))
  | starts {answer : Answer} (hfirst : ∀ act ∈ before, ∃ event, act = .happened event) :
      Follows s before (.answered answer)
  /-- The header of a phase comes once the workers are started and the phases before it are
  reported. -/
  | header {ran : List (PhaseKind × PhaseReport)} {kind : PhaseKind} {rest : List PhaseKind}
      {fault : Option Report.OutputFault} (hplan : s.phases = kinds ran ++ kind :: rest)
      (hstarted : ∃ workers capacity, .answered (.started workers capacity) ∈ before)
      (htold : told before = chapters s ran) :
      Follows s before (.wrote (.started kind s.iterations) fault)
  /-- After the header of a phase happens what concerns the phase. -/
  | serves {ran : List (PhaseKind × PhaseReport)} {kind : PhaseKind} {rest : List PhaseKind}
      {event : Event} (hplan : s.phases = kinds ran ++ kind :: rest)
      (htold : told before = chapters s ran ++ [.started kind s.iterations])
      (hevent : event.IsOf (s.phaseOf kind) (PhaseKind.numberAfter (kinds ran) kind.mode)) :
      Follows s before (.happened event)
  | answers {ran : List (PhaseKind × PhaseReport)} {kind : PhaseKind} {rest : List PhaseKind}
      {answer : Answer} (hplan : s.phases = kinds ran ++ kind :: rest)
      (htold : told before = chapters s ran ++ [.started kind s.iterations]) :
      Follows s before (.answered answer)
  /-- The block of a phase comes at once after the phase has reported. -/
  | block {ran : List (PhaseKind × PhaseReport)} {kind : PhaseKind} {rest : List PhaseKind}
      {report : PhaseReport} {fault : Option Report.OutputFault}
      (hplan : s.phases = kinds ran ++ kind :: rest)
      (htold : told before = chapters s ran ++ [.started kind s.iterations])
      (hreported : before.getLast? = some (.answered (.reports [report.toPhaseCount])))
      (hlabel : report.toPhaseCount.label = (s.phaseOf kind).label) :
      Follows s before (.wrote (.finished kind report) fault)
  /-- The workers are shut down once all phases are reported. -/
  | shutsDown {ran : List (PhaseKind × PhaseReport)} {answer : Answer}
      (hplan : s.phases = kinds ran) (htold : told before = chapters s ran) :
      Follows s before (.answered answer)

/-- Each of some acts follows those before it, and those before it went well. -/
def InTurn (s : Settings) (acts : List Act) : Prop :=
  ∀ before act after, acts = before ++ act :: after →
    (∀ earlier ∈ before, earlier.succeeded = true) ∧ Follows s before act

/-- What is the case at any time of a run. -/
structure Consistent (s : Settings) (sink : Report.Sink) (r : Run) : Prop where
  inTurn : InTurn s r.acts.toList
  /-- What was written stands in the sink, as far as it arrived. -/
  emitted : Report.emitAll s.format (told r.acts.toList) sink = (verdicts r.acts.toList, r.sink)
  /-- The engine has nothing on record but what happened in the run. -/
  events : happenings r.acts.toList = r.engine.events.toList
  /-- Whatever was sent was sent as it happened. -/
  begun : (happenings r.acts.toList).filterMap Event.begun? =
    r.engine.executions.toList.map fun x => (x.origin, x.conn)
  /-- The commands that were sent are those of the phases. -/
  commands : ∀ x ∈ r.engine.executions.toList, ∃ earlier kind rest,
    s.phases = earlier ++ kind :: rest ∧
      x.IsOf (s.phaseOf kind) (PhaseKind.numberAfter earlier kind.mode)

variable {s : Settings} {sink : Report.Sink} {w : World} {b : Backend} {r : Run}
  {acts rest : List Act} {act : Act} {l : List Event} {xs : List Execution}
  {ran : List (PhaseKind × PhaseReport)}

@[simp] theorem told_append : told (acts ++ rest) = told acts ++ told rest :=
  List.filterMap_append

@[simp] theorem verdicts_append : verdicts (acts ++ rest) = verdicts acts ++ verdicts rest :=
  List.filterMap_append

@[simp] theorem happenings_append :
    happenings (acts ++ rest) = happenings acts ++ happenings rest := List.filterMap_append

@[simp] theorem told_happened : told (l.map Act.happened) = [] := by
  simp [told, Act.told?]

@[simp] theorem verdicts_happened : verdicts (l.map Act.happened) = [] := by
  simp [verdicts, Act.verdict?]

@[simp] theorem happenings_happened : happenings (l.map Act.happened) = l := by
  simp [happenings, Act.happening?, Function.comp_def]

section Singletons

variable {event : Report.Event} {fault : Option Report.OutputFault} {answer : Answer}

@[simp] theorem told_wrote : told [.wrote event fault] = [event] := rfl

@[simp] theorem told_answered : told [.answered answer] = [] := rfl

@[simp] theorem verdicts_wrote : verdicts [.wrote event fault] = [fault] := rfl

@[simp] theorem verdicts_answered : verdicts [.answered answer] = [] := rfl

@[simp] theorem happenings_wrote : happenings [.wrote event fault] = [] := rfl

@[simp] theorem happenings_answered : happenings [.answered answer] = [] := rfl

end Singletons

theorem happened_succeeded : ∀ act ∈ l.map Act.happened, act.succeeded = true := by
  intro act hmem
  obtain ⟨event, _, rfl⟩ := List.mem_map.mp hmem
  rfl

theorem InTurn.nil : InTurn s [] := by
  intro before act after h
  cases before <;> cases h

theorem InTurn.snoc (h : InTurn s acts) (hwell : ∀ earlier ∈ acts, earlier.succeeded = true)
    (hf : Follows s acts act) : InTurn s (acts ++ [act]) := by
  intro before act' after heq
  rcases after.eq_nil_or_concat with rfl | ⟨after, last, rfl⟩
  · obtain ⟨rfl, hlast⟩ := List.append_inj' heq rfl
    cases hlast
    exact ⟨hwell, hf⟩
  · rw [List.concat_eq_append, ← List.cons_append, ← List.append_assoc] at heq
    exact h before act' after (List.append_inj' heq rfl).1

/-- What happens in the engine is in turn if each of it follows, whatever happened before it. -/
theorem InTurn.happened (h : InTurn s acts) (hwell : ∀ earlier ∈ acts, earlier.succeeded = true)
    (hf : ∀ event ∈ l, ∀ earlier : List Event,
      Follows s (acts ++ earlier.map .happened) (.happened event)) :
    InTurn s (acts ++ l.map .happened) := by
  induction l using List.reverseRecOn with
  | nil => rwa [List.map_nil, List.append_nil]
  | append_singleton l event ih =>
      have ih := ih fun event hmem => hf event (List.mem_append_left _ hmem)
      rw [List.map_append, ← List.append_assoc]
      refine ih.snoc ?_ (hf event (List.mem_append_right _ (List.mem_singleton_self _)) l)
      intro earlier hmem
      rcases List.mem_append.mp hmem with hold | hnew
      · exact hwell earlier hold
      · exact happened_succeeded earlier hnew

/-- Nothing comes after an act that went wrong. -/
theorem InTurn.halts (h : InTurn s acts) {before after : List Act}
    (heq : acts = before ++ act :: after) (hact : act.succeeded = false) : after = [] := by
  cases after with
  | nil => rfl
  | cons next after =>
      have hwell := (h (before ++ [act]) next after (by simpa using heq)).1 act (by simp)
      rw [hact] at hwell
      cases hwell

namespace Run

@[simp] theorem engine_call {request : Request} :
    (r.call w b request).2.engine = (w.serve b r.engine request).2 := rfl

@[simp] theorem sink_call {request : Request} : (r.call w b request).2.sink = r.sink := rfl

/-- A call puts behind the other acts what happened meanwhile, and its answer. -/
theorem acts_call {request : Request}
    (hadds : Engine.Adds r.engine (w.serve b r.engine request).2 l xs) :
    (r.call w b request).2.acts.toList =
      r.acts.toList ++ l.map .happened ++ [.answered (w.serve b r.engine request).1] := by
  have hevents : (w.serve b r.engine request).2.events.toList.drop r.engine.events.size = l := by
    rw [hadds.events, ← Array.length_toList, List.drop_left]
  simp only [call, Array.toList_push, Array.toList_append, Array.toList_map, Array.toList_extract,
    List.extract_eq_take_drop]
  rw [hevents, List.take_of_length_le]
  rw [← hevents, List.length_drop, Array.length_toList]

theorem acts_write (format : Format) (event : Report.Event) :
    (r.write format event).2.acts.toList =
      r.acts.toList ++ [.wrote event (event.emit format r.sink).1] := by
  simp [write]

/-- An event that is written succeeds, or the run ends with what the output says. -/
theorem write_cases (format : Format) (event : Report.Event) :
    (∃ r', r.write format event = (.ok (), r') ∧ r'.engine = r.engine ∧
      r'.acts.toList = r.acts.toList ++ [.wrote event none]) ∨
    ∃ fault r', r.write format event = (.error (.fault (.output fault)), r') ∧
      r'.acts.toList = r.acts.toList ++ [.wrote event (some fault)] := by
  have hacts := r.acts_write format event
  cases hfault : (event.emit format r.sink).1 with
  | none =>
      rw [hfault] at hacts
      exact .inl ⟨_, Prod.ext (by simp [write, hfault]) rfl, rfl, hacts⟩
  | some fault =>
      rw [hfault] at hacts
      exact .inr ⟨fault, _, Prod.ext (by simp [write, hfault]) rfl, hacts⟩

end Run

/-- A run begins. -/
theorem consistent_start (s : Settings) (sink : Report.Sink) (log : Array Message) :
    Consistent s sink { sink, log } :=
  ⟨.nil, rfl, rfl, rfl, nofun⟩

/-- What is told to the log is no part of that. -/
theorem Consistent.congr {r' : Run} (h : Consistent s sink r) (hengine : r'.engine = r.engine)
    (hsink : r'.sink = r.sink) (hacts : r'.acts = r.acts) : Consistent s sink r' where
  inTurn := by
    rw [hacts]
    exact h.inTurn
  emitted := by
    rw [hacts, hsink]
    exact h.emitted
  events := by
    rw [hacts, hengine]
    exact h.events
  begun := by
    rw [hacts, hengine]
    exact h.begun
  commands := by
    rw [hengine]
    exact h.commands

/-- An event is written. -/
theorem Consistent.write (h : Consistent s sink r) {event : Report.Event}
    (hwell : ∀ act ∈ r.acts.toList, act.succeeded = true)
    (hf : ∀ fault, Follows s r.acts.toList (.wrote event fault)) :
    Consistent s sink (r.write s.format event).2 := by
  have hacts := r.acts_write s.format event
  exact {
    inTurn := by
      rw [hacts]
      exact h.inTurn.snoc hwell (hf _)
    emitted := by
      rw [hacts, told_append, Report.emitAll_append, h.emitted, verdicts_append]
      rfl
    events := by
      rw [hacts, happenings_append, happenings_wrote, List.append_nil]
      exact h.events
    begun := by
      rw [hacts, happenings_append, happenings_wrote, List.append_nil]
      exact h.begun
    commands := h.commands }

/-- What a call with a given answer adds to some acts: nothing of the report, and the answer is the
last of what it adds. -/
structure AddsCall (acts : List Act) (answer : Answer) (after : List Act) : Prop where
  more : acts <+: after
  told : told after = told acts
  last : after.getLast? = some (.answered answer)
  well : (∀ act ∈ acts, act.succeeded = true) → (Act.answered answer).succeeded = true →
    ∀ act ∈ after, act.succeeded = true

theorem addsCall (acts : List Act) (l : List Event) (answer : Answer) :
    AddsCall acts answer (acts ++ l.map .happened ++ [.answered answer]) where
  more := by
    rw [List.append_assoc]
    exact List.prefix_append _ _
  told := by simp
  last := List.getLast?_concat
  well hwell hanswer act hmem := by
    rcases List.mem_append.mp hmem with hmem | hanswered
    · rcases List.mem_append.mp hmem with hold | hhappened
      · exact hwell act hold
      · exact happened_succeeded act hhappened
    · rwa [List.mem_singleton.mp hanswered]

/-- A call is made, in the course of which happens what follows and nothing else. -/
theorem Consistent.call (h : Consistent s sink r) {request : Request} {P : Event → Prop}
    {Q : Execution → Prop} (hwell : ∀ act ∈ r.acts.toList, act.succeeded = true)
    (hlogs : Engine.Logs P Q r.engine (w.serve b r.engine request).2)
    (hP : ∀ event, P event → ∀ earlier : List Event,
      Follows s (r.acts.toList ++ earlier.map .happened) (.happened event))
    (hQ : ∀ x, Q x → ∃ earlier kind rest, s.phases = earlier ++ kind :: rest ∧
      x.IsOf (s.phaseOf kind) (PhaseKind.numberAfter earlier kind.mode))
    (hanswer : ∀ (earlier : List Event) (answer : Answer),
      Follows s (r.acts.toList ++ earlier.map .happened) (.answered answer)) :
    Consistent s sink (r.call w b request).2 ∧ AddsCall r.acts.toList
      (w.serve b r.engine request).1 (r.call w b request).2.acts.toList := by
  obtain ⟨l, xs, hadds, hl, hxs⟩ := hlogs
  have hacts := Run.acts_call hadds
  refine ⟨⟨?_, ?_, ?_, ?_, ?_⟩, hacts ▸ addsCall _ l _⟩
  · rw [hacts]
    refine (h.inTurn.happened hwell fun event hmem => hP event (hl event hmem)).snoc ?_
      (hanswer l _)
    intro earlier hmem
    rcases List.mem_append.mp hmem with hold | hnew
    · exact hwell earlier hold
    · exact happened_succeeded earlier hnew
  · rw [hacts]
    simpa using h.emitted
  · rw [hacts]
    simpa [h.events] using hadds.events.symm
  · rw [hacts, happenings_append, happenings_append, happenings_happened, happenings_answered,
      List.append_nil, List.filterMap_append, h.begun, hadds.begun, ← List.map_append]
    exact congrArg _ hadds.executions.symm
  · intro x hx
    rw [Run.engine_call, hadds.executions] at hx
    rcases List.mem_append.mp hx with hold | hnew
    · exact h.commands x hold
    · exact hQ x (hxs x hnew)

/-- While nothing goes wrong with the output, all that is written arrives, and each flush is
done. -/
theorem emitAll_of_verdicts {format : Format} {events : List Report.Event} {sink : Report.Sink}
    (h : ∀ fault ∈ (Report.emitAll format events sink).1, fault = none) :
    (Report.emitAll format events sink).2.content = sink.content ++ Report.textOf format events ∧
      (Report.emitAll format events sink).2.flushes =
        sink.flushes + events.countP (·.flushes format) := by
  induction events generalizing sink with
  | nil => exact ⟨(List.append_nil _).symm, rfl⟩
  | cons event events ih =>
      obtain ⟨bites, hemit⟩ := Report.emit_eq format event sink
      simp only [Report.emitAll] at h ⊢
      have hverdict := h _ List.mem_cons_self
      obtain ⟨hcontent, hflushes⟩ := ih fun fault hmem => h fault (List.mem_cons_of_mem _ hmem)
      rw [hemit] at hverdict
      have hfits : sink.Fits (event.bytes format) := by
        by_contra hnot
        simp [Report.Event.verdict, hnot] at hverdict
      rw [hcontent, hflushes, hemit]
      constructor
      · change sink.content ++ sink.portion (event.bytes format) ++ _ = _
        rw [show sink.portion (event.bytes format) = _ from hfits, List.append_assoc]
        rfl
      · change sink.flushes + _ + _ = _
        rw [List.countP_cons]
        by_cases hflush : event.flushes format = true
        · simp [hfits, hflush]
          omega
        · simp [hflush]

theorem length_verdicts (acts : List Act) : (verdicts acts).length = (told acts).length := by
  induction acts with
  | nil => rfl
  | cons act acts ih =>
      cases act with
      | wrote event fault => exact congrArg (· + 1) ih
      | _ => exact ih

theorem verdicts_of_succeeded (hwell : ∀ act ∈ acts, act.succeeded = true) :
    ∀ fault ∈ verdicts acts, fault = none := by
  intro fault hmem
  obtain ⟨act, hact, hfault⟩ := List.mem_filterMap.mp hmem
  have hgood := hwell act hact
  cases act with
  | wrote event fault' =>
      cases hfault
      exact Option.isNone_iff_eq_none.mp hgood
  | _ => cases hfault

namespace Consistent

variable (h : Consistent s sink r)

include h

/-- The output has got what was written, as far as there was room. -/
theorem content : r.sink.content =
    sink.content ++ sink.portion (Report.textOf s.format (told r.acts.toList)) := by
  obtain ⟨bites, hsink⟩ := Report.emitAll_sink s.format (told r.acts.toList) sink
  have hsame : _ = r.sink := congrArg Prod.snd h.emitted
  rw [← hsame, hsink]
  rfl

/-- What was written by some time is in the output then if nothing has gone wrong. -/
theorem delivered {before after : List Act} (heq : r.acts.toList = before ++ after)
    (hnone : ∀ fault ∈ verdicts before, fault = none) :
    (Report.emitAll s.format (told before) sink).2.content =
        sink.content ++ Report.textOf s.format (told before) ∧
      (Report.emitAll s.format (told before) sink).2.flushes =
        sink.flushes + (told before).countP (·.flushes s.format) := by
  have hsink : _ = verdicts r.acts.toList := congrArg Prod.fst h.emitted
  rw [heq, told_append, Report.emitAll_append, verdicts_append] at hsink
  have hlength : (Report.emitAll s.format (told before) sink).1.length =
      (verdicts before).length := by
    rw [Report.length_emitAll, length_verdicts]
  apply emitAll_of_verdicts
  rw [(List.append_inj hsink hlength).1]
  exact hnone

end Consistent

end Program

end LoadBench
