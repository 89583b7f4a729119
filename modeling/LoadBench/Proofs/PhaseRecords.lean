import LoadBench.Proofs.Cleared

/-!
What is on record of one phase. Its commands carry its number: that of its latch if it is pooled,
and how many direct phases there were before it if it is direct. Phases that began later have higher
numbers, so the numbers tell what the records got of a phase from what concerns earlier ones, of
which pools of former drivers may still have jobs.
-/

namespace LoadBench

/-- Where an execution comes from, and its command. -/
def Execution.attempt (x : Execution) : Origin × Except String Command := (x.origin, .ok x.command)

/-- What belongs to an index of a phase of a given number. -/
def Phase.origin (phase : Phase) (number index : Nat) : Origin :=
  match phase.mode with
  | .pooled => .job number index
  | .direct => .direct number index

theorem Phase.origin_pooled {phase : Phase} (hm : phase.mode = .pooled) (number index : Nat) :
    phase.origin number index = .job number index := by
  rw [Phase.origin, hm]

theorem Phase.origin_direct {phase : Phase} (hm : phase.mode = .direct) (number index : Nat) :
    phase.origin number index = .direct number index := by
  rw [Phase.origin, hm]

/-- The execution that is expected of an index of a phase of a given number. -/
def Phase.attempt (phase : Phase) (number index : Nat) : Origin × Except String Command :=
  (phase.origin number index, phase.generate index)

/-- An event that concerns a phase of a given number. A phase dials only if it is direct. -/
def Event.IsOf (phase : Phase) (number : Nat) (event : Event) : Prop :=
  (∃ index, event.origin? = some (phase.origin number index)) ∨
    phase.mode = .direct ∧ ∃ attempt conn, event = .dialed attempt conn

/-- An execution of a command of a phase of a given number. -/
def Execution.IsOf (phase : Phase) (number : Nat) (x : Execution) : Prop :=
  ∃ index, x.attempt = phase.attempt number index

theorem Execution.IsOf.origin {phase : Phase} {number : Nat} {x : Execution}
    (h : x.IsOf phase number) : ∃ index, x.origin = phase.origin number index := by
  obtain ⟨index, hx⟩ := h
  exact ⟨index, congrArg Prod.fst hx⟩

/-- A phase of a plan that has begun, with the number that its commands have on record, and what
the records got of it. -/
structure Leg where
  phase : Phase
  number : Nat
  events : List Event
  attempts : List Execution

namespace Leg

/-- Where the command with an index comes from. -/
def origin (leg : Leg) (index : Nat) : Origin := leg.phase.origin leg.number index

/-- What the records got of a phase concerns the phase, and they agree on what was attempted. -/
structure Sound (leg : Leg) : Prop where
  events : ∀ event ∈ leg.events, event.IsOf leg.phase leg.number
  attempts : ∀ x ∈ leg.attempts, x.IsOf leg.phase leg.number
  begun : leg.events.filterMap Event.begun? = leg.attempts.map fun x => (x.origin, x.conn)

/-- Each command of a phase was attempted once and has finished, and a direct phase attempted its
commands in order. -/
structure Complete (leg : Leg) : Prop where
  attempts : (leg.attempts.map Execution.attempt).Perm
    ((List.range leg.phase.iterations).map (leg.phase.attempt leg.number))
  inOrder : leg.phase.mode = .direct → leg.attempts.map Execution.attempt =
    (List.range leg.phase.iterations).map (leg.phase.attempt leg.number)
  finished : ∀ index < leg.phase.iterations, ∃ failed,
    .finished (leg.origin index) failed ∈ leg.events

theorem Complete.begun {leg : Leg} (h : leg.Complete) (hsound : leg.Sound) {index : Nat}
    (hlt : index < leg.phase.iterations) :
    ∃ conn, .begun (leg.origin index) conn ∈ leg.events := by
  have hmem : leg.phase.attempt leg.number index ∈ leg.attempts.map Execution.attempt :=
    h.attempts.mem_iff.mpr (List.mem_map.mpr ⟨index, List.mem_range.mpr hlt, rfl⟩)
  obtain ⟨x, hx, hattempt⟩ := List.mem_map.mp hmem
  have ho : x.origin = leg.origin index := congrArg Prod.fst hattempt
  have hbegun : (x.origin, x.conn) ∈ leg.events.filterMap Event.begun? := by
    rw [hsound.begun]
    exact List.mem_map.mpr ⟨x, hx, rfl⟩
  obtain ⟨event, hevent, hbegun⟩ := List.mem_filterMap.mp hbegun
  refine ⟨x.conn, ?_⟩
  cases event with
  | begun origin conn =>
      cases hbegun
      rwa [ho] at hevent
  | _ => cases hbegun

end Leg

namespace Engine

/-- The number that a phase gets that begins in a state. -/
def numberOf (s : Engine) (phase : Phase) : Nat :=
  match phase.mode with
  | .pooled => s.batches.size
  | .direct => s.directRuns

theorem numberOf_pooled {phase : Phase} (s : Engine) (hm : phase.mode = .pooled) :
    s.numberOf phase = s.batches.size := by
  rw [numberOf, hm]

theorem numberOf_direct {phase : Phase} (s : Engine) (hm : phase.mode = .direct) :
    s.numberOf phase = s.directRuns := by
  rw [numberOf, hm]

/-- What is on record since a state, as far as it concerns phases that began in another one or
later. -/
def eventsSince (start s e : Engine) : List Event :=
  (e.events.toList.drop s.events.size).filter (Event.isSince start)

def attemptsSince (start s e : Engine) : List Execution :=
  (e.executions.toList.drop s.executions.size).filter fun x => x.origin.isSince start

/-- What a phase has left on record that began in the state `s`. -/
def legOf (start s e : Engine) (phase : Phase) : Leg where
  phase
  number := s.numberOf phase
  events := eventsSince start s e
  attempts := attemptsSince start s e

variable {b : Backend} {e next start s : Engine} {d : Driver} {phase : Phase}
  {l l' : List Event} {xs xs' : List Execution}

theorem Adds.eventsSince_eq (h : Adds s e l xs) :
    eventsSince start s e = l.filter (Event.isSince start) := by
  rw [Engine.eventsSince, h.events, ← Array.length_toList, List.drop_left]

theorem Adds.attemptsSince_eq (h : Adds s e l xs) :
    attemptsSince start s e = xs.filter fun x => x.origin.isSince start := by
  rw [Engine.attemptsSince, h.executions, ← Array.length_toList, List.drop_left]

theorem Adds.eventsSince_append (h : Adds s e l xs) (h' : Adds e next l' xs') :
    eventsSince start s next = eventsSince start s e ++ eventsSince start e next := by
  rw [(h.trans h').eventsSince_eq, h.eventsSince_eq, h'.eventsSince_eq, List.filter_append]

theorem Adds.attemptsSince_append (h : Adds s e l xs) (h' : Adds e next l' xs') :
    attemptsSince start s next = attemptsSince start s e ++ attemptsSince start e next := by
  rw [(h.trans h').attemptsSince_eq, h.attemptsSince_eq, h'.attemptsSince_eq, List.filter_append]

/-- What concerns jobs that pools had before tells nothing of later phases. -/
theorem Logs.since_of_leftOver (hstart : Reachable b start)
    (h : Logs (Event.Concerns (start.LeftOver d)) (Execution.Concerns (start.LeftOver d)) s e) :
    eventsSince start s e = [] ∧ attemptsSince start s e = [] := by
  obtain ⟨l, xs, hadds, hl, hxs⟩ := h
  rw [hadds.eventsSince_eq, hadds.attemptsSince_eq, List.filter_eq_nil_iff, List.filter_eq_nil_iff]
  constructor
  · intro event hmem
    rw [not_since_of_leftOver hstart (hl event hmem)]
    exact Bool.false_ne_true
  · intro x hmem
    rw [LeftOver.not_attempt hstart (hxs x hmem)]
    exact Bool.false_ne_true

/-- Later states have higher numbers. -/
structure Precedes (start s : Engine) : Prop where
  batches : start.batches.size ≤ s.batches.size
  directRuns : start.directRuns ≤ s.directRuns

theorem Precedes.refl (e : Engine) : Precedes e e := ⟨Nat.le_refl _, Nat.le_refl _⟩

theorem Precedes.trans (h : Precedes start s) (h' : Precedes s e) : Precedes start e :=
  ⟨h.batches.trans h'.batches, h.directRuns.trans h'.directRuns⟩

theorem Precedes.origin (h : Precedes start s) (phase : Phase) (index : Nat) :
    (phase.origin (s.numberOf phase) index).isSince start = true := by
  cases hm : phase.mode with
  | pooled =>
      rw [Phase.origin_pooled hm, numberOf_pooled s hm]
      exact decide_eq_true h.batches
  | direct =>
      rw [Phase.origin_direct hm, numberOf_direct s hm]
      exact decide_eq_true h.directRuns

theorem Precedes.event (h : Precedes start s) {event : Event}
    (hevent : event.IsOf phase (s.numberOf phase)) : event.isSince start = true := by
  rcases hevent with ⟨index, ho⟩ | ⟨_, attempt, conn, rfl⟩
  · have hsince := h.origin phase index
    cases event with
    | dialed attempt conn => rfl
    | _ =>
        simp only [Event.isSince, ho, Option.any_some]
        exact hsince
  · rfl

theorem Precedes.execution (h : Precedes start s) {x : Execution}
    (hx : x.IsOf phase (s.numberOf phase)) : x.origin.isSince start = true := by
  obtain ⟨index, ho⟩ := hx.origin
  rw [ho]
  exact h.origin phase index

theorem Precedes.not_since {o : Origin} (h : Precedes e next) (ho : o.isSince e = false) :
    o.isSince next = false := by
  have hbatches := h.batches
  have hruns := h.directRuns
  cases o with
  | job latch index | direct run index =>
      simp only [Origin.isSince, decide_eq_false_iff_not] at ho ⊢
      omega

/-- What the records get while a phase of a given number is being run. -/
def LogsLeg (start : Engine) (d : Driver) (phase : Phase) (number : Nat) (e next : Engine) : Prop :=
  Logs (fun event => event.IsOf phase number ∨ event.Concerns (start.LeftOver d))
    (fun x => x.IsOf phase number ∨ x.Concerns (start.LeftOver d)) e next

theorem filterMap_begun?_filter (start : Engine) (l : List Event) :
    (l.filter (Event.isSince start)).filterMap Event.begun? =
      (l.filterMap Event.begun?).filter fun x => x.1.isSince start := by
  induction l with
  | nil => rfl
  | cons event l ih =>
      cases event with
      | begun origin conn =>
          by_cases h : origin.isSince start = true
          · simp [Event.isSince, Event.origin?, Event.begun?, h, ih]
          · simp [Event.isSince, Event.origin?, Event.begun?, h, ih]
      | _ =>
          rw [List.filter_cons]
          split <;> simpa [List.filterMap_cons, Event.begun?] using ih

theorem LogsLeg.sound (h : LogsLeg start d phase (s.numberOf phase) s e)
    (hstart : Reachable b start) : (legOf start s e phase).Sound := by
  obtain ⟨l, xs, hadds, hl, hxs⟩ := h
  refine ⟨?_, ?_, ?_⟩
  · intro event hmem
    change event ∈ eventsSince start s e at hmem
    rw [hadds.eventsSince_eq, List.mem_filter] at hmem
    rcases hl event hmem.1 with hown | hother
    · exact hown
    · rw [not_since_of_leftOver hstart hother] at hmem
      cases hmem.2
  · intro x hmem
    change x ∈ attemptsSince start s e at hmem
    rw [hadds.attemptsSince_eq, List.mem_filter] at hmem
    rcases hxs x hmem.1 with hown | hother
    · exact hown
    · rw [LeftOver.not_attempt hstart hother] at hmem
      cases hmem.2
  · change (eventsSince start s e).filterMap Event.begun? =
      (attemptsSince start s e).map fun x => (x.origin, x.conn)
    rw [hadds.eventsSince_eq, hadds.attemptsSince_eq, filterMap_begun?_filter, hadds.begun,
      List.filter_map]
    rfl

end Engine

end LoadBench
