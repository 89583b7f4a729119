import LoadBench.Proofs.Dialing
import LoadBench.Proofs.PlanRun

/-!
What a direct phase leaves on record, and what it adds to the counters of its driver. What is added
is on record as well, so the counters are those at the beginning of the phase, moved by the record.

Workers may still be busy with jobs of earlier phases. What they leave on record concerns jobs, and
what a direct phase leaves on record never does. If they count in the driver's counters, they may do
so between any two steps of the phase, also between the two in which it reads the counters.
-/

namespace LoadBench

namespace Tally

variable {t u : Tally}

theorem add_mono (h : t ≤ u) (c : Counter) : t.add c ≤ u.add c := by
  intro c'
  rw [get_add, get_add]
  exact Nat.add_le_add_right (h c') _

/-- The counters after what was added to them when an event was put on record. -/
def note (t : Tally) : Event → Tally
  | .tallied _ => t.add .executed
  | .counted _ true => t.add .failed
  | _ => t

/-- The counters after what was added to them while so many events were put on record. -/
def after (t : Tally) (events : List Event) : Tally := events.foldl note t

@[simp] theorem after_append (t : Tally) (events events' : List Event) :
    t.after (events ++ events') = (t.after events).after events' := List.foldl_append

theorem note_mono (h : t ≤ u) (event : Event) : t.note event ≤ u.note event := by
  cases event with
  | tallied origin => exact add_mono h .executed
  | counted origin failed =>
      cases failed with
      | false => exact h
      | true => exact add_mono h .failed
  | _ => exact h

theorem after_mono (h : t ≤ u) (events : List Event) : t.after events ≤ u.after events := by
  induction events generalizing t u with
  | nil => exact h
  | cons event events ih => exact ih (note_mono h event)

end Tally

def Origin.isDirect : Origin → Bool
  | .direct _ _ => true
  | .job _ _ => false

/-- Whether an event concerns a direct phase. While phases are being run, nobody but them dials. -/
def Event.isDirect : Event → Bool
  | .dialed _ _ => true
  | event => event.origin?.any Origin.isDirect

/-- Whether an execution belongs to a direct phase. -/
def Execution.isDirect (x : Execution) : Bool := x.origin.isDirect

namespace Engine

/-- What a dial leaves on record that came to something. -/
def Dialed.events (attempt : Nat) : Dialed → List Event
  | .connected conn => [.dialed attempt (some conn)]
  | .parked => []
  | .failed _ | .panicked _ => [.dialed attempt none]

/-- How many connections a dial has opened. -/
def Dialed.opened : Dialed → Nat
  | .connected _ => 1
  | _ => 0

/-- What the records of a later state hold more that concerns direct phases. -/
def AddsDirect (e next : Engine) (l : List Event) (xs : List Execution) : Prop :=
  ∃ l' xs', Adds e next l' xs' ∧ l'.filter Event.isDirect = l ∧
    xs'.filter Execution.isDirect = xs

/-- No worker has a job, and no queue holds one, that would be counted in the driver's counters. -/
def Undisturbed (e : Engine) (d : Driver) : Prop :=
  ∀ (i : Nat) (p : WorkerPool) (job : Job), e.pools[i]? = some p → p.Has job → p.tally ≠ d.tally

/-- How a direct phase that began in the state `s` stands: what it has read of the counters at its
beginning, the connection of the driver, how many connections were opened, and what is on record of
the phase. What it has counted is on record, and if nobody else counts in the driver's counters,
they hold nothing else. -/
structure Stands (s : Engine) (d : Driver) (before : Tally) (direct : Option Nat) (opened : Nat)
    (events : List Event) (attempts : List Execution) (e : Engine) : Prop where
  driver : e.driver = some { d with direct }
  connections : e.connections = s.connections + opened
  dialed : ∃ p p', s.pools[d.pool]? = some p ∧ e.pools[d.pool]? = some p' ∧
    p'.dialed = p.dialed + opened
  logs : AddsDirect s e events attempts
  undisturbed : Undisturbed s d → Undisturbed e d
  first : s.tallyAt d.tally ≤ before
  counted : before.after events ≤ e.tallyAt d.tally
  reads : Undisturbed s d → before = s.tallyAt d.tally
  counters : Undisturbed s d → e.tallyAt d.tally = (s.tallyAt d.tally).after events

variable {b : Backend} {e mid next s : Engine} {d : Driver} {label : Label} {before : Tally}
  {direct : Option Nat} {opened : Nat} {events : List Event} {attempts : List Execution}

namespace AddsDirect

variable {l l' : List Event} {xs xs' : List Execution}

theorem of_adds (h : Adds e next l xs) :
    AddsDirect e next (l.filter Event.isDirect) (xs.filter Execution.isDirect) :=
  ⟨l, xs, h, rfl, rfl⟩

theorem trans (h : AddsDirect e mid l xs) (h' : AddsDirect mid next l' xs') :
    AddsDirect e next (l ++ l') (xs ++ xs') := by
  obtain ⟨m, ys, hadds, rfl, rfl⟩ := h
  obtain ⟨m', ys', hadds', rfl, rfl⟩ := h'
  exact ⟨_, _, hadds.trans hadds', List.filter_append .., List.filter_append ..⟩

/-- What is not a step of the caller's concerns no direct phase. -/
theorem of_others (hs : e.step b label = some next) (hl : label.ofCaller = false) :
    AddsDirect e next [] [] := by
  obtain ⟨l, xs, hadds, hevents, hexecutions⟩ := logs_of_others hs hl
  refine ⟨l, xs, hadds, ?_, ?_⟩
  · rw [List.filter_eq_nil_iff]
    intro event hmem hdirect
    rcases hevents event hmem with ⟨conn, rfl⟩ | ⟨job, _, ho⟩
    · cases hdirect
    · cases event with
      | dialed attempt conn => cases ho
      | _ =>
          simp only [Event.isDirect, ho, Option.any_some] at hdirect
          cases hdirect
  · rw [List.filter_eq_nil_iff]
    intro x hmem hdirect
    obtain ⟨job, _, ho, _⟩ := hexecutions x hmem
    simp only [Execution.isDirect, ho] at hdirect
    cases hdirect

end AddsDirect

section Undisturbed

/-- Without an offer no queue comes to hold a job. -/
theorem Undisturbed.step (h : Undisturbed e d) (hreachable : Reachable b e)
    (hs : e.step b label = some next) (hl : e.progress.latch? = none) : Undisturbed next d := by
  intro i p' job hp' hhas
  obtain ⟨p, hp, hold⟩ := Stored.of_idle hreachable hs hl ⟨p', hp', hhas⟩
  obtain ⟨q, hq, hfollows⟩ := (step_views hreachable hs).follows hp
  cases hp'.symm.trans hq
  rw [hfollows.extended.1]
  exact h i p job hp hold

/-- Then nobody but the driver counts in its counters. -/
theorem Undisturbed.tallyAt (h : Undisturbed e d) (hs : e.step b label = some next)
    (hl : label.ofCaller = false) : next.tallyAt d.tally = e.tallyAt d.tally :=
  tallyAt_of_others hs hl h

/-- Counting a dial disturbs nobody. -/
theorem Undisturbed.countDialed (h : Undisturbed e d) (i : Nat) :
    Undisturbed (e.countDialed i) d := by
  intro j p job hp hhas
  change (e.pools.modify i fun p => { p with dialed := p.dialed + 1 })[j]? = some p at hp
  rw [Array.getElem?_modify] at hp
  split at hp
  · obtain ⟨q, hq, rfl⟩ := Option.map_eq_some_iff.mp hp
    exact h j q job hq hhas
  · exact h j p job hp hhas

end Undisturbed

section Frames

variable {l : List Event} {xs : List Execution}

/-- A step of a direct phase that puts something on record, and it adds to the driver's counters
what it puts on record. -/
structure Notes (d : Driver) (e next : Engine) (l : List Event) (xs : List Execution) : Prop where
  logs : AddsDirect e next l xs
  driver : next.driver = e.driver
  pools : next.pools = e.pools
  tally : next.tallyAt d.tally = (e.tallyAt d.tally).after l
  connections : next.connections = e.connections
  dialAttempts : next.dialAttempts = e.dialAttempts
  directRuns : next.directRuns = e.directRuns

theorem Notes.same (d : Driver) (e : Engine) (progress : Progress) (gate : FairSemaphore Actor)
    (notices : Array Notice) : Notes d e { e with progress, gate, notices } [] [] :=
  ⟨⟨[], [], .same rfl rfl, rfl, rfl⟩, rfl, rfl, rfl, rfl, rfl, rfl⟩

/-- How the call goes on with its phase is not on record. -/
theorem Notes.goOn {run : PhaseRun} (d : Driver) (e : Engine) (todo : List Phase)
    (reports : List PhaseCount) (turn : Turn) :
    Notes d e (e.goOn run todo reports turn) [] [] := by
  cases turn with
  | _ => exact .same d e _ _ _

theorem Stands.notes (h : Stands s d before direct opened events attempts e)
    (hn : Notes d e next l xs) :
    Stands s d before direct opened (events ++ l) (attempts ++ xs) next where
  driver := hn.driver.trans h.driver
  connections := hn.connections.trans h.connections
  dialed := by
    rw [hn.pools]
    exact h.dialed
  logs := h.logs.trans hn.logs
  undisturbed hs := by
    unfold Undisturbed
    rw [hn.pools]
    exact h.undisturbed hs
  first := h.first
  counted := by
    rw [Tally.after_append, hn.tally]
    exact Tally.after_mono h.counted l
  reads := h.reads
  counters hs := by rw [Tally.after_append, hn.tally, h.counters hs]

theorem Stands.same (h : Stands s d before direct opened events attempts e)
    (hn : Notes d e next [] []) : Stands s d before direct opened events attempts next := by
  have hnext := h.notes hn
  rwa [List.append_nil, List.append_nil] at hnext

/-- What is not a step of the caller's leaves a direct phase where it stands. -/
theorem Stands.others (h : Stands s d before direct opened events attempts e)
    (hreachable : Reachable b e) (hs : e.step b label = some next) (hl : label.ofCaller = false)
    (hbusy : e.progress.latch? = none) :
    Stands s d before direct opened events attempts next := by
  obtain ⟨p, q, hp, hq, hdialed⟩ := h.dialed
  obtain ⟨q', hq', _, hsame, _⟩ := frame_of_others hs hl hq
  exact {
    driver := (step_of_others hs hl).2.2.trans h.driver
    connections := (dials_of_others hs hl).2.trans h.connections
    dialed := ⟨p, q', hp, hq', hsame.trans hdialed⟩
    logs := by
      have hlogs := h.logs.trans (.of_others hs hl)
      rwa [List.append_nil, List.append_nil] at hlogs
    undisturbed := fun hidle => (h.undisturbed hidle).step hreachable hs hbusy
    first := h.first
    counted := h.counted.trans (step_tallyAt hs d.tally)
    reads := h.reads
    counters := fun hidle => ((h.undisturbed hidle).tallyAt hs hl).trans (h.counters hidle) }

/-- The second counter is read before anything is added to it that is on record of the phase. -/
theorem Stands.enters (h : Stands s d (s.tallyAt d.tally) direct opened events attempts e)
    (hquiet : ∀ t : Tally, t.after events = t) :
    Stands s d ⟨s.load d.tally .executed, e.load d.tally .failed⟩ direct opened events attempts e :=
  have hgrown : s.tallyAt d.tally ≤ e.tallyAt d.tally := hquiet (s.tallyAt d.tally) ▸ h.counted
  { h with
    first := fun c => by
      cases c with
      | executed => exact Nat.le_refl _
      | failed => exact hgrown .failed
    counted := by
      rw [hquiet]
      intro c
      cases c with
      | executed => exact hgrown .executed
      | failed => exact Nat.le_refl _
    reads := fun hidle => by
      have hsame := h.counters hidle
      rw [hquiet] at hsame
      rw [load, load, hsame]
      rfl }

/-- When a direct phase has begun, nothing of it is on record. -/
theorem Stands.begun (phase : Phase) (todo : List Phase) (reports : List PhaseCount)
    (hd : s.driver = some d) (hp : ∃ p, s.pools[d.pool]? = some p) :
    Stands s d (s.tallyAt d.tally) d.direct 0 [] [] (s.beginPhase d phase todo reports) := by
  obtain ⟨_, _, _, _, hbegun⟩ := beginPhase_eq s d phase todo reports
  rw [hbegun]
  obtain ⟨p, hp⟩ := hp
  exact {
    driver := hd
    connections := rfl
    dialed := ⟨p, p, hp, hp, rfl⟩
    logs := ⟨[], [], .same rfl rfl, rfl, rfl⟩
    undisturbed := id
    first := le_refl _
    counted := le_refl (s.tallyAt d.tally)
    reads := fun _ => rfl
    counters := fun _ => rfl }

end Frames

section Commands

theorem Notes.finishDirect (d : Driver) (e : Engine) (gate : FairSemaphore Actor)
    (number index : Nat) (fault : Option Fault) :
    Notes d e (({ e with gate } : Engine).finishDirect number index fault).2
      [.finished (.direct number index) fault.isSome] [] := by
  cases fault with
  | none => exact ⟨⟨_, _, .event rfl rfl rfl, rfl, rfl⟩, rfl, rfl, rfl, rfl, rfl, rfl⟩
  | some fault => exact ⟨⟨_, _, .event rfl rfl rfl, rfl, rfl⟩, rfl, rfl, rfl, rfl, rfl, rfl⟩

theorem Notes.beginExecution (b : Backend) (d : Driver) (e : Engine) (conn : Nat)
    (command : Command) (number index : Nat) :
    Notes d e (e.beginExecution b conn command (.direct number index)).2
      [.begun (.direct number index) conn]
      [⟨conn, command, .direct number index, b.execute e.executions conn command⟩] :=
  ⟨⟨_, _, .execution (x := ⟨conn, command, .direct number index, _⟩) rfl rfl, rfl, rfl⟩, rfl, rfl,
    rfl, rfl, rfl, rfl⟩

theorem Notes.generates (d : Driver) (e : Engine) (number index : Nat) :
    Notes d e (e.record (.generated (.direct number index))) [.generated (.direct number index)]
      [] :=
  ⟨⟨_, _, .event rfl rfl rfl, rfl, rfl⟩, rfl, rfl, rfl, rfl, rfl, rfl⟩

theorem tallyAt_count (ht : d.tally < e.tallies.size) (c : Tally.Counter) :
    (e.count d.tally c).tallyAt d.tally = (e.tallyAt d.tally).add c := by
  simp [count, tallyAt, ht, Array.getElem_modify]

theorem Notes.countExecution (htally : d.tally < e.tallies.size) (number index : Nat) :
    Notes d e (e.countExecution d.tally (.direct number index)) [.tallied (.direct number index)]
      [] :=
  ⟨⟨_, _, .event rfl rfl rfl, rfl, rfl⟩, rfl, rfl, tallyAt_count htally .executed, rfl, rfl, rfl⟩

theorem Notes.countFailure (htally : d.tally < e.tallies.size) (number index : Nat) :
    Notes d e (e.countFailure d.tally (.direct number index)) [.counted (.direct number index) true]
      [] :=
  ⟨⟨_, _, .event rfl rfl rfl, rfl, rfl⟩, rfl, rfl, tallyAt_count htally .failed, rfl, rfl, rfl⟩

theorem Notes.counted (d : Driver) (e : Engine) (number index : Nat) : Notes d e
    (e.record (.counted (.direct number index) false)) [.counted (.direct number index) false]
    [] :=
  ⟨⟨_, _, .event rfl rfl rfl, rfl, rfl⟩, rfl, rfl, rfl, rfl, rfl, rfl⟩

end Commands

section Dial

theorem dialStep_adds {stalled : Bool} {dialed : Dialed}
    (hs : e.dialStep b stalled = some (dialed, next)) :
    Adds e next (dialed.events (e.dialAttempts - stalled.toNat)) [] := by
  cases stalled with
  | false =>
      simp only [dialStep, beginDial, Bool.not_false, if_true, Option.some.injEq] at hs
      split at hs
      · cases hs
        exact .event rfl rfl rfl
      · cases hs
        exact .event rfl rfl rfl
      · cases hs
        exact .event rfl rfl rfl
      · split at hs
        · cases hs
          exact .event rfl rfl rfl
        · cases hs
          exact .same rfl rfl
  | true =>
      simp only [dialStep, resumeDial, Bool.not_true, Bool.false_eq_true, if_false,
        Option.ite_none_right_eq_some, Option.some.injEq] at hs
      obtain ⟨_, hs⟩ := hs
      split at hs
      · cases hs
        exact .event rfl rfl rfl
      · cases hs
        exact .same rfl rfl

/-- What a dial leaves alone. A dial that succeeds opens a connection. -/
theorem DialMove.leaves {dialed : Dialed} (h : DialMove e dialed next) :
    next.driver = e.driver ∧ next.pools = e.pools ∧ next.tallies = e.tallies ∧
      next.directRuns = e.directRuns ∧
      next.connections = e.connections + dialed.opened := by
  cases h with
  | connects attempts attempt gate => exact ⟨rfl, rfl, rfl, rfl, rfl⟩
  | fails attempts attempt hd =>
      rcases hd with ⟨fault, rfl⟩ | ⟨message, rfl⟩
      · exact ⟨rfl, rfl, rfl, rfl, rfl⟩
      · exact ⟨rfl, rfl, rfl, rfl, rfl⟩
  | parks attempts gate => exact ⟨rfl, rfl, rfl, rfl, rfl⟩

/-- A dial that does not succeed leaves a direct phase as it is, but for what is on record of it. -/
theorem Stands.undialed {dialed : Dialed} (h : Stands s d before none 0 [] [] e)
    (hdial : DialMove e dialed mid) (hadds : Adds e mid (dialed.events s.dialAttempts) [])
    (hne : ∀ conn, dialed ≠ .connected conn) :
    Stands s d before none 0 (dialed.events s.dialAttempts) [] mid := by
  obtain ⟨hdriver, hpools, htallies, _, hconnections⟩ := hdial.leaves
  have htally : mid.tallyAt d.tally = e.tallyAt d.tally := by simp only [tallyAt, htallies]
  have hquiet (t : Tally) : t.after (dialed.events s.dialAttempts) = t := by cases dialed <;> rfl
  exact {
    driver := hdriver.trans h.driver
    connections := by
      cases dialed with
      | connected conn => exact absurd rfl (hne conn)
      | _ => exact hconnections.trans h.connections
    dialed := by
      rw [hpools]
      exact h.dialed
    logs := by
      have hlogs := h.logs.trans (.of_adds hadds)
      cases dialed <;> exact hlogs
    undisturbed := by
      unfold Undisturbed
      rw [hpools]
      exact h.undisturbed
    first := h.first
    counted := by
      rw [hquiet, htally]
      exact h.counted
    reads := h.reads
    counters := by
      rw [hquiet, htally]
      exact h.counters }

/-- A dial that succeeds is counted in the driver's pool, and it gives the driver its connection. -/
theorem Stands.equips {conn : Nat} (h : Stands s d before none 0 [] [] e)
    (hdial : DialMove e (.connected conn) mid)
    (hadds : Adds e mid [.dialed s.dialAttempts (some conn)] []) :
    Stands s d before (some conn) 1 [.dialed s.dialAttempts (some conn)] []
      (mid.directDialed { d with direct := none } (.connected conn)).2 := by
  obtain ⟨_, hpools, htallies, _, hconnections⟩ := hdial.leaves
  have htally : (mid.directDialed { d with direct := none } (.connected conn)).2.tallyAt d.tally =
      e.tallyAt d.tally := by
    unfold Engine.tallyAt
    rw [← htallies]
    rfl
  exact {
    driver := rfl
    connections := hconnections.trans (congrArg (· + 1) h.connections)
    dialed := by
      obtain ⟨p, q, hp, hq, hdialed⟩ := h.dialed
      refine ⟨p, { q with dialed := q.dialed + 1 }, hp, ?_, congrArg (· + 1) hdialed⟩
      change (mid.pools.modify d.pool _)[d.pool]? = _
      rw [hpools, modify_eq_set _ hq, getElem?_set_self hq]
    logs := by
      obtain ⟨l, xs, hall, hl, hxs⟩ := h.logs.trans (.of_adds hadds)
      exact ⟨l, xs, ⟨hall.events, hall.executions, hall.begun⟩, hl, hxs⟩
    undisturbed := by
      intro hidle
      have hmid : Undisturbed mid d := by
        unfold Undisturbed
        rw [hpools]
        exact h.undisturbed hidle
      exact hmid.countDialed d.pool
    first := h.first
    counted := h.counted.trans htally.ge
    reads := h.reads
    counters := fun hidle => htally.trans (h.counters hidle) }

end Dial

end Engine

end LoadBench
