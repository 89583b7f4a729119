import LoadBench.Proofs.PhaseRecords

/-!
A direct phase from its beginning until its call goes on. Its commands are generated and executed
one after the other in the order of their indices, and each of them has finished before the next
one is generated. Meanwhile the driver's pool gets no job.
-/

namespace LoadBench

/-- The points of a direct phase of a given number, where so many direct phases were begun. -/
def Point.IsOf (phase : Phase) (number : Nat) (point : Point) (runs : Nat) : Prop :=
  match point with
  | .connecting | .dialing => runs = number
  | .preparing number' index => number' = number ∧ runs = number + 1 ∧ index ≤ phase.iterations
  | .issuing number' index command =>
      number' = number ∧ runs = number + 1 ∧ index < phase.iterations ∧
        phase.generate index = .ok command
  | .executing number' index _ | .stalled number' index _ | .finished number' index _
  | .failing number' index =>
      number' = number ∧ runs = number + 1 ∧ index < phase.iterations
  | _ => False

/-- How many commands of a direct phase have been begun. -/
def Point.begun : Point → Nat
  | .preparing _ index | .issuing _ index _ => index
  | .executing _ index _ | .stalled _ index _ | .finished _ index _ | .failing _ index => index + 1
  | _ => 0

/-- How many commands of a direct phase have finished. -/
def Point.finishedBefore : Point → Nat
  | .preparing _ index | .issuing _ index _ | .executing _ index _ | .stalled _ index _ => index
  | .finished _ index _ | .failing _ index => index + 1
  | _ => 0

namespace Engine

variable {b : Backend} {e mid next start s : Engine} {d : Driver} {p : WorkerPool} {phase : Phase}
  {todo : List Phase} {reports : List PhaseCount} {point : Point} {turn : Turn} {label : Label}
  {number : Nat}

/-- What a dial adds: nothing, or that it has come to something. -/
theorem DialMove.adds {dialed : Dialed} (h : DialMove e dialed next) :
    (∃ l, Adds e next l [] ∧ ∀ event ∈ l, ∃ attempt conn, event = .dialed attempt conn) ∧
      next.directRuns = e.directRuns := by
  have hdials {attempt : Nat} {conn : Option Nat} {next : Engine}
      (hevents : next.events = e.events.push (.dialed attempt conn))
      (hexecutions : next.executions = e.executions) :
      ∃ l, Adds e next l [] ∧ ∀ event ∈ l, ∃ attempt conn, event = .dialed attempt conn :=
    ⟨[.dialed attempt conn], .event hevents rfl hexecutions,
      fun event hmem => ⟨attempt, conn, List.mem_singleton.mp hmem⟩⟩
  cases h with
  | connects attempts attempt gate => exact ⟨hdials rfl rfl, rfl⟩
  | fails attempts attempt hd => exact ⟨hdials rfl rfl, rfl⟩
  | parks attempts gate => exact ⟨⟨[], .same rfl rfl, List.forall_mem_nil _⟩, rfl⟩

/-- One step of a direct phase, by what it adds and by where it leads. -/
structure DirectTurn (e : Engine) (phase : Phase) (number : Nat) (point : Point) (turn : Turn)
    (next : Engine) (l : List Event) (xs : List Execution) : Prop where
  adds : Adds e next l xs
  events : ∀ event ∈ l, event.IsOf phase number
  executions : ∀ x ∈ xs, x.IsOf phase number
  turns :
    (∃ point', turn = .to point' ∧ point'.IsOf phase number next.directRuns ∧
      (List.range point'.begun).map (phase.attempt number) =
        (List.range point.begun).map (phase.attempt number) ++ xs.map Execution.attempt ∧
      ∀ index < point'.finishedBefore, index < point.finishedBefore ∨
        ∃ failed, .finished (phase.origin number index) failed ∈ l) ∨
    (turn = .done ∧ xs = [] ∧ point.begun = phase.iterations ∧
      point.finishedBefore = phase.iterations ∧ next.directRuns = number + 1) ∨
    (∃ fault, turn = .fault fault) ∨ ∃ message, turn = .panic message

/-- A step that adds nothing but that a command was generated or counted or that a dial has come to
something, and that leads to a point where as many commands have been begun and have finished. -/
theorem DirectTurn.to {l : List Event} {point' : Point} (hadds : Adds e next l [])
    (hevents : ∀ event ∈ l, event.IsOf phase number)
    (hpoint : point'.IsOf phase number next.directRuns) (hbegun : point'.begun = point.begun)
    (hfinished : point'.finishedBefore = point.finishedBefore) :
    DirectTurn e phase number point (.to point') next l [] := by
  refine ⟨hadds, hevents, nofun, .inl ⟨point', rfl, hpoint, ?_, fun index hlt => ?_⟩⟩
  · rw [hbegun, List.map_nil, List.append_nil]
  · rw [hfinished] at hlt
    exact .inl hlt

theorem DirectTurn.stops (hadds : Adds e next [] [])
    (hturn : (∃ fault, turn = .fault fault) ∨ ∃ message, turn = .panic message) :
    DirectTurn e phase number point turn next [] [] :=
  ⟨hadds, List.forall_mem_nil _, List.forall_mem_nil _, .inr (.inr hturn)⟩

theorem DirectTurn.logs {l : List Event} {xs : List Execution}
    (h : DirectTurn e phase number point turn next l xs) :
    LogsLeg start d phase number e next :=
  ⟨l, xs, h.adds, fun event hmem => .inl (h.events event hmem),
    fun x hmem => .inl (h.executions x hmem)⟩

theorem finishDirect_adds (e : Engine) (number index : Nat) (fault : Option Fault) :
    (e.finishDirect number index fault).1 = .finished number index fault.isSome ∧
      (e.finishDirect number index fault).2.directRuns = e.directRuns ∧
      Adds e (e.finishDirect number index fault).2
        [.finished (.direct number index) fault.isSome] [] := by
  cases fault with
  | none => exact ⟨rfl, rfl, .event rfl rfl rfl⟩
  | some fault => exact ⟨rfl, rfl, .event rfl rfl rfl⟩

/-- A dial of a direct phase. -/
theorem DialMove.directTurn {dialed : Dialed} {e' : Engine} (h : DialMove e dialed e')
    (ht : e'.directDialed d dialed = (turn, next)) (hm : phase.mode = .direct)
    (hruns : e.directRuns = number) (hbegun : point.begun = 0)
    (hfinished : point.finishedBefore = 0) :
    ∃ l xs, DirectTurn e phase number point turn next l xs := by
  obtain ⟨⟨l, hadds, hl⟩, hsame⟩ := h.adds
  have hevents (event : Event) (hmem : event ∈ l) : event.IsOf phase number :=
    .inr ⟨hm, hl event hmem⟩
  have hnumber : e'.directRuns = number := hsame.trans hruns
  cases dialed with
  | connected conn =>
      cases ht
      refine ⟨l, [], .to ⟨hadds.events, hadds.executions, hadds.begun⟩ hevents ?_ ?_ ?_⟩
      · exact ⟨hnumber, congrArg (· + 1) hnumber, Nat.zero_le _⟩
      · exact hbegun.symm
      · exact hfinished.symm
  | parked =>
      cases ht
      exact ⟨l, [], .to hadds hevents hnumber hbegun.symm hfinished.symm⟩
  | failed fault =>
      cases ht
      exact ⟨l, [], hadds, hevents, List.forall_mem_nil _, .inr (.inr (.inl ⟨fault, rfl⟩))⟩
  | panicked message =>
      cases ht
      exact ⟨l, [], hadds, hevents, List.forall_mem_nil _, .inr (.inr (.inr ⟨message, rfl⟩))⟩

/-- A direct command that has come to its end. -/
theorem DirectTurn.finishes {index : Nat} {gate : FairSemaphore Actor} {fault : Option Fault}
    (hm : phase.mode = .direct) (hruns : e.directRuns = number + 1)
    (hlt : index < phase.iterations) (hbegun : point.begun = index + 1)
    (hfinished : point.finishedBefore = index) :
    DirectTurn e phase number point (.to (.finished number index fault.isSome))
      (({ e with gate } : Engine).finishDirect number index fault).2
      [.finished (.direct number index) fault.isSome] [] := by
  have horigin := phase.origin_direct hm number
  obtain ⟨_, hkeeps, hadds⟩ := finishDirect_adds { e with gate } number index fault
  have hsame : Adds e { e with gate } [] [] := .same rfl rfl
  refine ⟨hsame.trans hadds, ?_, List.forall_mem_nil _, .inl ⟨_, rfl, ?_, ?_, ?_⟩⟩
  · intro event hmem
    rw [List.mem_singleton.mp hmem]
    exact .inl ⟨index, congrArg some (horigin index).symm⟩
  · exact ⟨rfl, hkeeps.trans hruns, hlt⟩
  · rw [hbegun]
    exact (List.append_nil _).symm
  · intro index' hlt'
    rw [hfinished]
    rcases Nat.lt_succ_iff_lt_or_eq.mp hlt' with hbefore | rfl
    · exact .inl hbefore
    · refine .inr ⟨fault.isSome, ?_⟩
      rw [horigin]
      exact List.mem_singleton_self _

/-- Each step of a direct phase is such a turn. -/
theorem DirectMove.directTurn (h : DirectMove b e d phase point turn next)
    (hm : phase.mode = .direct) (hpoint : point.IsOf phase number e.directRuns) :
    ∃ l xs, DirectTurn e phase number point turn next l xs := by
  have horigin := phase.origin_direct hm number
  have hone {event : Event} {index : Nat} (ho : event.origin? = some (.direct number index)) :
      ∀ event' ∈ [event], event'.IsOf phase number := by
    intro event' hmem
    rw [List.mem_singleton.mp hmem]
    exact .inl ⟨index, by rw [horigin]; exact ho⟩
  cases h with
  | dials hp hdial ht =>
      rcases hp with rfl | rfl
      · exact hdial.directTurn ht hm hpoint rfl rfl
      · exact hdial.directTurn ht hm hpoint rfl rfl
  | generates hlt hg =>
      obtain ⟨rfl, hruns, _⟩ := hpoint
      exact ⟨_, [], .to (.event rfl rfl rfl) (hone rfl) ⟨rfl, hruns, hlt, hg⟩ rfl rfl⟩
  | @stumbles run index message hg =>
      exact ⟨[], [], .stops (.same rfl rfl) (.inr ⟨message, rfl⟩)⟩
  | ends hle =>
      obtain ⟨rfl, hruns, hindex⟩ := hpoint
      have hlast := Nat.le_antisymm hindex hle
      refine ⟨[], [], .same rfl rfl, List.forall_mem_nil _, List.forall_mem_nil _, ?_⟩
      exact .inr (.inl ⟨rfl, rfl, hlast, hlast, hruns⟩)
  | @begins run index conn command turn hd ht =>
      obtain ⟨rfl, hruns, hlt, hg⟩ := hpoint
      have hadds : Adds e (e.beginExecution b conn command (.direct run index)).2 _ _ :=
        .execution (x := ⟨conn, command, .direct run index, _⟩) rfl rfl
      have hattempt : Execution.attempt ⟨conn, command, .direct run index,
          b.execute e.executions conn command⟩ = phase.attempt run index := by
        rw [Phase.attempt, horigin, hg]
        rfl
      refine ⟨_, _, hadds, hone rfl, ?_, ?_⟩
      · intro x hmem
        rw [List.mem_singleton.mp hmem]
        exact ⟨index, hattempt⟩
      · rcases ht with ⟨conduct, rfl⟩ | ⟨message, rfl⟩
        · refine .inl ⟨_, rfl, ⟨rfl, hruns, hlt⟩, ?_, fun index' hlt' => .inl hlt'⟩
          rw [List.map_singleton, hattempt]
          simp [Point.begun, List.range_succ]
        · exact .inr (.inr (.inr ⟨message, rfl⟩))
  | collapses message => exact ⟨[], [], .stops (.same rfl rfl) (.inr ⟨message, rfl⟩)⟩
  | stalls fault gate =>
      obtain ⟨rfl, hruns, hlt⟩ := hpoint
      exact ⟨[], [], .to (.same rfl rfl) (List.forall_mem_nil _) ⟨rfl, hruns, hlt⟩ rfl rfl⟩
  | finishes fault gate hp =>
      rcases hp with ⟨conduct, rfl⟩ | ⟨fault', rfl⟩
      · obtain ⟨rfl, hruns, hlt⟩ := hpoint
        exact ⟨_, _, .finishes hm hruns hlt rfl rfl⟩
      · obtain ⟨rfl, hruns, hlt⟩ := hpoint
        exact ⟨_, _, .finishes hm hruns hlt rfl rfl⟩
  | @counts run index =>
      obtain ⟨rfl, hruns, hlt⟩ := hpoint
      have htallied : Adds e (e.countExecution d.tally (.direct run index)) _ _ :=
        .event rfl rfl rfl
      refine ⟨_, [], .to (htallied.trans (.event rfl rfl rfl)) ?_ ⟨rfl, hruns, hlt⟩ rfl rfl⟩
      intro event hmem
      rcases List.mem_append.mp hmem with htallies | hcounts
      · exact hone rfl event htallies
      · exact hone rfl event hcounts
  | tallies | countsFailure =>
      obtain ⟨rfl, hruns, hlt⟩ := hpoint
      exact ⟨_, [], .to (.event rfl rfl rfl) (hone rfl) ⟨rfl, hruns, hlt⟩ rfl rfl⟩

/-- What is on record of a direct phase that began in the state `s`: it has begun so many of its
commands, in order, and so many have finished. What else is on record since then concerns jobs that
other pools had before. -/
structure Issued (start s : Engine) (d : Driver) (phase : Phase) (begun finished : Nat)
    (e : Engine) : Prop where
  logs : LogsLeg start d phase (s.numberOf phase) s e
  attempts : (attemptsSince start s e).map Execution.attempt =
    (List.range begun).map (phase.attempt (s.numberOf phase))
  finished : ∀ index < finished, ∃ failed,
    .finished (phase.origin (s.numberOf phase) index) failed ∈ eventsSince start s e

/-- Where the call of a direct phase stands that began in the state `s`, and what of the phase is on
record. It reads the counters as they are before the phase and after it, since nobody else counts in
them. -/
inductive DirectCall (start s : Engine) (d : Driver) (phase : Phase) (todo : List Phase)
    (reports : List PhaseCount) (e : Engine) : Prop
  | entering (entry : PhaseEntry)
      (hr : e.progress = .entering phase (s.load d.tally .executed) entry todo reports)
      (ht : e.tallyAt d.tally = s.tallyAt d.tally)
      (hat : entry.point.IsOf phase (s.numberOf phase) e.directRuns)
      (hissued : Issued start s d phase entry.point.begun entry.point.finishedBefore e)
  | running {point : Point}
      (hr : e.progress = .running ⟨phase, s.tallyAt d.tally, point⟩ todo reports)
      (hat : point.IsOf phase (s.numberOf phase) e.directRuns)
      (hissued : Issued start s d phase point.begun point.finishedBefore e)
  | leaving (executed : Option Nat)
      (hr : e.progress = .leaving phase (s.tallyAt d.tally) executed todo reports)
      (hx : ∀ x, executed = some x → e.load d.tally .executed = x)
      (hruns : e.directRuns = s.numberOf phase + 1)
      (hissued : Issued start s d phase phase.iterations phase.iterations e)
  | reported (hr : e.progress = .planning todo
        (reports ++ [phase.report (s.tallyAt d.tally) (e.tallyAt d.tally)]))
      (hruns : e.directRuns = s.numberOf phase + 1)
      (hissued : Issued start s d phase phase.iterations phase.iterations e)

/-- What is the case while a direct phase is being run, and when it is done. -/
structure Issuing (start s : Engine) (d : Driver) (phase : Phase) (todo : List Phase)
    (reports : List PhaseCount) (e : Engine) : Prop where
  cleared : Cleared start d e
  driver : ∃ direct, e.driver = some { d with direct }
  pool : ∃ p, e.pools[d.pool]? = some p ∧ d.tally = p.tally
  call : DirectCall start s d phase todo reports e

theorem Issued.others {n m : Nat} (h : Issued start s d phase n m e) (hstart : Reachable b start)
    (hlogs : Logs (Event.Concerns (start.LeftOver d)) (Execution.Concerns (start.LeftOver d)) e
      next) : Issued start s d phase n m next := by
  obtain ⟨hevents, hattempts⟩ := hlogs.since_of_leftOver hstart
  have hall := h.logs.trans (hlogs.mono (fun _ => .inr) fun _ => .inr)
  obtain ⟨l, xs, hadds, _⟩ := h.logs
  obtain ⟨l', xs', hadds', _⟩ := hlogs
  refine ⟨hall, ?_, ?_⟩
  · rw [hadds.attemptsSince_append hadds', hattempts, List.append_nil]
    exact h.attempts
  · rw [hadds.eventsSince_append hadds', hevents, List.append_nil]
    exact h.finished

/-- A turn of the phase itself. -/
theorem Issued.own {n m : Nat} {l' : List Event} {xs' : List Execution}
    (h : Issued start s d phase n m e) (hprecedes : Precedes start s)
    (hturn : DirectTurn e phase (s.numberOf phase) point turn next l' xs') {n' m' : Nat}
    (hattempts : (List.range n').map (phase.attempt (s.numberOf phase)) =
      (List.range n).map (phase.attempt (s.numberOf phase)) ++ xs'.map Execution.attempt)
    (hfinished : ∀ index < m', index < m ∨
      ∃ failed, .finished (phase.origin (s.numberOf phase) index) failed ∈ l') :
    Issued start s d phase n' m' next := by
  have hevents' : eventsSince start e next = l' := by
    rw [hturn.adds.eventsSince_eq, List.filter_eq_self]
    exact fun event hmem => hprecedes.event (hturn.events event hmem)
  have hattempts' : attemptsSince start e next = xs' := by
    rw [hturn.adds.attemptsSince_eq, List.filter_eq_self]
    exact fun x hmem => hprecedes.execution (hturn.executions x hmem)
  obtain ⟨l, xs, hadds, _⟩ := h.logs
  refine ⟨h.logs.trans hturn.logs, ?_, ?_⟩
  · rw [hadds.attemptsSince_append hturn.adds, hattempts', List.map_append, h.attempts, hattempts]
  · intro index hlt
    rw [hadds.eventsSince_append hturn.adds, hevents']
    rcases hfinished index hlt with hbefore | ⟨failed, hmem⟩
    · obtain ⟨failed, hmem⟩ := h.finished index hbefore
      exact ⟨failed, List.mem_append_left _ hmem⟩
    · exact ⟨failed, List.mem_append_right _ hmem⟩

theorem Issued.congr {n m : Nat} (h : Issued start s d phase n m e)
    (hevents : next.events = e.events) (hexecutions : next.executions = e.executions) :
    Issued start s d phase n m next := by
  refine ⟨h.logs.congr hevents hexecutions, ?_, ?_⟩
  · rw [attemptsSince, hexecutions]
    exact h.attempts
  · rw [eventsSince, hevents]
    exact h.finished

/-- A direct phase that has issued all of its commands is complete. -/
theorem Issued.complete (h : Issued start s d phase phase.iterations phase.iterations e) :
    (legOf start s e phase).Complete :=
  ⟨.of_eq h.attempts, fun _ => h.attempts, h.finished⟩

/-- The call goes on from a turn of the phase. -/
theorem Issued.goOn {l : List Event} {xs : List Execution}
    (h : Issued start s d phase point.begun point.finishedBefore e)
    (hprecedes : Precedes start s)
    (hturn : DirectTurn e phase (s.numberOf phase) point turn mid l xs)
    (hnext : next = mid.goOn ⟨phase, s.tallyAt d.tally, point⟩ todo reports turn) :
    LogsLeg start d phase (s.numberOf phase) s next ∧
      ((∃ answer, next.progress = .returned answer) ∨
        DirectCall start s d phase todo reports next) := by
  have hevents : next.events = mid.events := by rw [hnext, events_goOn]
  have hexecutions : next.executions = mid.executions := by rw [hnext, executions_goOn]
  have hstopped := (h.logs.trans hturn.logs).congr hevents hexecutions
  rcases hturn.turns with ⟨point', rfl, hat, hattempts, hfinished⟩ |
    ⟨rfl, rfl, hbegun, hfinished, hruns⟩ | ⟨fault, rfl⟩ | ⟨message, rfl⟩
  · have hissued' := (h.own hprecedes hturn hattempts hfinished).congr hevents hexecutions
    subst hnext
    exact ⟨hissued'.logs, .inr (.running rfl hat hissued')⟩
  · have hdone : Issued start s d phase phase.iterations phase.iterations mid :=
      h.own hprecedes hturn (by rw [hbegun, List.map_nil, List.append_nil])
        fun index hlt => .inl (by rw [hfinished]; exact hlt)
    have hissued' := hdone.congr hevents hexecutions
    subst hnext
    exact ⟨hissued'.logs, .inr (.leaving none rfl nofun hruns hissued')⟩
  · exact ⟨hstopped, .inl ⟨.fault fault, by rw [hnext]; rfl⟩⟩
  · exact ⟨hstopped, .inl ⟨.panic message, by rw [hnext]; rfl⟩⟩

/-- A direct phase that is given up adds nothing. -/
theorem cancelPoint_direct {runs : Nat} (h : point.IsOf phase number runs)
    (hs : e.cancelPoint point = some next) :
    next.events = e.events ∧ next.executions = e.executions := by
  cases point with
  | dialing | stalled number index fault =>
      cases hs
      exact ⟨rfl, rfl⟩
  | offering latch index job | waiting latch index job | awaiting latch => cases h
  | _ => cases hs

/-- What others do meanwhile leaves the call of a direct phase where it is. -/
theorem DirectCall.others (h : DirectCall start s d phase todo reports e)
    (hstart : Reachable b start)
    (hlogs : Logs (Event.Concerns (start.LeftOver d)) (Execution.Concerns (start.LeftOver d)) e
      next)
    (ht : next.tallyAt d.tally = e.tallyAt d.tally) (hs : e.step b label = some next)
    (hl : label.ofCaller = false) : LogsLeg start d phase (s.numberOf phase) s next ∧
      DirectCall start s d phase todo reports next := by
  obtain ⟨hprogress, hruns, _⟩ := step_of_others hs hl
  cases h with
  | entering entry hr ht' hat hissued =>
      have hissued' := hissued.others hstart hlogs
      exact ⟨hissued'.logs,
        .entering entry (hprogress.trans hr) (ht.trans ht') (by rwa [hruns]) hissued'⟩
  | running hr hat hissued =>
      have hissued' := hissued.others hstart hlogs
      exact ⟨hissued'.logs, .running (hprogress.trans hr) (by rwa [hruns]) hissued'⟩
  | leaving executed hr hx hnumber hissued =>
      have hissued' := hissued.others hstart hlogs
      refine ⟨hissued'.logs,
        .leaving executed (hprogress.trans hr) (fun x hsome => ?_) (hruns.trans hnumber) hissued'⟩
      rw [load, ht]
      exact hx x hsome
  | reported hr hnumber hissued =>
      have hissued' := hissued.others hstart hlogs
      exact ⟨hissued'.logs,
        .reported (by rw [ht]; exact hprogress.trans hr) (hruns.trans hnumber) hissued'⟩

/-- The call of a direct phase reads a counter, which is all it does. -/
theorem DirectCall.reads (h : DirectCall start s d phase todo reports e) {notices : Array Notice}
    (hr : e.progress.reads = true) : DirectCall start s d phase todo reports
      { e with notices, progress := e.progress.afterRead (e.load d.tally) } := by
  cases h with
  | entering entry hr' ht hat hissued =>
      refine .running ?_ hat (hissued.congr rfl rfl)
      have hfailed : e.load d.tally .failed = s.load d.tally .failed := by rw [load, ht, load]
      rw [hr', Progress.afterRead, hfailed]
      rfl
  | running hr' =>
      rw [hr'] at hr
      cases hr
  | leaving executed hr' hx hruns hissued =>
      cases executed with
      | none =>
          refine .leaving (some (e.load d.tally .executed)) ?_ ?_ hruns (hissued.congr rfl rfl)
          · rw [hr']
            rfl
          · exact fun x hsome => Option.some.inj hsome
      | some executed =>
          refine .reported ?_ hruns (hissued.congr rfl rfl)
          rw [hr', ← hx executed rfl]
          rfl
  | reported hr' =>
      rw [hr'] at hr
      cases hr

/-- A step of the caller's during a direct phase. -/
theorem DirectCall.caller {direct : Option Nat} (h : DirectCall start s d phase todo reports e)
    (hm : phase.mode = .direct) (hprecedes : Precedes start s)
    (hd : e.driver = some { d with direct }) (hr : e.progress.isRunning = true)
    (hs : e.step b label = some next) (hl : label.ofCaller = true) :
    LogsLeg start d phase (s.numberOf phase) s next ∧
      ((∃ answer, next.progress = .returned answer) ∨
        DirectCall start s d phase todo reports next) := by
  have hreads {n m : Nat} (hissued : Issued start s d phase n m e)
      (hreads : e.progress.reads = true) :
      LogsLeg start d phase (s.numberOf phase) s next ∧
        ((∃ answer, next.progress = .returned answer) ∨
          DirectCall start s d phase todo reports next) := by
    obtain ⟨_, d', notices, hd', rfl⟩ := step_of_reads hreads hl hs
    cases hd.symm.trans hd'
    refine ⟨Issued.logs (hissued.congr ?_ ?_), .inr (h.reads hreads)⟩
    · rfl
    · rfl
  cases h with
  | entering _ hr' _ _ hissued => exact hreads hissued (by rw [hr']; rfl)
  | running hr' hat hissued =>
      rcases step_of_running hs hl hd hr' with ⟨_, turn, e', hturn, hnext⟩ | ⟨_, e', hcancel, rfl⟩
      · simp only [phaseTurn, hm] at hturn
        obtain ⟨l, xs, hturn⟩ := (directStep_cases hturn).directTurn hm hat
        exact hissued.goOn hprecedes hturn hnext
      · obtain ⟨hevents, hexecutions⟩ := cancelPoint_direct hat hcancel
        exact ⟨hissued.logs.congr hevents hexecutions, .inl ⟨.blocked, rfl⟩⟩
  | leaving _ hr' _ _ hissued => exact hreads hissued (by rw [hr']; rfl)
  | reported hr' =>
      rw [hr'] at hr
      cases hr

/-- At no point of a direct phase does the caller have a job to offer. -/
theorem DirectCall.latch? (h : DirectCall start s d phase todo reports e) :
    e.progress.latch? = none := by
  have hpoint {point : Point} {number runs : Nat} (hat : point.IsOf phase number runs) :
      point.latch? = none := by
    cases point with
    | generating | offering | waiting | awaiting => cases hat
    | _ => rfl
  cases h with
  | entering _ hr _ hat | running hr hat =>
      rw [hr]
      exact hpoint hat
  | leaving _ hr | reported hr =>
      rw [hr]
      rfl

/-- One step of the run of a direct phase. -/
theorem Issuing.step (h : Issuing start s d phase todo reports e) (hm : phase.mode = .direct)
    (hstart : Reachable b start) (hprecedes : Precedes start s) (hreachable : Reachable b e)
    (hr : e.progress.isRunning = true) (hs : e.step b label = some next) :
    LogsLeg start d phase (s.numberOf phase) s next ∧
      ((∃ answer, next.progress = .returned answer) ∨
        Issuing start s d phase todo reports next) := by
  obtain ⟨direct, hdriver⟩ := h.driver
  obtain ⟨p, hp, hshared⟩ := h.pool
  obtain ⟨hbusy, hopening⟩ := place_of_isRunning hr
  have hdriver' := step_driver hs hdriver hbusy hopening
  have hcleared := h.cleared.step hreachable hs h.call.latch?
  have hpool : ∃ p, next.pools[d.pool]? = some p ∧ d.tally = p.tally := by
    obtain ⟨p', hp', hfollows⟩ := (step_views hreachable hs).follows hp
    exact ⟨p', hp', hshared.trans hfollows.extended.1.symm⟩
  cases hl : label.ofCaller with
  | false =>
      have htally := h.cleared.tallyAt hreachable hp hshared hs hl
      obtain ⟨hlogs, hcall⟩ := h.call.others hstart (h.cleared.logs hs hl) htally hs hl
      exact ⟨hlogs, .inr ⟨hcleared, hdriver', hpool, hcall⟩⟩
  | true =>
      obtain ⟨hlogs, hreturned | hcall⟩ := h.call.caller hm hprecedes hdriver hr hs hl
      · exact ⟨hlogs, .inl hreturned⟩
      · exact ⟨hlogs, .inr ⟨hcleared, hdriver', hpool, hcall⟩⟩

/-- A direct phase begins. -/
theorem Issuing.begun (hd : s.driver = some d) (hp : s.pools[d.pool]? = some p)
    (hshared : d.tally = p.tally) (hm : phase.mode = .direct) (hcleared : Cleared start d s) :
    Issuing start s d phase todo reports (s.beginPhase d phase todo reports) := by
  have hadds : Adds s (s.beginPhase d phase todo reports) [] [] :=
    .same events_beginPhase executions_beginPhase
  have hissued : Issued start s d phase 0 0 (s.beginPhase d phase todo reports) := by
    refine ⟨.same events_beginPhase executions_beginPhase, ?_, nofun⟩
    rw [hadds.attemptsSince_eq]
    rfl
  have hnumber := s.numberOf_direct hm
  have htally : (s.beginPhase d phase todo reports).tallyAt d.tally = s.tallyAt d.tally := by
    simp only [tallyAt, tallies_beginPhase]
  refine ⟨?_, ⟨d.direct, driver_beginPhase.trans hd⟩, ⟨p, by rwa [pools_beginPhase], hshared⟩, ?_⟩
  · rintro i job ⟨p, hp, hhas⟩
    rw [pools_beginPhase] at hp
    exact hcleared i job ⟨p, hp, hhas⟩
  · cases hdirect : d.direct with
    | some conn =>
        refine .entering (.direct s.directRuns) ?_ htally ?_ hissued
        · rw [beginPhase_of_connected hm hdirect]
        · rw [hnumber]
          refine ⟨rfl, ?_, Nat.zero_le _⟩
          rw [beginPhase_of_connected hm hdirect]
    | none =>
        refine .entering .undialed ?_ htally ?_ hissued
        · rw [beginPhase_of_undialed hm hdirect]
        · rw [hnumber]
          change (s.beginPhase d phase todo reports).directRuns = s.directRuns
          rw [beginPhase_of_undialed hm hdirect]

/-- A direct phase from its beginning until its call goes on or returns. -/
theorem During.issuing (h : During b s e) (hstart : Reachable b start)
    (hprecedes : Precedes start s) (hreachable : Reachable b s) (hd : s.driver = some d)
    (hp : s.pools[d.pool]? = some p) (hshared : d.tally = p.tally)
    (hr : s.progress = .planning (phase :: todo) reports) (hm : phase.mode = .direct)
    (hcleared : Cleared start d s) :
    LogsLeg start d phase (s.numberOf phase) s e ∧
      ((∃ answer, e.progress = .returned answer) ∨ Issuing start s d phase todo reports e) := by
  induction h with
  | begins hs =>
      obtain ⟨d', hd', rfl⟩ := step_of_planned hr hs
      cases hd.symm.trans hd'
      exact ⟨.same events_beginPhase executions_beginPhase,
        .inr (.begun hd hp hshared hm hcleared)⟩
  | step label h hrunning hs ih =>
      exact (ih.2.resolve_left (not_returned_of_isRunning hrunning)).step hm hstart hprecedes
        (h.reachable hreachable) hrunning hs

end Engine

end LoadBench
