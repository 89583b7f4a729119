import LoadBench.Proofs.PhaseMove
import LoadBench.Proofs.Move
import LoadBench.Proofs.Total

/-!
Every step of the engine is one of the moves. The functions of the worker and of the caller are
opened here one by one, those that run a phase through the moves of their own; a change of one of
them changes one lemma.
-/

namespace LoadBench

namespace Engine

variable {b : Backend} {e next : Engine} {i k : Nat}

theorem countDown?_eq_some {latch : Nat} (h : e.countDown? latch = some next) :
    ∃ batch left, e.batches[latch]? = some batch ∧ batch.latch.countDown? = some left ∧
      next = { e with batches := e.batches.set! latch { batch with latch := left } } := by
  simp only [countDown?, Option.bind_eq_bind, Option.bind_eq_some_iff] at h
  obtain ⟨batch, hb, left, hl, h⟩ := h
  cases h
  exact ⟨batch, left, hb, hl, rfl⟩

theorem countDown?_eq_none {latch : Nat} (h : e.countDown? latch = none) (batch : Batch)
    (hb : e.batches[latch]? = some batch) : batch.latch.countDown? = none := by
  simp only [countDown?, Option.bind_eq_bind, Option.bind_eq_none_iff] at h
  exact Option.eq_none_iff_forall_ne_some.mpr fun left hl => nomatch h batch hb left hl

/-- A job that comes to its end, whatever was told to the gate. -/
private theorem proceedJob_move {p : WorkerPool} {w : Worker} {job : Job} {conduct : Conduct}
    (ha : w.activity = .executing job conduct) :
    WorkerMove b e.bare i k p w (e.proceedJob i p k job conduct).bare := by
  have hout : w.activity.outcome? = some (job, conduct.outcome?.getD true) := by
    rw [ha]
    rfl
  cases conduct with
  | succeed | fail fault | panic message | panicAtOnce message => exact .finishes hout
  | stall fault =>
      simp only [proceedJob]
      split
      · exact .finishes hout
      · exact .stalls ha

theorem workerStep_move (h : e.workerStep b i k = some next) :
    ∃ p w, e.pools[i]? = some p ∧ p.workers[k]? = some w ∧
      WorkerMove b e.bare i k p w next.bare := by
  simp only [workerStep, Option.bind_eq_bind, Option.bind_eq_some_iff] at h
  obtain ⟨p, hp, w, hw, h⟩ := h
  refine ⟨p, w, hp, hw, ?_⟩
  cases ha : w.activity with
  | idle =>
      simp only [ha, Option.some.injEq] at h
      subst h
      exact .asks ha
  | queued =>
      simp only [ha, Option.ite_none_right_eq_some, Option.some.injEq] at h
      obtain ⟨hr, rfl⟩ := h
      exact .takesTurn ha hr
  | receiving =>
      simp only [ha, receiveJob] at h
      split at h
      · next hq =>
          cases h
          exact .takes ha hq
      · next hq =>
          cases h
          exact .ends ha hq
      · cases h
  | holding job =>
      simp only [ha, Option.some.injEq] at h
      subst h
      simp only [beginJob, beginExecution]
      split
      · next hc =>
          exact .collapses ha (by rw [show e.bare.executions = e.executions from rfl, hc]; rfl)
      · next hc =>
          obtain ⟨failed, hf⟩ := Conduct.outcome?_eq_some hc
          exact .begins ha hf
  | executing job conduct =>
      simp only [ha, Option.some.injEq] at h
      subst h
      exact proceedJob_move ha
  | stalled job fault =>
      simp only [ha, Option.ite_none_right_eq_some, Option.some.injEq] at h
      obtain ⟨_, rfl⟩ := h
      exact .finishes (by rw [ha]; rfl)
  | finished job failed =>
      cases failed with
      | false =>
          simp only [ha, Option.some.injEq] at h
          subst h
          exact .counts ha
      | true =>
          simp only [ha, Option.some.injEq] at h
          subst h
          exact .tallies ha
  | failing job =>
      simp only [ha, Option.some.injEq] at h
      subst h
      exact .countsFailure ha
  | recorded job =>
      simp only [ha, Option.some.injEq] at h
      subst h
      simp only [completeJob]
      split
      · next e' hl =>
          obtain ⟨batch, left, hb, hlatch, rfl⟩ := countDown?_eq_some hl
          exact .completes ha hb hlatch
      · next hl => exact .misuses ha (countDown?_eq_none (e := e) hl)
  | leaving panicked =>
      simp only [ha, Option.some.injEq] at h
      subst h
      exact .leaves ha
  | ended panicked => simp [ha] at h

theorem note_nil : e.note [] = e := by
  simp [note]

theorem note_note (events events' : List Event) :
    (e.note events).note events' = e.note (events ++ events') := by
  simp [note]

/-- A step of a call that makes no jobs and touches neither pools nor driver. -/
private theorem quiet_note {progress : Progress} (events : List Event)
    (he : ∀ event ∈ events, event.ofJob = false) (hh : e.progress.hand = none)
    (hb : e.progress.plain = true ∨ ∃ answer, progress = .returned answer)
    (ha : progress.plain = true) (ho : progress.opening = e.progress.opening) :
    Quiet e { e.note events with progress } where
  pools := .inl rfl
  tallies := rfl
  batches := rfl
  driver := .inl rfl
  executions := .inl rfl
  events := ⟨events, rfl, he⟩
  hand := hh
  before := hb
  after := ha
  opening := ho

/-- A step of a call that makes no jobs and only moves on. -/
private theorem quiet_move {progress : Progress} (hh : e.progress.hand = none)
    (hb : e.progress.plain = true ∨ ∃ answer, progress = .returned answer)
    (ha : progress.plain = true) (ho : progress.opening = e.progress.opening) :
    CallerMove e { e with progress } := by
  have hq := quiet_note (e := e) [] (by simp) hh hb ha ho
  rw [note_nil] at hq
  exact .quiet hq

/-- A call that is over and had no job in its hand. -/
private theorem over_move (answer : Answer) (hh : e.progress.hand = none)
    (ho : e.progress.opening = none) :
    CallerMove e.bare { e.bare with progress := .returned answer } :=
  quiet_move (e := e.bare) hh (.inr ⟨_, rfl⟩) rfl ho.symm

/-- A call that is answered, or begins, with no job in sight. -/
private theorem rest_move (hr : e.progress.atRest = true) (progress : Progress)
    (ha : progress.plain = true) (ho : progress.opening = none) :
    CallerMove e.bare { e with progress }.bare := by
  cases hp : e.progress with
  | idle =>
      exact quiet_move (e := e.bare) (congrArg Progress.hand hp) (.inl (congrArg Progress.plain hp))
        ha (ho.trans (congrArg Progress.opening hp).symm)
  | returned answer =>
      exact quiet_move (e := e.bare) (congrArg Progress.hand hp) (.inl (congrArg Progress.plain hp))
        ha (ho.trans (congrArg Progress.opening hp).symm)
  | _ => simp [hp, Progress.atRest] at hr

private theorem closeDirect_bare (b : Backend) (e : Engine) (d : Driver) :
    ∃ events, (∀ event ∈ events, Event.ofJob event = false) ∧
      (e.closeDirect b d).2.bare = e.bare.note events := by
  cases hd : d.direct with
  | none => exact ⟨[], by simp, by simp [closeDirect, hd, note_nil]⟩
  | some conn => exact ⟨[.closed conn], by simp [Event.ofJob], by simp [closeDirect, hd]; rfl⟩

private theorem dropDriver_bare (b : Backend) (e : Engine) (d : Driver) :
    ∃ events, (∀ event ∈ events, Event.ofJob event = false) ∧
      (e.dropDriver b d).2.bare =
        { e.bare.note events with pools := e.pools.modify d.pool .close } := by
  obtain ⟨events, he, hbare⟩ :=
    closeDirect_bare b { e with pools := e.pools.modify d.pool WorkerPool.close } d
  exact ⟨events, he, hbare⟩

private theorem closeOutside_bare (b : Backend) (e : Engine) :
    ∃ events answer, (∀ event ∈ events, Event.ofJob event = false) ∧
      (e.closeOutside b).bare = (e.bare.note events).finish answer := by
  have hfold : ∀ (conns : List Nat) (message : Option String) (e : Engine),
      ∃ events message', (∀ event ∈ events, Event.ofJob event = false) ∧
        (fun r => (r.1, bare r.2)) (conns.foldl
          (fun r conn => (r.1.or (closeHeld b r.2 conn).1, (closeHeld b r.2 conn).2))
          (message, e)) = (message', e.bare.note events) := by
    intro conns
    induction conns with
    | nil => exact fun message e => ⟨[], message, by simp, by rw [note_nil]; rfl⟩
    | cons conn conns ih =>
        intro message e
        obtain ⟨events, message', he, hrest⟩ := ih (message.or (b.closePanic conn))
          (e.closeConnection conn)
        refine ⟨.closed conn :: events, message', by simpa [Event.ofJob] using he, ?_⟩
        rw [List.foldl_cons]
        refine hrest.trans ?_
        rw [show (e.closeConnection conn).bare = e.bare.note [.closed conn] from rfl, note_note]
        rfl
  obtain ⟨events, message, he, hrest⟩ := hfold e.outside none e
  have h2 := (Prod.mk.inj hrest).2
  exact ⟨events, _, he, congrArg (finish · _) h2⟩

private theorem beginStart_move (hr : e.progress.atRest = true) (workers capacity : Nat)
    (split : Bool) : CallerMove e.bare (e.beginStart workers capacity split).bare := by
  simp only [beginStart]
  split
  · exact rest_move hr _ rfl rfl
  · next hw =>
      split
      · exact rest_move hr _ rfl rfl
      · next hc =>
          split
          · exact rest_move hr _ rfl rfl
          · split
            · exact rest_move hr _ rfl rfl
            · exact CallerMove.opens (e := e.bare) hr (Nat.pos_of_ne_zero hw)
                (Nat.pos_of_ne_zero hc) split

/-- A driver is let go, with its queue closed before or after its connection. -/
private theorem closes_move (hr : e.progress.atRest = true) {d : Driver}
    (hd : e.driver = some d) {events : List Event} (he : ∀ event ∈ events, event.ofJob = false)
    {e' : Engine} (he' : e'.bare = { e.bare.note events with driver := none })
    {progress : Progress} (hp : (∃ answer, progress = .returned answer) ∨
      progress = .joining d.pool) :
    CallerMove e.bare { e' with pools := e'.pools.modify d.pool .close, progress }.bare := by
  have h := CallerMove.closes (e := e.bare) hd hr he hp
  change CallerMove e.bare
    { e'.bare with pools := e'.bare.pools.modify d.pool .close, progress }
  rw [he']
  rw [show e.bare.driver = some d from hd] at h
  exact h

private theorem beginShutdown_move (hr : e.progress.atRest = true) {d : Driver}
    (hd : e.driver = some d) : CallerMove e.bare (e.beginShutdown b d).bare := by
  obtain ⟨events, he, hbare⟩ := closeDirect_bare b { e with driver := none } d
  simp only [beginShutdown]
  split
  · exact closes_move hr hd he hbare (.inl ⟨_, rfl⟩)
  · exact closes_move hr hd he hbare (.inr rfl)

private theorem beginDrop_move (hr : e.progress.atRest = true) {d : Driver}
    (hd : e.driver = some d) (answer : Answer) :
    CallerMove e.bare (({ e with driver := none }.dropDriver b d).2.finish answer).bare := by
  obtain ⟨events, he, hbare⟩ := dropDriver_bare b { e with driver := none } d
  have h := closes_move hr hd he
    (show ({ e.bare.note events with driver := none } : Engine).bare = _ from rfl)
    (.inl ⟨answer, rfl⟩)
  change CallerMove e.bare
    { ({ e with driver := none }.dropDriver b d).2.bare with progress := .returned answer }
  rw [hbare]
  exact h

theorem begin_move (hr : e.progress.atRest = true) (request : Request) :
    CallerMove e.bare (e.begin b request).bare := by
  cases request with
  | start workers capacity split => exact beginStart_move hr workers capacity split
  | plan phases =>
      simp only [begin]
      split <;> exact rest_move hr _ rfl rfl
  | submit command latch times =>
      simp only [begin]
      split
      · exact rest_move hr _ rfl rfl
      · split
        · next hl => exact .undertakes (e := e.bare) hr hl command times
        · exact rest_move hr _ rfl rfl
  | watch latch =>
      simp only [begin]
      split <;> exact rest_move hr _ rfl rfl
  | acquire =>
      simp only [begin]
      split <;> exact rest_move hr _ rfl rfl
  | shutdown =>
      simp only [begin]
      split
      · next hd => exact beginShutdown_move hr hd
      · exact rest_move hr _ rfl rfl
  | drop =>
      simp only [begin]
      split
      · next hd => exact beginDrop_move hr hd _
      · exact rest_move hr _ rfl rfl
  | closeOutside =>
      obtain ⟨events, answer, he, hbare⟩ := closeOutside_bare b e
      rw [begin, hbare]
      cases hp : e.progress with
      | idle =>
          exact .quiet (quiet_note (e := e.bare) events he (congrArg Progress.hand hp)
            (.inr ⟨answer, rfl⟩) rfl (congrArg Progress.opening hp).symm)
      | returned answer' =>
          exact .quiet (quiet_note (e := e.bare) events he (congrArg Progress.hand hp)
            (.inr ⟨answer, rfl⟩) rfl (congrArg Progress.opening hp).symm)
      | _ => simp [hp, Progress.atRest] at hr

/-- A dial leaves pools, latches and driver alone, whatever becomes of it. -/
private theorem DialMove.bare {dialed : Dialed} (h : DialMove e dialed next) :
    ∃ events, (∀ event ∈ events, Event.ofJob event = false) ∧ next.bare = e.bare.note events := by
  cases h with
  | connects attempts attempt gate => exact ⟨[.dialed _ _], by simp [Event.ofJob], rfl⟩
  | fails attempts attempt hd => exact ⟨[.dialed _ _], by simp [Event.ofJob], rfl⟩
  | parks attempts gate => exact ⟨[], by simp, note_nil.symm⟩

/-- A step of a call that makes no jobs, after a dial or without one. -/
private theorem quiet_after {e' : Engine} {events : List Event}
    (he : ∀ event ∈ events, event.ofJob = false) (he' : e'.bare = e.bare.note events)
    (hpools : next.pools = e'.pools ∨ ∃ pool, next.pools = (e'.countDialed pool).pools)
    (htallies : next.tallies = e'.tallies) (hbatches : next.batches = e'.batches)
    (hdriver : next.driver = e'.driver ∨
      ∃ d direct, e.driver = some d ∧ next.driver = some { d with direct })
    (hexecutions : next.executions = e'.executions ∨
      ∃ x run index, next.executions = e'.executions.push x ∧ x.origin = .direct run index)
    (hevents : ∃ events, next.events = (e'.note events).events ∧
      ∀ event ∈ events, event.ofJob = false)
    (hh : e.progress.hand = none)
    (hb : e.progress.plain = true ∨ ∃ answer, next.progress = .returned answer)
    (ha : next.progress.plain = true) (ho : next.progress.opening = e.progress.opening) :
    CallerMove e.bare next.bare := by
  obtain ⟨events', hevents, hnew⟩ := hevents
  refine .quiet {
    pools := ?_, tallies := ?_, batches := ?_, driver := ?_, executions := ?_, events := ?_,
    hand := hh, before := hb, after := ha, opening := ho }
  · have hsame := congrArg pools he'
    change e'.pools = e.pools at hsame
    simp only [countDialed, hsame] at hpools
    exact hpools
  · exact htallies.trans (congrArg tallies he' :)
  · exact hbatches.trans (congrArg batches he' :)
  · rcases hdriver with h | h
    · exact .inl (h.trans (congrArg driver he' :))
    · exact .inr h
  · have hsame := congrArg executions he'
    change e'.executions = e.executions at hsame
    rw [hsame] at hexecutions
    exact hexecutions
  · have hsame := congrArg Engine.events he'
    change e'.events = (e.note events).events at hsame
    refine ⟨events ++ events', ?_, ?_⟩
    · change next.events = (e.bare.note (events ++ events')).events
      rw [← note_note, hevents]
      simp only [note, hsame]
      rfl
    · intro event hmem
      rcases List.mem_append.mp hmem with h | h
      · exact he event h
      · exact hnew event h

private theorem completeStart_move {pool workers : Nat} {split : Bool} {p : WorkerPool}
    (hr : e.progress = .starting pool workers split false) (hp : e.pools[pool]? = some p)
    (hw : p.workers.size = workers) : CallerMove e.bare (e.completeStart b pool p split).bare := by
  simp only [completeStart]
  split
  · next d hd =>
      obtain ⟨events, he, hbare⟩ := dropDriver_bare b
        ((e.setPool pool p.dropReceiver).tell (.started p.workers.size p.queue.capacity)) d
      have h := CallerMove.starts (e := e.bare) hr hp hw he
        (.started p.workers.size p.queue.capacity)
      rw [show e.bare.driver = some d from hd] at h
      change CallerMove e.bare (finish { bare (dropDriver b _ d).2 with driver := some _ } _)
      rw [hbare]
      exact h
  · next hd =>
      have hnone : ∀ event ∈ [], Event.ofJob event = false := by simp
      have h := CallerMove.starts (e := e.bare) hr hp hw hnone
        (.started p.workers.size p.queue.capacity)
      rw [note_nil, show e.bare.driver = none from hd] at h
      exact h

private theorem startStep_move {pool workers : Nat} {split stalled : Bool}
    (hr : e.progress = .starting pool workers split stalled)
    (h : e.startStep b pool workers split stalled = some next) :
    CallerMove e.bare next.bare := by
  simp only [startStep, Option.bind_eq_bind, Option.bind_eq_some_iff] at h
  obtain ⟨p, hp, h⟩ := h
  split at h
  · next hdone =>
      simp only [Bool.and_eq_true, Bool.not_eq_true', beq_iff_eq] at hdone
      obtain ⟨rfl, hw⟩ := hdone
      cases h
      exact completeStart_move hr hp hw
  · simp only [Option.bind_eq_some_iff] at h
    obtain ⟨⟨dialed, e'⟩, hd, h⟩ := h
    obtain ⟨events, he, hbare⟩ := (dialStep_cases hd).bare
    cases dialed with
    | connected conn =>
        cases h
        have h := CallerMove.spawns (e := e.bare) hr hp he conn
        rw [← hbare] at h
        have hpools := congrArg pools hbare
        change e'.pools = e.pools at hpools
        have hp' : e'.pools[pool]? = some p := hpools ▸ hp
        have hset := modify_modify_eq_set (fun p => { p with dialed := p.dialed + 1 })
          (·.spawn conn) hp'
        change CallerMove e.bare { e'.bare with
          pools := (e'.pools.modify pool fun p => { p with dialed := p.dialed + 1 }).modify pool
            (·.spawn conn)
          progress := .starting pool workers split false }
        rw [hset]
        exact h
    | parked =>
        cases h
        exact quiet_after he hbare (.inl rfl) rfl rfl (.inl rfl) (.inl rfl)
          ⟨[], by simp [note_nil], by simp⟩ (by rw [hr]; rfl) (.inl (by rw [hr]; rfl)) rfl
          (by rw [hr]; rfl)
    | failed fault =>
        cases h
        have h := CallerMove.abandons (e := e.bare) hr he (.fault fault)
        rw [← hbare] at h
        exact h
    | panicked message =>
        cases h
        have h := CallerMove.abandons (e := e.bare) hr he (.panic message)
        rw [← hbare] at h
        exact h

private theorem acquireStep_move {d : Driver} {stalled : Bool}
    (hr : e.progress = .acquiring stalled) (h : e.acquireStep b d stalled = some next) :
    CallerMove e.bare next.bare := by
  simp only [acquireStep, Option.bind_eq_bind, Option.bind_eq_some_iff] at h
  obtain ⟨⟨dialed, e'⟩, hd, h⟩ := h
  obtain ⟨events, he, hbare⟩ := (dialStep_cases hd).bare
  have hh : e.progress.hand = none := by rw [hr]; rfl
  have hb : e.progress.plain = true := by rw [hr]; rfl
  have ho : e.progress.opening = none := by rw [hr]; rfl
  have hnone : ∃ events, e'.events = (e'.note events).events ∧
      ∀ event ∈ events, event.ofJob = false := ⟨[], by simp [note_nil], by simp⟩
  cases dialed with
  | connected conn =>
      cases h
      exact quiet_after he hbare (.inr ⟨d.pool, rfl⟩) rfl rfl (.inl rfl) (.inl rfl) hnone hh
        (.inl hb) rfl ho.symm
  | parked | failed fault | panicked message =>
      cases h
      exact quiet_after he hbare (.inl rfl) rfl rfl (.inl rfl) (.inl rfl) hnone hh
        (.inl hb) rfl ho.symm

section Phases

variable {d : Driver} {phase : Phase} {before : Tally} {todo : List Phase}
  {reports : List PhaseCount}

/-- How a call goes on with a phase after one of the phase's steps. -/
def goOn (e : Engine) (run : PhaseRun) (todo : List Phase)
    (reports : List PhaseCount) : Turn → Engine
  | .to point => { e with progress := .running { run with point } todo reports }
  | .done => { e with progress := .leaving run.phase run.before none todo reports }
  | .fault fault => e.finish (.fault fault)
  | .panic message => e.finish (.panic message)

private theorem PooledMove.move (hd : e.driver = some d) (hm : phase.mode = .pooled)
    {before : Tally} {point : Point}
    (hr : e.progress = .running ⟨phase, before, point⟩ todo reports)
    {turn : Turn} {e' : Engine} (h : PooledMove e d phase point turn e') :
    CallerMove e.bare (e'.goOn ⟨phase, before, point⟩ todo reports turn).bare := by
  have hbare : e.bare.progress = .running ⟨phase, before, point⟩ todo reports := hr
  have hput {p : WorkerPool} (hp : e.pools[d.pool]? = some p) (queue : JobQueue Job Unit Nat) :
      e.putQueue d.pool queue = e.setPool d.pool { p with queue } := by
    rw [putQueue, modify_eq_set _ hp]
    rfl
  have hoffers {latch index : Nat} {job : Job} {waits : Bool}
      (hpoint : point.Offers latch index job waits) :
      e.bare.progress.hand = some (job, waits) ∧ e.bare.progress.accepted =
        .running ⟨phase, before, .generating latch (index + 1)⟩ todo reports := by
    rw [hbare]
    cases waits <;> cases hpoint <;> exact ⟨rfl, rfl⟩
  cases h with
  | generates hlt hg => exact .generates (e := e.bare) hbare hm hlt hg
  | stumbles hlt hg =>
      exact quiet_move (by rw [hbare]; rfl) (.inr ⟨_, rfl⟩) rfl (by rw [hbare]; rfl)
  | awaits hle => exact .awaits (e := e.bare) hbare hm hle
  | accepts hpoint hp hq =>
      obtain ⟨hh, haccepted⟩ := hoffers hpoint
      have hmove := CallerMove.accepts (e := e.bare) hd hp hh hq
      rw [haccepted] at hmove
      rw [hput hp]
      exact hmove
  | parks hp hq =>
      have hmove := CallerMove.parks (e := e.bare) hd hp (by rw [hbare]; rfl) hq
      rw [hbare] at hmove
      rw [hput hp]
      exact hmove
  | drops hpoint hp hq =>
      rw [hput hp]
      exact .drops (e := e.bare) hd hp (hoffers hpoint).1 hq _
  | returns hl => exact .returns (e := e.bare) hbare hm hl

/-- A step of a direct phase. It may dial, execute on the driver's own connection, or only move
on. -/
private theorem direct_move (events : List Event) (e₁ : Engine) {run : PhaseRun}
    (hr : e.progress = .running run todo reports) (hpoint : run.point.pooled = false)
    {turn : Turn} {e' : Engine}
    (he : ∀ event ∈ events, event.ofJob = false) (he₁ : e₁.bare = e.bare.note events)
    (hpools : e'.pools = e₁.pools ∨ ∃ pool, e'.pools = (e₁.countDialed pool).pools)
    (htallies : e'.tallies = e₁.tallies) (hbatches : e'.batches = e₁.batches)
    (hdriver : e'.driver = e₁.driver ∨
      ∃ d direct, e.driver = some d ∧ e'.driver = some { d with direct })
    (hexecutions : e'.executions = e₁.executions ∨
      ∃ x run index, e'.executions = e₁.executions.push x ∧ x.origin = .direct run index)
    (hevents : ∃ events, e'.events = (e₁.note events).events ∧
      ∀ event ∈ events, event.ofJob = false)
    (hturn : ∀ point, turn = .to point → point.pooled = false) :
    CallerMove e.bare (e'.goOn run todo reports turn).bare := by
  have hh : e.progress.hand = none := by
    rw [hr]
    obtain ⟨phase, before, point⟩ := run
    cases point <;> first | rfl | cases hpoint
  have hb : e.progress.plain = true := by
    rw [hr]
    simpa [Progress.plain] using hpoint
  have ho : e.progress.opening = none := by rw [hr]; rfl
  rcases turn with point | _ | fault | message
  · exact quiet_after he he₁ hpools htallies hbatches hdriver hexecutions hevents hh (.inl hb)
      (by simpa [goOn, Progress.plain] using hturn point rfl) ho.symm
  · exact quiet_after he he₁ hpools htallies hbatches hdriver hexecutions hevents hh (.inl hb) rfl
      ho.symm
  · exact quiet_after he he₁ hpools htallies hbatches hdriver hexecutions hevents hh (.inl hb) rfl
      ho.symm
  · exact quiet_after he he₁ hpools htallies hbatches hdriver hexecutions hevents hh (.inl hb) rfl
      ho.symm

/-- A step of a direct phase that only moves on, with something for the record. -/
private theorem direct_note (events : List Event) {run : PhaseRun}
    (hr : e.progress = .running run todo reports) (hpoint : run.point.pooled = false)
    {turn : Turn} {e' : Engine}
    (he : ∀ event ∈ events, event.ofJob = false) (he' : e'.bare = e.bare.note events)
    (hturn : ∀ point, turn = .to point → point.pooled = false) :
    CallerMove e.bare (e'.goOn run todo reports turn).bare :=
  direct_move events e' hr hpoint he he' (.inl rfl) rfl rfl (.inl rfl) (.inl rfl)
    ⟨[], by rw [note_nil], by simp⟩ hturn

private theorem finishDirect_bare (e : Engine) (number index : Nat) (fault : Option Fault) :
    (e.finishDirect number index fault).2.bare =
      e.bare.note [.finished (.direct number index) fault.isSome] := by
  cases fault <;> rfl

/-- A dial for the driver's own connection. -/
private theorem directDialed_move (hd : e.driver = some d) {run : PhaseRun}
    (hr : e.progress = .running run todo reports) (hpoint : run.point.pooled = false)
    {dialed : Dialed} {e' : Engine} (h : DialMove e dialed e') :
    CallerMove e.bare
      ((e'.directDialed d dialed).2.goOn run todo reports
        (e'.directDialed d dialed).1).bare := by
  obtain ⟨events, he, hbare⟩ := h.bare
  cases dialed with
  | connected conn =>
      exact direct_move events e' hr hpoint he hbare (.inr ⟨d.pool, rfl⟩) rfl rfl
        (.inr ⟨d, _, hd, rfl⟩) (.inl rfl) ⟨[], by rw [note_nil]; rfl, by simp⟩
        (fun point hpoint => by cases hpoint; rfl)
  | parked =>
      exact direct_note _ hr hpoint he hbare (fun point hpoint => by cases hpoint; rfl)
  | failed fault => exact direct_note _ hr hpoint he hbare (fun point hpoint => by cases hpoint)
  | panicked message => exact direct_note _ hr hpoint he hbare (fun point hpoint => by cases hpoint)

private theorem DirectMove.move (hd : e.driver = some d) {before : Tally} {point : Point}
    (hr : e.progress = .running ⟨phase, before, point⟩ todo reports) {turn : Turn} {e' : Engine}
    (h : DirectMove b e d phase point turn e') :
    CallerMove e.bare (e'.goOn ⟨phase, before, point⟩ todo reports turn).bare := by
  cases h with
  | dials hp h ht =>
      have hpooled : point.pooled = false := by rcases hp with rfl | rfl <;> rfl
      have hm := directDialed_move hd hr hpooled h
      rwa [ht] at hm
  | @generates number index command hlt hg =>
      exact direct_note [.generated (.direct number index)] hr rfl (by simp [Event.ofJob]) rfl
        (fun point hpoint => by cases hpoint; rfl)
  | stumbles hg =>
      exact direct_note [] hr rfl (by simp) note_nil.symm (fun point hpoint => by cases hpoint)
  | ends hle =>
      exact direct_note [] hr rfl (by simp) note_nil.symm (fun point hpoint => by cases hpoint)
  | @begins number index conn command turn hconn ht =>
      refine direct_move [] e hr rfl (by simp) note_nil.symm (.inl rfl) rfl rfl (.inl rfl)
        (.inr ⟨_, number, index, rfl, rfl⟩)
        ⟨[.begun (.direct number index) conn], rfl, by simp [Event.ofJob]⟩ ?_
      rcases ht with ⟨conduct, rfl⟩ | ⟨message, rfl⟩
      · exact fun point hpoint => by cases hpoint; rfl
      · exact fun point hpoint => by cases hpoint
  | collapses message =>
      exact direct_note [] hr rfl (by simp) note_nil.symm (fun point hpoint => by cases hpoint)
  | stalls fault gate =>
      exact direct_note [] hr rfl (by simp) note_nil.symm
        (fun point hpoint => by cases hpoint; rfl)
  | @finishes number index point fault gate hp =>
      have hpooled : point.pooled = false := by rcases hp with ⟨_, rfl⟩ | ⟨_, rfl⟩ <;> rfl
      exact direct_note _ hr hpooled (by simp [Event.ofJob])
        (finishDirect_bare { e with gate } number index fault)
        (fun point hpoint => by cases hpoint; rfl)
  | counts => exact .countsDirect (e := e.bare) hd hr
  | tallies => exact .talliesDirect (e := e.bare) hd hr
  | countsFailure => exact .countsDirectFailure (e := e.bare) hd hr

private theorem phaseStep_move (hd : e.driver = some d) {run : PhaseRun}
    (hr : e.progress = .running run todo reports)
    (h : e.phaseStep b d run todo reports = some next) : CallerMove e.bare next.bare := by
  have hgoes {turn : Turn} {e' : Engine} (h : pure (match turn with
      | .to point => { e' with progress := .running { run with point } todo reports }
      | .done => { e' with progress := .leaving run.phase run.before none todo reports }
      | .fault fault => e'.finish (.fault fault)
      | .panic message => e'.finish (.panic message)) = some next) :
      next = e'.goOn run todo reports turn := by
    cases turn <;> cases h <;> rfl
  cases hm : run.phase.mode with
  | pooled =>
      simp only [phaseStep, hm, Option.bind_eq_bind, Option.bind_eq_some_iff] at h
      obtain ⟨⟨turn, e'⟩, hstep, h⟩ := h
      rw [hgoes h]
      exact (pooledStep_cases hstep).move hd hm hr
  | direct =>
      simp only [phaseStep, hm, Option.bind_eq_bind, Option.bind_eq_some_iff] at h
      obtain ⟨⟨turn, e'⟩, hstep, h⟩ := h
      rw [hgoes h]
      exact (directStep_cases hstep).move hd hr

private theorem beginPhase_move (hd : e.driver = some d)
    (hr : e.progress = .planning (phase :: todo) reports) :
    CallerMove e.bare (e.beginPhase d phase todo reports).bare := by
  have hh : e.bare.progress.hand = none := by rw [show e.bare.progress = _ from hr]; rfl
  have hb : e.bare.progress.plain = true := by rw [show e.bare.progress = _ from hr]; rfl
  have ho : e.bare.progress.opening = none := by rw [show e.bare.progress = _ from hr]; rfl
  simp only [beginPhase]
  split
  · next hm => exact .beginsPhase (e := e.bare) hd hr hm
  · split
    · exact quiet_move (e := e.bare) hh (.inl hb) rfl ho.symm
    · exact quiet_move (e := e.bare) hh (.inl hb) rfl ho.symm

/-- A counter is read at the end of a phase. -/
private theorem leaving_move {executed : Option Nat} {progress : Progress}
    (hr : e.progress = .leaving phase before executed todo reports)
    (ha : progress.plain = true) (ho : progress.opening = none) :
    CallerMove e.bare { e.bare with progress } :=
  quiet_move (e := e.bare) (congrArg Progress.hand hr) (.inl (congrArg Progress.plain hr)) ha
    (ho.trans (congrArg Progress.opening hr).symm)

end Phases

private theorem submitStep_move {d : Driver} (hd : e.driver = some d) {s : Submission}
    (hr : e.progress = .submitting s) (h : e.submitStep d s = some next) :
    CallerMove e.bare next.bare := by
  simp only [submitStep, Option.bind_eq_bind, Option.bind_eq_some_iff] at h
  obtain ⟨p, hp, h⟩ := h
  have hput (e' : Engine) (hsame : e'.pools = e.pools) (queue : JobQueue Job Unit Nat) :
      e'.putQueue d.pool queue = e'.setPool d.pool { p with queue } := by
    rw [putQueue, modify_eq_set _ (hsame ▸ hp)]
    rfl
  split at h
  · next job hw =>
      have hh := Progress.hand_of_waiting hr hw
      split at h
      · cases h
      · next hready =>
          rw [Bool.not_eq_true', Bool.not_eq_false] at hready
          have hparked := JobQueue.reoffer_ne_parked hready job
          rcases hq : p.queue.reoffer () job with ⟨admission, queue⟩
          have henter : p.queue.enter true job = (admission, queue) := hq
          simp only [hq, hput e rfl] at h hparked
          cases admission with
          | taken =>
              cases h
              have hm := CallerMove.accepts (e := e.bare) hd hp hh henter
              rw [show e.bare.progress = _ from hr] at hm
              exact hm
          | parked => exact absurd rfl hparked
          | refused =>
              cases h
              exact .drops (e := e.bare) hd hp hh henter _
  · next hw =>
      split at h
      · cases h
        have hh := Progress.hand_of_submitting hr hw
        exact over_move _ hh (congrArg Progress.opening hr)
      · next left hl =>
          rcases hq : p.queue.offer () (e.newJob s.latch s.command).1 with ⟨admission, queue⟩
          simp only [hq, hput (e.newJob s.latch s.command).2 rfl] at h
          cases admission with
          | taken =>
              cases h
              exact .submits (e := e.bare) hd hp hr hw hl hq
          | parked =>
              cases h
              exact .submitsParked (e := e.bare) hd hp hr hw hl hq
          | refused =>
              cases h
              exact .submitsDropped (e := e.bare) hd hp hr hw hl hq _

/-- What a step of the caller's is, by the call that is going on. -/
inductive CallerTurn (b : Backend) (e next : Engine) : Prop
  | starts {pool workers : Nat} {split stalled : Bool}
      (hr : e.progress = .starting pool workers split stalled)
      (hs : e.startStep b pool workers split stalled = some next)
  | reports {reports : List PhaseCount} (hr : e.progress = .planning [] reports)
      (hn : next = e.finish (.reports reports))
  | begins {d : Driver} {phase : Phase} {todo : List Phase} {reports : List PhaseCount}
      (hd : e.driver = some d) (hr : e.progress = .planning (phase :: todo) reports)
      (hn : next = e.beginPhase d phase todo reports)
  | enters {d : Driver} {phase : Phase} {executed : Nat} {entry : PhaseEntry}
      {todo : List Phase} {reports : List PhaseCount} (hd : e.driver = some d)
      (hr : e.progress = .entering phase executed entry todo reports)
      (hn : next = e.enterPhase d phase executed entry todo reports)
  | runs {d : Driver} {run : PhaseRun} {todo : List Phase} {reports : List PhaseCount}
      (hd : e.driver = some d) (hr : e.progress = .running run todo reports)
      (hs : e.phaseStep b d run todo reports = some next)
  | leaves {d : Driver} {phase : Phase} {before : Tally} {todo : List Phase}
      {reports : List PhaseCount} (hd : e.driver = some d)
      (hr : e.progress = .leaving phase before none todo reports)
      (hn : next = e.leavePhase d phase before todo reports)
  | completes {d : Driver} {phase : Phase} {before : Tally} {executed : Nat} {todo : List Phase}
      {reports : List PhaseCount} (hd : e.driver = some d)
      (hr : e.progress = .leaving phase before (some executed) todo reports)
      (hn : next = e.completePhase d phase before executed todo reports)
  | submits {d : Driver} {s : Submission} (hd : e.driver = some d)
      (hr : e.progress = .submitting s) (hs : e.submitStep d s = some next)
  | watches {latch : Nat} (hr : e.progress = .watching latch) (hl : e.isReleased latch = true)
      (hn : next = e.finish .released)
  | acquires {d : Driver} {stalled : Bool} (hd : e.driver = some d)
      (hr : e.progress = .acquiring stalled) (hs : e.acquireStep b d stalled = some next)
  | joins {pool : Nat} {p : WorkerPool} {answer : Answer} (hr : e.progress = .joining pool)
      (hp : e.pools[pool]? = some p) (ha : p.allEnded = true)
      (hn : next = (e.tell .shutDown).finish answer)

theorem callerStep_cases (h : e.callerStep b = some next) : CallerTurn b e next := by
  cases hr : e.progress with
  | idle | returned answer => simp [callerStep, hr] at h
  | starting pool workers split stalled =>
      simp only [callerStep, hr] at h
      exact .starts hr h
  | planning todo reports =>
      cases todo with
      | nil =>
          simp only [callerStep, hr, Option.some.injEq] at h
          exact .reports hr h.symm
      | cons phase todo =>
          simp only [callerStep, hr, Option.map_eq_some_iff] at h
          obtain ⟨d, hd, h⟩ := h
          exact .begins hd hr h.symm
  | entering phase executed entry todo reports =>
      simp only [callerStep, hr, Option.map_eq_some_iff] at h
      obtain ⟨d, hd, h⟩ := h
      exact .enters hd hr h.symm
  | running run todo reports =>
      simp only [callerStep, hr, Option.bind_eq_some_iff] at h
      obtain ⟨d, hd, h⟩ := h
      exact .runs hd hr h
  | leaving phase before executed todo reports =>
      cases executed with
      | none =>
          simp only [callerStep, hr, Option.map_eq_some_iff] at h
          obtain ⟨d, hd, h⟩ := h
          exact .leaves hd hr h.symm
      | some executed =>
          simp only [callerStep, hr, Option.map_eq_some_iff] at h
          obtain ⟨d, hd, h⟩ := h
          exact .completes hd hr h.symm
  | submitting s =>
      simp only [callerStep, hr, Option.bind_eq_some_iff] at h
      obtain ⟨d, hd, h⟩ := h
      exact .submits hd hr h
  | watching latch =>
      simp only [callerStep, hr, Option.ite_none_right_eq_some, Option.some.injEq] at h
      exact .watches hr h.1 h.2.symm
  | acquiring stalled =>
      simp only [callerStep, hr, Option.bind_eq_some_iff] at h
      obtain ⟨d, hd, h⟩ := h
      exact .acquires hd hr h
  | joining pool =>
      simp only [callerStep, hr, joinStep, Option.bind_eq_bind, Option.bind_eq_some_iff,
        Option.ite_none_right_eq_some] at h
      obtain ⟨p, hp, ha, h⟩ := h
      cases h
      exact .joins hr hp ha rfl

private theorem callerStep_move (h : e.callerStep b = some next) : CallerMove e.bare next.bare := by
  cases callerStep_cases h with
  | starts hr hs => exact startStep_move hr hs
  | reports hr hn =>
      rw [hn]
      exact over_move _ (congrArg Progress.hand hr) (congrArg Progress.opening hr)
  | begins hd hr hn =>
      rw [hn]
      exact beginPhase_move hd hr
  | enters hd hr hn =>
      rw [hn]
      exact .entersPhase (e := e.bare) hd hr
  | runs hd hr hs => exact phaseStep_move hd hr hs
  | leaves hd hr hn =>
      rw [hn]
      exact leaving_move hr rfl rfl
  | completes hd hr hn =>
      rw [hn]
      simp only [completePhase]
      split <;> exact leaving_move hr rfl rfl
  | submits hd hr hs => exact submitStep_move hd hr hs
  | watches hr hl hn =>
      rw [hn]
      exact over_move _ (congrArg Progress.hand hr) (congrArg Progress.opening hr)
  | acquires hd hr hs => exact acquireStep_move hr hs
  | joins hr hp ha hn =>
      rw [hn]
      exact over_move _ (congrArg Progress.hand hr) (congrArg Progress.opening hr)

private theorem withdraws_move {job : Job} (hh : e.progress.hand = some (job, true))
    (answer : Answer) : CallerMove e.bare ((e.withdrawJob job).finish answer).bare := by
  have h := CallerMove.withdraws (e := e.bare) hh answer
  have hsame : e.withdrawJob job =
      { e with pools := withdrawDriven e.pools e.driver }.record (.lost job.latch job.index) := by
    obtain ⟨_, _, _, driver, _⟩ := e
    cases driver <;> rfl
  rw [hsame]
  exact h

private theorem cancel_move (h : e.cancel = some next) : CallerMove e.bare next.bare := by
  simp only [cancel] at h
  split at h
  · next pool workers split hr =>
      cases h
      have hnone : ∀ event ∈ [], Event.ofJob event = false := by simp
      have h := CallerMove.abandons (e := e.bare) hr hnone .blocked
      rw [note_nil] at h
      exact h
  · next run todo reports hr =>
      obtain ⟨phase, before, point⟩ := run
      have hleave (e' : Engine) (he' : e'.bare = e.bare) (hh : e.progress.hand = none) :
          CallerMove e.bare (e'.finish .blocked).bare := by
        change CallerMove e.bare (e'.bare.finish .blocked)
        rw [he']
        exact over_move _ hh (congrArg Progress.opening hr)
      simp only [Option.map_eq_some_iff] at h
      obtain ⟨e', hpoint, rfl⟩ := h
      cases point with
      | offering latch index job =>
          cases hpoint
          exact .forgets (e := e.bare) (congrArg Progress.hand hr) .blocked
      | waiting latch index job =>
          cases hpoint
          exact withdraws_move (congrArg Progress.hand hr) .blocked
      | awaiting latch | dialing | stalled number index fault =>
          cases hpoint
          exact hleave _ rfl (congrArg Progress.hand hr)
      | _ => simp [cancelPoint] at hpoint
  · next s hr =>
      cases h
      split
      · next job hw => exact withdraws_move (Progress.hand_of_waiting hr hw) _
      · next hw =>
          have hh := Progress.hand_of_submitting hr hw
          exact over_move _ hh (congrArg Progress.opening hr)
  · next latch hr =>
      cases h
      exact over_move _ (congrArg Progress.hand hr) (congrArg Progress.opening hr)
  · next pool hr =>
      cases h
      exact over_move _ (congrArg Progress.hand hr) (congrArg Progress.opening hr)
  · next hr =>
      cases h
      exact over_move _ (congrArg Progress.hand hr) (congrArg Progress.opening hr)
  · cases h

/-- A call that reads a counter leaves everything else as it is, and it cannot be given up there. -/
theorem step_of_reads {label : Label} (hr : e.progress.reads = true) (hl : label.ofCaller = true)
    (hs : e.step b label = some next) :
    label = .act .caller ∧ ∃ d notices, e.driver = some d ∧
      next = { e with notices, progress := e.progress.afterRead (e.load d.tally) } := by
  have hbusy : e.progress.atRest = false := by
    cases hp : e.progress <;> simp [hp, Progress.reads] at hr <;> rfl
  cases label with
  | act actor =>
      cases actor with
      | worker i k => cases hl
      | caller =>
          refine ⟨rfl, ?_⟩
          cases callerStep_cases hs with
          | enters hd hp hn =>
              rw [hn, hp]
              exact ⟨_, e.notices, hd, rfl⟩
          | leaves hd hp hn =>
              rw [hn, hp]
              exact ⟨_, e.notices, hd, rfl⟩
          | completes hd hp hn =>
              rw [hn, hp]
              simp only [completePhase]
              split <;> exact ⟨_, _, hd, rfl⟩
          | starts hp | reports hp | begins _ hp | runs _ hp | submits _ hp | watches hp
          | acquires _ hp | joins hp =>
              rw [hp] at hr
              cases hr
  | call request => simp [step, hbusy] at hs
  | cancel =>
      cases hp : e.progress with
      | entering phase executed entry todo reports => simp [step, cancel, hp] at hs
      | leaving phase before executed todo reports => simp [step, cancel, hp] at hs
      | _ => simp [hp, Progress.reads] at hr
  | release permits | newLatch jobs => cases hl

/-- A call that reads a counter can go on. -/
theorem exists_step_of_reads {d : Driver} (hd : e.driver = some d) (hr : e.progress.reads = true) :
    ∃ next, e.step b (.act .caller) = some next := by
  change ∃ next, e.callerStep b = some next
  cases hp : e.progress with
  | entering phase executed entry todo reports => simp [callerStep, hp, hd]
  | leaving phase before executed todo reports => cases executed <;> simp [callerStep, hp, hd]
  | _ =>
      rw [hp] at hr
      cases hr

/-- Whatever happens next is one of the moves. -/
theorem step_move {label : Label} (h : e.step b label = some next) :
    Move b e.bare label next.bare := by
  cases label with
  | act actor =>
      cases actor with
      | caller => exact .caller rfl (callerStep_move h)
      | worker i k =>
          obtain ⟨p, w, hp, hw, hm⟩ := workerStep_move h
          exact .worker (e := e.bare) hp hw hm
  | call request =>
      simp only [step, Option.ite_none_right_eq_some, Option.some.injEq] at h
      obtain ⟨hr, rfl⟩ := h
      exact .caller rfl (begin_move hr request)
  | cancel => exact .caller rfl (cancel_move h)
  | release permits =>
      cases h
      exact .stay permits
  | newLatch jobs =>
      cases h
      exact .latch jobs

end Engine

end LoadBench
