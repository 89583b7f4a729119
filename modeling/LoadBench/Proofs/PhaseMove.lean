import LoadBench.Engine.Caller
import LoadBench.Proofs.QueueSteps

/-!
What one step of a phase can do, said once, and what a dial can come to, whoever makes it. What is
proved of the run of a phase is proved of the moves below.
-/

namespace LoadBench

/-- A point at which a job of a phase is offered, for the first time or from among those that
wait. -/
def Point.Offers (point : Point) (latch index : Nat) (job : Job) : Bool → Prop
  | false => point = .offering latch index job
  | true => point = .waiting latch index job

namespace Engine

/-- What a dial that begins or goes on comes to. -/
inductive DialMove (e : Engine) : Dialed → Engine → Prop
  | connects (attempts attempt : Nat) (gate : FairSemaphore Actor) :
      DialMove e (({ e with dialAttempts := attempts, gate } : Engine).connect attempt).1
        (({ e with dialAttempts := attempts, gate } : Engine).connect attempt).2
  | fails {dialed : Dialed} (attempts attempt : Nat)
      (hd : (∃ fault, dialed = .failed fault) ∨ ∃ message, dialed = .panicked message) :
      DialMove e dialed
        (({ e with dialAttempts := attempts } : Engine).record (.dialed attempt none))
  | parks (attempts : Nat) (gate : FairSemaphore Actor) :
      DialMove e .parked { e with dialAttempts := attempts, gate }

/-- A step of a direct phase: the phase dials, or takes one command from its index to its count. -/
inductive DirectMove (b : Backend) (e : Engine) (d : Driver) (phase : Phase) :
    Point → Turn → Engine → Prop
  | dials {point : Point} {turn : Turn} {dialed : Dialed} {e' next : Engine}
      (hp : point = .connecting ∨ point = .dialing) (h : DialMove e dialed e')
      (ht : e'.directDialed d dialed = (turn, next)) : DirectMove b e d phase point turn next
  | generates {run index : Nat} {command : Command} (hlt : index < phase.iterations)
      (hg : phase.generate index = .ok command) :
      DirectMove b e d phase (.preparing run index) (.to (.issuing run index command))
        (e.record (.generated (.direct run index)))
  | stumbles {run index : Nat} {message : String} (hg : phase.generate index = .error message) :
      DirectMove b e d phase (.preparing run index) (.panic message) e
  | ends {run index : Nat} (hle : phase.iterations ≤ index) :
      DirectMove b e d phase (.preparing run index) .done (e.tell (.stageChanged .executing .done))
  | begins {run index conn : Nat} {command : Command} {turn : Turn} (hd : d.direct = some conn)
      (ht : (∃ conduct, turn = .to (.executing run index conduct)) ∨
        ∃ message, turn = .panic message) :
      DirectMove b e d phase (.issuing run index command) turn
        (e.beginExecution b conn command (.direct run index)).2
  | collapses {run index : Nat} {conduct : Conduct} (message : String) :
      DirectMove b e d phase (.executing run index conduct) (.panic message) e
  | stalls {run index : Nat} {conduct : Conduct} (fault : Option Fault)
      (gate : FairSemaphore Actor) :
      DirectMove b e d phase (.executing run index conduct) (.to (.stalled run index fault))
        { e with gate }
  | finishes {run index : Nat} {point : Point} (fault : Option Fault) (gate : FairSemaphore Actor)
      (hp : (∃ conduct, point = .executing run index conduct) ∨
        ∃ fault, point = .stalled run index fault) :
      DirectMove b e d phase point (.to (.finished run index fault.isSome))
        (({ e with gate } : Engine).finishDirect run index fault).2
  | counts {run index : Nat} :
      DirectMove b e d phase (.finished run index false) (.to (.preparing run (index + 1)))
        ((e.countExecution d.tally (.direct run index)).record (.counted (.direct run index) false))
  | tallies {run index : Nat} :
      DirectMove b e d phase (.finished run index true) (.to (.failing run index))
        (e.countExecution d.tally (.direct run index))
  | countsFailure {run index : Nat} :
      DirectMove b e d phase (.failing run index) (.to (.preparing run (index + 1)))
        (e.countFailure d.tally (.direct run index))

/-- A step of a pooled phase: it generates a command, its job is offered until it is accepted or
turned away, and in the end it waits for its latch. -/
inductive PooledMove (e : Engine) (d : Driver) (phase : Phase) : Point → Turn → Engine → Prop
  | generates {latch index : Nat} {command : Command} (hlt : index < phase.iterations)
      (hg : phase.generate index = .ok command) :
      PooledMove e d phase (.generating latch index)
        (.to (.offering latch index (e.newJob latch command).1))
        ((e.newJob latch command).2.record (.generated (.job latch index)))
  | stumbles {latch index : Nat} {message : String} (hlt : index < phase.iterations)
      (hg : phase.generate index = .error message) :
      PooledMove e d phase (.generating latch index) (.panic message) e
  | awaits {latch index : Nat} (hle : phase.iterations ≤ index) :
      PooledMove e d phase (.generating latch index) (.to (.awaiting latch))
        (e.tell (.stageChanged .generating .awaitingCompletion))
  | accepts {point : Point} {p : WorkerPool} {latch index : Nat} {job : Job} {waits : Bool}
      {queue : JobQueue Job Unit Nat} (hpoint : point.Offers latch index job waits)
      (hp : e.pools[d.pool]? = some p) (hq : p.queue.enter waits job = (.taken, queue)) :
      PooledMove e d phase point (.to (.generating latch (index + 1))) (e.putQueue d.pool queue)
  | parks {p : WorkerPool} {latch index : Nat} {job : Job} {queue : JobQueue Job Unit Nat}
      (hp : e.pools[d.pool]? = some p) (hq : p.queue.enter false job = (.parked, queue)) :
      PooledMove e d phase (.offering latch index job) (.to (.waiting latch index job))
        (e.putQueue d.pool queue)
  | drops {point : Point} {p : WorkerPool} {latch index : Nat} {job : Job} {waits : Bool}
      {queue : JobQueue Job Unit Nat} (hpoint : point.Offers latch index job waits)
      (hp : e.pools[d.pool]? = some p) (hq : p.queue.enter waits job = (.refused, queue)) :
      PooledMove e d phase point (.fault .queueClosed)
        ((e.putQueue d.pool queue).record (.lost job.latch job.index))
  | returns {latch : Nat} (hl : e.isReleased latch = true) :
      PooledMove e d phase (.awaiting latch) .done
        (e.tell (.stageChanged .awaitingCompletion .done))

variable {b : Backend} {e next : Engine} {d : Driver} {phase : Phase} {point : Point} {turn : Turn}

theorem dialStep_cases {stalled : Bool} {dialed : Dialed}
    (hs : e.dialStep b stalled = some (dialed, next)) : DialMove e dialed next := by
  simp only [dialStep] at hs
  split at hs
  · simp only [beginDial] at hs
    split at hs
    · cases hs
      exact .connects _ _ e.gate
    · cases hs
      exact .fails _ _ (.inl ⟨_, rfl⟩)
    · cases hs
      exact .fails _ _ (.inr ⟨_, rfl⟩)
    · split at hs
      · cases hs
        exact .connects _ _ _
      · cases hs
        exact .parks _ _
  · split at hs
    · simp only [resumeDial] at hs
      split at hs
      · cases hs
        exact .connects e.dialAttempts _ _
      · cases hs
        exact .parks e.dialAttempts _
    · cases hs

theorem directStep_cases (hs : e.directStep b d phase point = some (turn, next)) :
    DirectMove b e d phase point turn next := by
  cases point with
  | connecting =>
      simp only [directStep, Option.bind_eq_bind, Option.bind_eq_some_iff, Option.some.injEq] at hs
      obtain ⟨⟨dialed, e'⟩, hdial, ht⟩ := hs
      exact .dials (.inl rfl) (dialStep_cases hdial) ht
  | dialing =>
      simp only [directStep, Option.bind_eq_bind, Option.bind_eq_some_iff, Option.some.injEq] at hs
      obtain ⟨⟨dialed, e'⟩, hdial, ht⟩ := hs
      exact .dials (.inr rfl) (dialStep_cases hdial) ht
  | preparing run index =>
      simp only [directStep] at hs
      split at hs
      · next hlt =>
          split at hs
          · next hg =>
              cases hs
              exact .generates hlt hg
          · next hg =>
              cases hs
              exact .stumbles hg
      · next hnot =>
          cases hs
          exact .ends (Nat.le_of_not_lt hnot)
  | issuing run index command =>
      simp only [directStep, Option.bind_eq_bind, Option.bind_eq_some_iff] at hs
      obtain ⟨conn, hd, hs⟩ := hs
      split at hs
      · cases hs
        exact .begins hd (.inr ⟨_, rfl⟩)
      · cases hs
        exact .begins hd (.inl ⟨_, rfl⟩)
  | executing run index conduct =>
      cases conduct with
      | succeed =>
          cases hs
          exact .finishes none e.gate (.inl ⟨_, rfl⟩)
      | fail fault =>
          cases hs
          exact .finishes (some fault) e.gate (.inl ⟨_, rfl⟩)
      | panic message | panicAtOnce message =>
          cases hs
          exact .collapses message
      | stall fault =>
          simp only [directStep] at hs
          split at hs
          · cases hs
            exact .finishes fault _ (.inl ⟨_, rfl⟩)
          · cases hs
            exact .stalls fault _
  | stalled run index fault =>
      simp only [directStep, Option.ite_none_right_eq_some] at hs
      obtain ⟨_, hs⟩ := hs
      cases hs
      exact .finishes fault _ (.inr ⟨_, rfl⟩)
  | finished run index failed =>
      cases failed with
      | false =>
          cases hs
          exact .counts
      | true =>
          cases hs
          exact .tallies
  | failing run index =>
      cases hs
      exact .countsFailure
  | _ => cases hs

/-- The outcome of an offer. One that waited and could go on does not wait again. -/
theorem offered_cases {p : WorkerPool} {latch index : Nat} {job : Job} (waits : Bool)
    (hpoint : point.Offers latch index job waits) (hp : e.pools[d.pool]? = some p)
    (hparked : (p.queue.enter waits job).1 = .parked → waits = false)
    (hs : (e.putQueue d.pool (p.queue.enter waits job).2).offered latch index job
      (p.queue.enter waits job).1 = (turn, next)) : PooledMove e d phase point turn next := by
  rcases hq : p.queue.enter waits job with ⟨admission, queue⟩
  rw [hq] at hs hparked
  cases admission with
  | taken =>
      cases hs
      exact .accepts hpoint hp hq
  | parked =>
      cases hs
      obtain rfl := hparked rfl
      obtain rfl := hpoint
      exact .parks hp hq
  | refused =>
      cases hs
      exact .drops hpoint hp hq

theorem pooledStep_cases (hs : e.pooledStep d phase point = some (turn, next)) :
    PooledMove e d phase point turn next := by
  cases point with
  | generating latch index =>
      simp only [pooledStep] at hs
      split at hs
      · next hlt =>
          split at hs
          · next hg =>
              cases hs
              exact .generates hlt hg
          · next hg =>
              cases hs
              exact .stumbles hlt hg
      · next hnot =>
          cases hs
          exact .awaits (Nat.le_of_not_lt hnot)
  | offering latch index job =>
      simp only [pooledStep, Option.bind_eq_bind, Option.bind_eq_some_iff, Option.some.injEq] at hs
      obtain ⟨p, hp, hs⟩ := hs
      exact offered_cases false rfl hp (fun _ => rfl) hs
  | waiting latch index job =>
      simp only [pooledStep, Option.bind_eq_bind, Option.bind_eq_some_iff,
        Option.ite_none_right_eq_some, Option.some.injEq] at hs
      obtain ⟨p, hp, hready, hs⟩ := hs
      refine offered_cases true rfl hp (fun hparked => ?_) hs
      exact absurd hparked (JobQueue.reoffer_ne_parked hready job)
  | awaiting latch =>
      simp only [pooledStep, Option.ite_none_right_eq_some, Option.some.injEq] at hs
      obtain ⟨hl, hs⟩ := hs
      cases hs
      exact .returns hl
  | _ => cases hs

end Engine

end LoadBench
