import LoadBench.Proofs.Commute
import LoadBench.Proofs.PhaseReport

/-!
What a step adds to the records of events and of executions. Both only grow, and they agree on
which executions began. A worker's step adds what concerns its own job, and a step of a pooled
phase what concerns a job of the phase, which is not begun by it.
-/

namespace LoadBench

/-- What an event is on record of. A dial and the end of a connection belong to no command. -/
def Event.origin? : Event → Option Origin
  | .generated origin | .begun origin _ | .finished origin _ | .tallied origin
  | .counted origin _ => some origin
  | .completed latch index | .lost latch index => some (.job latch index)
  | .dialed _ _ | .closed _ => none

/-- The execution that an event says has begun, and its connection. -/
def Event.begun? : Event → Option (Origin × Nat)
  | .begun origin conn => some (origin, conn)
  | _ => none

/-- An event that concerns one of some jobs, or that says that a connection was closed. -/
def Event.Concerns (jobs : Job → Prop) (event : Event) : Prop :=
  (∃ conn, event = .closed conn) ∨ ∃ job, jobs job ∧ event.origin? = some job.origin

/-- An execution of one of some jobs. -/
def Execution.Concerns (jobs : Job → Prop) (x : Execution) : Prop :=
  ∃ job, jobs job ∧ x.origin = job.origin ∧ x.command = job.command

theorem Activity.job?_of_outcome? {a : Activity} {job : Job} {failed : Bool}
    (h : a.outcome? = some (job, failed)) : a.job? = some job := by
  cases a with
  | executing job' conduct | stalled job' fault =>
      cases h
      rfl
  | _ => cases h

namespace Engine

/-- The records of a later state hold so much more. -/
structure Adds (e next : Engine) (l : List Event) (xs : List Execution) : Prop where
  events : next.events.toList = e.events.toList ++ l
  executions : next.executions.toList = e.executions.toList ++ xs
  begun : l.filterMap Event.begun? = xs.map fun x => (x.origin, x.conn)

/-- The records of a later state hold nothing more but what has some property. -/
def Logs (P : Event → Prop) (Q : Execution → Prop) (e next : Engine) : Prop :=
  ∃ l xs, Adds e next l xs ∧ (∀ event ∈ l, P event) ∧ ∀ x ∈ xs, Q x

/-- A job in the queue of a pool or in the hands of one of its workers. -/
def Stored (e : Engine) (i : Nat) (job : Job) : Prop :=
  ∃ p, e.pools[i]? = some p ∧ p.Has job

variable {b : Backend} {e mid next start : Engine} {d : Driver} {p : WorkerPool} {w : Worker}
  {phase : Phase} {todo : List Phase} {reports : List PhaseCount} {point : Point} {label : Label}
  {latch i k : Nat} {P P' : Event → Prop} {Q Q' : Execution → Prop}

namespace Adds

variable {l l' : List Event} {xs xs' : List Execution}

theorem same (hevents : next.events = e.events) (hexecutions : next.executions = e.executions) :
    Adds e next [] [] := by
  refine ⟨?_, ?_, rfl⟩
  · rw [hevents, List.append_nil]
  · rw [hexecutions, List.append_nil]

theorem event {event : Event} (hevents : next.events = e.events.push event)
    (hbegun : event.begun? = none) (hexecutions : next.executions = e.executions) :
    Adds e next [event] [] := by
  refine ⟨?_, ?_, ?_⟩
  · rw [hevents, Array.toList_push]
  · rw [hexecutions, List.append_nil]
  · rw [List.filterMap_cons_none hbegun]
    rfl

theorem execution {x : Execution} (hevents : next.events = e.events.push (.begun x.origin x.conn))
    (hexecutions : next.executions = e.executions.push x) :
    Adds e next [.begun x.origin x.conn] [x] := by
  refine ⟨?_, ?_, rfl⟩
  · rw [hevents, Array.toList_push]
  · rw [hexecutions, Array.toList_push]

theorem trans (h : Adds e mid l xs) (h' : Adds mid next l' xs') :
    Adds e next (l ++ l') (xs ++ xs') := by
  refine ⟨?_, ?_, ?_⟩
  · rw [h'.events, h.events, List.append_assoc]
  · rw [h'.executions, h.executions, List.append_assoc]
  · rw [List.filterMap_append, h.begun, h'.begun, List.map_append]

end Adds

namespace Logs

theorem same (hevents : next.events = e.events) (hexecutions : next.executions = e.executions) :
    Logs P Q e next :=
  ⟨[], [], .same hevents hexecutions, nofun, nofun⟩

theorem event {event : Event} (hevents : next.events = e.events.push event)
    (hbegun : event.begun? = none) (hexecutions : next.executions = e.executions) (h : P event) :
    Logs P Q e next := by
  refine ⟨[event], [], .event hevents hbegun hexecutions, fun event' hmem => ?_, nofun⟩
  rwa [List.mem_singleton.mp hmem]

theorem mono (h : Logs P Q e next) (hP : ∀ event, P event → P' event) (hQ : ∀ x, Q x → Q' x) :
    Logs P' Q' e next := by
  obtain ⟨l, xs, hadds, hl, hxs⟩ := h
  exact ⟨l, xs, hadds, fun event hmem => hP event (hl event hmem),
    fun x hmem => hQ x (hxs x hmem)⟩

theorem trans (h : Logs P Q e mid) (h' : Logs P Q mid next) : Logs P Q e next := by
  obtain ⟨l, xs, hadds, hl, hxs⟩ := h
  obtain ⟨l', xs', hadds', hl', hxs'⟩ := h'
  refine ⟨_, _, hadds.trans hadds', fun event hmem => ?_, fun x hmem => ?_⟩
  · rcases List.mem_append.mp hmem with hold | hnew
    · exact hl event hold
    · exact hl' event hnew
  · rcases List.mem_append.mp hmem with hold | hnew
    · exact hxs x hold
    · exact hxs' x hnew

theorem congr (h : Logs P Q e mid) (hevents : next.events = mid.events)
    (hexecutions : next.executions = mid.executions) : Logs P Q e next :=
  h.trans (.same hevents hexecutions)

end Logs

/-- A worker adds what concerns its own job. -/
theorem WorkerMove.logs (h : WorkerMove b e i k p w next) :
    Logs (Event.Concerns fun job => w.activity.job? = some job)
      (Execution.Concerns fun job => w.activity.job? = some job) e next := by
  cases h with
  | @begins job failed ha hc =>
      refine ⟨_, _, .execution (x := ⟨w.conn, job.command, job.origin, _⟩) rfl rfl, ?_, ?_⟩
      · intro event hmem
        rw [List.mem_singleton.mp hmem]
        exact .inr ⟨job, by rw [ha]; rfl, rfl⟩
      · intro x hmem
        rw [List.mem_singleton.mp hmem]
        exact ⟨job, by rw [ha]; rfl, rfl, rfl⟩
  | @collapses job ha hc =>
      have hjob : w.activity.job? = some job := by rw [ha]; rfl
      have hbegins : Adds e (e.beginExecution b w.conn job.command job.origin).2 _ _ :=
        .execution (x := ⟨w.conn, job.command, job.origin, _⟩) rfl rfl
      have hloses : Adds (e.beginExecution b w.conn job.command job.origin).2
          (((e.beginExecution b w.conn job.command job.origin).2.record
            (.lost job.latch job.index)).put i p k (.leaving true))
          [.lost job.latch job.index] [] := .event rfl rfl rfl
      have hadds := hbegins.trans hloses
      refine ⟨_, _, hadds, ?_, ?_⟩
      · intro event hmem
        rcases List.mem_cons.mp hmem with rfl | hmem
        · exact .inr ⟨job, hjob, rfl⟩
        · rw [List.mem_singleton.mp hmem]
          exact .inr ⟨job, hjob, rfl⟩
      · intro x hmem
        rw [List.append_nil] at hmem
        rw [List.mem_singleton.mp hmem]
        exact ⟨job, hjob, rfl, rfl⟩
  | finishes ha =>
      exact .event rfl rfl rfl (.inr ⟨_, Activity.job?_of_outcome? ha, rfl⟩)
  | @counts job ha =>
      have hconcerns : ∃ job', w.activity.job? = some job' ∧ some job.origin = some job'.origin :=
        ⟨job, by rw [ha]; rfl, rfl⟩
      have htallied : Logs (Event.Concerns fun job => w.activity.job? = some job)
          (Execution.Concerns fun job => w.activity.job? = some job) e
          (e.countExecution p.tally job.origin) := .event rfl rfl rfl (.inr hconcerns)
      exact htallied.trans (.event rfl rfl rfl (.inr hconcerns))
  | tallies ha | countsFailure ha => exact .event rfl rfl rfl (.inr ⟨_, by rw [ha]; rfl, rfl⟩)
  | completes ha hb hl => exact .event rfl rfl rfl (.inr ⟨_, by rw [ha]; rfl, rfl⟩)
  | misuses ha hl => exact .event rfl rfl rfl (.inr ⟨_, by rw [ha]; rfl, rfl⟩)
  | leaves ha => exact .event rfl rfl rfl (.inl ⟨_, rfl⟩)
  | _ => exact .same rfl rfl

/-- What is not a step of the caller's adds what concerns the jobs of the pools. -/
theorem logs_of_others (hs : e.step b label = some next) (hl : label.ofCaller = false) :
    Logs (Event.Concerns fun job => ∃ i, e.Stored i job)
      (Execution.Concerns fun job => ∃ i, e.Stored i job) e next := by
  have hm := step_move hs
  have hlogs : Logs (Event.Concerns fun job => ∃ i, e.Stored i job)
      (Execution.Concerns fun job => ∃ i, e.Stored i job) e.bare next.bare := by
    generalize next.bare = after at hm ⊢
    cases hm with
    | stay permits | latch size => exact .same rfl rfl
    | @worker i k p w _ hp hw h =>
        have hstored (job : Job) (hjob : w.activity.job? = some job) : ∃ i, e.Stored i job :=
          ⟨i, p, hp, .inr ⟨k, w, hw, hjob⟩⟩
        refine h.logs.mono (fun event hevent => ?_) fun x hx => ?_
        · rcases hevent with hclosed | ⟨job, hjob, ho⟩
          · exact .inl hclosed
          · exact .inr ⟨job, hstored job hjob, ho⟩
        · obtain ⟨job, hjob, hx⟩ := hx
          exact ⟨job, hstored job hjob, hx⟩
    | caller hl' _ =>
        rw [hl] at hl'
        cases hl'
  obtain ⟨l, xs, hadds, hrest⟩ := hlogs
  exact ⟨l, xs, ⟨hadds.events, hadds.executions, hadds.begun⟩, hrest⟩

/-- What a pooled phase adds of itself: that it generated a command, or that a job of it was turned
away. -/
theorem PooledMove.logs {turn : Turn} (h : PooledMove e d phase point turn next)
    (hl : point.latch? = some latch) (hf : PhaseRun.Fits e.batches ⟨phase, {}, point⟩) :
    Logs (fun event => ∃ index, event.origin? = some (.job latch index)) (fun _ => False) e
      next := by
  cases h with
  | @generates latch' index _ hlt hg =>
      cases hl
      exact .event rfl rfl rfl ⟨index, rfl⟩
  | @drops _ p latch' index job waits queue hpoint hp hq =>
      cases waits with
      | false =>
          cases hpoint
          cases hl
          exact .event rfl rfl rfl ⟨job.index, by rw [← hf.2.2.1]; rfl⟩
      | true =>
          cases hpoint
          cases hl
          exact .event rfl rfl rfl ⟨job.index, by rw [← hf.2.2.1]; rfl⟩
  | _ => exact .same rfl rfl

/-- A pooled phase that is given up adds at most that a job of it was lost. -/
theorem cancelPoint_logs (hs : e.cancelPoint point = some next)
    (hl : point.latch? = some latch) (hf : PhaseRun.Fits e.batches ⟨phase, {}, point⟩) :
    Logs (fun event => ∃ index, event.origin? = some (.job latch index)) (fun _ => False) e
      next := by
  cases point with
  | offering latch' index job =>
      cases hl
      cases hs
      exact .event rfl rfl rfl ⟨job.index, by rw [← hf.2.2.1]; rfl⟩
  | waiting latch' index job =>
      cases hl
      cases hs
      unfold withdrawJob
      cases e.driver <;> exact .event rfl rfl rfl ⟨job.index, by rw [← hf.2.2.1]; rfl⟩
  | awaiting latch' =>
      cases hs
      exact .same rfl rfl
  | generating latch' index => cases hs
  | _ => cases hl

section GoOn

variable {run : PhaseRun} {turn : Turn}

/-- How the call goes on with a phase is not on record. -/
@[simp] theorem events_goOn : (e.goOn run todo reports turn).events = e.events := by
  cases turn <;> rfl

@[simp] theorem executions_goOn : (e.goOn run todo reports turn).executions = e.executions := by
  cases turn <;> rfl

@[simp] theorem directRuns_goOn : (e.goOn run todo reports turn).directRuns = e.directRuns := by
  cases turn <;> rfl

end GoOn

/-- A step of the caller's while a phase is being run: the phase goes on, or it is given up. -/
theorem step_of_running {run : PhaseRun} (hs : e.step b label = some next)
    (hl : label.ofCaller = true) (hd : e.driver = some d)
    (hr : e.progress = .running run todo reports) :
    (label = .act .caller ∧ ∃ turn e', e.phaseTurn b d run = some (turn, e') ∧
        next = e'.goOn run todo reports turn) ∨
      label = .cancel ∧ ∃ e', e.cancelPoint run.point = some e' ∧ next = e'.finish .blocked := by
  cases label with
  | act actor =>
      cases actor with
      | caller =>
          left
          change e.callerStep b = some next at hs
          rw [callerStep_of_running hd hr, Option.map_eq_some_iff] at hs
          obtain ⟨⟨turn, e'⟩, hturn, rfl⟩ := hs
          exact ⟨rfl, turn, e', hturn, rfl⟩
      | worker i k => cases hl
  | call request =>
      simp only [step, hr, Progress.atRest, Bool.false_eq_true, if_false] at hs
      cases hs
  | cancel =>
      right
      simp only [step, cancel, hr, Option.map_eq_some_iff] at hs
      obtain ⟨e', hcancel, rfl⟩ := hs
      exact ⟨rfl, e', hcancel, rfl⟩
  | release permits | newLatch jobs => cases hl

/-- A call that returns while a phase is being run reports nothing. -/
theorem answer_of_isRunning {answer : Answer} (hs : e.step b label = some next)
    (hd : e.driver = some d) (hr : e.progress.isRunning = true)
    (hreturned : next.progress = .returned answer) (counts : List PhaseCount) :
    answer ≠ .reports counts := by
  rintro rfl
  cases hl : label.ofCaller with
  | false =>
      obtain ⟨hprogress, _⟩ := step_of_others hs hl
      rw [← hprogress, hreturned] at hr
      cases hr
  | true =>
      cases hp : e.progress with
      | running run todo reports =>
          rcases step_of_running hs hl hd hp with ⟨_, turn, e', _, rfl⟩ | ⟨_, e', _, rfl⟩
          · cases turn <;> cases hreturned
          · cases hreturned
      | entering | leaving =>
          exact not_returned_of_reads (by rw [hp]; rfl) hs ⟨_, hreturned⟩
      | _ =>
          rw [hp] at hr
          cases hr

/-- A call returns from a pooled phase over an open queue only if it is given up. -/
theorem Going.blocked (h : Going start d phase todo reports e) (hm : phase.mode = .pooled)
    (hg : phase.Generates) (hp : e.pools[d.pool]? = some p) (hopen : p.queue.producing = true)
    (hclosed : p.queue.slots.closed = false) (hr : e.progress.isRunning = true) {answer : Answer}
    (hs : e.step b label = some next) (hreturned : next.progress = .returned answer) :
    answer = .blocked := by
  cases h.call with
  | entering hp' | leaving _ hp' =>
      exact absurd ⟨answer, hreturned⟩ (not_returned_of_reads (by rw [hp']; rfl) hs)
  | running hpoint =>
      cases hl : label.ofCaller with
      | false =>
          rw [(step_of_others hs hl).1, hpoint] at hreturned
          cases hreturned
      | true =>
          rcases step_of_running hs hl h.driver hpoint with
            ⟨_, turn, e', hturn, rfl⟩ | ⟨_, e', _, rfl⟩
          · simp only [phaseTurn, hm] at hturn
            rcases (pooledStep_cases hturn).goesOn hp hopen hclosed hg with rfl | ⟨_, rfl⟩ <;>
              cases hreturned
          · cases hreturned
            rfl
  | reported _ hplanning =>
      rw [hplanning] at hr
      cases hr

/-- A step while a pooled phase is being run adds what concerns the phase or a job of a pool. -/
theorem Going.logs (h : Going start d phase todo reports e) (hm : phase.mode = .pooled)
    (hreachable : Reachable b e) (hr : e.progress.isRunning = true)
    (hs : e.step b label = some next) :
    Logs (fun event => (∃ index, event.origin? = some (.job start.batches.size index)) ∨
        event.Concerns fun job => ∃ i, e.Stored i job)
      (Execution.Concerns fun job => ∃ i, e.Stored i job) e next := by
  cases hl : label.ofCaller with
  | false => exact (logs_of_others hs hl).mono (fun _ => .inr) fun _ => id
  | true =>
      cases h.call with
      | entering hp | leaving _ hp =>
          obtain ⟨_, _, _, _, rfl⟩ := step_of_reads (by rw [hp]; rfl) hl hs
          exact .same rfl rfl
      | @running before point hpoint hlatch =>
          have hf : PhaseRun.Fits e.batches ⟨phase, {}, point⟩ := by
            have hfits := (fitting_of_reachable hreachable).progress
            rwa [hpoint] at hfits
          rcases step_of_running hs hl h.driver hpoint with
            ⟨_, turn, e', hturn, rfl⟩ | ⟨_, e', hcancel, rfl⟩
          · simp only [phaseTurn, hm] at hturn
            refine Logs.congr ?_ events_goOn executions_goOn
            exact ((pooledStep_cases hturn).logs hlatch hf).mono (fun _ => .inl) fun _ => False.elim
          · refine Logs.congr ?_ (rfl : _ = e'.events) rfl
            exact (cancelPoint_logs hcancel hlatch hf).mono (fun _ => .inl) fun _ => False.elim
      | reported _ hplanning =>
          rw [hplanning] at hr
          cases hr

end Engine

end LoadBench
