import LoadBench.Proofs.Attendance
import LoadBench.Proofs.InPhase

/-!
A backend of which nothing panics, and an engine that runs phases for one caller and does nothing
else. All of its latches are made by phases, so no worker ever counts one down too often, and no
worker of a driver's pool ends as long as the driver has the pool.

Between two phases no pool has a job. What happens then is at most that connections are closed.
-/

namespace LoadBench

/-- A backend of which nothing panics. Its dials and its executions may fail, and they may stall. -/
structure Backend.Calm (b : Backend) : Prop where
  dials : ∀ attempt message, b.dial attempt ≠ .panic message
  executes : ∀ history conn command, (b.execute history conn command).panic? = none
  closes : ∀ conn, b.closePanic conn = none

/-- An event that says no more than that a connection was closed. -/
def Event.IsClosing (event : Event) : Prop := ∃ conn, event = .closed conn

namespace Engine

/-- All latches are those of phases. -/
def Owning (e : Engine) : Prop :=
  ∀ (latch : Nat) (batch : Batch), e.batches[latch]? = some batch → batch.owned = true

/-- No pool has a job. -/
def Jobless (e : Engine) : Prop := ∀ i job, ¬ e.Stored i job

/-- The driver's pool is there, it has workers, and they record in the driver's counters. -/
def Manages (e : Engine) (d : Driver) : Prop :=
  ∃ p, e.pools[d.pool]? = some p ∧ d.tally = p.tally ∧ 0 < p.workers.size

variable {b : Backend} {e next : Engine} {d : Driver} {label : Label}

section Steps

/-- No latch is made while a call is attended to, except by a phase. -/
theorem ne_newLatch (hl : label.attends = true) (jobs : Nat) : label ≠ .newLatch jobs := by
  rintro rfl
  cases hl

/-- Nobody but a pooled phase makes a latch, and it does so when it begins. -/
theorem step_latches (hs : e.step b label = some next) (hl : ∀ jobs, label ≠ .newLatch jobs) :
    next.batches.size = e.batches.size ∨
      ∃ phase todo reports batch, label.ofCaller = true ∧
        e.progress = .planning (phase :: todo) reports ∧ phase.mode = .pooled ∧
        batch.owned = true ∧ next.batches = e.batches.push batch := by
  have hm := step_move hs
  change next.bare.batches.size = e.batches.size ∨
    ∃ phase todo reports batch, label.ofCaller = true ∧
      e.progress = .planning (phase :: todo) reports ∧ phase.mode = .pooled ∧
      batch.owned = true ∧ next.bare.batches = e.batches.push batch
  generalize next.bare = after at hm ⊢
  cases hm with
  | stay permits => exact .inl rfl
  | latch size => exact absurd rfl (hl size)
  | worker hp hw hm =>
      rcases hm.batches with hsame | ⟨job, batch, left, _, _, _, hset⟩
      · exact .inl (congrArg Array.size hsame)
      · rw [hset]
        exact .inl Array.size_setIfInBounds
  | caller hcaller hm =>
      cases hm with
      | quiet h => exact .inl (congrArg Array.size h.batches)
      | beginsPhase hd hr hpooled => exact .inr ⟨_, _, _, _, hcaller, hr, hpooled, rfl, rfl⟩
      | generates | submits | submitsParked | submitsDropped => exact .inl Array.size_modify
      | _ => exact .inl rfl

theorem Owning.step (h : Owning e) (hreachable : Reachable b e) (hs : e.step b label = some next)
    (hl : ∀ jobs, label ≠ .newLatch jobs) : Owning next := by
  intro latch batch hb
  rcases Nat.lt_or_ge latch e.batches.size with hold | hnew
  · have hbefore := Array.getElem?_eq_getElem hold
    obtain ⟨batch', hb', howned, _⟩ :=
      (step_move hs).batch (fitting_of_reachable hreachable).bare hbefore
    cases hb'.symm.trans hb
    exact howned.trans (h latch _ hbefore)
  · rcases step_latches hs hl with hsame | ⟨_, _, _, new, _, _, _, howned, hpush⟩
    · obtain ⟨hlt, _⟩ := Array.getElem?_eq_some_iff.mp hb
      omega
    · rw [hpush, Array.getElem?_push] at hb
      split at hb
      · cases hb
        exact howned
      · obtain ⟨hlt, _⟩ := Array.getElem?_eq_some_iff.mp hb
        omega

theorem Jobless.step (h : Jobless e) (hreachable : Reachable b e) (hs : e.step b label = some next)
    (hl : e.progress.latch? = none) : Jobless next := by
  intro i job hstored
  exact h i job (hstored.of_idle hreachable hs hl)

/-- Workers without jobs do nothing that is worth a record but close their connections. -/
theorem Jobless.logs (h : Jobless e) (hs : e.step b label = some next)
    (hl : label.ofCaller = false) : Logs Event.IsClosing (fun _ => False) e next := by
  refine (logs_of_others hs hl).mono ?_ ?_
  · rintro event (hclosed | ⟨job, ⟨i, hstored⟩, _⟩)
    · exact hclosed
    · exact absurd hstored (h i job)
  · rintro x ⟨job, ⟨i, hstored⟩, _⟩
    exact h i job hstored

theorem Manages.step (h : e.Manages d) (hreachable : Reachable b e)
    (hs : e.step b label = some next) : next.Manages d := by
  obtain ⟨p, hp, htally, hworkers⟩ := h
  obtain ⟨p', hp', hfollows⟩ := (step_views hreachable hs).follows hp
  refine ⟨p', hp', ?_, ?_⟩
  · rw [hfollows.extended.1]
    exact htally
  · obtain ⟨w', hw', _⟩ := hfollows.extended.2 0 _ (Array.getElem?_eq_getElem hworkers)
    obtain ⟨hlt, _⟩ := Array.getElem?_eq_some_iff.mp hw'
    exact hlt

end Steps

section Calm

/-- Each execution came out as the backend made it. -/
theorem answered_of_reachable (h : Reachable b e) {x : Execution} (hx : x ∈ e.executions) :
    ∃ history, x.conduct = b.execute history x.conn x.command := by
  induction h with
  | start => exact absurd hx (Array.not_mem_empty x)
  | @step e next label h hs ih =>
      rcases step_begins hs with hsame | ⟨y, hbegins, hpush⟩
      · exact ih (hsame ▸ hx)
      · rw [hpush] at hx
        rcases Array.mem_push.mp hx with hold | rfl
        · exact ih hold
        · cases hbegins <;> exact ⟨_, rfl⟩

/-- As long as a driver has its pool, the workers of the pool go on. -/
theorem live_of_calm (h : Reachable b e) (hb : b.Calm) (ho : Owning e) (hd : e.driver = some d)
    {p : WorkerPool} (hp : e.pools[d.pool]? = some p) {k : Nat} {w : Worker}
    (hw : p.workers[k]? = some w) : w.activity.isLive = true := by
  refine (excused_of_reachable h (worker?_eq_some.mpr ⟨p, hp, hw⟩)).resolve_right ?_
  rintro (⟨q, hq, hdrained⟩ | ⟨x, hx, _, latch, index, _, message, hc⟩ | hroom)
  · obtain ⟨q', hq', hproducing⟩ := (housed_of_reachable h).driver d hd
    cases hq.symm.trans hq'
    rw [hdrained.1] at hproducing
    cases hproducing
  · obtain ⟨history, hanswer⟩ := answered_of_reachable h hx
    have hcalm := hb.executes history x.conn x.command
    rw [← hanswer, hc] at hcalm
    cases hcalm
  · refine hroom fun latch batch hbatch => ?_
    exact (fitting_of_reachable h).owned latch batch hbatch (ho latch batch hbatch)

/-- A pool that a driver has takes what is offered. -/
theorem open_of_calm (h : Reachable b e) (hb : b.Calm) (ho : Owning e) (hd : e.driver = some d)
    (hmanages : e.Manages d) : ∃ p, e.pools[d.pool]? = some p ∧ p.queue.producing = true ∧
      p.queue.slots.closed = false := by
  obtain ⟨p, hp, _, hworkers⟩ := hmanages
  obtain ⟨p', hp', hproducing⟩ := (housed_of_reachable h).driver d hd
  cases hp.symm.trans hp'
  have hw := Array.getElem?_eq_getElem hworkers
  exact ⟨p, hp, hproducing, open_of_live h hp hw (live_of_calm h hb ho hd hp hw)⟩

end Calm

/-- The engine between two phases: a driver over a pool with workers, and no job anywhere. -/
structure Still (b : Backend) (d : Driver) (e : Engine) : Prop where
  reachable : Reachable b e
  driver : e.driver = some d
  manages : e.Manages d
  jobless : Jobless e
  owning : Owning e

/-- What others do leaves it so. -/
theorem Still.others (h : Still b d e) (hs : e.step b label = some next)
    (hl : label.ofCaller = false) (hattends : label.attends = true)
    (hr : e.progress.latch? = none) : Still b d next := by
  obtain ⟨_, _, hdriver⟩ := step_of_others hs hl
  exact {
    reachable := h.reachable.step label hs
    driver := hdriver.trans h.driver
    manages := h.manages.step h.reachable hs
    jobless := h.jobless.step h.reachable hs hr
    owning := h.owning.step h.reachable hs (ne_newLatch hattends) }

end Engine

end LoadBench
