import LoadBench.Proofs.Acceptance
import LoadBench.Proofs.EventLog

/-!
A driver whose pool has no jobs. Other pools may still have some, of drivers that were let go; the
records tell those apart by the numbers of their latches, which were made earlier. As long as the
caller offers no job, the driver's pool stays empty and its counters are moved by nobody else.
-/

namespace LoadBench

/-- Whether a command belongs to a phase that began in a state or later. -/
def Origin.isSince (start : Engine) : Origin → Bool
  | .job latch _ => start.batches.size ≤ latch
  | .direct run _ => start.directRuns ≤ run

/-- Whether an event concerns a phase that began in a state or later. While phases are being run
nobody but them dials. -/
def Event.isSince (start : Engine) (event : Event) : Bool :=
  match event with
  | .dialed _ _ => true
  | event => event.origin?.any (Origin.isSince start)

namespace Tally

/-- Both counters are at most so high. -/
instance : Preorder Tally := Preorder.lift get

theorem le_add (t : Tally) (c : Counter) : t ≤ t.add c := by
  intro c'
  rw [get_add]
  exact Nat.le_add_right _ _

end Tally

namespace Engine

/-- A job that another pool than the driver's has. -/
def LeftOver (start : Engine) (d : Driver) (job : Job) : Prop :=
  ∃ i, i ≠ d.pool ∧ start.Stored i job

/-- The driver's pool has no job, and other pools have only jobs that they had before. -/
def Cleared (start : Engine) (d : Driver) (e : Engine) : Prop :=
  ∀ i job, e.Stored i job → i ≠ d.pool ∧ start.Stored i job

variable {b : Backend} {e next start : Engine} {d : Driver} {p : WorkerPool} {label : Label}
  {i : Nat} {job : Job}

theorem cleared_of_jobs (hp : start.pools[d.pool]? = some p) (hjobs : p.jobs = []) :
    Cleared start d start := by
  intro i job hstored
  refine ⟨?_, hstored⟩
  rintro rfl
  obtain ⟨q, hq, hhas⟩ := hstored
  rw [hp] at hq
  cases hq
  exact WorkerPool.jobs_eq_nil.mp hjobs job hhas

theorem Cleared.jobs_eq_nil (h : Cleared start d e) (hp : e.pools[d.pool]? = some p) :
    p.jobs = [] :=
  WorkerPool.jobs_eq_nil.mpr fun job hhas => (h d.pool job ⟨p, hp, hhas⟩).1 rfl

theorem Cleared.leftOver (h : Cleared start d e) (hstored : e.Stored i job) :
    start.LeftOver d job :=
  ⟨i, (h i job hstored).1, (h i job hstored).2⟩

theorem LeftOver.not_since (h : start.LeftOver d job) (hstart : Reachable b start) :
    job.origin.isSince start = false := by
  obtain ⟨i, _, p, hp, hhas⟩ := h
  have hlt := latch_lt_of_accepted hstart hp
    ((traced_of_reachable hstart).jobs i p job hp hhas)
  simp only [Job.origin, Origin.isSince, decide_eq_false_iff_not]
  omega

theorem not_since_of_leftOver {event : Event} (hstart : Reachable b start)
    (h : event.Concerns (start.LeftOver d)) : event.isSince start = false := by
  rcases h with ⟨conn, rfl⟩ | ⟨job, hjob, ho⟩
  · rfl
  · have hold := hjob.not_since hstart
    cases event with
    | dialed attempt conn => cases ho
    | _ =>
        simp only [Event.isSince, ho, Option.any_some]
        exact hold

theorem LeftOver.not_attempt {x : Execution} (hstart : Reachable b start)
    (h : x.Concerns (start.LeftOver d)) : x.origin.isSince start = false := by
  obtain ⟨job, hjob, ho, _⟩ := h
  rw [ho]
  exact hjob.not_since hstart

/-- A pool comes to have a job only by an offer of the caller's, and then the call goes on. -/
theorem Stored.of_step (hreachable : Reachable b e)
    (hs : e.step b label = some next) (h : next.Stored i job) :
    e.Stored i job ∨ e.progress.latch? = some job.latch ∧
      ∀ k, e.progress.submitted = some k → next.progress.submitted = some (k + 1) := by
  obtain ⟨p', hp', hhas⟩ := h
  rcases (step_views hreachable hs).origin hp' with ⟨p, hp, hfollows⟩ | ⟨_, _, _, hnone⟩
  · rcases hfollows.has job hhas with hold | hpush
    · exact .inl ⟨p, hp, hold⟩
    · cases step_accepting hreachable hs with
      | nothing hsame _ =>
          rw [hsame i p p' hp hp'] at hpush
          exact (ne_push _ _ hpush).elim
      | @one d q q' job' _ hq hpools hpush' hl hcount =>
          rw [hpools] at hp'
          rcases getElem?_set_cases hp' with ⟨rfl, rfl⟩ | ⟨_, hold⟩
          · cases hp.symm.trans hq
            obtain ⟨rfl, _⟩ := Array.push_eq_push.mp (hpush.symm.trans hpush')
            exact .inr ⟨hl, fun k hk => (hcount k hk).1⟩
          · cases hp.symm.trans hold
            exact (ne_push _ _ hpush).elim
  · exact absurd hhas (hnone job)

/-- Without an offer no pool comes to have a job. -/
theorem Stored.of_idle (hreachable : Reachable b e) (hs : e.step b label = some next)
    (hl : e.progress.latch? = none) (h : next.Stored i job) : e.Stored i job := by
  rcases h.of_step hreachable hs with hold | ⟨hbusy, _⟩
  · exact hold
  · rw [hl] at hbusy
    cases hbusy

theorem Cleared.step (h : Cleared start d e) (hreachable : Reachable b e)
    (hs : e.step b label = some next) (hl : e.progress.latch? = none) : Cleared start d next := by
  intro i job hstored
  exact h i job (hstored.of_idle hreachable hs hl)

/-- What others do meanwhile concerns the other pools. -/
theorem Cleared.logs (h : Cleared start d e) (hs : e.step b label = some next)
    (hl : label.ofCaller = false) :
    Logs (Event.Concerns (start.LeftOver d)) (Execution.Concerns (start.LeftOver d)) e next := by
  refine (logs_of_others hs hl).mono ?_ ?_
  · rintro event (hclosed | ⟨job, ⟨i, hstored⟩, ho⟩)
    · exact .inl hclosed
    · exact .inr ⟨job, h.leftOver hstored, ho⟩
  · rintro x ⟨job, ⟨i, hstored⟩, hx⟩
    exact ⟨job, h.leftOver hstored, hx⟩

/-- Nobody but a worker with a job counts anything while the caller does not, and it counts in the
counters of its pool. -/
theorem tallyAt_of_others {t : Nat} (hs : e.step b label = some next)
    (hl : label.ofCaller = false)
    (hne : ∀ (i : Nat) (p : WorkerPool) (job : Job), e.pools[i]? = some p → p.Has job →
      p.tally ≠ t) : next.tallyAt t = e.tallyAt t := by
  change next.bare.tallyAt t = e.bare.tallyAt t
  cases (step_move hs).counting hl with
  | nothing ht _ => simp only [Engine.tallyAt, ht]
  | @one i k q w job c hq hw ha ht _ =>
      have htally := hne i q job hq (.inr ⟨k, w, hw, Activity.job?_of_counts? ha⟩)
      simp [Engine.tallyAt, ht, Array.getElem?_modify, htally]

/-- Nobody else counts in the driver's counters. -/
theorem Cleared.tallyAt (h : Cleared start d e) (hreachable : Reachable b e)
    (hp : e.pools[d.pool]? = some p) (hshared : d.tally = p.tally)
    (hs : e.step b label = some next) (hl : label.ofCaller = false) :
    next.tallyAt d.tally = e.tallyAt d.tally := by
  refine tallyAt_of_others hs hl fun i q job hq hhas => ?_
  obtain ⟨hi, _⟩ := h i job ⟨q, hq, hhas⟩
  rw [hshared]
  exact (traced_of_reachable hreachable).apart i d.pool q p hq hp hi

/-- A call that runs a phase has not returned, and it starts no driver. -/
theorem place_of_isRunning {progress : Progress} (hr : progress.isRunning = true) :
    progress.atRest = false ∧ progress.opening = none := by
  cases progress with
  | entering | running | leaving => exact ⟨rfl, rfl⟩
  | _ => cases hr

/-- While a call goes on that starts no driver, the driver gets a connection of its own at most. -/
theorem step_driver (hs : e.step b label = some next) (hd : e.driver = some d)
    (hrest : e.progress.atRest = false) (hopening : e.progress.opening = none) :
    ∃ direct, next.driver = some { d with direct } := by
  have hm := step_move hs
  change ∃ direct, next.bare.driver = some { d with direct }
  have hsame {after : Engine} (h : after.driver = e.driver) :
      ∃ direct, after.driver = some { d with direct } := ⟨d.direct, h.trans hd⟩
  generalize next.bare = after at hm ⊢
  cases hm with
  | stay permits | latch size => exact hsame rfl
  | worker hp hw h => exact hsame h.driver
  | caller _ h =>
      cases h with
      | quiet h =>
          rcases h.driver with h | ⟨d', direct, hd', hnext⟩
          · exact hsame h
          · cases hd.symm.trans hd'
            exact ⟨direct, hnext⟩
      | starts hr =>
          have hopens := congrArg Progress.opening hr
          rw [show e.bare.progress.opening = none from hopening] at hopens
          cases hopens
      | closes hd' hr =>
          rw [show e.bare.progress.atRest = false from hrest] at hr
          cases hr
      | _ => exact hsame rfl

/-- New counters have counted nothing. -/
theorem tallyAt_openPool (e : Engine) (workers capacity : Nat) (split : Bool) (i : Nat) :
    (e.openPool workers capacity split).tallyAt i = e.tallyAt i := by
  have hpush (tallies : Array Tally) :
      (tallies.push {})[i]?.getD {} = tallies[i]?.getD {} := by
    rw [Array.getElem?_push]
    split
    · next hi => simp [hi]
    · rfl
  simp only [openPool, Engine.tallyAt]
  split
  · rw [hpush, hpush]
  · rw [hpush]

/-- Counters never go back. -/
theorem step_tallyAt (hs : e.step b label = some next) (i : Nat) :
    e.tallyAt i ≤ next.tallyAt i := by
  have hm := step_move hs
  change _ ≤ next.bare.tallyAt i
  have hsame {after : Engine} (h : after.tallies = e.tallies) :
      e.tallyAt i ≤ after.tallyAt i := by
    rw [tallyAt, tallyAt, h]
  have hcount {after : Engine} {tally : Nat} {c : Tally.Counter}
      (h : after.tallies = e.tallies.modify tally (·.add c)) :
      e.tallyAt i ≤ after.tallyAt i := by
    simp only [Engine.tallyAt, h, Array.getElem?_modify]
    split
    · cases e.tallies[i]? with
      | none => exact le_refl _
      | some t => exact t.le_add c
    · exact le_refl _
  generalize next.bare = after at hm ⊢
  cases hm with
  | stay permits | latch size => exact hsame rfl
  | worker hp hw h =>
      cases h with
      | counts ha | tallies ha | countsFailure ha => exact hcount rfl
      | _ => exact hsame rfl
  | caller _ h =>
      cases h with
      | quiet h => exact hsame h.tallies
      | countsDirect hd hr | talliesDirect hd hr | countsDirectFailure hd hr => exact hcount rfl
      | @opens workers capacity hr hw hc split =>
          rw [tallyAt_openPool]
          exact hsame rfl
      | _ => exact hsame rfl

end Engine

end LoadBench
