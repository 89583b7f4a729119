import LoadBench.Proofs.History

/-!
What connections a pool accounts for, over a whole history of calls, and who has them. A pool counts
the dials that succeeded through it: one for each of its workers, at most one for the direct phases
of its driver, and those for somebody outside. Once there is a driver over the pool, the workers are
as many as the call to start has asked for.
-/

namespace LoadBench.Engine

/-- How many dials for somebody, through a pool, have succeeded in a run. -/
def successes (b : Backend) (i : Nat) (who : Dialer) : Engine → List Label → Nat
  | _, [] => 0
  | e, label :: labels =>
      match e.step b label with
      | none => 0
      | some next => successes b i who next labels +
          if e.dialing? = some (i, who) ∧ e.connections < next.connections then 1 else 0

/-- A call to start makes a pool in a run, for so many workers. -/
def OpenedFor (b : Backend) (labels : List Label) (i workers : Nat) : Prop :=
  ∃ s next capacity split, StepsAt b labels s (.call (.start workers capacity split)) ∧
    s.step b (.call (.start workers capacity split)) = some next ∧ s.pools.size = i ∧
    next.pools.size = i + 1

/-- There is a driver over a pool in some state of a run. -/
def Drove (b : Backend) (labels : List Label) (i : Nat) : Prop :=
  ∃ s d, Visits b labels s ∧ s.driver = some d ∧ d.pool = i

/-- What the dials of a pool in a run were for. -/
structure Accounts (b : Backend) (labels : List Label) (i : Nat) (p : WorkerPool) : Prop where
  dialed : p.dialed = successes b i .worker {} labels + successes b i .direct {} labels +
    successes b i .outside {} labels
  workers : p.workers.size = successes b i .worker {} labels
  direct : successes b i .direct {} labels ≤ 1
  /-- A pool that has ever had a driver has all the workers that were asked for. -/
  started : ∃ workers, OpenedFor b labels i workers ∧
    (Drove b labels i → successes b i .worker {} labels = workers)

/-- Who has which connection after a run, and what they have done with it and do with it now. -/
structure Custody (b : Backend) (labels : List Label) (e : Engine) : Prop where
  /-- An open connection has exactly one owner. -/
  owned : ∀ conn, conn ∈ e.opened ↔ ∃! owner, e.Owns conn owner
  /-- It has had no other. -/
  hands : ∀ conn owner owner', Had b labels conn owner → Had b labels conn owner' → owner = owner'
  /-- An execution begins only on a connection on which none is in flight. -/
  begins : ∀ s label next x, StepsAt b labels s label → s.step b label = some next →
    next.executions = s.executions.push x → x.conn ∉ s.busy
  /-- So on no connection are two executions in flight. -/
  busy : e.busy.Nodup ∧ e.busy ≤ (e.opened : Multiset Nat) ∧ e.busy.card = e.inFlight
  inFlight : e.inFlight ≤ e.liveWorkers + 1
  /-- On a connection of somebody, only what they are entitled to was ever executed. -/
  executions : ∀ x ∈ e.executions, ∀ owner, Had b labels x.conn owner → Entitled b labels x owner
  dials : ∀ (i : Nat) (p : WorkerPool), e.pools[i]? = some p → Accounts b labels i p
  /-- Without a driver, no connection is open once all workers have ended and those outside are
  closed. -/
  closed : e.driver = none →
    (∀ (i : Nat) (p : WorkerPool), e.pools[i]? = some p → p.allEnded = true) → e.outside = [] →
      e.opened = []

variable {b : Backend} {e next s : Engine} {label : Label} {labels : List Label} {i : Nat}
  {who who' : Dialer} {d : Driver} {p : WorkerPool} {workers : Nat} {split stalled : Bool}

section Successes

theorem successes_concat (hr : run b s labels = some e) (hs : e.step b label = some next) :
    successes b i who s (labels ++ [label]) = successes b i who s labels +
      if e.dialing? = some (i, who) ∧ e.connections < next.connections then 1 else 0 := by
  induction labels generalizing s with
  | nil =>
      cases hr
      simp [successes, hs]
  | cons first labels ih =>
      obtain ⟨mid, hfirst, hr⟩ := run_cons.mp hr
      simp only [List.cons_append, successes, hfirst, ih hr]
      exact Nat.add_right_comm _ _ _

theorem Undealt.successes (h : Undealt e next) (hr : run b {} labels = some e)
    (hs : e.step b label = some next) :
    Engine.successes b i who {} (labels ++ [label]) = Engine.successes b i who {} labels := by
  rw [successes_concat hr hs, h.connections, if_neg (fun hgrows => Nat.lt_irrefl _ hgrows.2)]
  rfl

theorem Dealt.successes {j : Nat} (h : Dealt e next j who') (hr : run b {} labels = some e)
    (hs : e.step b label = some next) : Engine.successes b i who {} (labels ++ [label]) =
      Engine.successes b i who {} labels + if j = i ∧ who' = who then 1 else 0 := by
  rw [successes_concat hr hs, h.dialing, h.connections]
  simp

/-- What a pool has counted are the dials that succeeded through it. -/
theorem dealt_of_run (hr : run b {} labels = some e) (i : Nat) : dealt e.pools i =
    (successes b i .worker {} labels + successes b i .direct {} labels +
      successes b i .outside {} labels, successes b i .worker {} labels) := by
  refine history (P := fun labels e => dealt e.pools i =
    (successes b i .worker {} labels + successes b i .direct {} labels +
      successes b i .outside {} labels, successes b i .worker {} labels)) ?_ ?_ hr
  · simp [dealt, successes]
  · intro labels label e next hr hs ih
    cases step_deals (Reachable.start.run hr) hs with
    | nothing h => rw [h.pools, ih, h.successes hr hs, h.successes hr hs, h.successes hr hs]
    | @connection j who h =>
        rw [h.pools, ih, h.successes hr hs, h.successes hr hs, h.successes hr hs]
        by_cases hj : i = j
        · subst hj
          cases who <;> simp <;> omega
        · simp [hj, Ne.symm hj]

end Successes

section Drivers

/-- A call to start that goes on has not forgotten what it was asked for. -/
theorem starting_of_startStep {i' workers' : Nat} {split' stalled' : Bool}
    (hs : e.startStep b i' workers' split' stalled' = some next)
    (hr : next.progress = .starting i workers split stalled) :
    i' = i ∧ workers' = workers ∧ split' = split := by
  simp only [startStep, Option.bind_eq_bind, Option.bind_eq_some_iff] at hs
  obtain ⟨p, _, hs⟩ := hs
  split at hs
  · cases hs
    cases hr
  · simp only [Option.bind_eq_some_iff] at hs
    obtain ⟨⟨dialed, mid⟩, _, hs⟩ := hs
    cases dialed with
    | connected conn | parked =>
        cases hs
        cases hr
        exact ⟨rfl, rfl, rfl⟩
    | failed fault | panicked message =>
        cases hs
        cases hr

/-- A call begins that dials for workers. -/
theorem starting_of_begin {request : Request}
    (hr : (e.begin b request).progress = .starting i workers split stalled) :
    ∃ capacity, request = .start workers capacity split ∧ e.pools.size = i ∧
      (e.begin b request).pools.size = i + 1 := by
  cases request with
  | start workers' capacity split' =>
      revert hr
      simp only [begin, beginStart]
      repeat' split
      all_goals
        intro hr
        cases hr
      exact ⟨capacity, rfl, rfl, Array.size_push _⟩
  | plan phases | submit command latch times | watch latch | acquire | drop =>
      simp only [begin] at hr
      repeat' split at hr
      all_goals cases hr
  | shutdown =>
      simp only [begin, beginShutdown] at hr
      repeat' split at hr
      all_goals cases hr
  | closeOutside => cases hr

/-- A call that dials for workers did so before its last step, or it begins just now. -/
theorem starting_of_step (hs : e.step b label = some next)
    (hr : next.progress = .starting i workers split stalled) :
    (∃ stalled', e.progress = .starting i workers split stalled') ∨
      ∃ capacity, label = .call (.start workers capacity split) ∧ e.pools.size = i ∧
        next.pools.size = i + 1 := by
  have hopening := congrArg Progress.opening hr
  cases hl : label.ofCaller with
  | false => exact .inl ⟨stalled, (step_of_others hs hl).1.symm.trans hr⟩
  | true =>
      cases label with
      | release permits | newLatch jobs => cases hl
      | cancel => cases (aside_cancel hs).opening.symm.trans hopening
      | call request =>
          simp only [step, Option.ite_none_right_eq_some, Option.some.injEq] at hs
          obtain ⟨_, rfl⟩ := hs
          obtain ⟨capacity, rfl, hsize⟩ := starting_of_begin hr
          exact .inr ⟨capacity, rfl, hsize⟩
      | act actor =>
          cases actor with
          | worker j k => cases hl
          | caller =>
              cases callerStep_calls hs with
              | aside h => cases h.opening.symm.trans hopening
              | starts hr' hs =>
                  obtain ⟨rfl, rfl, rfl⟩ := starting_of_startStep hs hr
                  exact .inl ⟨_, hr'⟩
              | begins hd hr' hs =>
                  subst hs
                  obtain ⟨entry, hentering⟩ := progress_beginPhase e _ _ _ _
                  cases hentering.symm.trans hr
              | @turns _ _ _ _ turn _ hd hr' ht hs =>
                  subst hs
                  cases turn <;> cases hr
              | reads hreads hs =>
                  subst hs
                  cases (Progress.opening_afterRead hreads _).symm.trans hopening

/-- A pool over which there was a driver is there, and it is not being started any more. -/
theorem housed_of_drove (hr : run b {} labels = some e) : ∀ i, Drove b labels i →
    (∃ p, e.pools[i]? = some p) ∧ e.opens i = false := by
  refine history (P := fun labels e => ∀ i, Drove b labels i →
    (∃ p, e.pools[i]? = some p) ∧ e.opens i = false) ?_ ?_ hr
  · rintro i ⟨s, d, hvisits, hd, _⟩
    rw [visits_nil hvisits] at hd
    cases hd
  · rintro labels label e next hr hs ih i ⟨s, d, hvisits, hd, rfl⟩
    have hreachable := Reachable.start.run hr
    rcases visits_concat (run_concat.mpr ⟨e, hr, hs⟩) hvisits with hold | rfl
    · obtain ⟨⟨p, hp⟩, ho⟩ := ih d.pool ⟨s, d, hold, hd, rfl⟩
      obtain ⟨p', hp', _⟩ := (step_views hreachable hs).follows hp
      exact ⟨⟨p', hp'⟩, step_opens hreachable hs hp ho⟩
    · have hnext := hreachable.step label hs
      obtain ⟨p, hp, _⟩ := (housed_of_reachable hnext).driver d hd
      exact ⟨⟨p, hp⟩, not_opens_of_driver hnext hd⟩

theorem drove_concat (hr : run b {} (labels ++ [label]) = some next)
    (h : Drove b (labels ++ [label]) i) :
    Drove b labels i ∨ ∃ d, next.driver = some d ∧ d.pool = i := by
  obtain ⟨s, d, hvisits, hd, hpool⟩ := h
  rcases visits_concat hr hvisits with hold | rfl
  · exact .inl ⟨s, d, hold, hd, hpool⟩
  · exact .inr ⟨d, hd, hpool⟩

theorem OpenedFor.concat (h : OpenedFor b labels i workers) (label : Label) :
    OpenedFor b (labels ++ [label]) i workers := by
  obtain ⟨s, next, capacity, split, hsteps, hrest⟩ := h
  exact ⟨s, next, capacity, split, hsteps.concat label, hrest⟩

theorem starting_of_opens (ho : e.opens i = true) :
    ∃ workers split stalled, e.progress = .starting i workers split stalled := by
  have hopening : e.progress.opening = some i := beq_iff_eq.mp ho
  unfold Progress.opening at hopening
  split at hopening
  · next hr =>
    cases hopening
    exact ⟨_, _, _, hr⟩
  · cases hopening

theorem starting_of_dialing (h : e.dialing? = some (i, .worker)) :
    ∃ workers split stalled, e.progress = .starting i workers split stalled := by
  unfold dialing? at h
  split at h
  · next hr =>
    cases h
    exact ⟨_, _, _, hr⟩
  · obtain ⟨_, _, h⟩ := Option.map_eq_some_iff.mp h
    cases h
  · obtain ⟨_, _, h⟩ := Option.map_eq_some_iff.mp h
    cases h
  · obtain ⟨_, _, h⟩ := Option.map_eq_some_iff.mp h
    cases h
  · cases h

theorem dials_of_dialing (h : e.dialing? = some (i, .direct)) :
    e.progress.dials = true ∧ ∃ d, e.driver = some d ∧ d.pool = i := by
  unfold dialing? at h
  split at h
  · cases h
  · next hr =>
    obtain ⟨d, hd, h⟩ := Option.map_eq_some_iff.mp h
    cases h
    exact ⟨by rw [hr]; rfl, d, hd, rfl⟩
  · next hr =>
    obtain ⟨d, hd, h⟩ := Option.map_eq_some_iff.mp h
    cases h
    exact ⟨by rw [hr]; rfl, d, hd, rfl⟩
  · obtain ⟨_, _, h⟩ := Option.map_eq_some_iff.mp h
    cases h
  · cases h

/-- How many workers the call to start has asked for that made a pool. As long as the pool is being
started the call still asks for as many, and there is a driver over it only once they are there. -/
structure Manned (b : Backend) (labels : List Label) (e : Engine) (i workers : Nat) : Prop where
  opened : OpenedFor b labels i workers
  starting : ∀ workers' split stalled, e.progress = .starting i workers' split stalled →
    workers' = workers
  drove : Drove b labels i → successes b i .worker {} labels = workers

/-- The workers of a pool over which there was a driver stay as many. -/
theorem successes_of_drove (hr : run b {} labels = some e) (hs : e.step b label = some next)
    (h : Drove b labels i) : successes b i .worker {} (labels ++ [label]) =
      successes b i .worker {} labels := by
  have ho := (housed_of_drove hr i h).2
  cases step_deals (Reachable.start.run hr) hs with
  | nothing hundealt => exact hundealt.successes hr hs
  | @connection j who hdealt =>
      rw [hdealt.successes hr hs, if_neg, Nat.add_zero]
      rintro ⟨rfl, rfl⟩
      obtain ⟨workers, split, stalled, hprogress⟩ := starting_of_dialing hdealt.dialing
      rw [opens_of_starting hprogress, beq_self_eq_true] at ho
      cases ho

/-- A driver over a pool is the one that there was, or its pool has just got all of its workers. -/
theorem driver_of_step (hr : run b {} labels = some e) (hs : e.step b label = some next)
    (hd : next.driver = some d) : Drove b labels d.pool ∨ d.direct = none ∧
      ∃ split, e.progress = .starting d.pool (e.workersOf d.pool) split false ∧
        successes b d.pool .worker {} (labels ++ [label]) =
          successes b d.pool .worker {} labels := by
  cases step_deals (Reachable.start.run hr) hs with
  | nothing hundealt =>
      rcases hundealt.driver d hd with hold | ⟨hnone, split, hprogress⟩
      · exact .inl ⟨e, d, .last hr, hold, rfl⟩
      · exact .inr ⟨hnone, split, hprogress, hundealt.successes hr hs⟩
  | @connection j who hdealt =>
      have hnext := hdealt.driver.symm.trans hd
      cases who with
      | worker | outside => exact .inl ⟨e, d, .last hr, hnext, rfl⟩
      | direct =>
          obtain ⟨d', hd', rfl⟩ := Option.map_eq_some_iff.mp hnext
          exact .inl ⟨e, d', .last hr, hd', rfl⟩

theorem workersOf_of_run (hr : run b {} labels = some e) (i : Nat) :
    e.workersOf i = successes b i .worker {} labels := by
  have hdealt := congrArg Prod.snd (dealt_of_run hr i)
  unfold dealt at hdealt
  unfold workersOf
  cases hp : e.pools[i]? <;> rw [hp] at hdealt <;> exact hdealt

theorem Manned.step (h : Manned b labels e i workers) (hr : run b {} labels = some e)
    (hs : e.step b label = some next) (hp : e.pools[i]? = some p) :
    Manned b (labels ++ [label]) next i workers where
  opened := h.opened.concat label
  starting workers' split stalled hprogress := by
    rcases starting_of_step hs hprogress with ⟨stalled', hold⟩ | ⟨_, _, hsize, _⟩
    · exact h.starting workers' split stalled' hold
    · obtain ⟨hlt, _⟩ := Array.getElem?_eq_some_iff.mp hp
      omega
  drove hdrove := by
    rcases drove_concat (run_concat.mpr ⟨e, hr, hs⟩) hdrove with hold | ⟨d, hd, rfl⟩
    · rw [successes_of_drove hr hs hold]
      exact h.drove hold
    · rcases driver_of_step hr hs hd with hold | ⟨_, split, hprogress, hsame⟩
      · rw [successes_of_drove hr hs hold]
        exact h.drove hold
      · rw [hsame, ← workersOf_of_run hr]
        exact h.starting _ split false hprogress

/-- A call to start makes a pool. -/
theorem manned_of_fresh {p' : WorkerPool} (hr : run b {} labels = some e)
    (hs : e.step b label = some next) (hp : e.pools[i]? = none) (hp' : next.pools[i]? = some p') :
    ∃ workers, Manned b (labels ++ [label]) next i workers := by
  have hreachable := Reachable.start.run hr
  have hmissing {p : WorkerPool} (h : e.pools[i]? = some p) : False := by
    cases hp.symm.trans h
  have hopens : next.opens i = true := by
    obtain ⟨_, ⟨_, _, hfresh⟩, _⟩ := (step_views hreachable hs).fresh i _ (view?_eq_none.mpr hp)
      (view?_eq_some.mpr ⟨p', hp', rfl⟩)
    exact congrArg PoolView.opening hfresh
  obtain ⟨workers, split, stalled, hprogress⟩ := starting_of_opens hopens
  rcases starting_of_step hs hprogress with ⟨stalled', hold⟩ | ⟨capacity, rfl, hsize, hnext⟩
  · obtain ⟨⟨p, hpool, _⟩, _⟩ :=
      (housed_of_reachable hreachable).opening i (congrArg Progress.opening hold)
    exact (hmissing hpool).elim
  · refine ⟨workers, ⟨e, next, capacity, split, .last hr _, hs, hsize, hnext⟩, ?_, fun hdrove => ?_⟩
    · intro workers' split' stalled' hprogress'
      cases hprogress.symm.trans hprogress'
      rfl
    · rcases drove_concat (run_concat.mpr ⟨e, hr, hs⟩) hdrove with hold | ⟨d, hd, rfl⟩
      · obtain ⟨⟨p, hpool⟩, _⟩ := housed_of_drove hr i hold
        exact (hmissing hpool).elim
      · cases (not_opens_of_driver (hreachable.step _ hs) hd).symm.trans hopens

theorem manned_of_run (hr : run b {} labels = some e) : ∀ (i : Nat) (p : WorkerPool),
    e.pools[i]? = some p → ∃ workers, Manned b labels e i workers := by
  refine history (P := fun labels e => ∀ (i : Nat) (p : WorkerPool),
    e.pools[i]? = some p → ∃ workers, Manned b labels e i workers) ?_ ?_ hr
  · intro i p hp
    simp at hp
  · intro labels label e next hr hs ih i p' hp'
    rcases hp : e.pools[i]? with _ | p
    · exact manned_of_fresh hr hs hp hp'
    · obtain ⟨workers, hmanned⟩ := ih i p hp
      exact ⟨workers, hmanned.step hr hs hp⟩

/-- The dials for the direct phases of a pool's driver. -/
structure DialedOnce (b : Backend) (labels : List Label) (e : Engine) (i : Nat) : Prop where
  once : successes b i .direct {} labels ≤ 1
  drove : 0 < successes b i .direct {} labels → Drove b labels i
  has : 0 < successes b i .direct {} labels → ∀ d, e.driver = some d → d.pool = i →
    d.direct.isSome = true

theorem DialedOnce.step (h : DialedOnce b labels e i) (hr : run b {} labels = some e)
    (hs : e.step b label = some next) : DialedOnce b (labels ++ [label]) next i := by
  have hreachable := Reachable.start.run hr
  have hdrove (hpos : 0 < successes b i .direct {} labels) : Drove b (labels ++ [label]) i := by
    obtain ⟨s, d, hvisits, hd⟩ := h.drove hpos
    exact ⟨s, d, hvisits.concat label, hd⟩
  -- A driver that takes the place of another one is over another pool.
  have hkept (hsame : ∀ d, next.driver = some d → d.pool = i → e.driver = some d ∨
      ∃ split, e.progress = .starting d.pool (e.workersOf d.pool) split false)
      (hcount : successes b i .direct {} (labels ++ [label]) = successes b i .direct {} labels) :
      DialedOnce b (labels ++ [label]) next i := by
    refine ⟨hcount ▸ h.once, fun hpos => hdrove (hcount ▸ hpos), fun hpos d hd hpool => ?_⟩
    rcases hsame d hd hpool with hold | ⟨split, hprogress⟩
    · exact h.has (hcount ▸ hpos) d hold hpool
    · have ho := (housed_of_drove hr i (h.drove (hcount ▸ hpos))).2
      rw [← hpool, opens_of_starting hprogress, beq_self_eq_true] at ho
      cases ho
  cases step_deals hreachable hs with
  | nothing hundealt =>
      refine hkept (fun d hd _ => ?_) (hundealt.successes hr hs)
      exact (hundealt.driver d hd).imp_right fun ⟨_, hnew⟩ => hnew
  | @connection j who hdealt =>
      have hcount : successes b i .direct {} (labels ++ [label]) = _ := hdealt.successes hr hs
      by_cases hown : j = i ∧ who = .direct
      · obtain ⟨rfl, rfl⟩ := hown
        obtain ⟨hdials, d, hd, rfl⟩ := dials_of_dialing hdealt.dialing
        -- The driver dials for a connection that it does not have yet.
        have hnone : successes b d.pool .direct {} labels = 0 := by
          by_contra hpos
          have hsome := h.has (Nat.pos_of_ne_zero hpos) d hd rfl
          rw [← slot_of_driver hd, (owned_of_reachable hreachable).undialed hdials] at hsome
          cases hsome
        rw [hnone, if_pos ⟨rfl, rfl⟩] at hcount
        refine ⟨hcount.le, fun _ => ⟨e, d, (Visits.last hr).concat label, hd, rfl⟩, ?_⟩
        intro _ d' hd' _
        have hnext := hdealt.driver.symm.trans hd'
        rw [hd] at hnext
        cases hnext
        rfl
      · rw [if_neg hown, Nat.add_zero] at hcount
        refine hkept (fun d hd hpool => .inl ?_) hcount
        have hnext := hdealt.driver.symm.trans hd
        cases who with
        | worker | outside => exact hnext
        | direct =>
            obtain ⟨_, d', hd', hj⟩ := dials_of_dialing hdealt.dialing
            rw [hd'] at hnext
            cases hnext
            exact absurd ⟨hj.symm.trans hpool, rfl⟩ hown

theorem dialedOnce_of_run (hr : run b {} labels = some e) : ∀ i, DialedOnce b labels e i := by
  refine history (P := fun labels e => ∀ i, DialedOnce b labels e i) ?_ ?_ hr
  · exact fun i => ⟨Nat.zero_le _, nofun, nofun⟩
  · exact fun labels label e next hr hs ih i => (ih i).step hr hs

end Drivers

section Custody

theorem accounts_of_run (hr : run b {} labels = some e) (hp : e.pools[i]? = some p) :
    Accounts b labels i p := by
  have hdealt := dealt_of_run hr i
  unfold dealt at hdealt
  rw [hp, Option.map_some, Option.getD_some, Prod.mk.injEq] at hdealt
  obtain ⟨workers, hmanned⟩ := manned_of_run hr i p hp
  exact ⟨hdealt.1, hdealt.2, (dialedOnce_of_run hr i).once, workers, hmanned.opened, hmanned.drove⟩

/-- A connection that is open has an owner who is left. -/
theorem opened_eq_nil (h : Reachable b e) (hd : e.driver = none)
    (hended : ∀ (i : Nat) (p : WorkerPool), e.pools[i]? = some p → p.allEnded = true)
    (ho : e.outside = []) : e.opened = [] := by
  rw [List.eq_nil_iff_forall_not_mem]
  intro conn hopen
  obtain ⟨owner, howns⟩ := (mem_opened h).mp hopen
  cases owner with
  | worker i k =>
      obtain ⟨w, hw, _, hlive⟩ := howns
      obtain ⟨p, hp, hw⟩ := worker?_eq_some.mp hw
      have hall := hended i p hp
      rw [WorkerPool.allEnded, Array.all_eq_true'] at hall
      rw [hall w (Array.mem_of_getElem? hw)] at hlive
      cases hlive
  | direct => cases (slot_of_none hd).symm.trans howns
  | outside place =>
      change e.outside[place]? = some conn at howns
      rw [ho] at howns
      cases howns

/-- Whatever calls are made and whatever comes of them, every open connection has exactly one owner,
who had it from the beginning and executes on it, one command at a time, only what is theirs, and
each pool has counted the dials that succeeded through it. -/
theorem custody (hr : run b {} labels = some e) : Custody b labels e := by
  have hreachable := Reachable.start.run hr
  have howned := (owned_of_reachable hreachable).opened
  constructor
  · intro conn
    rw [mem_opened hreachable]
    constructor
    · rintro ⟨owner, howns⟩
      exact ⟨owner, howns, fun owner' howns' => owner_unique hreachable howns' howns⟩
    · rintro ⟨owner, howns, _⟩
      exact ⟨owner, howns⟩
  · intro conn owner owner' hhad hhad'
    exact (had_unique hr conn owner' hhad').2 owner hhad
  · rintro s label next x ⟨before, _, hbefore⟩ hs hpush
    rcases step_begins hs with hsame | ⟨y, hbegins, hpush'⟩
    · exact (ne_push _ _ (hsame.symm.trans hpush)).elim
    · obtain rfl := Array.back_eq_of_push_eq (hpush'.symm.trans hpush)
      exact not_busy_of_begins (Reachable.start.run hbefore) hbegins
  · refine ⟨nodup_busy hreachable, ?_, card_busy hreachable⟩
    rw [howned]
    exact busy_le_owned
  · exact inFlight_le e
  · intro x hx owner hhad
    obtain ⟨owner', hhad', hentitled⟩ := entitled_of_executed hr x hx
    rwa [(had_unique hr x.conn owner' hhad').2 owner hhad]
  · exact fun i p hp => accounts_of_run hr hp
  · exact opened_eq_nil hreachable

/-- A worker, somebody outside and a direct phase have each dialed once through the same pool. -/
theorem custody_of_three : ∃ labels e p, run (.always .succeed) {} labels = some e ∧
    Custody (.always .succeed) labels e ∧ e.opened = [0, 1, 2] ∧
      e.Owns 0 (.worker 0 0) ∧ e.Owns 1 (.outside 0) ∧ e.Owns 2 .direct ∧
      e.executions.toList.map (·.conn) = [2, 0] ∧
      e.pools[0]? = some p ∧ Accounts (.always .succeed) labels 0 p ∧ p.dialed = 3 := by
  obtain ⟨labels, hlabels⟩ : ∃ labels : List Label, labels =
      [.call (.start 1 1 false), .act .caller, .act .caller, .call .acquire, .act .caller,
        .call (.plan [.directPings 1, .pings 1])] ++ .replicate 14 (.act .caller) ++
        .replicate 3 (.act (.worker 0 0)) := ⟨_, rfl⟩
  obtain ⟨e, he⟩ : ∃ e, run (.always .succeed) {} labels = some e := by
    rw [hlabels]
    exact ⟨_, rfl⟩
  have hcustody := custody he
  have hstate := he
  rw [hlabels] at hstate
  cases hstate
  exact ⟨_, _, _, he, hcustody, rfl, ⟨_, rfl, rfl, rfl⟩, rfl, rfl, rfl, rfl,
    hcustody.dials 0 _ rfl, rfl⟩

end Custody

end LoadBench.Engine
