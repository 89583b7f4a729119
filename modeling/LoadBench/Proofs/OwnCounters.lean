import LoadBench.Proofs.Cleared
import LoadBench.Proofs.FairRun

/-!
Every start makes counters of its own. They are counted up by the workers of the pool that is
started, or by the direct phases of the driver that comes to be. So the counters of a start that
fails stay at zero.
-/

namespace LoadBench

/-- The counters of a driver over a pool: those of the workers, or others that were made with
them. -/
def WorkerPool.driverTally (p : WorkerPool) (split : Bool) : Nat :=
  if split then p.tally + 1 else p.tally

theorem WorkerPool.le_driverTally (p : WorkerPool) (split : Bool) :
    p.tally ≤ p.driverTally split := by
  unfold driverTally
  split
  · exact Nat.le_succ _
  · exact Nat.le_refl _

namespace Engine

variable {b : Backend} {e next : Engine} {label : Label} {d : Driver} {i : Nat} {p : WorkerPool}

/-- A driver after a step was there before, perhaps without a connection of its own, or it has just
been started. -/
theorem step_drives (hs : e.step b label = some next) (hd : next.driver = some d) :
    (∃ d', e.driver = some d' ∧ d'.pool = d.pool ∧ d'.tally = d.tally) ∨
      ∃ (pool workers : Nat) (split : Bool) (p : WorkerPool),
        e.progress = .starting pool workers split false ∧ e.pools[pool]? = some p ∧
        d.pool = pool ∧ d.tally = p.driverTally split := by
  have hm := step_move hs
  change next.bare.driver = some d at hd
  have hsame {after : Engine} (h : after.driver = e.driver) (hd : after.driver = some d) :
      ∃ d', e.driver = some d' ∧ d'.pool = d.pool ∧ d'.tally = d.tally :=
    ⟨d, h.symm.trans hd, rfl, rfl⟩
  generalize next.bare = after at hm hd
  cases hm with
  | stay permits => exact .inl (hsame rfl hd)
  | latch size => exact .inl (hsame rfl hd)
  | worker hp hw h => exact .inl (hsame h.driver hd)
  | caller _ h =>
      cases h with
      | quiet h =>
          rcases h.driver with h | ⟨d', direct, hd', hnext⟩
          · exact .inl (hsame h hd)
          · rw [hnext] at hd
            cases hd
            exact .inl ⟨d', hd', rfl, rfl⟩
      | @starts pool workers split p events hr hp hw he answer =>
          cases hd
          exact .inr ⟨pool, workers, split, p, hr, hp, rfl, rfl⟩
      | closes hd' hr => cases hd
      | _ => exact .inl (hsame rfl hd)

theorem startStep_progress {pool workers : Nat} {split stalled : Bool}
    (hs : e.startStep b pool workers split stalled = some next) :
    (∃ stalled', next.progress = .starting pool workers split stalled') ∨
      ∃ answer, next.progress = .returned answer := by
  simp only [startStep, Option.bind_eq_bind, Option.bind_eq_some_iff] at hs
  obtain ⟨p, hp, hs⟩ := hs
  split at hs
  · cases hs
    exact .inr ⟨_, rfl⟩
  · simp only [Option.bind_eq_some_iff] at hs
    obtain ⟨⟨dialed, e'⟩, hdial, hs⟩ := hs
    cases dialed with
    | connected conn | parked =>
        cases hs
        exact .inl ⟨_, rfl⟩
    | failed fault | panicked message =>
        cases hs
        exact .inr ⟨_, rfl⟩

/-- A start goes on, or it returns. -/
theorem step_of_starting {pool workers : Nat} {split stalled : Bool}
    (hr : e.progress = .starting pool workers split stalled)
    (hs : e.step b label = some next) :
    (label.ofCaller = false ∧ next.progress = e.progress ∧ next.driver = e.driver) ∨
      (label = .act .caller ∧ e.startStep b pool workers split stalled = some next) ∨
      label = .cancel ∧ stalled = true ∧
        next = (e.leaveGate.abandonPool pool).finish .blocked := by
  cases hl : label.ofCaller with
  | false =>
      obtain ⟨hprogress, _, hdriver⟩ := step_of_others hs hl
      exact .inl ⟨rfl, hprogress, hdriver⟩
  | true =>
      right
      cases label with
      | act actor =>
          cases actor with
          | caller =>
              change e.callerStep b = some next at hs
              simp only [callerStep, hr] at hs
              exact .inl ⟨rfl, hs⟩
          | worker j k => cases hl
      | call request =>
          simp only [step, hr, Progress.atRest, Bool.false_eq_true, if_false] at hs
          cases hs
      | cancel =>
          cases stalled with
          | false => simp [step, cancel, hr] at hs
          | true =>
              simp only [step, cancel, hr, Option.some.injEq] at hs
              exact .inr ⟨rfl, rfl, hs.symm⟩
      | release permits | newLatch jobs => cases hl

/-- A start that is going on after a step was going on before, or it has just begun. -/
theorem step_starting {pool workers : Nat} {split stalled : Bool}
    (hs : e.step b label = some next)
    (hr : next.progress = .starting pool workers split stalled) :
    (∃ stalled', e.progress = .starting pool workers split stalled') ∨
      ∃ capacity, next.bare = e.bare.openPool workers capacity split ∧ pool = e.pools.size := by
  cases hr₀ : e.progress with
  | starting pool' workers' split' stalled' =>
      left
      rcases step_of_starting hr₀ hs with ⟨_, hsame, _⟩ | ⟨_, hstart⟩ | ⟨_, _, rfl⟩
      · exact ⟨stalled, by rw [← hr₀, ← hsame, hr]⟩
      · rcases startStep_progress hstart with ⟨stalled'', hnext⟩ | ⟨answer, hnext⟩
        · rw [hr] at hnext
          cases hnext
          exact ⟨_, rfl⟩
        · rw [hr] at hnext
          cases hnext
      · cases hr
  | _ =>
      right
      have hopening : e.bare.progress.opening = none := by
        change e.progress.opening = none
        rw [hr₀]
        rfl
      have hm := step_move hs
      have hbare : next.bare.progress = .starting pool workers split stalled := hr
      have hopens := congrArg Progress.opening hbare
      generalize next.bare = after at hm hbare hopens
      cases hm with
      | stay permits | latch size =>
          change e.bare.progress.opening = some pool at hopens
          rw [hopening] at hopens
          cases hopens
      | worker hp hw h =>
          rw [h.progress, hopening] at hopens
          cases hopens
      | caller _ h =>
          cases h with
          | quiet h =>
              rw [h.opening, hopening] at hopens
              cases hopens
          | @opens workers' capacity hrest hw hc split' =>
              cases hbare
              exact ⟨capacity, rfl, rfl⟩
          | spawns hr' =>
              rw [hr'] at hopening
              cases hopening
          | accepts hd hp hh hq =>
              rw [Progress.opening_accepted hh] at hopens
              cases hopens
          | parks hd hp hh hq =>
              rw [Progress.opening_of_hand (Progress.hand_parked hh)] at hopens
              cases hopens
          | closes hd' hr' he hp =>
              rcases hp with ⟨answer, rfl⟩ | rfl <;> cases hbare
          | _ => cases hbare

/-- Every driver, also one that is yet to come to be, has counters. -/
structure HasCounters (e : Engine) : Prop where
  driver : ∀ d, e.driver = some d → d.tally < e.tallies.size
  starting : ∀ (pool workers : Nat) (split stalled : Bool) (p : WorkerPool),
    e.progress = .starting pool workers split stalled → e.pools[pool]? = some p →
      p.driverTally split < e.tallies.size

theorem HasCounters.step (hc : e.HasCounters) (h : Reachable b e)
    (hs : e.step b label = some next) : next.HasCounters := by
  have hle : e.tallies.size ≤ next.tallies.size := (step_move hs).size_tallies
  constructor
  · intro d hd
    rcases step_drives hs hd with
      ⟨d', hd', _, htally⟩ | ⟨pool, workers, split, p, hr, hp, _, htally⟩
    · have hlt := hc.driver d' hd'
      omega
    · have hlt := hc.starting pool workers split false p hr hp
      omega
  · intro pool workers split stalled p' hr hp'
    rcases step_starting hs hr with ⟨stalled', hr'⟩ | ⟨capacity, hnext, hi⟩
    · rcases (step_views h hs).origin hp' with ⟨p, hp, hfollows⟩ | ⟨hi, _⟩
      · have hlt := hc.starting pool workers split stalled' p hr' hp
        unfold WorkerPool.driverTally at hlt ⊢
        rw [hfollows.extended.1]
        omega
      · obtain ⟨⟨p, hp, _⟩, _⟩ := (housed_of_reachable h).opening pool (by rw [hr']; rfl)
        obtain ⟨hlt, _⟩ := Array.getElem?_eq_some_iff.mp hp
        omega
    · change next.bare.pools[pool]? = some p' at hp'
      change _ < next.bare.tallies.size
      rw [hnext] at hp' ⊢
      subst hi
      simp only [openPool] at hp' ⊢
      change (e.pools.push _)[e.pools.size]? = some p' at hp'
      rw [Array.getElem?_push_size] at hp'
      cases hp'
      unfold WorkerPool.driverTally
      cases split with
      | true => simp
      | false => simp

theorem hasCounters_of_reachable (h : Reachable b e) : e.HasCounters := by
  induction h with
  | start => exact ⟨nofun, nofun⟩
  | step label h hs ih => exact ih.step h hs

/-- Counters are counted up by a worker of their pool or by the driver that has them. -/
theorem step_counts (hs : e.step b label = some next) (t : Nat) :
    next.tallyAt t = e.tallyAt t ∨
      (∃ (i k : Nat) (p : WorkerPool) (w : Worker) (job : Job), e.pools[i]? = some p ∧
        p.workers[k]? = some w ∧ w.activity.job? = some job ∧ p.tally = t) ∨
      ∃ d, e.driver = some d ∧ d.tally = t := by
  have hm := step_move hs
  change next.bare.tallyAt t = e.bare.tallyAt t ∨ _
  have hsame {after : Engine} (h : after.tallies = e.tallies) :
      after.tallyAt t = e.bare.tallyAt t := by
    unfold Engine.tallyAt
    rw [h]
    rfl
  have hother {after : Engine} {tally : Nat} {c : Tally.Counter} (hne : tally ≠ t)
      (h : after.tallies = e.tallies.modify tally (·.add c)) :
      after.tallyAt t = e.bare.tallyAt t := by
    unfold Engine.tallyAt
    rw [h, Array.getElem?_modify, if_neg hne]
    rfl
  generalize next.bare = after at hm ⊢
  cases hm with
  | stay permits | latch size => exact .inl (hsame rfl)
  | @worker i k p w _ hp hw h =>
      cases h with
      | @counts job ha | @tallies job ha | @countsFailure job ha =>
          by_cases htally : p.tally = t
          · exact .inr (.inl ⟨i, k, p, w, job, hp, hw, by rw [ha]; rfl, htally⟩)
          · exact .inl (hother htally rfl)
      | _ => exact .inl (hsame rfl)
  | caller _ h =>
      cases h with
      | quiet h => exact .inl (hsame h.tallies)
      | @countsDirect d phase before number index todo reports hd hr
      | @talliesDirect d phase before number index todo reports hd hr
      | @countsDirectFailure d phase before number index todo reports hd hr =>
          by_cases htally : d.tally = t
          · exact .inr (.inr ⟨d, hd, htally⟩)
          · exact .inl (hother htally rfl)
      | opens hr hw hc split => exact .inl (tallyAt_openPool _ _ _ _ _)
      | _ => exact .inl (hsame rfl)

/-- The counters from `first` on and before `last` were made for a pool that accepts nothing. -/
structure Unused (first last i : Nat) (e : Engine) : Prop where
  made : last ≤ e.tallies.size
  pools : ∀ (j : Nat) (p : WorkerPool), e.pools[j]? = some p → j ≠ i →
    p.tally < first ∨ last ≤ p.tally
  driver : ∀ d, e.driver = some d → d.pool ≠ i ∧ (d.tally < first ∨ last ≤ d.tally)
  starting : ∀ (j : Nat) (p : WorkerPool), e.progress.opening = some j → e.pools[j]? = some p →
    j ≠ i → last ≤ p.tally
  accepted : ∃ p, e.pools[i]? = some p ∧ p.queue.accepted = #[]
  zero : ∀ t, first ≤ t → t < last → e.tallyAt t = {}

/-- As long as the pool does not become a driver's, its counters stay at zero. -/
theorem Unused.step {first last : Nat} (hu : Unused first last i e) (h : Reachable b e)
    (hs : e.step b label = some next) (hne : ∀ d, next.driver = some d → d.pool ≠ i) :
    Unused first last i next := by
  have hle : e.tallies.size ≤ next.tallies.size := (step_move hs).size_tallies
  have hmade := hu.made
  have hviews := step_views h hs
  obtain ⟨p, hp, hnone⟩ := hu.accepted
  exact {
    made := by omega
    pools := by
      intro j q' hq' hj
      rcases hviews.origin hq' with ⟨q, hq, hfollows⟩ | ⟨_, htally, _⟩
      · rw [hfollows.extended.1]
        exact hu.pools j q hq hj
      · right
        omega
    driver := by
      intro d hd
      refine ⟨hne d hd, ?_⟩
      rcases step_drives hs hd with
        ⟨d', hd', _, htally⟩ | ⟨pool, workers, split, q, hr, hq, hpool, htally⟩
      · rw [← htally]
        exact (hu.driver d' hd').2
      · right
        have hj : pool ≠ i := by
          rw [← hpool]
          exact hne d hd
        have hlast := hu.starting pool q (by rw [hr]; rfl) hq hj
        have hqle := q.le_driverTally split
        omega
    starting := by
      intro j q' hj hq' hji
      rcases hviews.origin hq' with ⟨q, hq, hfollows⟩ | ⟨_, htally, _⟩
      · rw [hfollows.extended.1]
        refine hu.starting j q ?_ hq hji
        by_contra hclosed
        have hopens := step_opens h hs hq (beq_false_of_ne hclosed)
        unfold opens at hopens
        rw [hj, beq_self_eq_true] at hopens
        cases hopens
      · omega
    accepted := by
      obtain ⟨p', hp', _⟩ := hviews.follows hp
      refine ⟨p', hp', ?_⟩
      cases step_accepting h hs with
      | nothing hsame hcount => exact (hsame i p p' hp hp').trans hnone
      | @one d q q' job hd hq hpools hpush hl hcount =>
          rw [hpools] at hp'
          rcases getElem?_set_cases hp' with ⟨hi, _⟩ | ⟨_, hold⟩
          · exact absurd hi (hu.driver d hd).1
          · cases hp.symm.trans hold
            exact hnone
    zero := by
      intro t hfirst hlast
      have hzero := hu.zero t hfirst hlast
      rcases step_counts hs t with hsame | ⟨j, k, q, w, job, hq, hw, hj, htally⟩ | ⟨d, hd, htally⟩
      · rw [hsame]
        exact hzero
      · by_cases hji : j = i
        · subst hji
          cases hp.symm.trans hq
          have hmem := (traced_of_reachable h).jobs j p job hp (.inr ⟨k, w, hw, hj⟩)
          rw [hnone] at hmem
          exact absurd hmem (Array.not_mem_empty job)
        · have hpool := hu.pools j q hq hji
          omega
      · have hdriver := (hu.driver d hd).2
        omega }

end Engine

end LoadBench
