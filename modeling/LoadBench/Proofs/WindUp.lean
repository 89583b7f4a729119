import LoadBench.Proofs.ClosedPool
import LoadBench.Proofs.FairRun

/-!
A closed pool that has no jobs winds up. The turn at its queue goes from one worker to the next,
each is told that nothing more comes, and each leaves. So if none of them is passed over for good,
they have all ended sooner or later.
-/

namespace LoadBench

/-- A pool whose queue is closed and that has no jobs. -/
structure WorkerPool.Spent (p : WorkerPool) : Prop where
  closed : p.queue.producing = false
  empty : ∀ job, ¬ p.Has job

namespace WorkerPool

variable {p : WorkerPool} {k : Nat} {w : Worker}

theorem Spent.buffer (hs : p.Spent) : p.queue.buffer = [] := by
  apply List.eq_nil_iff_forall_not_mem.mpr
  intro job hmem
  exact hs.empty job (.inl hmem)

theorem Spent.receiveReady (hs : p.Spent) : p.queue.receiveReady = true := by
  simp [JobQueue.receiveReady, hs.closed]

theorem Spent.not_stalled (hs : p.Spent) (hw : p.workers[k]? = some w) (job : Job)
    (fault : Option Fault) : w.activity ≠ .stalled job fault := by
  intro ha
  exact hs.empty job (.inr ⟨k, w, hw, by rw [ha]; rfl⟩)

theorem exists_of_not_allEnded (h : p.allEnded = false) :
    ∃ (k : Nat) (w : Worker), p.workers[k]? = some w ∧ w.activity.hasEnded = false := by
  by_contra hnone
  push Not at hnone
  have hall : p.allEnded = true := by
    apply Array.all_eq_true_iff_forall_mem.mpr
    intro w hmem
    obtain ⟨k, hw⟩ := Array.mem_iff_getElem?.mp hmem
    exact Bool.eq_true_of_not_eq_false (hnone k w hw)
  rw [h] at hall
  cases hall

end WorkerPool

/-- Nothing comes into a closed pool. -/
theorem PoolStep.spent {v v' : PoolView} (h : PoolStep v v') (hs : v.pool.Spent) :
    v'.pool.Spent := by
  obtain ⟨hclosed, haccepted⟩ := h.shut hs.closed
  constructor
  · exact hclosed
  · intro job hhas
    rcases h.has hhas with hold | hpush
    · exact hs.empty job hold
    · rw [haccepted] at hpush
      exact Engine.ne_push _ _ hpush

namespace Engine

variable {b : Backend} {e next : Engine} {label : Label} {i k : Nat} {p : WorkerPool} {w : Worker}

/-- A worker of a pool without jobs that can go on now. -/
inductive GoesOut (p : WorkerPool) (k : Nat) : Prop
  | prompt (h : Prompt p k)
  | leaving {panicked : Bool} (ha : p.activity? k = some (.leaving panicked))

theorem exists_goesOut (h : Turns p) (hs : p.Spent) (hne : p.allEnded = false) :
    ∃ k, GoesOut p k := by
  obtain ⟨k, w, hw, hended⟩ := WorkerPool.exists_of_not_allEnded hne
  cases hlive : w.activity.isLive with
  | true =>
      obtain ⟨j, hprompt⟩ := exists_prompt h hw hlive (hs.not_stalled hw)
      exact ⟨j, .prompt hprompt⟩
  | false =>
      cases ha : w.activity with
      | leaving panicked => exact ⟨k, .leaving (activity?_eq_some.mpr ⟨w, hw, ha⟩)⟩
      | ended panicked =>
          rw [ha] at hended
          cases hended
      | _ =>
          rw [ha] at hlive
          cases hlive

theorem GoesOut.step (h : GoesOut p k) (hs : p.Spent) (hp : e.pools[i]? = some p) :
    ∃ next, e.step b (.act (.worker i k)) = some next := by
  cases h with
  | prompt h => exact h.step hp hs.receiveReady
  | leaving hk =>
      obtain ⟨w, hw, ha⟩ := activity?_eq_some.mp hk
      exact ⟨_, step_of_leaving hp hw ha⟩

theorem GoesOut.aside {p' : WorkerPool} (h : GoesOut p k) (ha : p.Aside p') : GoesOut p' k := by
  cases h with
  | prompt h => exact .prompt (h.aside ha)
  | leaving hk =>
      apply GoesOut.leaving
      unfold WorkerPool.activity? at hk ⊢
      rw [ha.workers]
      exact hk

/-- Workers that have ended stay so. -/
theorem step_allEnded (h : Reachable b e) (hs : e.step b label = some next)
    (hp : e.pools[i]? = some p) (ho : e.opens i = false) (hended : p.allEnded = true) :
    ∃ p', next.pools[i]? = some p' ∧ p'.allEnded = true := by
  have hnone (k : Nat) : label ≠ .act (.worker i k) := by
    rintro rfl
    change e.workerStep b i k = some next at hs
    simp only [workerStep, hp, Option.bind_eq_bind, Option.bind_some,
      Option.bind_eq_some_iff] at hs
    obtain ⟨w, hw, hs⟩ := hs
    obtain ⟨panicked, ha⟩ := WorkerPool.ended_of_allEnded hended hw
    rw [ha] at hs
    cases hs
  obtain ⟨p', hp', haside⟩ := step_aside h hs hnone hp ho
  refine ⟨p', hp', ?_⟩
  unfold WorkerPool.allEnded at hended ⊢
  rw [haside.workers]
  exact hended

namespace Schedule

variable {s : Schedule b e}

/-- What each operation at a pool keeps, every schedule keeps. -/
theorem pool {P : WorkerPool → Prop}
    (hP : ∀ v v' : PoolView, PoolStep v v' → P v.pool → P v'.pool) (h : Reachable b e)
    (hp : e.pools[i]? = some p) (hpool : P p) (n : Nat) :
    ∃ q, (s.state n).pools[i]? = some q ∧ P q := by
  induction n with
  | zero =>
      rw [s.begins]
      exact ⟨p, hp, hpool⟩
  | succ n ih =>
      obtain ⟨q, hq, hpool'⟩ := ih
      exact step_pool hP (s.reachable h n) (s.step n) hq hpool'

theorem opens (h : Reachable b e) (hp : e.pools[i]? = some p) (ho : e.opens i = false) (n : Nat) :
    (s.state n).opens i = false := by
  induction n with
  | zero =>
      rw [s.begins]
      exact ho
  | succ n ih =>
      obtain ⟨q, hq, _⟩ := pool (P := fun _ => True) (fun _ _ _ => id) h hp trivial n (s := s)
      exact step_opens (s.reachable h n) (s.step n) hq ih

theorem spent (h : Reachable b e) (hp : e.pools[i]? = some p) (hs : p.Spent) (n : Nat) :
    ∃ q, (s.state n).pools[i]? = some q ∧ q.Spent :=
  pool (fun _ _ hstep => hstep.spent) h hp hs n

/-- As long as not all workers have ended, one of them takes a step sooner or later. -/
theorem exists_step_of_spent (hf : s.Fair i) (h : Reachable b e) (hp : e.pools[i]? = some p)
    (ho : e.opens i = false) (hs : p.Spent) {n : Nat} {q : WorkerPool}
    (hq : (s.state n).pools[i]? = some q) (hne : q.allEnded = false) :
    ∃ m, n ≤ m ∧ ∃ k, s.label m = .act (.worker i k) := by
  apply hf.exists_step
  intro hnone
  obtain ⟨q', hq', hspent⟩ := spent h hp hs n
  cases hq.symm.trans hq'
  have hturns := (orderly_of_pool (s.reachable h n) hq).turns
  obtain ⟨k, hgoes⟩ := exists_goesOut hturns hspent hne
  -- Nobody takes its turn away from this worker, so it could go on for ever.
  refine ⟨k, fun m hm => ?_⟩
  obtain ⟨r, hr, _, haside⟩ := aside_of_le h hm hq (opens h hp ho n) fun l hl _ => hnone l hl
  obtain ⟨r', hr', hspent'⟩ := spent h hp hs m
  cases hr.symm.trans hr'
  exact (hgoes.aside haside).step hspent' hr

theorem exists_allEnded (hf : s.Fair i) (h : Reachable b e) (hp : e.pools[i]? = some p)
    (ho : e.opens i = false) (hs : p.Spent) {n : Nat} {q : WorkerPool}
    (hq : (s.state n).pools[i]? = some q) :
    ∃ m r, (s.state m).pools[i]? = some r ∧ r.allEnded = true := by
  -- The induction is on what the workers have to do, of which each step of one takes something.
  induction hwork : total (fun w : Worker => w.activity.work) q.workers
    using Nat.strong_induction_on generalizing n q with
  | h t ih =>
      cases hended : q.allEnded with
      | true => exact ⟨n, q, hq, hended⟩
      | false =>
          obtain ⟨m, hm, ⟨k, hlabel⟩, hfirst⟩ :=
            exists_first (exists_step_of_spent hf h hp ho hs hq hended)
          obtain ⟨r, hr, _, haside⟩ := aside_of_le h hm hq (opens h hp ho n)
            fun l hl hlt k hlabel => hfirst l hl hlt ⟨k, hlabel⟩
          obtain ⟨r', hr', hspent⟩ := spent h hp hs m (s := s)
          cases hr.symm.trans hr'
          have hstep := s.step m
          rw [hlabel] at hstep
          obtain ⟨w, q', a, hw, hnext, hworkers, hworks⟩ := step_works hr hstep
          apply ih _ ?_ hnext rfl
          have hmodify := total_modify (fun w : Worker => w.activity.work)
            (fun w => { w with activity := a }) hw
          unfold WorkerPool.setActivity
          rw [hworkers, haside.workers]
          rw [haside.workers] at hmodify
          cases hworks with
          | lessens hless hlength hdelivered =>
              dsimp only at hmodify ⊢
              omega
          | takes ha hnew hbuffer hrest hdelivered =>
              rw [hspent.buffer] at hbuffer
              cases hbuffer

/-- If none of its workers is passed over for good, a closed pool without jobs has lost them all
from some time on. -/
theorem windsUp (hf : s.Fair i) (h : Reachable b e) (hp : e.pools[i]? = some p)
    (ho : e.opens i = false) (hs : p.Spent) :
    ∃ n, ∀ m, n ≤ m → ∃ q, (s.state m).pools[i]? = some q ∧ q.allEnded = true := by
  obtain ⟨q₀, hq₀, _⟩ := spent h hp hs 0 (s := s)
  obtain ⟨n, q, hq, hended⟩ := exists_allEnded hf h hp ho hs hq₀
  refine ⟨n, fun m hm => ?_⟩
  induction m, hm using Nat.le_induction with
  | base => exact ⟨q, hq, hended⟩
  | succ m hm ih =>
      obtain ⟨r, hr, hended'⟩ := ih
      exact step_allEnded (s.reachable h m) (s.step m) hr (opens h hp ho m) hended'

end Schedule

end Engine

end LoadBench
