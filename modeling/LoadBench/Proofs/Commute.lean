import LoadBench.Proofs.Enabled

/-!
How far the caller's call has come decides which step of its own is next, and nothing else. A
worker's step is the same during every call, and so is the step that a phase takes from a point,
whatever remains to be done after the phase and whatever was reported before it.

Only a direct phase looks at how many direct phases there were.
-/

namespace LoadBench.Engine

variable {b : Backend} {e next : Engine} {d : Driver} {phase : Phase} {point : Point}

/-- The engine during another call, after so many direct phases. -/
def withCall (e : Engine) (progress : Progress) (runs : Nat) : Engine :=
  { e with progress, directRuns := runs }

theorem workerStep_withCall (e : Engine) (progress : Progress) (runs i k : Nat) :
    (e.withCall progress runs).workerStep b i k =
      (e.workerStep b i k).map fun next => next.withCall progress runs := by
  have hpools : (e.withCall progress runs).pools = e.pools := rfl
  unfold workerStep
  rw [hpools]
  rcases e.pools[i]? with _ | p
  · rfl
  simp only [Option.bind_eq_bind, Option.bind_some]
  rcases p.workers[k]? with _ | w
  · rfl
  simp only [Option.bind_some]
  cases ha : w.activity with
  | queued =>
      dsimp only
      split <;> rfl
  | receiving =>
      dsimp only
      unfold receiveJob
      split <;> rfl
  | holding job =>
      dsimp only [beginJob, beginExecution, withCall]
      split <;> rfl
  | executing job conduct =>
      cases conduct with
      | stall fault =>
          dsimp only [proceedJob, withCall]
          split <;> rfl
      | _ => rfl
  | stalled job fault =>
      dsimp only
      by_cases hg : e.gate.ready (.worker i k) = true
      · rw [if_pos hg, if_pos (show (e.withCall progress runs).gate.ready _ = true from hg)]
        rfl
      · rw [if_neg hg, if_neg (show ¬ (e.withCall progress runs).gate.ready _ = true from hg)]
        rfl
  | finished job failed => cases failed <;> rfl
  | recorded job =>
      dsimp only [completeJob, countDown?, withCall]
      rcases e.batches[job.latch]? with _ | batch
      · rfl
      · rcases hl : batch.latch.countDown? with _ | left
        · simp [hl]
          rfl
        · simp [hl]
          rfl
  | _ => rfl

theorem pooledStep_withCall (e : Engine) (progress : Progress) (runs : Nat) :
    (e.withCall progress runs).pooledStep d phase point =
      (e.pooledStep d phase point).map fun x => (x.1, x.2.withCall progress runs) := by
  have hpools : (e.withCall progress runs).pools = e.pools := rfl
  cases point with
  | generating latch index =>
      dsimp only [pooledStep]
      split
      · split <;> rfl
      · rfl
  | offering latch index job =>
      dsimp only [pooledStep]
      rw [hpools]
      rcases e.pools[d.pool]? with _ | p
      · rfl
      · dsimp only [Option.bind_eq_bind, Option.bind_some, Option.map_some]
        rcases p.queue.offer () job with ⟨_ | _ | _, queue⟩ <;> rfl
  | waiting latch index job =>
      dsimp only [pooledStep]
      rw [hpools]
      rcases e.pools[d.pool]? with _ | p
      · rfl
      · dsimp only [Option.bind_eq_bind, Option.bind_some]
        split
        · rcases p.queue.reoffer () job with ⟨_ | _ | _, queue⟩ <;> rfl
        · rfl
  | awaiting latch =>
      dsimp only [pooledStep]
      by_cases hl : e.isReleased latch = true
      · rw [if_pos hl, if_pos (show (e.withCall progress runs).isReleased latch = true from hl)]
        rfl
      · rw [if_neg hl, if_neg (show ¬ (e.withCall progress runs).isReleased latch = true from hl)]
        rfl
  | _ => rfl

theorem dialStep_withCall (e : Engine) (progress : Progress) (runs : Nat) (stalled : Bool) :
    (e.withCall progress runs).dialStep b stalled =
      (e.dialStep b stalled).map fun x => (x.1, x.2.withCall progress runs) := by
  have hgate : (e.withCall progress runs).gate = e.gate := rfl
  have hattempts : (e.withCall progress runs).dialAttempts = e.dialAttempts := rfl
  cases stalled with
  | false =>
      dsimp only [dialStep, beginDial]
      rw [hattempts]
      cases b.dial e.dialAttempts with
      | stall =>
          dsimp only
          rw [hgate]
          rcases e.gate.request .caller with ⟨_ | _ | _, gate⟩ <;> rfl
      | _ => rfl
  | true =>
      dsimp only [dialStep, resumeDial]
      rw [hgate]
      by_cases hg : e.gate.ready .caller = true
      · simp only [hg, Bool.not_true, Bool.false_eq_true, if_false, if_true, Option.map_some]
        rcases e.gate.resume .caller with ⟨_ | _ | _, gate⟩ <;> rfl
      · simp [hg]

theorem directStep_withProgress (e : Engine) (progress : Progress) :
    (e.withCall progress e.directRuns).directStep b d phase point =
      (e.directStep b d phase point).map fun x =>
        (x.1, x.2.withCall progress x.2.directRuns) := by
  have hgate : (e.withCall progress e.directRuns).gate = e.gate := rfl
  have hexecutions : (e.withCall progress e.directRuns).executions = e.executions := rfl
  have hdial (stalled : Bool) {dialed : Dialed} {e' : Engine}
      (hs : e.dialStep b stalled = some (dialed, e')) : e'.directRuns = e.directRuns := by
    cases dialStep_cases hs <;> rfl
  cases point with
  | connecting =>
      dsimp only [directStep]
      rw [dialStep_withCall]
      rcases hs : e.dialStep b false with _ | ⟨dialed, e'⟩
      · rfl
      · rw [← hdial false hs]
        cases dialed <;> rfl
  | dialing =>
      dsimp only [directStep]
      rw [dialStep_withCall]
      rcases hs : e.dialStep b true with _ | ⟨dialed, e'⟩
      · rfl
      · rw [← hdial true hs]
        cases dialed <;> rfl
  | preparing run index =>
      dsimp only [directStep]
      split
      · split <;> rfl
      · rfl
  | issuing run index command =>
      dsimp only [directStep, beginExecution]
      rw [hexecutions]
      rcases d.direct with _ | conn
      · rfl
      · dsimp only [Option.bind_eq_bind, Option.bind_some]
        cases b.execute e.executions conn command <;> rfl
  | executing run index conduct =>
      cases conduct with
      | stall fault =>
          dsimp only [directStep]
          rw [hgate]
          rcases e.gate.request .caller with ⟨_ | _ | _, gate⟩
          · cases fault <;> rfl
          · rfl
          · rfl
      | _ => rfl
  | stalled run index fault =>
      dsimp only [directStep]
      by_cases hg : e.gate.ready .caller = true
      · rw [if_pos hg, if_pos (show (e.withCall progress e.directRuns).gate.ready _ = true from hg)]
        cases fault <;> rfl
      · rw [if_neg hg,
          if_neg (show ¬ (e.withCall progress e.directRuns).gate.ready _ = true from hg)]
        rfl
  | finished run index failed => cases failed <;> rfl
  | _ => rfl

theorem cancelPoint_withCall (e : Engine) (progress : Progress) (runs : Nat) :
    (e.withCall progress runs).cancelPoint point =
      (e.cancelPoint point).map fun next => next.withCall progress runs := by
  cases point with
  | waiting latch index job =>
      have hdriver : (e.withCall progress runs).driver = e.driver := rfl
      dsimp only [cancelPoint, withdrawJob]
      rw [hdriver]
      cases e.driver <;> rfl
  | _ => rfl

/-- The step of a pooled phase counts no direct phase. -/
theorem directRuns_pooledStep {turn : Turn} (hs : e.pooledStep d phase point = some (turn, next)) :
    next.directRuns = e.directRuns := by
  cases pooledStep_cases hs <;> rfl

theorem phaseTurn_withProgress (e : Engine) (progress : Progress) {run : PhaseRun} :
    (e.withCall progress e.directRuns).phaseTurn b d run =
      (e.phaseTurn b d run).map fun x => (x.1, x.2.withCall progress x.2.directRuns) := by
  cases hm : run.phase.mode with
  | pooled =>
      simp only [phaseTurn, hm, pooledStep_withCall]
      rcases hs : e.pooledStep d run.phase run.point with _ | ⟨turn, e'⟩
      · rfl
      · rw [Option.map_some, Option.map_some, directRuns_pooledStep hs]
  | direct =>
      simp only [phaseTurn, hm]
      exact directStep_withProgress e progress

/-- What is not a step of the caller's is the same during every call. -/
theorem step_withCall {label : Label} (hl : label.ofCaller = false) (e : Engine)
    (progress : Progress) (runs : Nat) :
    (e.withCall progress runs).step b label =
      (e.step b label).map fun next => next.withCall progress runs := by
  cases label with
  | act actor =>
      cases actor with
      | caller => cases hl
      | worker i k => exact workerStep_withCall e progress runs i k
  | call request | cancel => cases hl
  | release permits | newLatch jobs => rfl

/-- What is not a step of the caller's leaves its call where it is. -/
theorem step_of_others {label : Label} (hs : e.step b label = some next)
    (hl : label.ofCaller = false) :
    next.progress = e.progress ∧ next.directRuns = e.directRuns ∧ next.driver = e.driver := by
  have hsame := step_withCall (b := b) hl e e.progress e.directRuns
  change e.step b label = _ at hsame
  rw [hs, Option.map_some, Option.some.injEq] at hsame
  refine ⟨by rw [hsame]; rfl, by rw [hsame]; rfl, ?_⟩
  have hm := step_move hs
  change next.bare.driver = e.bare.driver
  generalize next.bare = after at hm ⊢
  cases hm with
  | stay permits | latch size => rfl
  | worker hp hw h => exact h.driver
  | caller hl' _ =>
      rw [hl] at hl'
      cases hl'

end LoadBench.Engine
