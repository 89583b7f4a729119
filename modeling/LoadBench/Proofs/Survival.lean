import LoadBench.Proofs.Conservation
import LoadBench.Proofs.Discipline

/-!
What ends a worker. Nobody but a worker itself changes what it does, and its own steps take it
back to the queue except in three cases: the queue has ended, the call of an execution panicked at
once, or a latch was counted down too often. The last cannot happen to a latch that no more jobs
were made for than it counts.
-/

namespace LoadBench

/-- Whether a worker goes on taking jobs. -/
def Activity.isLive : Activity → Bool
  | .leaving _ | .ended _ => false
  | _ => true

/-- Whether an execution comes to an end by itself once it has begun. -/
def Conduct.settles : Conduct → Bool
  | .succeed | .fail _ | .panic _ => true
  | .panicAtOnce _ | .stall _ => false

/-- Whether all executions come to an end by themselves. -/
def Backend.Settles (b : Backend) : Prop :=
  ∀ executions conn command, (b.execute executions conn command).settles = true

/-- Whether what a worker executes comes to an end by itself. -/
def Activity.settles : Activity → Bool
  | .executing _ conduct => conduct.settles
  | .stalled _ _ => false
  | _ => true

namespace Engine

/-- Why a worker does not go on. -/
inductive Dies (b : Backend) (e : Engine) (p : WorkerPool) (w : Worker) : Prop
  | drained (ha : w.activity = .receiving) (hb : p.queue.buffer = [])
      (hp : p.queue.producing = false)
  | collapsed {job : Job} (ha : w.activity = .holding job)
      (hc : (b.execute e.executions w.conn job.command).outcome? = none)
  | misused {job : Job} (ha : w.activity = .recorded job)
      (hl : ∀ batch, e.batches[job.latch]? = some batch → batch.latch.countDown? = none)
  | left {panicked : Bool} (ha : w.activity = .leaving panicked)

variable {b : Backend} {e next : Engine} {i k : Nat} {p : WorkerPool} {w : Worker}

theorem worker?_put {q : WorkerPool} {a : Activity} {j l : Nat} {w' : Worker}
    (hp : e.pools[i]? = some p) (hw : p.workers[k]? = some w) (hq : q.workers = p.workers)
    (hpools : next.pools = e.pools.set! i (q.setActivity k a))
    (hw' : next.worker? j l = some w') :
    (j = i ∧ l = k ∧ w' = { w with activity := a }) ∨
      (¬ (j = i ∧ l = k) ∧ e.worker? j l = some w') := by
  obtain ⟨p', hp', hl⟩ := worker?_eq_some.mp hw'
  rw [hpools] at hp'
  rcases getElem?_set_cases hp' with ⟨rfl, rfl⟩ | ⟨hne, hold⟩
  · rw [WorkerPool.getElem?_setActivity, hq] at hl
    split at hl
    · next hk =>
        subst hk
        rw [hw] at hl
        cases hl
        exact .inl ⟨rfl, rfl, rfl⟩
    · next hk =>
        exact .inr ⟨fun h => hk h.2.symm, worker?_eq_some.mpr ⟨p, hp, hl⟩⟩
  · exact .inr ⟨fun h => hne h.1.symm, worker?_eq_some.mpr ⟨p', hold, hl⟩⟩

/-- A worker's step leaves the other workers alone, and the worker goes on on its connection
unless there is a reason why it does not. -/
theorem WorkerMove.worker (hp : e.pools[i]? = some p) (hw : p.workers[k]? = some w)
    (h : WorkerMove b e i k p w next) {j l : Nat} {w' : Worker}
    (hw' : next.worker? j l = some w') :
    (j = i ∧ l = k ∧ w'.conn = w.conn ∧ (w'.activity.isLive = true ∨ Dies b e p w)) ∨
      (¬ (j = i ∧ l = k) ∧ e.worker? j l = some w') := by
  have hput {q : WorkerPool} {a : Activity}
      (hpools : next.pools = e.pools.set! i (q.setActivity k a)) (hq : q.workers = p.workers)
      (ha : a.isLive = true ∨ Dies b e p w) :
      (j = i ∧ l = k ∧ w'.conn = w.conn ∧ (w'.activity.isLive = true ∨ Dies b e p w)) ∨
        (¬ (j = i ∧ l = k) ∧ e.worker? j l = some w') := by
    rcases worker?_put hp hw hq hpools hw' with ⟨hi, hk, rfl⟩ | hother
    · exact .inl ⟨hi, hk, rfl, ha⟩
    · exact .inr hother
  cases h with
  | asks ha => exact hput rfl rfl (.inl (by split <;> rfl))
  | takesTurn ha hr => exact hput rfl rfl (.inl rfl)
  | takes ha hq => exact hput rfl rfl (.inl rfl)
  | ends ha hq =>
      obtain ⟨hb, hproducing, rfl⟩ := JobQueue.receive_ended hq
      exact hput rfl rfl (.inr (.drained ha hb hproducing))
  | begins ha hc => exact hput rfl rfl (.inl rfl)
  | collapses ha hc => exact hput rfl rfl (.inr (.collapsed ha hc))
  | stalls ha => exact hput rfl rfl (.inl rfl)
  | finishes ha => exact hput rfl rfl (.inl rfl)
  | counts ha | tallies ha | countsFailure ha => exact hput rfl rfl (.inl rfl)
  | completes ha hb hl => exact hput rfl rfl (.inl rfl)
  | misuses ha hl => exact hput rfl rfl (.inr (.misused ha hl))
  | leaves ha => exact hput rfl rfl (.inr (.left ha))

/-- A worker loses its job only if it does not go on. -/
theorem WorkerMove.lost (h : WorkerMove b e i k p w next) : next.lost = e.lost ∨
    ∃ job, w.activity.job? = some job ∧ next.lost = e.lost ++ [job.origin] ∧ Dies b e p w := by
  cases h with
  | @collapses job ha hc =>
      refine .inr ⟨job, by rw [ha]; rfl, ?_, .collapsed ha hc⟩
      simp [Engine.lost, put, setPool, record, beginExecution, Job.origin]
  | @misuses job ha hl =>
      refine .inr ⟨job, by rw [ha]; rfl, ?_, .misused ha hl⟩
      simp [Engine.lost, put, setPool, record, Job.origin]
  | begins ha hc => exact .inl (by simp [Engine.lost, put, setPool, record, beginExecution])
  | finishes ha => exact .inl (by simp [Engine.lost, put, setPool, record, finishJob])
  | counts ha | tallies ha | countsFailure ha =>
      exact .inl (by simp [Engine.lost, put, setPool, record, countExecution, countFailure, count])
  | completes ha hb hl | leaves ha => exact .inl (by simp [Engine.lost, put, setPool, record])
  | _ => exact .inl rfl

/-- Every pool was there before, with the same workers. -/
def SameWorkers (old new : Array WorkerPool) : Prop :=
  ∀ (i : Nat) (p' : WorkerPool), new[i]? = some p' →
    ∃ p : WorkerPool, old[i]? = some p ∧ p'.workers = p.workers

namespace SameWorkers

variable {pools pools' pools'' : Array WorkerPool}

theorem refl (pools : Array WorkerPool) : SameWorkers pools pools := fun _ p hp => ⟨p, hp, rfl⟩

theorem set {j : Nat} {p p' : WorkerPool} (hp : pools[j]? = some p)
    (hworkers : p'.workers = p.workers) : SameWorkers pools (pools.set! j p') := by
  intro i q hq
  rcases getElem?_set_cases hq with ⟨rfl, rfl⟩ | ⟨_, hold⟩
  · exact ⟨p, hp, hworkers⟩
  · exact ⟨q, hold, rfl⟩

theorem modify {j : Nat} {f : WorkerPool → WorkerPool} (hf : ∀ p, (f p).workers = p.workers) :
    SameWorkers pools (pools.modify j f) := by
  intro i q hq
  rw [Array.getElem?_modify] at hq
  split at hq
  · obtain ⟨p, hp, rfl⟩ := Option.map_eq_some_iff.mp hq
    exact ⟨p, hp, hf p⟩
  · exact ⟨q, hq, rfl⟩

theorem trans (h : SameWorkers pools pools') (h' : SameWorkers pools' pools'') :
    SameWorkers pools pools'' := by
  intro i p'' hp''
  obtain ⟨p', hp', hworkers'⟩ := h' i p'' hp''
  obtain ⟨p, hp, hworkers⟩ := h i p' hp'
  exact ⟨p, hp, hworkers'.trans hworkers⟩

theorem closeDriven (pools : Array WorkerPool) (d : Option Driver) :
    SameWorkers pools (Engine.closeDriven pools d) := by
  cases d with
  | none => exact refl pools
  | some d => exact modify fun p => rfl

theorem withdrawDriven (pools : Array WorkerPool) (d : Option Driver) :
    SameWorkers pools (Engine.withdrawDriven pools d) := by
  cases d with
  | none => exact refl pools
  | some d => exact modify fun p => rfl

end SameWorkers

/-- A caller's step leaves the workers alone, and those that it adds have nothing to do yet. -/
theorem CallerMove.worker (h : CallerMove e next) {j l : Nat} {w' : Worker}
    (hw' : next.worker? j l = some w') :
    e.worker? j l = some w' ∨ e.worker? j l = none ∧ w'.activity = .idle := by
  obtain ⟨p', hp', hl⟩ := worker?_eq_some.mp hw'
  have hsame (hworkers : SameWorkers e.pools next.pools) :
      e.worker? j l = some w' ∨ e.worker? j l = none ∧ w'.activity = .idle := by
    obtain ⟨p, hp, hworkers⟩ := hworkers j p' hp'
    exact .inl (worker?_eq_some.mpr ⟨p, hp, hworkers ▸ hl⟩)
  cases h with
  | quiet h =>
      rcases h.pools with hpools | ⟨pool, hpools⟩
      · exact hsame (hpools ▸ .refl _)
      · exact hsame (hpools ▸ .modify fun p => rfl)
  | opens hr hw hc split =>
      simp only [openPool, Array.getElem?_push] at hp'
      split at hp'
      · cases hp'
        simp at hl
      · exact .inl (worker?_eq_some.mpr ⟨p', hp', hl⟩)
  | @spawns pool workers split stalled p events hr hp he conn =>
      rcases getElem?_set_cases hp' with ⟨rfl, rfl⟩ | ⟨_, hold⟩
      · simp only [WorkerPool.spawn, Array.getElem?_push] at hl
        split at hl
        · next hlast =>
            cases hl
            exact .inr ⟨by simp [worker?, hp, hlast], rfl⟩
        · exact .inl (worker?_eq_some.mpr ⟨p, hp, hl⟩)
      · exact .inl (worker?_eq_some.mpr ⟨p', hold, hl⟩)
  | abandons hr he answer => exact hsame (.modify fun p => rfl)
  | starts hr hp hw he answer =>
      refine hsame (.trans (.set hp ?_) (.closeDriven _ _))
      rfl
  | closes hd hr he hp => exact hsame (.closeDriven _ _)
  | accepts hd hp hh hq | parks hd hp hh hq | drops hd hp hh hq answer =>
      exact hsame (.set hp rfl)
  | withdraws hh answer => exact hsame (.withdrawDriven _ _)
  | submits hd hp hr hw hl hq | submitsParked hd hp hr hw hl hq
  | submitsDropped hd hp hr hw hl hq answer => exact hsame (.set hp rfl)
  | _ => exact hsame (.refl _)

/-- With a backend whose executions come to an end by themselves nobody waits at the gate. -/
theorem WorkerMove.settles (hb : b.Settles) (hp : e.pools[i]? = some p)
    (hw : p.workers[k]? = some w) (hold : w.activity.settles = true)
    (h : WorkerMove b e i k p w next) {j l : Nat} {w' : Worker}
    (hw' : next.worker? j l = some w') :
    e.worker? j l = some w' ∨ w'.activity.settles = true := by
  have hput {q : WorkerPool} {a : Activity}
      (hpools : next.pools = e.pools.set! i (q.setActivity k a)) (hq : q.workers = p.workers)
      (ha : a.settles = true) : e.worker? j l = some w' ∨ w'.activity.settles = true := by
    rcases worker?_put hp hw hq hpools hw' with ⟨_, _, rfl⟩ | ⟨_, hother⟩
    · exact .inr ha
    · exact .inl hother
  cases h with
  | asks ha => exact hput rfl rfl (by split <;> rfl)
  | begins ha hc => exact hput rfl rfl (hb _ _ _)
  | stalls ha =>
      rw [ha] at hold
      cases hold
  | takes ha hq => exact hput rfl rfl rfl
  | ends ha hq => exact hput rfl rfl rfl
  | _ => exact hput rfl rfl rfl

theorem settles_of_reachable (hb : b.Settles) (h : Reachable b e) {i k : Nat} {w : Worker}
    (hw : e.worker? i k = some w) : w.activity.settles = true := by
  induction h generalizing i k w with
  | start => simp [worker?] at hw
  | @step e next label h hs ih =>
      have hm := step_move hs
      change next.bare.worker? i k = some w at hw
      generalize next.bare = after at hm hw
      cases hm with
      | stay permits => exact ih hw
      | latch size => exact ih hw
      | @worker j l p w₀ _ hp hw₀ hm =>
          rcases hm.settles hb hp hw₀ (ih (worker?_eq_some.mpr ⟨p, hp, hw₀⟩)) hw with hold | hnew
          · exact ih hold
          · exact hnew
      | caller _ hm =>
          rcases hm.worker hw with hold | ⟨_, hidle⟩
          · exact ih hold
          · rw [hidle]
            rfl

/-- A worker that has a job goes on with it unless the execution stalls. -/
theorem step_of_busy (hp : e.pools[i]? = some p) (hw : p.workers[k]? = some w) {job : Job}
    (hj : w.activity.job? = some job) (hs : ∀ fault, w.activity ≠ .stalled job fault) :
    ∃ next, e.step b (.act (.worker i k)) = some next := by
  change ∃ next, e.workerStep b i k = some next
  cases ha : w.activity with
  | holding job | executing job conduct | failing job | recorded job =>
      simp [workerStep, hp, hw, ha]
  | finished job failed => cases failed <;> simp [workerStep, hp, hw, ha]
  | stalled job' fault =>
      rw [ha] at hj
      cases hj
      exact absurd ha (hs fault)
  | _ =>
      rw [ha] at hj
      cases hj

theorem not_stalled {a : Activity} (h : a.settles = true) (job : Job) (fault : Option Fault) :
    a ≠ .stalled job fault := by
  rintro rfl
  cases h

/-- A latch that no more jobs were made for than it counts waits for each of them that has not
completed. -/
theorem remaining_pos_of_uncompleted (h : Reachable b e) {latch index : Nat} {batch : Batch}
    (hb : e.batches[latch]? = some batch) (hjobs : batch.jobs ≤ batch.size)
    (hindex : index < batch.jobs) (hc : e.ledger.number (.job latch index) .completed = 0) :
    0 < batch.latch.remaining := by
  have hsound := sound_of_reachable h
  have hlatch := hsound.latches latch batch hb
  have hle : e.ledger.indices .completed latch + {index} ≤ Multiset.range batch.jobs := by
    rw [Multiset.le_iff_count]
    intro other
    have hplaced := (hsound.flow (.job latch other)).placed
    have hmade : e.ledger.made (.job latch other) = if other < batch.jobs then 1 else 0 := by
      simp only [Ledger.made, ledger, Ledger.jobsAt_of_getElem? hb]
    have hrange : (Multiset.range batch.jobs).count other =
        if other < batch.jobs then 1 else 0 := by
      rw [← Multiset.coe_range, Multiset.coe_count, List.count_range]
    rw [Multiset.count_add, Ledger.count_indices, Multiset.count_singleton, hrange]
    split
    · next hother =>
        subst hother
        rw [hc, if_pos hindex]
    · rw [hmade] at hplaced
      omega
  have hcard := Multiset.card_le_card hle
  rw [Multiset.card_add, Multiset.card_singleton, Multiset.card_range] at hcard
  change _ + (e.ledger.indices .completed latch).card = _ at hlatch
  omega

/-- Such a latch waits for each job that a worker has. -/
theorem remaining_pos_of_held (h : Reachable b e) (hp : e.pools[i]? = some p)
    (hw : p.workers[k]? = some w) {job : Job} (hj : w.activity.job? = some job) {batch : Batch}
    (hb : e.batches[job.latch]? = some batch) (hjobs : batch.jobs ≤ batch.size) :
    0 < batch.latch.remaining := by
  have hplaced := ((sound_of_reachable h).flow job.origin).placed
  have hmade := Ledger.made_le_one e.ledger job.origin
  have hheld := List.count_pos_iff.mpr (mem_held hp hw hj)
  rw [count_held] at hheld
  have hindex : job.index < batch.jobs := by
    have hindex : e.ledger.made job.origin = if job.index < batch.jobs then 1 else 0 := by
      simp only [Ledger.made, Job.origin, ledger, Ledger.jobsAt_of_getElem? hb]
    split at hindex
    · assumption
    · omega
  have hcompleted : e.ledger.number job.origin .completed = 0 := by omega
  exact remaining_pos_of_uncompleted h hb hjobs hindex hcompleted

/-- A latch that no more jobs were made for than it counts can be counted down for each of them. -/
theorem not_misused (h : Reachable b e) (hp : e.pools[i]? = some p) (hw : p.workers[k]? = some w)
    {job : Job} (ha : w.activity = .recorded job) {batch : Batch}
    (hb : e.batches[job.latch]? = some batch) (hjobs : batch.jobs ≤ batch.size) :
    batch.latch.countDown? ≠ none := by
  intro hnone
  have hpos := remaining_pos_of_held h hp hw (by rw [ha]; rfl) hb hjobs
  rw [Latch.countDown?_eq_none_iff, Latch.released, beq_iff_eq] at hnone
  omega

theorem Dies.of_bare (h : Dies b e.bare p w) : Dies b e p w := by
  cases h with
  | drained ha hb hp => exact .drained ha hb hp
  | collapsed ha hc => exact .collapsed ha hc
  | misused ha hl => exact .misused ha hl
  | left ha => exact .left ha

/-- A worker after a step goes on, or it did not go on before, or there is a reason for it. -/
theorem step_worker {label : Label} (hs : e.step b label = some next) {j l : Nat} {w' : Worker}
    (hw' : next.worker? j l = some w') : w'.activity.isLive = true ∨ e.worker? j l = some w' ∨
      ∃ p w, e.pools[j]? = some p ∧ p.workers[l]? = some w ∧ Dies b e p w := by
  have hm := step_move hs
  change next.bare.worker? j l = some w' at hw'
  generalize next.bare = after at hm hw'
  cases hm with
  | stay permits => exact .inr (.inl hw')
  | latch size => exact .inr (.inl hw')
  | @worker i k p w _ hp hw h =>
      rcases h.worker hp hw hw' with ⟨rfl, rfl, _, hlive | hdies⟩ | ⟨_, hold⟩
      · exact .inl hlive
      · exact .inr (.inr ⟨p, w, hp, hw, hdies.of_bare⟩)
      · exact .inr (.inl hold)
  | caller _ h =>
      rcases h.worker hw' with hold | ⟨_, hidle⟩
      · exact .inr (.inl hold)
      · left
        rw [hidle]
        rfl

end Engine

end LoadBench
