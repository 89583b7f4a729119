import LoadBench.Proofs.Connections

/-!
A worker keeps the connection that it was started with. It is open until the worker has ended, it is
closed ever after, and nobody else has it at any time. So what is executed on a worker's connection
is what the worker's pool accepted.
-/

namespace LoadBench

theorem le_total {α β : Type} (worth : α → Multiset β) {xs : Array α} {i : Nat} {x : α}
    (h : xs[i]? = some x) : worth x ≤ total worth xs := by
  have hmem : x ∈ xs.toList := by
    rw [Array.mem_toList_iff]
    exact Array.mem_of_getElem? h
  exact List.le_sum_of_mem (List.mem_map.mpr ⟨x, hmem, rfl⟩)

/-- A worker after an operation at its pool has the connection that it had, or it was started just
now. -/
theorem PoolStep.conn {v v' : PoolView} {k : Nat} {w' : Worker} (h : PoolStep v v')
    (hw' : v'.pool.workers[k]? = some w') :
    (∃ w, v.pool.workers[k]? = some w ∧ w.conn = w'.conn) ∨
      v.opening = true ∧ v'.opening = true ∧ k = v.pool.workers.size := by
  have hset {q : WorkerPool} {j : Nat} {a : Activity} (hq : q.workers = v.pool.workers)
      (hj : (q.setActivity j a).workers[k]? = some w') :
      ∃ w, v.pool.workers[k]? = some w ∧ w.conn = w'.conn := by
    rw [WorkerPool.getElem?_setActivity, hq] at hj
    split at hj
    · obtain ⟨w, hw, rfl⟩ := Option.map_eq_some_iff.mp hj
      exact ⟨w, hw, rfl⟩
    · exact ⟨w', hj, rfl⟩
  cases h with
  | asks hw ha => exact .inl (hset rfl hw')
  | takesTurn hw ha hr => exact .inl (hset rfl hw')
  | takes hw ha hq => exact .inl (hset rfl hw')
  | ends hw ha hq => exact .inl (hset rfl hw')
  | works hw hj ha => exact .inl (hset rfl hw')
  | lets hw hj ha => exact .inl (hset rfl hw')
  | leaves hw ha panicked => exact .inl (hset rfl hw')
  | spawns ho conn =>
      simp only [WorkerPool.spawn] at hw'
      rw [Array.getElem?_push] at hw'
      split at hw'
      · next hk => exact .inr ⟨ho, ho, hk⟩
      · exact .inl ⟨w', hw', rfl⟩
  | _ => exact .inl ⟨w', hw', rfl⟩

namespace Engine

variable {b : Backend} {e next : Engine} {label : Label} {i j k l : Nat} {p : WorkerPool}
  {w w' : Worker}

/-- A worker that was started just now has the newest connection. -/
theorem startStep_conn {workers : Nat} {split stalled : Bool} (hp : e.pools[i]? = some p)
    (hs : e.startStep b i workers split stalled = some next)
    (ho : next.progress.opening = some i) (hw' : next.worker? i p.workers.size = some w') :
    w'.conn = e.connections ∧ next.connections = e.connections + 1 := by
  simp only [startStep, hp, Option.bind_eq_bind, Option.bind_some] at hs
  split at hs
  · cases hs
    cases ho
  · simp only [Option.bind_eq_some_iff] at hs
    obtain ⟨⟨dialed, e'⟩, hdial, hs⟩ := hs
    obtain ⟨p', hp', hlast⟩ := worker?_eq_some.mp hw'
    cases dialStep_cases hdial with
    | connects attempts attempt gate =>
        cases hs
        change ((e.pools.modify i fun p => { p with dialed := p.dialed + 1 }).modify i
          (·.spawn e.connections))[i]? = some p' at hp'
        rw [modify_modify_eq_set _ _ hp, getElem?_set_self hp] at hp'
        cases hp'
        simp only [WorkerPool.spawn] at hlast
        rw [Array.getElem?_push_size] at hlast
        cases hlast
        exact ⟨rfl, rfl⟩
    | fails attempts attempt hd =>
        rcases hd with ⟨fault, rfl⟩ | ⟨message, rfl⟩
        · cases hs
          cases ho
        · cases hs
          cases ho
    | parks attempts gate =>
        cases hs
        change e.pools[i]? = some p' at hp'
        cases hp.symm.trans hp'
        rw [Array.getElem?_size] at hlast
        cases hlast

/-- Only a dial of a call to start adds a worker. -/
theorem step_of_spawn {workers : Nat} {split stalled : Bool}
    (hr : e.progress = .starting i workers split stalled) (hp : e.pools[i]? = some p)
    (hs : e.step b label = some next) (ho : next.progress.opening = some i)
    (hw' : next.worker? i p.workers.size = some w') : label = .act .caller := by
  have hnone : e.worker? i p.workers.size = none := by
    simp [worker?, hp]
  cases label with
  | act actor =>
      cases actor with
      | caller => rfl
      | worker j l =>
          exfalso
          obtain ⟨q, w, hq, hw, hm⟩ := workerStep_move hs
          rcases WorkerMove.worker (e := e.bare) hq hw hm hw' with ⟨rfl, rfl, _⟩ | ⟨_, hold⟩
          · cases hp.symm.trans hq
            rw [Array.getElem?_size] at hw
            cases hw
          · change e.worker? i p.workers.size = some w' at hold
            rw [hnone] at hold
            cases hold
  | call request =>
      simp only [step, hr, Progress.atRest, Bool.false_eq_true, if_false] at hs
      cases hs
  | cancel =>
      cases stalled with
      | false => simp [step, cancel, hr] at hs
      | true =>
          simp only [step, cancel, hr, Option.some.injEq] at hs
          cases hs
          cases ho
  | release permits | newLatch jobs =>
      cases hs
      change e.worker? i p.workers.size = some w' at hw'
      rw [hnone] at hw'
      cases hw'

/-- A worker after a step has the connection that it had, or it was started just now with the newest
one. -/
theorem step_conn (h : Reachable b e) (hs : e.step b label = some next)
    (hw' : next.worker? i k = some w') :
    (∃ w, e.worker? i k = some w ∧ w.conn = w'.conn) ∨
      e.progress.opening = some i ∧ (e.pools[i]?.map (·.workers.size)) = some k ∧
        w'.conn = e.connections ∧ next.connections = e.connections + 1 := by
  obtain ⟨p', hp', hk'⟩ := worker?_eq_some.mp hw'
  rcases hp : e.pools[i]? with _ | p
  · obtain ⟨_, ⟨capacity, _, hfresh⟩, _⟩ := (step_views h hs).fresh i _ (view?_eq_none.mpr hp)
      (view?_eq_some.mpr ⟨p', hp', rfl⟩)
    rw [show p'.workers = #[] from congrArg (·.pool.workers) hfresh] at hk'
    cases hk'
  · obtain ⟨q, hq, hstep⟩ := (step_views h hs).pool hp
    cases hp'.symm.trans hq
    rcases hstep with ⟨rfl, _⟩ | hstep
    · exact .inl ⟨w', worker?_eq_some.mpr ⟨p', hp, hk'⟩, rfl⟩
    · rcases hstep.conn hk' with ⟨w, hw, hconn⟩ | ⟨ho, ho', rfl⟩
      · exact .inl ⟨w, worker?_eq_some.mpr ⟨p, hp, hw⟩, hconn⟩
      · right
        have hopening : e.progress.opening = some i := beq_iff_eq.mp ho
        have hopening' : next.progress.opening = some i := beq_iff_eq.mp ho'
        refine ⟨hopening, rfl, ?_⟩
        cases hr : e.progress with
        | starting pool workers split stalled =>
            rw [hr] at hopening
            cases hopening
            rw [step_of_spawn hr hp hs hopening' hw'] at hs
            change e.callerStep b = some next at hs
            simp only [callerStep, hr] at hs
            exact startStep_conn hp hs hopening' hw'
        | _ =>
            rw [hr] at hopening
            cases hopening

/-- Which connections the workers have. -/
structure Numbered (e : Engine) : Prop where
  dialed : ∀ (i k : Nat) (w : Worker), e.worker? i k = some w → w.conn < e.connections
  apart : ∀ (i k j l : Nat) (w w' : Worker), e.worker? i k = some w → e.worker? j l = some w' →
    w.conn = w'.conn → i = j ∧ k = l
  closed : ∀ (i k : Nat) (w : Worker), e.worker? i k = some w → w.activity.hasEnded = true →
    w.conn ∉ e.opened

theorem Numbered.step (hn : Numbered e) (h : Reachable b e) (hs : e.step b label = some next) :
    Numbered next := by
  have howned := owned_of_reachable h
  obtain ⟨hhandling, _⟩ := step_handling howned.undialed hs
  have hle := hhandling.le
  constructor
  · intro i k w' hw'
    rcases step_conn h hs hw' with ⟨w, hw, hconn⟩ | ⟨_, _, hconn, hnext⟩
    · have hlt := hn.dialed i k w hw
      omega
    · omega
  · intro i k j l w₁ w₂ hw₁ hw₂ hsame
    rcases step_conn h hs hw₁ with ⟨w, hw, hconn⟩ | ⟨hi, hk, hconn, _⟩ <;>
      rcases step_conn h hs hw₂ with ⟨w', hw', hconn'⟩ | ⟨hj, hl, hconn', _⟩
    · exact hn.apart i k j l w w' hw hw' (by omega)
    · have hlt := hn.dialed i k w hw
      omega
    · have hlt := hn.dialed j l w' hw'
      omega
    · cases hi.symm.trans hj
      cases hk.symm.trans hl
      exact ⟨rfl, rfl⟩
  · intro i k w' hw' hended hopen
    have hlive : w'.activity.isLive = false := by
      cases ha : w'.activity with
      | ended panicked => rfl
      | _ =>
          rw [ha] at hended
          cases hended
    rcases step_stopped h hs hw' hlive with
      hold | ⟨rfl, p, w, panicked, hp, hw, hconn, ⟨_, ha⟩ | ⟨ha, _⟩⟩
    · rcases hhandling.opened hopen with hopen | ⟨hnew, _⟩
      · exact hn.closed i k w' hold hended hopen
      · have hlt := hn.dialed i k w' hold
        omega
    · rw [ha] at hended
      cases hended
    · rw [step_of_leaving hp hw ha] at hs
      cases hs
      change w'.conn ∈ e.opened.erase w.conn at hopen
      rw [hconn] at hopen
      exact howned.once.not_mem_erase hopen

theorem numbered_of_reachable (h : Reachable b e) : Numbered e := by
  induction h with
  | start => exact ⟨by simp [worker?], by simp [worker?], by simp [worker?]⟩
  | step label h hs ih => exact ih.step h hs

theorem conn_mem_conns (hw : e.worker? i k = some w) (hlive : w.activity.hasEnded = false) :
    w.conn ∈ total WorkerPool.conns e.pools := by
  obtain ⟨p, hp, hw⟩ := worker?_eq_some.mp hw
  apply Multiset.mem_of_le (le_total WorkerPool.conns hp)
  apply Multiset.mem_of_le (le_total _ hw)
  simp [hlive]

/-- The connection of a worker is open until the worker has ended. -/
theorem mem_opened_iff (h : Reachable b e) (hw : e.worker? i k = some w) :
    w.conn ∈ e.opened ↔ w.activity.hasEnded = false := by
  constructor
  · intro hopen
    by_contra hended
    exact (numbered_of_reachable h).closed i k w hw (Bool.eq_true_of_not_eq_false hended) hopen
  · intro hlive
    rw [← Multiset.mem_coe, (owned_of_reachable h).opened]
    apply Multiset.mem_add.mpr
    left
    apply Multiset.mem_add.mpr
    left
    exact conn_mem_conns hw hlive

/-- No worker has the connection that the driver has for its direct phases. -/
theorem conn_ne_slot (h : Reachable b e) (hw : e.worker? i k = some w) {conn : Nat}
    (hslot : e.slot = some conn) : w.conn ≠ conn := by
  rintro rfl
  have howned := owned_of_reachable h
  have hopen : w.conn ∈ e.opened := by
    rw [← Multiset.mem_coe, howned.opened, owned, hslot]
    simp
  have hmem := conn_mem_conns hw ((mem_opened_iff h hw).mp hopen)
  have honce : (e.opened : Multiset Nat).Nodup := howned.once
  rw [howned.opened, owned, hslot] at honce
  have hapart := (Multiset.nodup_add.mp (Multiset.nodup_add.mp honce).1).2.2
  exact Multiset.disjoint_left.mp hapart hmem (by simp)

/-- An execution of the job that a worker has just taken, on the worker's connection. -/
def ByWorker (e : Engine) (x : Execution) : Prop :=
  ∃ (i k : Nat) (p : WorkerPool) (w : Worker) (job : Job), e.pools[i]? = some p ∧
    p.workers[k]? = some w ∧ w.activity = .holding job ∧ w.conn = x.conn ∧ job.origin = x.origin

/-- An execution on a connection that was there. If the connection is a worker's, then it is of a
job that the worker's pool accepted. -/
structure Rightful (e : Engine) (x : Execution) : Prop where
  dialed : x.conn < e.connections
  worker : ∀ (i k : Nat) (w : Worker), e.worker? i k = some w → w.conn = x.conn →
    ∃ (p : WorkerPool) (job : Job), e.pools[i]? = some p ∧ job ∈ p.queue.accepted ∧
      job.origin = x.origin

/-- What is executed is executed on the driver's connection or on that of the worker that has the
job. -/
theorem step_executes (h : Reachable b e) (hs : e.step b label = some next) {x : Execution}
    (hx : x ∈ next.executions) : x ∈ e.executions ∨ e.slot = some x.conn ∨ e.ByWorker x := by
  cases hl : label.ofCaller with
  | true =>
      rcases (step_handles (owned_of_reachable h).undialed hs hl).executions x hx with hold | hslot
      · exact .inl hold
      · exact .inr (.inl hslot)
  | false =>
      have hm := step_move hs
      change x ∈ next.bare.executions at hx
      generalize next.bare = after at hm hx
      cases hm with
      | stay permits => exact .inl hx
      | latch size => exact .inl hx
      | caller hl' hm =>
          rw [hl] at hl'
          cases hl'
      | @worker j l p w _ hp hw hm =>
          have hnew {job : Job} {conduct : Conduct} (ha : w.activity = .holding job)
              (hx : x ∈ e.executions.push ⟨w.conn, job.command, job.origin, conduct⟩) :
              x ∈ e.executions ∨ e.slot = some x.conn ∨ e.ByWorker x := by
            rcases Array.mem_push.mp hx with hold | rfl
            · exact .inl hold
            · exact .inr (.inr ⟨j, l, p, w, job, hp, hw, ha, rfl, rfl⟩)
          cases hm with
          | begins ha hc => exact hnew ha hx
          | collapses ha hc => exact hnew ha hx
          | _ => exact .inl hx

/-- A worker that is started later has a connection on which nothing was executed. -/
theorem Rightful.step {x : Execution} (hx : Rightful e x) (h : Reachable b e)
    (hs : e.step b label = some next) : Rightful next x := by
  have hle := (step_handling (owned_of_reachable h).undialed hs).1.le
  have hlt := hx.dialed
  constructor
  · omega
  · intro i k w' hw' hconn'
    rcases step_conn h hs hw' with ⟨w, hw, hconn⟩ | ⟨_, _, hconn, _⟩
    · obtain ⟨p, job, hp, hjob, ho⟩ := hx.worker i k w hw (hconn.trans hconn')
      obtain ⟨p', hp', hfollows⟩ := (step_views h hs).follows hp
      exact ⟨p', job, hp', hfollows.mem_accepted hjob, ho⟩
    · omega

theorem rightful_of_reachable (h : Reachable b e) {x : Execution} (hx : x ∈ e.executions) :
    Rightful e x := by
  induction h with
  | start => simp at hx
  | @step e next label h hs ih =>
      have hnumbered := numbered_of_reachable h
      rcases step_executes h hs hx with hold | hslot | ⟨j, l, p, w, job, hp, hw, ha, hconn, ho⟩
      · exact (ih hold).step h hs
      · refine Rightful.step ⟨?_, ?_⟩ h hs
        · apply (owned_of_reachable h).dialed
          rw [← Multiset.mem_coe, (owned_of_reachable h).opened, owned, hslot]
          simp
        · intro i k w hw hconn
          exact absurd hconn (conn_ne_slot h hw hslot)
      · have hworker := worker?_eq_some.mpr ⟨p, hp, hw⟩
        refine Rightful.step ⟨?_, ?_⟩ h hs
        · rw [← hconn]
          exact hnumbered.dialed j l w hworker
        · intro i k w' hw' hconn'
          obtain ⟨rfl, rfl⟩ := hnumbered.apart i k j l w' w hw' hworker (hconn'.trans hconn.symm)
          refine ⟨p, job, hp, ?_, ho⟩
          exact (traced_of_reachable h).jobs i p job hp (.inr ⟨k, w, hw, by rw [ha]; rfl⟩)

end Engine

end LoadBench
