import LoadBench.Engine.Work
import LoadBench.Proofs.Records
import LoadBench.Proofs.Run
import LoadBench.Proofs.Survival

/-!
What a pool owes to the jobs that its workers take, and what it costs if the call of an execution
panics at once. As long as no latch is given more jobs than it counts, that panic is the only thing
that keeps a job from being counted and completed, and the only thing that ends a worker before its
queue is closed and drained.
-/

namespace LoadBench

/-- Whether a job was executed by a call that panicked before there was anything to wait for. -/
def Execution.Collapsed (x : Execution) (latch index : Nat) : Prop :=
  x.origin = .job latch index ∧ ∃ message, x.conduct = .panicAtOnce message

/-- A queue that is closed and empty. -/
def WorkerPool.Drained (p : WorkerPool) : Prop := p.queue.producing = false ∧ p.queue.buffer = []

theorem Conduct.outcome?_eq_none {c : Conduct} :
    c.outcome? = none ↔ ∃ message, c = .panicAtOnce message := by
  cases c <;> simp [outcome?]

/-- A queue that is closed and empty remains so. -/
theorem PoolStep.drained {v v' : PoolView} (h : PoolStep v v') (hd : v.pool.Drained) :
    v'.pool.Drained := by
  obtain ⟨hproducing, hbuffer⟩ := hd
  have hdrop (q : JobQueue Job Unit Nat) (hp : q.producing = false) (hb : q.buffer = []) :
      q.dropReceiver.producing = false ∧ q.dropReceiver.buffer = [] := by
    refine ⟨JobQueue.producing_dropReceiver.trans hp, List.eq_nil_iff_forall_not_mem.mpr ?_⟩
    intro job hmem
    have hmem := JobQueue.mem_buffer_dropReceiver hmem
    rw [hb] at hmem
    cases hmem
  cases h with
  | asks hw ha =>
      exact ⟨JobQueue.producing_ask.trans hproducing,
        (JobQueue.buffer_of_items JobQueue.items_ask).trans hbuffer⟩
  | takesTurn hw ha hr =>
      exact ⟨JobQueue.producing_takeTurn.trans hproducing,
        (JobQueue.buffer_of_items JobQueue.items_takeTurn).trans hbuffer⟩
  | takes hw ha hq =>
      obtain ⟨rest, hb, _⟩ := JobQueue.receive_item hq
      rw [hbuffer] at hb
      cases hb
  | ends hw ha hq =>
      obtain ⟨_, _, rfl⟩ := JobQueue.receive_ended hq
      exact ⟨hproducing, hbuffer⟩
  | leaves hw ha panicked => exact hdrop v.pool.queue hproducing hbuffer
  | abandons ho => exact hdrop v.pool.queue.close rfl hbuffer
  | starts ho => exact hdrop v.pool.queue hproducing hbuffer
  | closes ho hw => exact ⟨rfl, hbuffer⟩
  | accepts hp hq =>
      rw [hproducing] at hp
      cases hp
  | parks hw hq =>
      obtain ⟨_, _, _, rfl⟩ := JobQueue.offer_parked hq
      exact ⟨hproducing, hbuffer⟩
  | @refuses job queue hq =>
      refine ⟨?_, (JobQueue.buffer_of_items (JobQueue.items_enter_refused hq)).trans hbuffer⟩
      have henter : (v.pool.queue.enter v.waiting job).2.producing = v.pool.queue.producing :=
        JobQueue.producing_enter
      rw [hq] at henter
      exact henter.trans hproducing
  | _ => exact ⟨hproducing, hbuffer⟩

namespace Engine

/-- Whether a label is a step of a certain worker. -/
def Label.isOf (i k : Nat) : Label → Bool
  | .act (.worker i' k') => i' == i && k' == k
  | _ => false

theorem Label.isOf_iff {i k : Nat} {label : Label} :
    label.isOf i k = true ↔ label = .act (.worker i k) := by
  cases label with
  | act actor => cases actor <;> simp [isOf]
  | _ => simp [isOf]

/-- No latch was given more jobs than it counts. -/
def Roomy (e : Engine) : Prop :=
  ∀ (latch : Nat) (batch : Batch), e.batches[latch]? = some batch → batch.jobs ≤ batch.size

/-- A job was executed, its execution was counted and then its failure if it failed, and after that
it was completed. -/
def Settled (e : Engine) (latch index : Nat) : Prop :=
  ∃ x ∈ e.executions, ∃ failed, x.origin = .job latch index ∧ x.conduct.outcome? = some failed ∧
    [.tallied (.job latch index), .counted (.job latch index) failed,
      .completed latch index].Sublist e.events.toList

/-- Why a worker may have ended. -/
def Excused (e : Engine) (i : Nat) (w : Worker) : Prop :=
  (∃ p, e.pools[i]? = some p ∧ p.Drained) ∨
    (∃ x ∈ e.executions, x.conn = w.conn ∧ ∃ latch index, x.Collapsed latch index) ∨ ¬ e.Roomy

variable {b : Backend} {e next : Engine} {i k : Nat} {p : WorkerPool} {w : Worker}
  {latch index : Nat}

theorem settled_of_completed (h : Reachable b e) (hc : .job latch index ∈ e.completed) :
    e.Settled latch index := by
  obtain ⟨failed, hsublist⟩ := counted_of_completed h hc
  have hmem : .job latch index ∈ e.recorded failed :=
    mem_recorded.mpr (hsublist.subset (List.mem_cons_of_mem _ List.mem_cons_self))
  obtain ⟨x, hx, ho, hout⟩ := attempted_of_recorded h hmem
  exact ⟨x, hx, failed, ho, hout, hsublist⟩

theorem step_executions {label : Label} (hs : e.step b label = some next) {x : Execution}
    (hx : x ∈ e.executions) : x ∈ next.executions := by
  rcases (step_move hs).executions with hsame | ⟨y, _, _, hpush, _⟩ |
    ⟨_, _, _, _, _, _, _, _, _, hpush⟩
  · change next.executions = e.executions at hsame
    rwa [hsame]
  · change next.executions = e.executions.push y at hpush
    rw [hpush]
    exact Array.mem_push_of_mem _ hx
  · change next.executions = e.executions.push _ at hpush
    rw [hpush]
    exact Array.mem_push_of_mem _ hx

/-- A latch that was given too many jobs keeps them. -/
theorem Roomy.of_step {label : Label} (h : Reachable b e) (hs : e.step b label = some next)
    (hroom : next.Roomy) : e.Roomy := by
  intro latch batch hb
  obtain ⟨batch', hb', _, hsize, hjobs, _⟩ := (step_move hs).batch (fitting_of_reachable h).bare hb
  have hle := hroom latch batch' hb'
  omega

theorem Excused.step {label : Label} (h : Reachable b e) (hs : e.step b label = some next)
    (hx : e.Excused i w) : next.Excused i w := by
  rcases hx with ⟨p, hp, hdrained⟩ | ⟨x, hx, hcollapsed⟩ | hroom
  · obtain ⟨p', hp', hstep⟩ := (step_views h hs).pool hp
    refine .inl ⟨p', hp', ?_⟩
    rcases hstep with ⟨rfl, _⟩ | hstep
    · exact hdrained
    · exact hstep.drained hdrained
  · exact .inr (.inl ⟨x, step_executions hs hx, hcollapsed⟩)
  · exact .inr (.inr fun hnext => hroom (hnext.of_step h hs))

/-- What becomes of a worker in its own step. The step takes its job one station on or completes it,
and then the worker goes on with the same connection, unless the call panics at once or the latch
was given too many jobs. -/
structure Served (next : Engine) (i : Nat) (w w' : Worker) : Prop where
  conn : w'.conn = w.conn
  live : w'.activity.isLive = true ∨ next.Excused i w'
  job : ∀ job, w.activity.job? = some job →
    w'.activity.job? = some job ∧ w'.activity.work < w.activity.work ∨
    w'.activity = .idle ∧ job.origin ∈ next.completed ∨
    (∃ x ∈ next.executions, x.Collapsed job.latch job.index) ∨
    w.activity = .recorded job ∧ ¬ next.Roomy

theorem WorkerMove.served (hp : e.pools[i]? = some p) (hw : p.workers[k]? = some w)
    (h : WorkerMove b e i k p w next) (hold : w.activity.isLive = true ∨ next.Excused i w)
    (hroom : ∀ job, w.activity = .recorded job →
      (∀ batch, e.batches[job.latch]? = some batch → batch.latch.countDown? = none) → ¬ e.Roomy) :
    ∃ w', next.worker? i k = some w' ∧ next.Served i w w' := by
  have hput {q : WorkerPool} {a : Activity}
      (hpools : next.pools = e.pools.set! i (q.setActivity k a)) (hq : q.workers = p.workers) :
      next.worker? i k = some { w with activity := a } := by
    refine worker?_eq_some.mpr ⟨q.setActivity k a, ?_, ?_⟩
    · rw [hpools]
      exact getElem?_set_self hp _
    · rw [WorkerPool.getElem?_setActivity, if_pos rfl, hq, hw]
      rfl
  have hnone {P : Job → Prop} (ha : w.activity.job? = none) (job : Job)
      (hj : w.activity.job? = some job) : P job := by
    rw [ha] at hj
    cases hj
  cases h with
  | asks ha =>
      refine ⟨_, hput rfl rfl, rfl, .inl ?_, hnone (by rw [ha]; rfl)⟩
      simp only
      split <;> rfl
  | takesTurn ha hr => exact ⟨_, hput rfl rfl, rfl, .inl rfl, hnone (by rw [ha]; rfl)⟩
  | takes ha hq => exact ⟨_, hput rfl rfl, rfl, .inl rfl, hnone (by rw [ha]; rfl)⟩
  | ends ha hq =>
      obtain ⟨hbuffer, hproducing, rfl⟩ := JobQueue.receive_ended hq
      refine ⟨_, hput rfl rfl, rfl, .inr (.inl ?_), hnone (by rw [ha]; rfl)⟩
      exact ⟨_, getElem?_set_self hp _, hproducing, hbuffer⟩
  | @begins job failed ha hc =>
      refine ⟨_, hput rfl rfl, rfl, .inl rfl, fun job' hj => .inl ?_⟩
      rw [ha] at hj ⊢
      cases hj
      exact ⟨rfl, by simp [Activity.work]⟩
  | @collapses job ha hc =>
      have hmem : ⟨w.conn, job.command, job.origin, b.execute e.executions w.conn job.command⟩ ∈
          (e.executions.push ⟨w.conn, job.command, job.origin,
            b.execute e.executions w.conn job.command⟩) := Array.mem_push_self
      obtain ⟨message, hmessage⟩ := Conduct.outcome?_eq_none.mp hc
      refine ⟨_, hput rfl rfl, rfl,
        .inr (.inr (.inl ⟨_, hmem, rfl, job.latch, job.index, rfl, ?_⟩)),
        fun job' hj => .inr (.inr (.inl ?_))⟩
      · exact ⟨message, hmessage⟩
      · rw [ha] at hj
        cases hj
        exact ⟨_, hmem, rfl, message, hmessage⟩
  | stalls ha =>
      refine ⟨_, hput rfl rfl, rfl, .inl rfl, fun job' hj => .inl ?_⟩
      rw [ha] at hj ⊢
      cases hj
      exact ⟨rfl, by simp [Activity.work]⟩
  | @finishes job failed ha =>
      refine ⟨_, hput rfl rfl, rfl, .inl rfl, fun job' hj => .inl ?_⟩
      cases hact : w.activity <;> simp_all [Activity.outcome?, Activity.job?, Activity.work]
  | counts ha | tallies ha | countsFailure ha =>
      refine ⟨_, hput rfl rfl, rfl, .inl rfl, fun job' hj => .inl ?_⟩
      rw [ha] at hj ⊢
      cases hj
      exact ⟨rfl, by simp [Activity.work]⟩
  | @completes job batch left ha hb hl =>
      refine ⟨_, hput rfl rfl, rfl, .inl rfl, fun job' hj => .inr (.inl ⟨rfl, ?_⟩)⟩
      rw [ha] at hj
      cases hj
      simp [Engine.completed, put, setPool, record, Job.origin]
  | @misuses job ha hl =>
      have hover := hroom job ha hl
      refine ⟨_, hput rfl rfl, rfl, .inr (.inr (.inr hover)),
        fun job' hj => .inr (.inr (.inr ⟨?_, hover⟩))⟩
      rw [ha] at hj ⊢
      cases hj
      rfl
  | leaves ha =>
      refine ⟨_, hput rfl rfl, rfl, ?_, hnone (by rw [ha]; rfl)⟩
      rw [ha] at hold
      rcases hold with hlive | hexcused
      · cases hlive
      · exact .inr hexcused

/-- A worker cannot count its job down only on a latch that was given too many jobs. -/
theorem not_roomy_of_misused (h : Reachable b e) (hp : e.pools[i]? = some p)
    (hw : p.workers[k]? = some w) {job : Job} (ha : w.activity = .recorded job)
    (hl : ∀ batch, e.batches[job.latch]? = some batch → batch.latch.countDown? = none) :
    ¬ e.Roomy := by
  intro hroom
  have hjob := (traced_of_reachable h).jobs i p job hp (.inr ⟨k, w, hw, by rw [ha]; rfl⟩)
  have hlt := latch_lt_of_accepted h hp hjob
  obtain ⟨batch, hb⟩ : ∃ batch, e.batches[job.latch]? = some batch :=
    ⟨_, Array.getElem?_eq_getElem hlt⟩
  exact not_misused h hp hw ha hb (hroom job.latch batch hb) (hl batch hb)

/-- A worker that has ended, or is about to, has a reason. -/
theorem excused_of_reachable (h : Reachable b e) {i k : Nat} {w : Worker}
    (hw : e.worker? i k = some w) : w.activity.isLive = true ∨ e.Excused i w := by
  induction h generalizing i k w with
  | start => simp [worker?] at hw
  | @step e next label h hs ih =>
      have hkeep (hold : e.worker? i k = some w) : w.activity.isLive = true ∨ next.Excused i w :=
        (ih hold).imp_right (Excused.step h hs)
      have hexcused {i : Nat} {w : Worker} (hx : e.Excused i w) : next.bare.Excused i w := by
        change next.Excused i w
        exact hx.step h hs
      have hm := step_move hs
      change next.bare.worker? i k = some w at hw
      change _ ∨ next.bare.Excused i w
      change e.worker? i k = some w → _ ∨ next.bare.Excused i w at hkeep
      generalize next.bare = after at hm hw hkeep hexcused ⊢
      cases hm with
      | stay permits => exact hkeep hw
      | latch size => exact hkeep hw
      | @worker i' k' p w₀ _ hp hw₀ hm =>
          rcases hm.worker hp hw₀ hw with ⟨rfl, rfl, _⟩ | ⟨_, hold⟩
          · have hold := (ih (worker?_eq_some.mpr ⟨p, hp, hw₀⟩)).imp_right hexcused
            have hroom (job : Job) (ha : w₀.activity = .recorded job)
                (hl : ∀ batch, e.batches[job.latch]? = some batch →
                  batch.latch.countDown? = none) : ¬ e.Roomy :=
              not_roomy_of_misused h hp hw₀ ha hl
            obtain ⟨w', hw', hserved⟩ := hm.served hp hw₀ hold hroom
            rw [hw] at hw'
            cases hw'
            exact hserved.live
          · exact hkeep hold
      | caller _ hm =>
          rcases hm.worker hw with hold | ⟨_, hidle⟩
          · exact hkeep hold
          · rw [hidle]
            exact .inl rfl

theorem step_served (h : Reachable b e) (hw : e.worker? i k = some w)
    (hs : e.step b (.act (.worker i k)) = some next) :
    ∃ w', next.worker? i k = some w' ∧ next.Served i w w' := by
  have hold := (excused_of_reachable h hw).imp_right (Excused.step h hs)
  obtain ⟨p, hp, hw⟩ := worker?_eq_some.mp hw
  have hroom (job : Job) (ha : w.activity = .recorded job)
      (hl : ∀ batch, e.batches[job.latch]? = some batch → batch.latch.countDown? = none) :
      ¬ e.Roomy :=
    not_roomy_of_misused h hp hw ha hl
  have hserved {p' : WorkerPool} {w' : Worker} (hp' : e.bare.pools[i]? = some p')
      (hw' : p'.workers[k]? = some w') (hm : WorkerMove b e.bare i k p' w' next.bare) :
      ∃ w', next.worker? i k = some w' ∧ next.Served i w w' := by
    cases hp.symm.trans hp'
    cases hw.symm.trans hw'
    obtain ⟨w', hw', hserved⟩ := hm.served hp' hw' hold hroom
    exact ⟨w', hw', hserved.conn, hserved.live, hserved.job⟩
  have hm := step_move hs
  generalize hnext : next.bare = after at hm
  cases hm with
  | worker hp' hw' hm =>
      subst hnext
      exact hserved hp' hw' hm
  | caller hl _ => cases hl

/-- Nobody else touches a worker. -/
theorem step_other {label : Label} (h : Reachable b e) (hs : e.step b label = some next)
    (hl : label.isOf i k = false) (hw : e.worker? i k = some w) : next.worker? i k = some w := by
  obtain ⟨p, hp, hworker⟩ := worker?_eq_some.mp hw
  obtain ⟨p', hp', hfollows⟩ := (step_views h hs).follows hp
  obtain ⟨w', hworker', _⟩ := hfollows.extended.2 k w hworker
  have hw' : next.bare.worker? i k = some w' := worker?_eq_some.mpr ⟨p', hp', hworker'⟩
  have hm := step_move hs
  change next.bare.worker? i k = some w
  generalize next.bare = after at hm hw' ⊢
  have hsame (hold : e.worker? i k = some w') : after.worker? i k = some w := by
    rw [hw] at hold
    cases hold
    exact hw'
  cases hm with
  | stay permits => exact hw
  | latch size => exact hw
  | worker hp₀ hw₀ hm =>
      rcases hm.worker hp₀ hw₀ hw' with ⟨rfl, rfl, _⟩ | ⟨_, hold⟩
      · simp [Label.isOf] at hl
      · exact hsame hold
  | caller _ hm =>
      rcases hm.worker hw' with hold | ⟨hnone, _⟩
      · exact hsame hold
      · change e.worker? i k = none at hnone
        rw [hw] at hnone
        cases hnone

theorem step_completed {label : Label} {o : Origin} (hs : e.step b label = some next)
    (ho : o ∈ e.completed) : o ∈ next.completed := by
  obtain ⟨l, hl, _⟩ := step_reports hs
  rw [completed, hl, List.filterMap_append]
  exact List.mem_append_left _ ho

/-- What can come between a worker and the completion of its job. -/
def Thwarted (e : Engine) (job : Job) : Prop :=
  (∃ x ∈ e.executions, x.Collapsed job.latch job.index) ∨ ¬ e.Roomy

theorem Thwarted.step {label : Label} {job : Job} (h : Reachable b e)
    (hs : e.step b label = some next) (ht : e.Thwarted job) : next.Thwarted job := by
  rcases ht with ⟨x, hx, hcollapsed⟩ | hroom
  · exact .inl ⟨x, step_executions hs hx, hcollapsed⟩
  · exact .inr fun hnext => hroom (hnext.of_step h hs)

theorem run_completed {labels : List Label} {o : Origin} (hr : e.run b labels = some next)
    (ho : o ∈ e.completed) : o ∈ next.completed := by
  induction labels generalizing e with
  | nil =>
      cases hr
      exact ho
  | cons label labels ih =>
      obtain ⟨mid, hs, hr⟩ := run_cons.mp hr
      exact ih hr (step_completed hs ho)

theorem Thwarted.run {labels : List Label} {job : Job} (h : Reachable b e)
    (hr : e.run b labels = some next) (ht : e.Thwarted job) : next.Thwarted job := by
  induction labels generalizing e with
  | nil =>
      cases hr
      exact ht
  | cons label labels ih =>
      obtain ⟨mid, hs, hr⟩ := run_cons.mp hr
      exact ih (h.step label hs) hr (ht.step h hs)

/-- A worker that has a job still has it, nearer to its completion by the steps that it took, or it
completed the job, whatever others did in between. -/
theorem run_served {labels : List Label} (h : Reachable b e) (hw : e.worker? i k = some w)
    {job : Job} (hj : w.activity.job? = some job) (hr : e.run b labels = some next) :
    (∃ w', next.worker? i k = some w' ∧ w'.activity.job? = some job ∧
      w'.activity.work + labels.countP (Label.isOf i k) ≤ w.activity.work) ∨
    job.origin ∈ next.completed ∨ next.Thwarted job := by
  induction labels generalizing e w with
  | nil =>
      cases hr
      exact .inl ⟨w, hw, hj, Nat.le_refl _⟩
  | cons label labels ih =>
      obtain ⟨mid, hs, hrest⟩ := run_cons.mp hr
      have hmid : Reachable b mid := h.step label hs
      by_cases hl : label.isOf i k = true
      -- Only the worker's own steps count against its work; the others leave it as it is.
      · obtain rfl := Label.isOf_iff.mp hl
        obtain ⟨w', hw', hserved⟩ := step_served h hw hs
        rcases hserved.job job hj with ⟨hj', hless⟩ | ⟨_, hcompleted⟩ | hcollapsed | ⟨_, hover⟩
        · rcases ih hmid hw' hj' hrest with ⟨w'', hw'', hj'', hle⟩ | hdone
          · refine .inl ⟨w'', hw'', hj'', ?_⟩
            rw [List.countP_cons_of_pos hl]
            omega
          · exact .inr hdone
        · exact .inr (.inl (run_completed hrest hcompleted))
        · exact .inr (.inr (Thwarted.run hmid hrest (.inl hcollapsed)))
        · exact .inr (.inr (Thwarted.run hmid hrest (.inr hover)))
      · rw [Bool.not_eq_true] at hl
        rcases ih hmid (step_other h hs hl hw) hj hrest with ⟨w', hw', hj', hle⟩ | hdone
        · refine .inl ⟨w', hw', hj', ?_⟩
          rw [List.countP_cons_of_neg (by simp [hl])]
          exact hle
        · exact .inr hdone

/-- The ledger has the jobs whose calls panicked at once. -/
theorem number_collapsed_pos : 0 < e.ledger.number (.job latch index) .collapsed ↔
    ∃ x ∈ e.executions, x.Collapsed latch index := by
  have hentry (x : Execution) : ⟨.collapsed, .job latch index⟩ ∈ x.entries ↔
      x.Collapsed latch index := by
    obtain ⟨conn, command, origin, conduct⟩ := x
    rw [Execution.Collapsed, ← Conduct.outcome?_eq_none]
    cases origin with
    | job latch' index' =>
        rcases ho : conduct.outcome? with _ | failed
        · simp [Execution.entries, ho, and_comm, eq_comm]
        · simp [Execution.entries, ho]
    | direct number index' => simp [Execution.entries]
  constructor
  · intro hpos
    rw [number_eq] at hpos
    obtain ⟨i, x, hi, hcount⟩ := exists_of_total_pos hpos
    exact ⟨x, Array.mem_of_getElem? hi, (hentry x).mp (Multiset.count_pos.mp hcount)⟩
  · rintro ⟨x, hx, hcollapsed⟩
    exact number_pos_of_execution hx ((hentry x).mpr hcollapsed)

/-- A worker that has a job which a queue accepted is one of the queue's pool. -/
theorem exists_worker_of_held (h : Reachable b e) (hp : e.pools[i]? = some p) {job : Job}
    (hjob : job ∈ p.queue.accepted) (hheld : job.origin ∈ e.held) :
    ∃ (k : Nat) (w : Worker), p.workers[k]? = some w ∧ w.activity.job? = some job := by
  obtain ⟨j, k, q, w, job', hq, hw, hj, ho⟩ := exists_of_held hheld
  have hjob' := (traced_of_reachable h).jobs j q job' hq (.inr ⟨k, w, hw, hj⟩)
  obtain ⟨rfl, rfl⟩ := accepted_once h hp hq hjob hjob' ho
  cases hp.symm.trans hq
  exact ⟨k, w, hw, hj⟩

/-- A job that a worker took is in the hands of a worker of the pool, or it was settled, or its
call panicked at once. -/
theorem settled_of_delivered (h : Reachable b e) (hroom : e.Roomy) (hp : e.pools[i]? = some p)
    {job : Job} (hjob : job ∈ p.queue.delivered) :
    (∃ (k : Nat) (w : Worker), p.workers[k]? = some w ∧ w.activity.job? = some job) ∨
      e.Settled job.latch job.index ∨ ∃ x ∈ e.executions, x.Collapsed job.latch job.index := by
  have haccepted := mem_accepted_of_delivered h hp hjob
  obtain ⟨batch, hb⟩ : ∃ batch, e.batches[job.latch]? = some batch :=
    ⟨_, Array.getElem?_eq_getElem (latch_lt_of_accepted h hp haccepted)⟩
  have hdelivered := number_delivered_pos hp hjob
  have hflow := (sound_of_reachable h).flow job.origin
  have hoffered := hflow.offered
  have htaken := hflow.accepted
  have hmade : e.ledger.made job.origin = if job.index < batch.jobs then 1 else 0 := by
    simp only [Ledger.made, Job.origin, ledger, Ledger.jobsAt_of_getElem? hb]
  have hindex : job.index < batch.jobs := by
    split at hmade
    · assumption
    · omega
  -- A job that is not completed is still waited for, so its latch was not misused on it; then it
  -- is where `Kept` says it is.
  by_cases hcompleted : e.ledger.number job.origin .completed = 0
  · have hpos := remaining_pos_of_uncompleted h hb (hroom job.latch batch hb) hindex hcompleted
    have hkept : Kept (e.ledger.number job.origin) :=
      ((sound_of_reachable h).kept job.latch job.index batch hb).resolve_right hpos.ne.symm
    by_cases hhands : 0 < inHands (e.ledger.number job.origin)
    · rw [← count_held, List.count_pos_iff] at hhands
      exact .inl (exists_worker_of_held h hp haccepted hhands)
    · refine .inr (.inr (number_collapsed_pos.mp ?_))
      change 0 < e.ledger.number job.origin .collapsed
      simp only [Kept] at hkept
      omega
  · refine .inr (.inl (settled_of_completed h ?_))
    rw [← List.count_pos_iff, count_completed]
    exact Nat.pos_of_ne_zero hcompleted

/-- A job whose call panicked at once is neither in the hands of a worker nor completed, though a
worker took it. -/
theorem delivered_of_collapsed (h : Reachable b e) {x : Execution} (hx : x ∈ e.executions)
    (hcollapsed : x.Collapsed latch index) :
    (∃ (i : Nat) (p : WorkerPool) (job : Job), e.pools[i]? = some p ∧
      job ∈ p.queue.delivered ∧ job.origin = .job latch index) ∧
    .job latch index ∉ e.held ∧ .job latch index ∉ e.completed := by
  have hflow := (sound_of_reachable h).flow (.job latch index)
  have hpos := number_collapsed_pos.mpr ⟨x, hx, hcollapsed⟩
  have hle := hflow.le_delivered
  have haccepted := hflow.accepted
  have hone := number_accepted_le_one h (.job latch index)
  refine ⟨?_, ?_, ?_⟩
  · have hdelivered : 0 < e.ledger.number (.job latch index) .delivered := by omega
    rw [number_delivered] at hdelivered
    obtain ⟨i, p, hi, hcount⟩ := exists_of_total_pos hdelivered
    obtain ⟨job, hjob, ho⟩ := List.mem_map.mp (List.count_pos_iff.mp hcount)
    exact ⟨i, p, job, hi, Array.mem_toList_iff.mp hjob, ho⟩
  · rw [← List.count_pos_iff, count_held]
    omega
  · rw [← List.count_pos_iff, count_completed]
    omega

/-- What a pool owes to the jobs that its workers take. -/
structure Serves (b : Backend) (e : Engine) : Prop where
  /-- A worker with a job can go on unless the execution stalls. -/
  enabled : ∀ (i k : Nat) (w : Worker) (job : Job), e.worker? i k = some w →
    w.activity.job? = some job → (∀ fault, w.activity ≠ .stalled job fault) →
      ∃ next, e.step b (.act (.worker i k)) = some next
  /-- It keeps its connection, and it keeps the job until the job is settled. -/
  goesOn : ∀ (i k : Nat) (w : Worker) (job : Job) (next : Engine), e.worker? i k = some w →
    w.activity.job? = some job → e.step b (.act (.worker i k)) = some next →
      ∃ w', next.worker? i k = some w' ∧ w'.conn = w.conn ∧
        (w'.activity.job? = some job ∨
          w'.activity = .idle ∧ next.Settled job.latch job.index ∨ next.Thwarted job)
  /-- Whatever others do meanwhile, the job is settled after six steps of the worker. -/
  settles : ∀ (i k : Nat) (w : Worker) (job : Job) (labels : List Label) (next : Engine),
    e.worker? i k = some w → w.activity.job? = some job → e.run b labels = some next →
      6 ≤ labels.countP (Label.isOf i k) → next.Settled job.latch job.index ∨ next.Thwarted job
  /-- The worker that executed a job counts it in the counters of its pool, in each of them by a
  step of its own, and nobody else counts it. -/
  counts : ∀ (label : Label) (next : Engine) (latch index : Nat) (c : Tally.Counter),
    e.step b label = some next → .job latch index ∈ next.additions c →
      .job latch index ∈ e.additions c ∨
      ∃ (i k : Nat) (p : WorkerPool) (w : Worker) (job : Job), label = .act (.worker i k) ∧
        e.pools[i]? = some p ∧ p.workers[k]? = some w ∧ w.activity.counts? c = some job ∧
        job.origin = .job latch index ∧ next.tallies = e.tallies.modify p.tally (·.add c)

/-- Nothing that was taken is missing, and nobody ended who still had something to do. -/
structure Survives (e : Engine) : Prop where
  delivered : ∀ (i : Nat) (p : WorkerPool) (job : Job), e.pools[i]? = some p →
    job ∈ p.queue.delivered →
      (∃ (k : Nat) (w : Worker), p.workers[k]? = some w ∧ w.activity.job? = some job) ∨
        e.Settled job.latch job.index
  live : ∀ (i k : Nat) (p : WorkerPool) (w : Worker), e.pools[i]? = some p →
    p.workers[k]? = some w → w.activity.isLive = true ∨ p.Drained

theorem work_of_job {a : Activity} {job : Job} (h : a.job? = some job) :
    5 ≤ a.work ∧ a.work ≤ 10 := by
  cases a with
  | holding job | executing job conduct | stalled job fault | finished job failed | failing job
  | recorded job =>
      simp [Activity.work]
  | _ => cases h

theorem serves_of_reachable (h : Reachable b e) : Serves b e := by
  refine ⟨?_, ?_, ?_, ?_⟩
  · intro i k w job hworker hj hstalled
    obtain ⟨p, hp, hw⟩ := worker?_eq_some.mp hworker
    exact step_of_busy hp hw hj hstalled
  · intro i k w job next hw hj hs
    obtain ⟨w', hw', hserved⟩ := step_served h hw hs
    refine ⟨w', hw', hserved.conn, ?_⟩
    rcases hserved.job job hj with ⟨hj', _⟩ | ⟨hidle, hcompleted⟩ | hcollapsed | ⟨_, hover⟩
    · exact .inl hj'
    · exact .inr (.inl ⟨hidle, settled_of_completed (h.step _ hs) hcompleted⟩)
    · exact .inr (.inr (.inl hcollapsed))
    · exact .inr (.inr (.inr hover))
  · intro i k w job labels next hw hj hr hsix
    rcases run_served h hw hj hr with ⟨w', _, hj', hle⟩ | hcompleted | hthwarted
    · have hbefore := work_of_job hj
      have hafter := work_of_job hj'
      omega
    · exact .inl (settled_of_completed (h.run hr) hcompleted)
    · exact .inr hthwarted
  · intro label next latch index c hs hmem
    obtain ⟨l, hl, hreports⟩ := step_reports hs
    rw [mem_additions, hl, List.map_append, List.mem_append] at hmem
    rcases hmem with hold | hnew
    · exact .inl (mem_additions.mpr hold)
    · rcases hreports with hquiet | ⟨i, k, p, w, hlabel, hp, hw, hreports⟩
      · obtain ⟨event, hevent, hadds⟩ := List.mem_map.mp hnew
        cases (settlesJob_of_addition? hadds).symm.trans (hquiet event hevent)
      · obtain ⟨htallies, job, ha, ho⟩ := hreports.adds c latch index hnew
        exact .inr ⟨i, k, p, w, job, hlabel, hp, hw, ha, ho, htallies⟩

/-- A pool keeps what it owes exactly as long as no call panics at once. -/
theorem survival (h : Reachable b e) (hroom : e.Roomy) :
    Serves b e ∧
      (e.Survives ↔ ∀ x ∈ e.executions, ∀ latch index, ¬ x.Collapsed latch index) := by
  refine ⟨serves_of_reachable h, fun hs x hx latch index hcollapsed => ?_, fun hnone => ?_⟩
  · obtain ⟨⟨i, p, job, hp, hjob, ho⟩, hheld, hcompleted⟩ := delivered_of_collapsed h hx hcollapsed
    rcases hs.delivered i p job hp hjob with ⟨k, w, hw, hj⟩ | ⟨_, _, _, _, _, hsublist⟩
    · exact hheld (ho ▸ mem_held hp hw hj)
    · obtain ⟨rfl, rfl⟩ := Origin.job.inj ho
      exact hcompleted (mem_completed.mpr (hsublist.subset (by simp)))
  · refine ⟨fun i p job hp hjob => ?_, fun i k p w hp hw => ?_⟩
    · rcases settled_of_delivered h hroom hp hjob with hheld | hsettled | ⟨x, hx, hcollapsed⟩
      · exact .inl hheld
      · exact .inr hsettled
      · exact absurd hcollapsed (hnone x hx _ _)
    · rcases excused_of_reachable h (worker?_eq_some.mpr ⟨p, hp, hw⟩) with
        hlive | ⟨p', hp', hdrained⟩ | ⟨x, hx, _, latch, index, hcollapsed⟩ | hover
      · exact .inl hlive
      · cases hp.symm.trans hp'
        exact .inr hdrained
      · exact absurd hcollapsed (hnone x hx latch index)
      · exact absurd hroom hover

/-- A call that panics at once costs the pool its only worker, and the job is never counted. -/
theorem survival_of_panic : ∃ e, Reachable (.always (.panicAtOnce "")) e ∧ e.Roomy ∧
    Serves (.always (.panicAtOnce "")) e ∧ ¬ e.Survives := by
  obtain ⟨e, he⟩ : ∃ e, Engine.run (.always (.panicAtOnce "")) {} [.newLatch 1,
      .call (.start 1 1 false), .act .caller, .act .caller,
      .call (.submit (.ofName "ping") 0 1), .act .caller, .act (.worker 0 0),
      .act (.worker 0 0), .act (.worker 0 0)] = some e := ⟨_, rfl⟩
  have hreachable : Reachable (.always (.panicAtOnce "")) e := Reachable.start.run he
  have hbatches : e.batches = #[⟨⟨1⟩, 1, false, 1⟩] := by
    cases he
    rfl
  have hroom : e.Roomy := by
    intro latch batch hb
    have hmem := Array.mem_of_getElem? hb
    rw [hbatches] at hmem
    cases List.mem_singleton.mp (Array.mem_toList_iff.mpr hmem)
    exact Nat.le_refl 1
  have hexecutions : e.executions = #[⟨0, .ofName "ping", .job 0 0, .panicAtOnce ""⟩] := by
    cases he
    rfl
  have hmem : ⟨0, .ofName "ping", .job 0 0, .panicAtOnce ""⟩ ∈ e.executions := by
    rw [hexecutions]
    exact Array.mem_toList_iff.mp List.mem_cons_self
  obtain ⟨hserves, hsurvives⟩ := survival hreachable hroom
  exact ⟨e, hreachable, hroom, hserves, fun h => hsurvives.mp h _ hmem 0 0 ⟨rfl, "", rfl⟩⟩

end Engine

end LoadBench
