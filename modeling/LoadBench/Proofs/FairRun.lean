import LoadBench.Proofs.Enabled
import LoadBench.Proofs.Measure
import LoadBench.Proofs.Service

/-!
Schedules without end. If a schedule passes over no worker of a pool for good, one of them goes on
and none stalls, then every job that the queue of the pool accepted is tried: it is executed and
counted, or the call of its execution panics at once.

Which worker takes a job is open, so the measure for a job in the queue is taken over all workers
of the pool: what they have to do, and how many jobs are to be taken until it is the job's turn.
Once a worker has the job, the measure is what that worker has to do.
-/

namespace LoadBench

/-- A pool whose workers have done nothing in between. -/
structure WorkerPool.Aside (p p' : WorkerPool) : Prop where
  workers : p'.workers = p.workers
  turn : p'.queue.turn = p.queue.turn
  delivered : p'.queue.delivered = p.queue.delivered
  accepted : p.queue.accepted.toList <+: p'.queue.accepted.toList

theorem WorkerPool.Aside.refl (p : WorkerPool) : p.Aside p :=
  ⟨rfl, rfl, rfl, List.prefix_rfl⟩

theorem WorkerPool.Aside.trans {p p' p'' : WorkerPool} (h : p.Aside p') (h' : p'.Aside p'') :
    p.Aside p'' where
  workers := h'.workers.trans h.workers
  turn := h'.turn.trans h.turn
  delivered := h'.delivered.trans h.delivered
  accepted := h.accepted.trans h'.accepted

theorem WorkerPool.Follows.prefix_accepted {p p' : WorkerPool} (h : p.Follows p') :
    p.queue.accepted.toList <+: p'.queue.accepted.toList := by
  rcases h.accepted with hsame | ⟨job, hpush⟩
  · rw [hsame]
  · rw [hpush, Array.toList_push]
    exact List.prefix_append _ _

/-- A pool that has been started is not started again. -/
theorem PoolStep.opening {v v' : PoolView} (h : PoolStep v v') (ho : v.opening = false) :
    v'.opening = false := by
  cases h with
  | abandons hopening => rfl
  | starts hopening => rfl
  | _ => exact ho

/-- What happens to a pool that is not being started leaves its workers alone, unless it is a step
of one of them. -/
theorem PoolStep.aside {v v' : PoolView} (h : PoolStep v v') (ho : v.opening = false)
    (hsame : ∀ (k : Nat) (w : Worker), v.pool.workers[k]? = some w →
      v'.pool.workers[k]? = some w) : v.pool.Aside v'.pool := by
  have hprefix := h.follows.prefix_accepted
  have hact {q : WorkerPool} {k : Nat} {w : Worker} {a : Activity}
      (hq : q.workers = v.pool.workers) (hw : v.pool.workers[k]? = some w)
      (hk : (q.setActivity k a).workers[k]? = some w) : w.activity = a := by
    rw [WorkerPool.getElem?_setActivity, if_pos rfl, hq, hw] at hk
    exact (congrArg Worker.activity (Option.some.inj hk)).symm
  cases h with
  | @asks k w hw ha =>
      have hnew := hact (by rfl) hw (hsame k w hw)
      rw [ha] at hnew
      split at hnew <;> cases hnew
  | @takesTurn k w hw ha hr =>
      have hnew := hact (by rfl) hw (hsame k w hw)
      rw [ha] at hnew
      cases hnew
  | @takes k w job queue hw ha hq =>
      have hnew := hact (by rfl) hw (hsame k w hw)
      rw [ha] at hnew
      cases hnew
  | @ends k w queue hw ha hq =>
      have hnew := hact (by rfl) hw (hsame k w hw)
      rw [ha] at hnew
      cases hnew
  | @works k w job a hw hj ha =>
      refine ⟨?_, rfl, rfl, hprefix⟩
      apply Array.ext_getElem?
      intro j
      rcases hj : v.pool.workers[j]? with _ | w'
      · change (v.pool.setActivity k a).workers[j]? = none
        rw [WorkerPool.getElem?_setActivity, hj]
        split <;> rfl
      · exact hsame j w' hj
  | @lets k w job a hw hj ha =>
      have hnew := hact (by rfl) hw (hsame k w hw)
      rw [hnew] at hj
      rcases ha with rfl | rfl <;> cases hj
  | @leaves k w panicked hw ha panicked' =>
      have hnew := hact (by rfl) hw (hsame k w hw)
      rw [ha] at hnew
      cases hnew
  | spawns hopening conn =>
      rw [ho] at hopening
      cases hopening
  | abandons hopening =>
      rw [ho] at hopening
      cases hopening
  | starts hopening =>
      rw [ho] at hopening
      cases hopening
  | accepts hp hq =>
      obtain ⟨slots, rfl⟩ := JobQueue.items_enter_taken hq
      exact ⟨rfl, rfl, rfl, hprefix⟩
  | parks hw hq =>
      obtain ⟨_, _, _, rfl⟩ := JobQueue.offer_parked hq
      exact ⟨rfl, rfl, rfl, hprefix⟩
  | refuses hq =>
      rcases JobQueue.enter_refused hq with ⟨_, rfl⟩ | ⟨_, _, rfl⟩
      · exact ⟨rfl, rfl, rfl, hprefix⟩
      · exact ⟨rfl, rfl, rfl, hprefix⟩
  | dials => exact ⟨rfl, rfl, rfl, hprefix⟩
  | closes hopening hw => exact ⟨rfl, rfl, rfl, hprefix⟩
  | withdraws hw => exact ⟨rfl, rfl, rfl, hprefix⟩

namespace Engine

/-- A schedule without end, from a state on. -/
structure Schedule (b : Backend) (e : Engine) where
  state : Nat → Engine
  label : Nat → Label
  begins : state 0 = e
  step : ∀ n, (state n).step b (label n) = some (state (n + 1))

/-- Whether a job was executed and counted, or the call of its execution panicked at once. -/
def Tried (e : Engine) (o : Origin) : Prop := o ∈ e.collapsed ∨ ∃ failed, o ∈ e.recorded failed

namespace Schedule

variable {b : Backend} {e : Engine}

/-- No worker of a pool is passed over for good: if it can go on at any time from some time on, it
goes on at one of these times. -/
def Fair (s : Schedule b e) (i : Nat) : Prop :=
  ∀ k start : Nat,
    (∀ n, start ≤ n → ∃ next, (s.state n).step b (.act (.worker i k)) = some next) →
      ∃ n, start ≤ n ∧ s.label n = .act (.worker i k)

/-- A pool has somebody for its jobs. -/
structure Attended (s : Schedule b e) (i : Nat) : Prop where
  /-- At any time some worker goes on, or there is nothing left in the queue and nothing of it was
  discarded. -/
  live : ∀ (n : Nat) (p : WorkerPool), (s.state n).pools[i]? = some p →
    (∃ (k : Nat) (w : Worker), p.workers[k]? = some w ∧ w.activity.isLive = true) ∨
      p.queue.buffer = [] ∧ p.queue.discarded = #[]
  unstalled : ∀ (n k : Nat) (w : Worker), (s.state n).worker? i k = some w →
    ∀ job fault, w.activity ≠ .stalled job fault

end Schedule

variable {b : Backend} {e next : Engine} {i k t : Nat} {p : WorkerPool} {w : Worker} {job : Job}

theorem Tried.step {label : Label} {o : Origin} (h : e.Tried o)
    (hs : e.step b label = some next) : next.Tried o := by
  rcases h with hcollapsed | ⟨failed, hrecorded⟩
  · left
    obtain ⟨x, hx, ho⟩ := mem_collapsed.mp hcollapsed
    exact mem_collapsed.mpr ⟨x, step_executions hs hx, ho⟩
  · right
    obtain ⟨l, hl, _⟩ := step_reports hs
    refine ⟨failed, ?_⟩
    rw [mem_recorded] at hrecorded ⊢
    rw [hl]
    exact List.mem_append_left l hrecorded

theorem step_opens {label : Label} (h : Reachable b e) (hs : e.step b label = some next)
    (hp : e.pools[i]? = some p) (ho : e.opens i = false) : next.opens i = false := by
  obtain ⟨p', _, ⟨_, hsame⟩ | hstep⟩ := (step_views h hs).pool hp
  · exact hsame.trans ho
  · exact hstep.opening ho

theorem run_opens {labels : List Label} (h : Reachable b e) (hr : e.run b labels = some next)
    (hp : e.pools[i]? = some p) (ho : e.opens i = false) :
    next.opens i = false ∧ ∃ p', next.pools[i]? = some p' := by
  induction labels generalizing e p with
  | nil =>
      cases hr
      exact ⟨ho, p, hp⟩
  | cons label labels ih =>
      obtain ⟨mid, hs, hr⟩ := run_cons.mp hr
      obtain ⟨p', hp', _⟩ := (step_views h hs).follows hp
      exact ih (h.step label hs) hr hp' (step_opens h hs hp ho)

/-- A step that is not one of a pool's workers'. -/
theorem step_aside {label : Label} (h : Reachable b e) (hs : e.step b label = some next)
    (hl : ∀ k, label ≠ .act (.worker i k)) (hp : e.pools[i]? = some p) (ho : e.opens i = false) :
    ∃ p', next.pools[i]? = some p' ∧ p.Aside p' := by
  obtain ⟨p', hp', hstep⟩ := (step_views h hs).pool hp
  refine ⟨p', hp', ?_⟩
  rcases hstep with ⟨rfl, _⟩ | hstep
  · exact .refl p'
  · apply hstep.aside ho
    intro k w hw
    have hother : label.isOf i k = false := by
      rw [← Bool.not_eq_true, Label.isOf_iff]
      exact hl k
    obtain ⟨q, hq, hw'⟩ := worker?_eq_some.mp
      (step_other h hs hother (worker?_eq_some.mpr ⟨p, hp, hw⟩))
    rw [hp'] at hq
    cases hq
    exact hw'

/-- A step of a worker takes work away from it, or the worker takes a job. -/
theorem step_works (hp : e.pools[i]? = some p)
    (hs : e.step b (.act (.worker i k)) = some next) :
    ∃ (w : Worker) (q : WorkerPool) (a : Activity), p.workers[k]? = some w ∧
      next.pools[i]? = some (q.setActivity k a) ∧ q.workers = p.workers ∧ Works p q w a := by
  have hm := step_move hs
  change ∃ (w : Worker) (q : WorkerPool) (a : Activity), p.workers[k]? = some w ∧
    next.bare.pools[i]? = some (q.setActivity k a) ∧ q.workers = p.workers ∧ Works p q w a
  generalize next.bare = after at hm
  cases hm with
  | worker hp' hw hm =>
      cases hp.symm.trans hp'
      obtain ⟨q, a, hpools, hq, hworks⟩ := hm.works
      refine ⟨_, q, a, hw, ?_, hq, hworks⟩
      rw [hpools]
      exact getElem?_set_self hp' _
  | caller hl hm => cases hl

theorem Prompt.aside {p' : WorkerPool} (h : Prompt p k) (ha : p.Aside p') : Prompt p' k := by
  have hactivity (j : Nat) : p'.activity? j = p.activity? j := by
    unfold WorkerPool.activity?
    rw [ha.workers]
  cases h with
  | idle hk => exact .idle ((hactivity k).trans hk)
  | called hk hr => exact .called ((hactivity k).trans hk) (ha.turn ▸ hr)
  | receiving hk => exact .receiving ((hactivity k).trans hk)
  | busy hk hj hs => exact .busy ((hactivity k).trans hk) hj hs

/-- What the workers of a pool have to do until the job is taken that was accepted after `t`
others. -/
def rank (p : WorkerPool) (t : Nat) : Nat :=
  Job.work * (t + 1 - p.queue.delivered.size) + total (fun w => w.activity.work) p.workers

theorem rank_aside {p' : WorkerPool} (h : p.Aside p') (t : Nat) : rank p' t = rank p t := by
  unfold rank
  rw [h.delivered, h.workers]

theorem rank_works {q : WorkerPool} {a : Activity} (hw : p.workers[k]? = some w)
    (hq : q.workers = p.workers) (h : Works p q w a) (ht : p.queue.delivered.size ≤ t) :
    rank (q.setActivity k a) t < rank p t := by
  have hmodify := total_modify (fun w => w.activity.work) (fun w => { w with activity := a }) hw
  unfold rank WorkerPool.setActivity
  rw [hq]
  dsimp only at hmodify ⊢
  cases h with
  | lessens hless hlength hdelivered =>
      rw [hdelivered]
      omega
  | takes ha hnew hbuffer hrest hdelivered =>
      subst hnew
      rw [hdelivered, Array.size_push]
      rw [ha] at hmodify
      simp only [Activity.work, Job.work] at hmodify ⊢
      omega

theorem exists_first {P : Nat → Prop} {n : Nat} (h : ∃ m, n ≤ m ∧ P m) :
    ∃ m, n ≤ m ∧ P m ∧ ∀ l, n ≤ l → l < m → ¬ P l := by
  classical
  obtain ⟨hle, hm⟩ := Nat.find_spec h
  refine ⟨Nat.find h, hle, hm, ?_⟩
  intro l hl hlt hP
  exact Nat.find_min h hlt ⟨hl, hP⟩

namespace Schedule

variable {s : Schedule b e}

/-- If a worker could go on for ever as long as nobody of its pool takes a step, then somebody of
the pool takes one sooner or later. -/
theorem Fair.exists_step (hf : s.Fair i) {n : Nat}
    (h : (∀ l, n ≤ l → ∀ k, s.label l ≠ .act (.worker i k)) → ∃ k, ∀ m, n ≤ m →
      ∃ next, (s.state m).step b (.act (.worker i k)) = some next) :
    ∃ m, n ≤ m ∧ ∃ k, s.label m = .act (.worker i k) := by
  by_contra hnever
  have hnone (l : Nat) (hl : n ≤ l) (k : Nat) : s.label l ≠ .act (.worker i k) := by
    intro hlabel
    exact hnever ⟨l, hl, k, hlabel⟩
  obtain ⟨k, henabled⟩ := h hnone
  obtain ⟨m, hm, hlabel⟩ := hf k n henabled
  exact hnone m hm k hlabel

theorem reachable (s : Schedule b e) (h : Reachable b e) (n : Nat) : Reachable b (s.state n) := by
  induction n with
  | zero =>
      rw [s.begins]
      exact h
  | succ n ih => exact .step _ ih (s.step n)

theorem tried_of_le {o : Origin} {n m : Nat} (hle : n ≤ m) (h : (s.state n).Tried o) :
    (s.state m).Tried o := by
  induction m, hle using Nat.le_induction with
  | base => exact h
  | succ m _ ih => exact ih.step (s.step m)

/-- As long as none of its workers takes a step, a pool stays as it is for them. -/
theorem aside_of_le (h : Reachable b e) {n m : Nat} (hle : n ≤ m)
    (hp : (s.state n).pools[i]? = some p) (ho : (s.state n).opens i = false)
    (hnone : ∀ l, n ≤ l → l < m → ∀ k, s.label l ≠ .act (.worker i k)) :
    ∃ p', (s.state m).pools[i]? = some p' ∧ (s.state m).opens i = false ∧ p.Aside p' := by
  induction m, hle using Nat.le_induction with
  | base => exact ⟨p, hp, ho, .refl p⟩
  | succ m hle ih =>
      obtain ⟨q, hq, ho', haside⟩ := ih fun l hl hlt => hnone l hl (Nat.lt_succ_of_lt hlt)
      have hreachable := s.reachable h m
      obtain ⟨p', hp', hstep⟩ :=
        step_aside hreachable (s.step m) (hnone m hle (Nat.lt_succ_self m)) hq ho'
      exact ⟨p', hp', step_opens hreachable (s.step m) hq ho', haside.trans hstep⟩

/-- A pool with somebody for its jobs loses none of them in its queue. -/
theorem Attended.order (ha : s.Attended i) (h : Reachable b e) {n : Nat}
    (hp : (s.state n).pools[i]? = some p) :
    p.queue.accepted.toList = p.queue.delivered.toList ++ p.queue.buffer := by
  have hreachable := s.reachable h n
  have horder := (orderly_of_pool hreachable hp).order
  have hkept : p.queue.discarded = #[] := by
    rcases ha.live n p hp with ⟨k, w, hw, hlive⟩ | ⟨_, hnone⟩
    · exact horder.kept (open_of_live hreachable hp hw hlive)
    · exact hnone
  rw [horder.order, hkept]
  exact List.append_nil _

theorem Attended.buffer_ne_nil (ha : s.Attended i) (h : Reachable b e) {n : Nat}
    (hp : (s.state n).pools[i]? = some p) (ht : p.queue.delivered.size ≤ t)
    (hlt : t < p.queue.accepted.toList.length) : p.queue.buffer ≠ [] := by
  intro hempty
  rw [ha.order h hp, hempty, List.append_nil, Array.length_toList] at hlt
  omega

/-- While a job waits in the queue, one of the workers goes on sooner or later. -/
theorem exists_own_step (hf : s.Fair i) (ha : s.Attended i) (h : Reachable b e) {n : Nat}
    (hp : (s.state n).pools[i]? = some p) (ho : (s.state n).opens i = false)
    (ht : p.queue.delivered.size ≤ t) (hlt : t < p.queue.accepted.toList.length) :
    ∃ m, n ≤ m ∧ ∃ k, s.label m = .act (.worker i k) := by
  apply hf.exists_step
  intro hnone
  have hbuffer := ha.buffer_ne_nil h hp ht hlt
  obtain ⟨k, hprompt⟩ : ∃ k, Prompt p k := by
    rcases ha.live n p hp with ⟨k, w, hw, hlive⟩ | ⟨hempty, _⟩
    · have hturns :=
        (orderly_of_reachable (s.reachable h n) (view?_eq_some.mpr ⟨p, hp, rfl⟩)).turns
      exact exists_prompt hturns hw hlive
        (ha.unstalled n k w (worker?_eq_some.mpr ⟨p, hp, hw⟩))
    · exact absurd hempty hbuffer
  -- Nobody takes its turn away from this worker, so it could go on for ever.
  refine ⟨k, fun m hm => ?_⟩
  obtain ⟨q, hq, _, haside⟩ := aside_of_le h hm hp ho fun l hl _ => hnone l hl
  apply (hprompt.aside haside).step hq
  apply receiveReady_of_buffer
  apply ha.buffer_ne_nil h hq (t := t)
  · rw [haside.delivered]
    exact ht
  · exact lt_of_lt_of_le hlt haside.accepted.length_le

/-- A job that a queue accepted is taken by a worker. -/
theorem exists_delivered (hf : s.Fair i) (ha : s.Attended i) (h : Reachable b e) {n : Nat}
    (hp : (s.state n).pools[i]? = some p) (ho : (s.state n).opens i = false)
    (hjob : p.queue.accepted.toList[t]? = some job) :
    ∃ (m : Nat) (q : WorkerPool), (s.state m).pools[i]? = some q ∧ job ∈ q.queue.delivered := by
  -- The induction is on the rank, which the steps of the pool's workers lower and no other step
  -- raises.
  induction hn : rank p t using Nat.strong_induction_on generalizing n p with
  | h r ih =>
      obtain ⟨hlt, _⟩ := List.getElem?_eq_some_iff.mp hjob
      by_cases ht : p.queue.delivered.size ≤ t
      · obtain ⟨m, hm, ⟨k, hlabel⟩, hfirst⟩ :=
          exists_first (exists_own_step hf ha h hp ho ht hlt)
        obtain ⟨q, hq, ho', haside⟩ := aside_of_le h hm hp ho fun l hl hlt k hlabel =>
          hfirst l hl hlt ⟨k, hlabel⟩
        have hstep := s.step m
        rw [hlabel] at hstep
        have hreachable := s.reachable h m
        obtain ⟨w, q', a, hw, hq', hworkers, hworks⟩ := step_works hq hstep
        obtain ⟨q'', hq'', hfollows⟩ := (step_views hreachable hstep).follows hq
        cases hq'.symm.trans hq''
        refine ih _ ?_ hq' (step_opens hreachable hstep hq ho') ?_ rfl
        · rw [← hn, ← rank_aside haside t]
          exact rank_works hw hworkers hworks (haside.delivered ▸ ht)
        · obtain ⟨rest, hrest⟩ := haside.accepted.trans hfollows.prefix_accepted
          rw [← hrest, List.getElem?_append_left hlt]
          exact hjob
      · refine ⟨n, p, hp, ?_⟩
        rw [ha.order h hp, List.getElem?_append_left (by simpa using ht)] at hjob
        exact Array.mem_toList_iff.mp (List.mem_of_getElem? hjob)

/-- A worker that has a job goes on with it sooner or later. -/
theorem exists_step_of_held (hf : s.Fair i) (ha : s.Attended i) (h : Reachable b e) {n : Nat}
    (hw : (s.state n).worker? i k = some w) (hj : w.activity.job? = some job) :
    ∃ m, n ≤ m ∧ s.label m = .act (.worker i k) ∧ (s.state m).worker? i k = some w := by
  have hkeeps (m : Nat) (hm : n ≤ m)
      (hnone : ∀ l, n ≤ l → l < m → s.label l ≠ .act (.worker i k)) :
      (s.state m).worker? i k = some w := by
    induction m, hm using Nat.le_induction with
    | base => exact hw
    | succ m hm ih =>
        refine step_other (s.reachable h m) (s.step m) ?_
          (ih fun l hl hlt => hnone l hl (Nat.lt_succ_of_lt hlt))
        rw [← Bool.not_eq_true, Label.isOf_iff]
        exact hnone m hm (Nat.lt_succ_self m)
  have hever : ∃ m, n ≤ m ∧ s.label m = .act (.worker i k) := by
    by_contra hnever
    apply hnever
    apply hf k n
    intro m hm
    obtain ⟨p, hp, hw'⟩ := worker?_eq_some.mp
      (hkeeps m hm fun l hl _ hlabel => hnever ⟨l, hl, hlabel⟩)
    exact step_of_busy hp hw' hj (ha.unstalled m k w (worker?_eq_some.mpr ⟨p, hp, hw'⟩) job)
  obtain ⟨m, hm, hlabel, hfirst⟩ := exists_first hever
  exact ⟨m, hm, hlabel, hkeeps m hm hfirst⟩

end Schedule

theorem tried_iff {latch index : Nat} : e.Tried (.job latch index) ↔
    0 < e.ledger.number (.job latch index) .collapsed +
      (e.ledger.number (.job latch index) (.counted false) +
        e.ledger.number (.job latch index) (.counted true)) := by
  unfold Tried
  rw [Bool.exists_bool, ← List.count_pos_iff, ← List.count_pos_iff, ← List.count_pos_iff,
    count_collapsed, count_recorded, count_recorded]
  omega

/-- A worker that is about to complete its job has counted it. -/
theorem tried_of_recorded (h : Reachable b e) (hw : e.worker? i k = some w)
    (ha : w.activity = .recorded job) : e.Tried job.origin := by
  obtain ⟨p, hp, hw⟩ := worker?_eq_some.mp hw
  have hrecording := number_pos_of_hands (s := .recording) rfl hp hw (by rw [ha]; rfl)
  have hcounted := ((sound_of_reachable h).flow job.origin).counted
  apply tried_iff.mpr
  change 0 < e.ledger.number job.origin .collapsed +
    (e.ledger.number job.origin (.counted false) + e.ledger.number job.origin (.counted true))
  omega

theorem tried_of_completed (h : Reachable b e) (hc : job.origin ∈ e.completed) :
    e.Tried job.origin := by
  obtain ⟨failed, hsublist⟩ := counted_of_completed h hc
  right
  exact ⟨failed, mem_recorded.mpr (hsublist.subset (List.mem_cons_of_mem _ List.mem_cons_self))⟩

theorem tried_of_collapsed {x : Execution} (hx : x ∈ e.executions)
    (hc : x.Collapsed job.latch job.index) : e.Tried job.origin := by
  obtain ⟨ho, hpanic⟩ := hc
  left
  exact mem_collapsed.mpr ⟨x, hx, ho, Conduct.outcome?_eq_none.mpr hpanic⟩

namespace Schedule

variable {s : Schedule b e}

theorem exists_tried_of_held (hf : s.Fair i) (ha : s.Attended i) (h : Reachable b e) {n : Nat}
    (hw : (s.state n).worker? i k = some w) (hj : w.activity.job? = some job) :
    ∃ m, (s.state m).Tried job.origin := by
  -- The induction is on what the worker has to do, of which each of its steps takes something.
  induction hn : w.activity.work using Nat.strong_induction_on generalizing n w with
  | h r ih =>
      obtain ⟨m, _, hlabel, hw'⟩ := exists_step_of_held hf ha h hw hj
      have hreachable := s.reachable h m
      have hnext := s.reachable h (m + 1)
      have hstep := s.step m
      rw [hlabel] at hstep
      obtain ⟨w', hnew, hserved⟩ := step_served hreachable hw' hstep
      rcases hserved.job job hj with
        ⟨hj', hless⟩ | ⟨_, hcompleted⟩ | ⟨x, hx, hcollapsed⟩ | ⟨hrecorded, _⟩
      · exact ih _ (hn ▸ hless) hnew hj' rfl
      · exact ⟨m + 1, tried_of_completed hnext hcompleted⟩
      · exact ⟨m + 1, tried_of_collapsed hx hcollapsed⟩
      · exact ⟨m, tried_of_recorded hreachable hw' hrecorded⟩

end Schedule

/-- A job that a worker took is tried already, or a worker of the pool has it. -/
theorem tried_or_held (h : Reachable b e) (hp : e.pools[i]? = some p)
    (hjob : job ∈ p.queue.delivered) :
    e.Tried job.origin ∨ ∃ k w, e.worker? i k = some w ∧ w.activity.job? = some job := by
  have haccepted := mem_accepted_of_delivered h hp hjob
  have hdelivered := number_delivered_pos hp hjob
  have hflow := (sound_of_reachable h).flow job.origin
  by_cases hheld : 0 < inHands (e.ledger.number job.origin)
  · right
    rw [← count_held, List.count_pos_iff] at hheld
    obtain ⟨k, w, hw, hj⟩ := exists_worker_of_held h hp haccepted hheld
    exact ⟨k, w, worker?_eq_some.mpr ⟨p, hp, hw⟩, hj⟩
  · left
    have hsplit := hflow.delivered
    have hbegun := hflow.begun
    have hfinished := hflow.finished
    have hfailed := hflow.failed
    have h1 := hbegun false
    have h2 := hbegun true
    simp only [inHands] at hheld
    apply tried_iff.mpr
    change 0 < e.ledger.number job.origin .collapsed +
      (e.ledger.number job.origin (.counted false) + e.ledger.number job.origin (.counted true))
    omega

/-- On a fair schedule every job that the queue of an attended pool has accepted is tried sooner or
later, and stays so. -/
theorem Schedule.tried {s : Schedule b e} (hf : s.Fair i) (ha : s.Attended i) (h : Reachable b e)
    (hp : e.pools[i]? = some p) (ho : e.opens i = false) (hjob : job ∈ p.queue.accepted) :
    ∃ n, ∀ m, n ≤ m → (s.state m).Tried job.origin := by
  have hever : ∃ n, (s.state n).Tried job.origin := by
    obtain ⟨t, ht⟩ := List.mem_iff_getElem?.mp (Array.mem_toList_iff.mpr hjob)
    have hbegins := s.begins
    obtain ⟨n, q, hq, hdelivered⟩ :=
      exists_delivered hf ha h (n := 0) (by rwa [hbegins]) (by rwa [hbegins]) ht
    rcases tried_or_held (s.reachable h n) hq hdelivered with htried | ⟨k, w, hw, hj⟩
    · exact ⟨n, htried⟩
    · exact exists_tried_of_held hf ha h hw hj
  obtain ⟨n, hn⟩ := hever
  refine ⟨n, ?_⟩
  intro m hle
  exact tried_of_le hle hn

end Engine

end LoadBench
