import LoadBench.Proofs.Jam

/-!
Backpressure. A pool whose workers have nothing to do but to wait for executions that stall holds as
many unfinished jobs as it has workers that go on, and as many more as its queue has room for.
Another job is accepted exactly if there are fewer, and if there are that many, whoever offers one
waits until one of the executions has come to its end. So each execution that comes to its end makes
room for one job, unless it takes its worker with it.

A worker dies that completes a job on a latch that is released already, so a latch that is given
more jobs than it counts can cost the pool its workers one after the other.
-/

namespace LoadBench

theorem PoolStep.capacity {v v' : PoolView} (h : PoolStep v v') :
    v'.pool.queue.capacity = v.pool.queue.capacity := by
  cases h with
  | asks hw ha => exact JobQueue.sameSlots_ask.capacity
  | takesTurn hw ha hr => exact JobQueue.sameSlots_takeTurn.capacity
  | takes hw ha hq =>
      obtain ⟨rest, _, rfl⟩ := JobQueue.receive_item hq
      rfl
  | ends hw ha hq =>
      obtain ⟨_, _, rfl⟩ := JobQueue.receive_ended hq
      rfl
  | leaves hw ha panicked => exact JobQueue.capacity_dropReceiver _
  | abandons ho => exact JobQueue.capacity_dropReceiver _
  | starts ho => exact JobQueue.capacity_dropReceiver _
  | accepts hp hq =>
      obtain ⟨slots, rfl⟩ := JobQueue.items_enter_taken hq
      rfl
  | parks hw hq =>
      obtain ⟨_, _, _, rfl⟩ := JobQueue.offer_parked hq
      rfl
  | refuses hq =>
      rcases JobQueue.enter_refused hq with ⟨_, rfl⟩ | ⟨_, _, rfl⟩
      · rfl
      · rfl
  | _ => rfl

/-- What is discarded at once fits, since nothing was discarded before and the buffer fits. -/
theorem PoolStep.size_discarded_le {v v' : PoolView} (h : PoolStep v v') (ho : Orderly v)
    (hle : v.pool.queue.discarded.size ≤ v.pool.queue.capacity) :
    v'.pool.queue.discarded.size ≤ v'.pool.queue.capacity := by
  rw [h.capacity]
  rcases h.discards with hsame | hall
  · rw [hsame]
    exact hle
  · have hadded : v.pool.queue.buffer.toArray.size = v.pool.queue.buffer.length :=
      List.size_toArray
    rw [hall, Array.size_append, hadded]
    cases hc : v.pool.queue.slots.closed with
    | true =>
        rw [ho.order.gone hc]
        exact hle
    | false =>
        have hroom := ho.slots.room hc
        rw [ho.order.kept hc, Array.size_empty]
        omega

namespace Slots

variable {v : PoolView}

/-- What an open queue answers to a job that is offered depends on its room. -/
theorem enter (hs : Slots v) (hp : v.pool.queue.producing = true) (job : Job) :
    (v.pool.queue.enter v.waiting job).1 =
      if v.pool.queue.slots.closed then .refused
      else if v.pool.queue.buffer.length = v.pool.queue.capacity then .parked
      else .taken := by
  have hroom := hs.room
  have hbusy := hs.busy
  have hcaller := hs.caller
  cases hw : v.waiting with
  | false =>
      rw [hw, if_neg Bool.false_ne_true, List.append_eq_nil_iff] at hcaller
      obtain ⟨_, hgranted⟩ := hcaller
      simp only [JobQueue.enter, Bool.false_eq_true, if_false, JobQueue.offer, hp, if_true,
        FairSemaphore.request]
      cases hc : v.pool.queue.slots.closed with
      | true => rfl
      | false =>
          have hsum := hroom hc
          rw [hgranted, List.length_nil] at hsum
          simp only [Bool.false_eq_true, if_false]
          cases hfree : v.pool.queue.slots.free with
          | zero => rw [if_pos (by omega)]
          | succ n => rw [if_neg (by omega)]
  | true =>
      rw [hw, if_pos rfl] at hcaller
      simp only [JobQueue.enter, if_true, JobQueue.reoffer, FairSemaphore.resume]
      cases hc : v.pool.queue.slots.closed with
      | true =>
          rcases FairSemaphore.alone hcaller with ⟨_, hgranted⟩ | ⟨_, hgranted⟩
          · simp [hgranted]
          · simp [hgranted]
      | false =>
          have hsum := hroom hc
          simp only [Bool.false_eq_true, if_false]
          rcases FairSemaphore.alone hcaller with ⟨hwaiting, hgranted⟩ | ⟨_, hgranted⟩
          · have hfree := hbusy hc (by simp [hwaiting])
            rw [hgranted, List.length_nil] at hsum
            rw [if_pos (by omega : v.pool.queue.buffer.length = v.pool.queue.capacity)]
            simp [hgranted]
          · rw [hgranted, List.length_singleton] at hsum
            rw [if_neg (by omega : v.pool.queue.buffer.length ≠ v.pool.queue.capacity)]
            simp [hgranted]

/-- A caller that waits notices that there is room now, or that no receiver is left. -/
theorem offerReady_iff (hs : Slots v) (hw : v.waiting = true) :
    v.pool.queue.offerReady () = true ↔
      v.pool.queue.slots.closed = true ∨
        v.pool.queue.buffer.length ≠ v.pool.queue.capacity := by
  have hroom := hs.room
  have hcaller := hs.caller
  rw [hw, if_pos rfl] at hcaller
  unfold JobQueue.offerReady FairSemaphore.ready
  cases hc : v.pool.queue.slots.closed with
  | true =>
      rcases FairSemaphore.alone hcaller with ⟨hwaiting, hgranted⟩ | ⟨hwaiting, hgranted⟩
      · simp [hwaiting, hgranted]
      · simp [hwaiting, hgranted]
  | false =>
      have hsum := hroom hc
      rcases FairSemaphore.alone hcaller with ⟨hwaiting, hgranted⟩ | ⟨hwaiting, hgranted⟩
      · have hfree := hs.busy hc (by simp [hwaiting])
        rw [hgranted, List.length_nil] at hsum
        simp only [hgranted, hwaiting]
        simp
        omega
      · rw [hgranted, List.length_singleton] at hsum
        simp only [hgranted, hwaiting]
        simp
        omega

end Slots

/-- What a pool answers to a job that it is offered. -/
def WorkerPool.admission (p : WorkerPool) (e : Engine) : Admission :=
  if p.live = 0 then .refused
  else if (p.unfinished e).length = p.live + p.queue.capacity then .parked
  else .taken

namespace Engine

variable {b : Backend} {e next later : Engine} {label : Label} {labels : List Label} {i k : Nat}
  {d : Driver} {p p' : WorkerPool} {w : Worker} {job : Job}

/-- What was discarded had been in the buffer. -/
theorem size_discarded_le (h : Reachable b e) (hp : e.pools[i]? = some p) :
    p.queue.discarded.size ≤ p.queue.capacity := by
  induction h generalizing p with
  | start => simp at hp
  | @step e next label h hs ih =>
      rcases hq : e.pools[i]? with _ | q
      · obtain ⟨_, ⟨capacity, _, hfresh⟩, _⟩ := (step_views h hs).fresh i _ (view?_eq_none.mpr hq)
          (view?_eq_some.mpr ⟨p, hp, rfl⟩)
        rw [show p = _ from congrArg PoolView.pool hfresh]
        exact Nat.zero_le capacity
      · obtain ⟨q', hq', hstep⟩ := (step_views h hs).pool hq
        cases hp.symm.trans hq'
        rcases hstep with ⟨rfl, _⟩ | hstep
        · exact ih hq
        · exact hstep.size_discarded_le (orderly_of_pool h hq) (ih hq)

theorem producing_of_driver (h : Reachable b e) (hd : e.driver = some d)
    (hp : e.pools[d.pool]? = some p) : p.queue.producing = true := by
  obtain ⟨q, hq, hopen⟩ := (housed_of_reachable h).driver d hd
  cases hp.symm.trans hq
  exact hopen

theorem not_opens_of_driver (h : Reachable b e) (hd : e.driver = some d) :
    e.opens d.pool = false := by
  apply beq_false_of_ne
  intro hopening
  exact ((housed_of_reachable h).opening _ hopening).2 d hd rfl

theorem inFlight_le_live (p : WorkerPool) : p.inFlight ≤ p.live := by
  unfold WorkerPool.inFlight WorkerPool.live
  rw [← Array.countP_toList, ← Array.countP_toList]
  apply List.countP_mono_left
  intro w _ hflight
  exact isLive_of_inFlight hflight

namespace Rests

/-- If there are jobs in the buffer, as many are executed as there are workers that go on. -/
theorem inFlight_eq (hr : e.Rests b i) (h : Reachable b e) (hp : e.pools[i]? = some p)
    (hbuffer : p.queue.buffer ≠ []) : p.inFlight = p.live := by
  unfold WorkerPool.inFlight WorkerPool.live
  rw [← Array.countP_toList, ← Array.countP_toList]
  apply List.countP_congr
  intro w hmem
  obtain ⟨k, hw⟩ := Array.mem_iff_getElem?.mp (Array.mem_toList_iff.mp hmem)
  exact ⟨isLive_of_inFlight, hr.inFlight_of_buffer h hp hbuffer hw⟩

theorem stalled (hr : e.Rests b i) (h : Reachable b e) (hp : e.pools[i]? = some p)
    (hbuffer : p.queue.buffer ≠ []) (hw : p.workers[k]? = some w) :
    w.activity.hasEnded = true ∨ w.activity.isStalling = true := by
  cases hl : w.activity.isLive with
  | true =>
      have hflight := hr.inFlight_of_buffer h hp hbuffer hw hl
      obtain ⟨job, hj⟩ := (hr.inFlight_iff hp hw).mp hflight
      exact .inr (hr.isStalling hp hw hj)
  | false => exact .inl (hr.hasEnded hp hw hl)

section Driver

variable (hr : e.Rests b d.pool) (h : Reachable b e) (hd : e.driver = some d)
  (hp : e.pools[d.pool]? = some p)

include hr h hd hp

theorem live_eq_zero_iff : p.live = 0 ↔ p.queue.slots.closed = true := by
  rw [← allEnded_iff_closed h hp (not_opens_of_driver h hd)]
  unfold WorkerPool.live WorkerPool.allEnded
  rw [Array.countP_eq_zero, Array.all_eq_true_iff_forall_mem]
  constructor
  · intro hnone w hmem
    obtain ⟨k, hw⟩ := Array.mem_iff_getElem?.mp hmem
    exact hr.hasEnded hp hw (Bool.eq_false_of_not_eq_true (hnone w hmem))
  · intro hall w hmem hlive
    have hended := hall w hmem
    cases ha : w.activity with
    | ended panicked =>
        rw [ha] at hlive
        cases hlive
    | _ =>
        rw [ha] at hended
        cases hended

theorem open_of_live (hlive : 0 < p.live) : p.queue.slots.closed = false := by
  rw [← Bool.not_eq_true, ← hr.live_eq_zero_iff h hd hp]
  omega

theorem length_buffer_le (hlive : 0 < p.live) :
    p.queue.discarded = #[] ∧ p.queue.buffer.length ≤ p.queue.capacity := by
  have horderly := orderly_of_pool h hp
  have hopen := hr.open_of_live h hd hp hlive
  have hroom := horderly.slots.room hopen
  refine ⟨horderly.order.kept hopen, ?_⟩
  dsimp only at hroom
  omega

/-- As many jobs are unfinished as can be exactly if the queue is full. -/
theorem unfinished_eq_iff (hlive : 0 < p.live) :
    (p.unfinished e).length = p.live + p.queue.capacity ↔
      p.queue.buffer.length = p.queue.capacity := by
  have hsum := hr.length_unfinished h hp
  obtain ⟨hkept, hle⟩ := hr.length_buffer_le h hd hp hlive
  have hcapacity : 0 < p.queue.capacity := (orderly_of_pool h hp).slots.capacity
  have hflight := inFlight_le_live p
  rw [hkept, Array.size_empty] at hsum
  constructor
  · intro hfull
    omega
  · intro hfull
    have hbuffer : p.queue.buffer ≠ [] := by
      apply List.ne_nil_of_length_pos
      omega
    have hall := hr.inFlight_eq h hp hbuffer
    omega

theorem bounded : (p.unfinished e).length ≤ p.live + p.queue.capacity := by
  have hsum := hr.length_unfinished h hp
  have hflight := inFlight_le_live p
  rcases Nat.eq_zero_or_pos p.live with hnone | hlive
  · have hclosed := (hr.live_eq_zero_iff h hd hp).mp hnone
    have hgone : p.queue.buffer = [] := (orderly_of_pool h hp).order.gone hclosed
    have hdiscarded := size_discarded_le h hp
    rw [hgone, List.length_nil] at hsum
    omega
  · obtain ⟨hkept, hle⟩ := hr.length_buffer_le h hd hp hlive
    rw [hkept, Array.size_empty] at hsum
    omega

theorem admission_eq : p.admission e =
    if p.queue.slots.closed then .refused
    else if p.queue.buffer.length = p.queue.capacity then .parked
    else .taken := by
  unfold WorkerPool.admission
  rcases Nat.eq_zero_or_pos p.live with hnone | hlive
  · rw [if_pos hnone, if_pos ((hr.live_eq_zero_iff h hd hp).mp hnone)]
  · have hopen := hr.open_of_live h hd hp hlive
    have hiff := hr.unfinished_eq_iff h hd hp hlive
    rw [if_neg (by omega : p.live ≠ 0), hopen, if_neg Bool.false_ne_true]
    simp only [hiff]

/-- If a job has to wait, that is because the queue is full. -/
theorem full_of_parked (hparked : p.admission e = .parked) :
    p.queue.slots.closed = false ∧ p.queue.buffer.length = p.queue.capacity ∧
      p.queue.buffer ≠ [] := by
  have hcapacity : 0 < p.queue.capacity := (orderly_of_pool h hp).slots.capacity
  rw [hr.admission_eq h hd hp] at hparked
  split at hparked
  · cases hparked
  · next hopen =>
    split at hparked
    · next hfull =>
      refine ⟨Bool.eq_false_of_not_eq_true hopen, hfull, List.ne_nil_of_length_pos ?_⟩
      omega
    · cases hparked

/-- The queue answers as its pool's workers and unfinished jobs say. -/
theorem enter (job : Job) : (p.queue.enter (e.waitsAt d.pool) job).1 = p.admission e := by
  have hslots := (orderly_of_pool h hp).slots
  rw [hr.admission_eq h hd hp]
  exact hslots.enter (producing_of_driver h hd hp) job

/-- A caller that waits has nothing to notice while nothing more is accepted. -/
theorem offerReady_iff (hw : e.waitsAt d.pool = true) :
    p.queue.offerReady () = true ↔ p.admission e ≠ .parked := by
  have hslots := (orderly_of_pool h hp).slots
  rw [hr.admission_eq h hd hp]
  refine (hslots.offerReady_iff hw).trans ?_
  dsimp only
  cases hc : p.queue.slots.closed with
  | true => simp
  | false => simp

/-- A caller that waits while nothing more is accepted waits for an execution to come to its end. -/
theorem jammed (hw : e.waitsAt d.pool = true) (hparked : p.admission e = .parked) :
    e.Jammed d p := by
  obtain ⟨_, _, hbuffer⟩ := hr.full_of_parked h hd hp hparked
  constructor
  · exact hd
  · exact hp
  · exact hw
  · by_contra hgoes
    exact (hr.offerReady_iff h hd hp hw).mp (Bool.eq_true_of_not_eq_false hgoes) hparked
  · intro k w hw'
    exact hr.stalled h hp hbuffer hw'

end Driver

end Rests

/-- A worker that died by panicking leaves a job behind whose attempt came to an end. -/
theorem Exited.finished (hx : Exited b i k true e) :
    ∃ p, e.pools[i]? = some p ∧ p.finished e ≠ [] := by
  induction hx with
  | @now e next p w h hp hw hx hs =>
      obtain ⟨job, hj, hdone⟩ : ∃ job, w.activity.job? = some job ∧ job.origin ∈ next.done := by
        cases hx with
        | @collapsed job message ha hc =>
            refine ⟨job, by rw [ha]; rfl, mem_done.mpr (.inr (mem_collapsed.mpr ?_))⟩
            simp only [Engine.step, advance, workerStep, hp, hw, ha, Option.bind_eq_bind,
              Option.bind_some, beginJob, beginExecution, hc, Option.some.injEq] at hs
            rw [← hs]
            exact ⟨_, Array.mem_push_self, rfl, rfl⟩
        | @misused job ha hl =>
            refine ⟨job, by rw [ha]; rfl, step_done hs (job_mem_done.mpr ?_)⟩
            have hflow := (sound_of_reachable h).flow job.origin
            have hrecording := number_pos_of_hands (s := .recording) rfl hp hw (by rw [ha]; rfl)
            have hcounted := hflow.counted
            have hfalse := hflow.counted_le_finished false
            have htrue := hflow.counted_le_finished true
            omega
      obtain ⟨p', hp', hfollows⟩ := (step_views h hs).follows hp
      have haccepted := (traced_of_reachable h).jobs i p job hp (.inr ⟨k, w, hw, hj⟩)
      refine ⟨p', hp', List.ne_nil_of_mem (a := job.origin) ?_⟩
      apply List.mem_filter.mpr
      exact ⟨mem_origins.mpr ⟨job, hfollows.mem_accepted haccepted, rfl⟩, decide_eq_true hdone⟩
  | step label hx hs ih =>
      obtain ⟨p, hp, hne⟩ := ih
      obtain ⟨p', hp', _⟩ := (step_views hx.reachable hs).follows hp
      refine ⟨p', hp', ?_⟩
      intro hnone
      have hsub := step_finished hx.reachable hs hp hp'
      rw [hnone, List.sublist_nil] at hsub
      exact hne hsub

theorem live_eq_size (hall : ∀ (k : Nat) (w : Worker), p.workers[k]? = some w →
    w.activity.isLive = true) : p.live = p.workers.size := by
  apply Array.countP_eq_size.mpr
  intro w hmem
  obtain ⟨k, hw⟩ := Array.mem_iff_getElem?.mp hmem
  exact hall k w hw

/-- As long as no attempt has come to an end, no worker has died. -/
theorem live_of_unfinished (h : Reachable b e) (hd : e.driver = some d)
    (hp : e.pools[d.pool]? = some p) (hnone : p.finished e = []) : p.live = p.workers.size := by
  apply live_eq_size
  intro k w hw
  by_contra hdead
  obtain ⟨panicked, hx⟩ : ∃ panicked, Exited b d.pool k panicked e := by
    cases stopped_of_reachable h (worker?_eq_some.mpr ⟨p, hp, hw⟩)
      (Bool.eq_false_of_not_eq_true hdead) with
    | leaving hx ha => exact ⟨_, hx⟩
    | ended hx ha => exact ⟨_, hx⟩
  cases panicked with
  | false =>
      obtain ⟨q, hq, ⟨hclosed, _⟩, _⟩ := hx.drained
      cases hp.symm.trans hq
      rw [producing_of_driver h hd hp] at hclosed
      cases hclosed
  | true =>
      obtain ⟨q, hq, hne⟩ := hx.finished
      cases hp.symm.trans hq
      exact hne hnone

/-- Nor has one if no latch was given too many jobs and no call has panicked at once. -/
theorem live_of_roomy (h : Reachable b e) (hd : e.driver = some d)
    (hp : e.pools[d.pool]? = some p) (hroom : e.Roomy)
    (hnone : ∀ x ∈ e.executions, ∀ latch index, ¬ x.Collapsed latch index) :
    p.live = p.workers.size := by
  apply live_eq_size
  intro k w hw
  rcases ((survival h hroom).2.mpr hnone).live d.pool k p w hp hw with hlive | ⟨hclosed, _⟩
  · exact hlive
  · rw [producing_of_driver h hd hp] at hclosed
    cases hclosed

/-- The caller waits for a slot, and it does so as long as no execution of the pool comes to its
end. Meanwhile nothing gets into the queue or out of it. -/
structure Blocked (b : Backend) (e : Engine) (i : Nat) (p : WorkerPool) : Prop where
  waits : e.step b (.act .caller) = none
  stays : ∀ (labels : List Label) (later : Engine) (p' : WorkerPool),
    (∀ label ∈ labels, label ≠ .cancel) → e.run b labels = some later →
      later.pools[i]? = some p' → (p'.finished later).length = (p.finished e).length →
        later.step b (.act .caller) = none ∧ later.progress = e.progress ∧ p'.queue = p.queue

theorem Jammed.blocked (hj : e.Jammed d p) (h : Reachable b e) : Blocked b e d.pool p := by
  constructor
  · exact hj.caller h
  · intro labels later p' hc hr hp' hsame
    obtain ⟨hj', hprogress, hqueue⟩ := hj.run h hc hr hp' hsame
    exact ⟨hj'.caller (h.run hr), hprogress, hqueue⟩

/-- What the first step of a call to submit a job comes to. -/
inductive Submits (b : Backend) (d : Driver) (p : WorkerPool) (next : Engine) : Admission → Prop
  | refused (hr : next.progress = .returned (.submitted 0 (.fault .queueClosed)))
      (hp : next.pools[d.pool]? = some p) : Submits b d p next .refused
  | parked {p' : WorkerPool} (hp : next.pools[d.pool]? = some p')
      (hq : p'.queue.accepted = p.queue.accepted ∧ p'.queue.buffer = p.queue.buffer)
      (hb : Blocked b next d.pool p') : Submits b d p next .parked
  | taken {p' : WorkerPool} {job : Job} {later : Engine} (hp : next.pools[d.pool]? = some p')
      (hq : p'.queue.accepted = p.queue.accepted.push job)
      (hs : next.step b (.act .caller) = some later)
      (hr : later.progress = .returned (.submitted 1 .ok)) : Submits b d p next .taken

theorem step_of_offer {s : Submission} {left : Nat} {admission : Admission}
    {queue : JobQueue Job Unit Nat} (hd : e.driver = some d) (hp : e.pools[d.pool]? = some p)
    (hr : e.progress = .submitting s) (hw : s.waiting = none) (hl : s.left = left + 1)
    (hq : p.queue.offer () (e.newJob s.latch s.command).1 = (admission, queue)) :
    e.step b (.act .caller) = some (
      let after := (e.newJob s.latch s.command).2.putQueue d.pool queue
      match admission with
      | .taken => { after with progress := .submitting { s with left, accepted := s.accepted + 1 } }
      | .parked =>
          { after with
            progress := .submitting { s with waiting := some (e.newJob s.latch s.command).1 } }
      | .refused =>
          (after.record (.lost s.latch (e.newJob s.latch s.command).1.index)).finish
            (.submitted s.accepted (.fault .queueClosed))) := by
  change e.callerStep b = _
  simp only [callerStep, hr, hd, Option.bind_some, submitStep, hp, hw, hl, Option.bind_eq_bind, hq]
  cases admission with
  | taken | parked | refused => rfl

theorem step_of_sent {s : Submission} (hd : e.driver = some d)
    (hp : e.pools[d.pool]? = some p) (hr : e.progress = .submitting s) (hw : s.waiting = none)
    (hl : s.left = 0) :
    e.step b (.act .caller) = some (e.finish (.submitted s.accepted .ok)) := by
  change e.callerStep b = _
  simp [callerStep, hr, hd, submitStep, hp, hw, hl]

theorem waitsAt_of_submitting {s : Submission} (hd : e.driver = some d)
    (hr : e.progress = .submitting s) (hw : s.waiting = some job) : e.waitsAt d.pool = true := by
  have hhand : e.progress.hand = some (job, true) := by
    rw [hr, Progress.hand, hw]
    rfl
  exact waitsAt_driver hd hhand

theorem step_of_submit (hrest : e.progress.atRest = true) (hd : e.driver = some d) {latch : Nat}
    (hl : e.isShared latch = true) (command : Command) (left : Nat) :
    e.step b (.call (.submit command latch left)) =
      some { e with progress := .submitting { command, latch, left } } := by
  simp [Engine.step, hrest, begin, hd, hl]

theorem pool_putQueue (hp : e.pools[i]? = some p) (queue : JobQueue Job Unit Nat) :
    (e.putQueue i queue).pools[i]? = some { p with queue } := by
  unfold putQueue
  rw [modify_eq_set _ hp]
  exact getElem?_set_self hp _

theorem Rests.submits (hr : e.Rests b d.pool) (h : Reachable b e) (hd : e.driver = some d)
    (hp : e.pools[d.pool]? = some p) (hrest : e.progress.atRest = true) (command : Command)
    {latch : Nat} (hl : e.isShared latch = true) : ∃ mid next,
      e.step b (.call (.submit command latch 1)) = some mid ∧
        mid.step b (.act .caller) = some next ∧ Submits b d p next (p.admission e) := by
  have hbegins := step_of_submit (b := b) hrest hd hl command 1
  generalize hstart : ({ e with progress := .submitting { command, latch, left := 1 } } : Engine) =
    mid at hbegins
  have hprogress : mid.progress = .submitting { command, latch, left := 1 } := by
    rw [← hstart]
  have hdriver : mid.driver = some d := by
    rw [← hstart]
    exact hd
  have hpool : mid.pools[d.pool]? = some p := by
    rw [← hstart]
    exact hp
  have hput (queue : JobQueue Job Unit Nat) :=
    pool_putQueue (e := (mid.newJob latch command).2) hpool queue
  have hadmission := hr.enter h hd hp (mid.newJob latch command).1
  rw [waitsAt_of_hand_none (Progress.hand_at_rest hrest).1] at hadmission
  change (p.queue.offer () (mid.newJob latch command).1).1 = p.admission e at hadmission
  rcases hq : p.queue.offer () (mid.newJob latch command).1 with ⟨admission, queue⟩
  rw [hq] at hadmission
  change admission = p.admission e at hadmission
  have hstep := step_of_offer (b := b) hdriver hpool hprogress rfl rfl hq
  refine ⟨mid, _, hbegins, hstep, ?_⟩
  rw [← hadmission]
  cases admission with
  | refused =>
      obtain ⟨_, rfl⟩ := JobQueue.offer_refused hq
      exact .refused rfl (hput _)
  | taken =>
      obtain ⟨_, _, n, _, rfl⟩ := JobQueue.offer_taken hq
      refine .taken (hput _) rfl (step_of_sent ?_ (hput _) rfl rfl rfl) rfl
      exact hdriver
  | parked =>
      obtain ⟨hopen, hfull, hbuffer⟩ := hr.full_of_parked h hd hp hadmission.symm
      obtain ⟨_, _, _, rfl⟩ := JobQueue.offer_parked hq
      have hnext := (h.step _ hbegins).step _ hstep
      refine .parked (hput _) ⟨rfl, rfl⟩ (Jammed.blocked ?_ hnext)
      have hslots := (orderly_of_pool hnext (hput _)).slots
      exact {
        driver := hdriver
        pool := hput _
        waits := waitsAt_of_submitting hdriver rfl rfl
        full := by
          rw [← Bool.not_eq_true, hslots.offerReady_iff (waitsAt_of_submitting hdriver rfl rfl)]
          simp [hopen, hfull]
        workers := by
          intro k w hw
          exact hr.stalled h hp hbuffer hw }

/-- How a pool takes jobs whose workers have nothing to do but to wait for executions that stall. -/
structure Backpressure (b : Backend) (e : Engine) (d : Driver) (p : WorkerPool) : Prop where
  /-- If there are jobs in the buffer, everybody who goes on executes one. -/
  busy : p.queue.buffer ≠ [] → ∀ (k : Nat) (w : Worker), p.workers[k]? = some w →
    w.activity.isLive = true → w.activity.inFlight = true
  attempted : p.queue.accepted.size =
    (p.attempts e).length + p.queue.buffer.length + p.queue.discarded.size
  kept : 0 < p.live → p.queue.discarded = #[]
  bounded : (p.unfinished e).length ≤ p.live + p.queue.capacity
  /-- What becomes of a job that is offered now, or that waits already. -/
  offers : ∀ job, (p.queue.enter (e.waitsAt d.pool) job).1 = p.admission e
  submits : e.progress.atRest = true → ∀ (command : Command) (latch : Nat),
    e.isShared latch = true → ∃ mid next,
      e.step b (.call (.submit command latch 1)) = some mid ∧
        mid.step b (.act .caller) = some next ∧ Submits b d p next (p.admission e)
  waits : e.waitsAt d.pool = true → if p.admission e = .parked then Blocked b e d.pool p
    else ∃ next, e.step b (.act .caller) = some next
  /-- How many jobs are accepted before nothing more is. -/
  fills : 0 < p.live → p.admission e =
    if p.queue.accepted.size < p.live + p.queue.capacity + (p.finished e).length then .taken
    else .parked
  untouched : p.finished e = [] → p.live = p.workers.size
  spared : e.Roomy → (∀ x ∈ e.executions, ∀ latch index, ¬ x.Collapsed latch index) →
    p.live = p.workers.size
  /-- From one time when nothing more is accepted to another, as many jobs are accepted as attempts
  come to an end, less one for each worker that dies. -/
  refills : p.admission e = .parked → ∀ (labels : List Label) (later : Engine) (p' : WorkerPool),
    e.run b labels = some later → later.pools[d.pool]? = some p' → p'.admission later = .parked →
      p'.queue.accepted.size + (p.finished e).length + p.live =
        p.queue.accepted.size + (p'.finished later).length + p'.live

theorem size_of_parked (hparked : p.admission e = .parked) :
    p.queue.accepted.size = p.live + p.queue.capacity + (p.finished e).length := by
  have hsum := p.unfinished_add_finished e
  unfold WorkerPool.admission at hparked
  split at hparked
  · cases hparked
  · split at hparked
    · omega
    · cases hparked

theorem run_capacity (h : Reachable b e) (hr : e.run b labels = some later)
    (hp : e.pools[i]? = some p) (hp' : later.pools[i]? = some p') :
    p'.queue.capacity = p.queue.capacity := by
  obtain ⟨q, hq, hsame⟩ := run_pool (P := fun q => q.queue.capacity = p.queue.capacity)
    (fun _ _ hstep hcapacity => hstep.capacity.trans hcapacity) h hr hp rfl
  cases hp'.symm.trans hq
  exact hsame

theorem backpressure (h : Reachable b e) (hd : e.driver = some d)
    (hp : e.pools[d.pool]? = some p) (hr : e.Rests b d.pool) : Backpressure b e d p := by
  constructor
  · intro hbuffer k w hw hlive
    exact hr.inFlight_of_buffer h hp hbuffer hw hlive
  · have horder := (orderly_of_pool h hp).order.order
    have hlength := congrArg List.length horder
    simp only [List.length_append, Array.length_toList] at hlength
    rw [hr.length_attempts h hp]
    exact hlength
  · intro hlive
    exact (hr.length_buffer_le h hd hp hlive).1
  · exact hr.bounded h hd hp
  · exact hr.enter h hd hp
  · intro hrest command latch hl
    exact hr.submits h hd hp hrest command hl
  · intro hw
    split
    · next hparked => exact (hr.jammed h hd hp hw hparked).blocked h
    · next hgoes =>
      have hready := (hr.offerReady_iff h hd hp hw).mpr hgoes
      exact (callerStep_of_waiting h hd hp hw).mpr hready
  · intro hlive
    have hbounded := hr.bounded h hd hp
    have hsum := p.unfinished_add_finished e
    unfold WorkerPool.admission
    rw [if_neg (by omega : p.live ≠ 0)]
    split
    · rw [if_neg (by omega)]
    · rw [if_pos (by omega)]
  · exact live_of_unfinished h hd hp
  · exact live_of_roomy h hd hp
  · intro hparked labels later p' hrun hp' hparked'
    have hfull := size_of_parked hparked
    have hfull' := size_of_parked hparked'
    have hcapacity := run_capacity h hrun hp hp'
    omega

/-- A pool comes to rest if its workers are let. -/
theorem exists_rests (b : Backend) (e : Engine) (i : Nat) : ∃ labels later,
    (∀ label ∈ labels, ∃ k, label = .act (.worker i k)) ∧ e.run b labels = some later ∧
      later.Rests b i := by
  -- Each step of a worker takes something away from the work in the pools.
  induction hwork : total WorkerPool.work e.pools using Nat.strong_induction_on generalizing e with
  | h n ih =>
      by_cases hr : e.Rests b i
      · exact ⟨[], e, by simp, rfl, hr⟩
      · unfold Rests at hr
        push Not at hr
        obtain ⟨k, w, hw, _, hmoves⟩ := hr
        obtain ⟨next, hs⟩ := Option.ne_none_iff_exists'.mp hmoves
        obtain ⟨p, w', hp, hw', hm⟩ := workerStep_move hs
        have hlt : total WorkerPool.work next.bare.pools < total WorkerPool.work e.bare.pools :=
          hm.work_lt hp hw'
        change total WorkerPool.work next.pools < total WorkerPool.work e.pools at hlt
        obtain ⟨labels, later, hlabels, hrun, hrests⟩ := ih _ (by omega) next rfl
        refine ⟨.act (.worker i k) :: labels, later, ?_, run_cons.mpr ⟨next, hs, hrun⟩, hrests⟩
        intro label hmem
        rcases List.mem_cons.mp hmem with rfl | hmem
        · exact ⟨k, rfl⟩
        · exact hlabels label hmem

/-- Whether a pool is at rest, by looking at its workers one after the other. -/
def isAtRest (b : Backend) (e : Engine) (i : Nat) (p : WorkerPool) : Bool :=
  (List.range p.workers.size).all fun k =>
    (p.activity? k).any (·.isStalling) || (e.step b (.act (.worker i k))).isNone

theorem rests_of_isAtRest (hp : e.pools[i]? = some p) (hall : e.isAtRest b i p = true) :
    e.Rests b i := by
  intro k w hw
  obtain ⟨q, hq, hw⟩ := worker?_eq_some.mp hw
  cases hp.symm.trans hq
  obtain ⟨hk, _⟩ := Array.getElem?_eq_some_iff.mp hw
  have hone := List.all_eq_true.mp hall k (List.mem_range.mpr hk)
  rw [Bool.or_eq_true, Option.isNone_iff_eq_none, activity?_eq_some.mpr ⟨w, hw, rfl⟩] at hone
  exact hone

/-- One worker and one slot take two of three jobs, and then the caller waits. -/
theorem backpressure_of_three : ∃ (e : Engine) (d : Driver) (p : WorkerPool),
    Reachable (.always (.stall none)) e ∧ e.driver = some d ∧ e.pools[d.pool]? = some p ∧
      e.Rests (.always (.stall none)) d.pool ∧ e.waitsAt d.pool = true ∧
      p.queue.accepted.size = 2 ∧ p.admission e = .parked ∧
      Backpressure (.always (.stall none)) e d p := by
  have hruns : ((Engine.run (.always (.stall none)) {} ([.newLatch 3, .call (.start 1 1 false),
      .act .caller, .act .caller, .call (.submit (.ofName "ping") 0 3), .act .caller] ++
      .replicate 4 (.act (.worker 0 0)) ++ [.act .caller, .act .caller])).bind
        fun e => e.driver.bind fun d => e.pools[d.pool]?.map fun p =>
          (e.isAtRest (.always (.stall none)) d.pool p, e.waitsAt d.pool, p.queue.accepted.size,
            p.admission e)) = some (true, true, 2, .parked) := by decide +kernel
  simp only [Option.bind_eq_some_iff, Option.map_eq_some_iff, Prod.mk.injEq] at hruns
  obtain ⟨e, he, d, hd, p, hp, hall, hwaits, hsize, hparked⟩ := hruns
  have hreachable : Reachable (.always (.stall none)) e := Reachable.start.run he
  have hrests := rests_of_isAtRest hp hall
  exact ⟨e, d, p, hreachable, hd, hp, hrests, hwaits, hsize, hparked,
    backpressure hreachable hd hp hrests⟩

/-- The same with a latch that counts one job only. Both jobs come to their end, but the second of
them takes the only worker with it, and the next submit is turned away. -/
theorem refused_after_misuse : ∃ (e later next : Engine) (d : Driver) (p p' : WorkerPool),
    Reachable (.always (.stall none)) e ∧ e.driver = some d ∧ e.pools[d.pool]? = some p ∧
      e.Rests (.always (.stall none)) d.pool ∧ p.workers.size = 1 ∧ p.queue.capacity = 1 ∧
      p.finished e = [] ∧ p.queue.accepted.size = 2 ∧ p.admission e = .parked ∧
      e.run (.always (.stall none))
        ([.cancel, .release 2] ++ .replicate 10 (.act (.worker 0 0))) = some later ∧
      later.pools[d.pool]? = some p' ∧ later.Rests (.always (.stall none)) d.pool ∧
      (p'.finished later).length = 2 ∧
      later.run (.always (.stall none)) [.call (.submit (.ofName "ping") 0 1), .act .caller] =
        some next ∧
      next.progress.answer? = some (.submitted 0 (.fault .queueClosed)) := by
  have hruns : ((Engine.run (.always (.stall none)) {} ([.newLatch 1, .call (.start 1 1 false),
      .act .caller, .act .caller, .call (.submit (.ofName "ping") 0 3), .act .caller] ++
      .replicate 4 (.act (.worker 0 0)) ++ [.act .caller, .act .caller])).bind
        fun e => e.driver.bind fun d => e.pools[d.pool]?.bind fun p =>
          (e.run (.always (.stall none))
            ([.cancel, .release 2] ++ .replicate 10 (.act (.worker 0 0)))).bind fun later =>
              later.pools[d.pool]?.bind fun p' =>
                (later.run (.always (.stall none))
                  [.call (.submit (.ofName "ping") 0 1), .act .caller]).map fun next =>
                    ([p.workers.size, p.queue.capacity, (p.finished e).length,
                      p.queue.accepted.size, (p'.finished later).length],
                      e.isAtRest (.always (.stall none)) d.pool p, p.admission e,
                      later.isAtRest (.always (.stall none)) d.pool p', next.progress.answer?)) =
      some ([1, 1, 0, 2, 2], true, .parked, true,
        some (.submitted 0 (.fault .queueClosed))) := by decide +kernel
  simp only [Option.bind_eq_some_iff, Option.map_eq_some_iff, Prod.mk.injEq,
    List.cons.injEq] at hruns
  obtain ⟨e, he, d, hd, p, hp, later, hr, p', hp', next, hn, ⟨hworkers, hcapacity, hnone, hsize,
    hfinished, _⟩, hall, hparked, hall', hanswer⟩ := hruns
  exact ⟨e, later, next, d, p, p', Reachable.start.run he, hd, hp, rests_of_isAtRest hp hall,
    hworkers, hcapacity, List.length_eq_zero_iff.mp hnone, hsize, hparked, hr, hp',
    rests_of_isAtRest hp' hall', hfinished, hn, hanswer⟩

end Engine

end LoadBench
