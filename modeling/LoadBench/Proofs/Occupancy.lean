import LoadBench.Proofs.ClosedPool
import LoadBench.Proofs.PhaseReport

/-!
Where the jobs of a pool are when its workers have nothing to do but to wait for executions that
stall. Each job that was accepted and not finished is then executed by a worker, it is in the
buffer, or it was discarded from there; and each execution that was begun was begun for a job that
was taken from the buffer. An execution whose call panicked at once counts as finished.
-/

namespace LoadBench

/-- Whether a worker has an execution that waits for a permit or is about to ask for one. -/
def Activity.isStalling : Activity → Bool
  | .executing _ (.stall _) | .stalled _ _ => true
  | _ => false

namespace WorkerPool

/-- The jobs that the queue of a pool accepted. -/
def origins (p : WorkerPool) : List Origin := p.queue.accepted.toList.map Job.origin

/-- The jobs in the hands of the workers of a pool. -/
def held (p : WorkerPool) : List Origin :=
  p.workers.toList.filterMap fun w => w.activity.job?.map Job.origin

/-- How many workers go on. -/
def live (p : WorkerPool) : Nat := p.workers.countP (·.activity.isLive)

end WorkerPool

namespace Engine

/-- The executions that came to an end, by where they come from. -/
def done (e : Engine) : List Origin :=
  (e.events.toList.filterMap fun
    | .finished origin _ => some origin
    | _ => none) ++ e.collapsed

end Engine

namespace WorkerPool

/-- The attempts that were begun for the jobs of a pool. -/
def attempts (p : WorkerPool) (e : Engine) : List Origin := e.begun.filter (· ∈ p.origins)

/-- The jobs of a pool whose attempts came to an end. -/
def finished (p : WorkerPool) (e : Engine) : List Origin := p.origins.filter (· ∈ e.done)

/-- The other jobs of a pool. -/
def unfinished (p : WorkerPool) (e : Engine) : List Origin := p.origins.filter (· ∉ e.done)

theorem unfinished_add_finished (p : WorkerPool) (e : Engine) :
    (p.unfinished e).length + (p.finished e).length = p.queue.accepted.size := by
  have hsplit := List.length_eq_length_filter_add (l := p.origins) (fun o => decide (o ∈ e.done))
  have hlength : p.origins.length = p.queue.accepted.size := by
    rw [origins, List.length_map, Array.length_toList]
  unfold finished unfinished
  simp only [decide_not]
  omega

end WorkerPool

namespace Engine

variable {b : Backend} {e next : Engine} {label : Label} {labels : List Label} {i k : Nat}
  {p p' : WorkerPool} {w : Worker} {job : Job} {o : Origin}

theorem mem_done : o ∈ e.done ↔ (∃ failed, .finished o failed ∈ e.events.toList) ∨
    o ∈ e.collapsed := by
  unfold done
  rw [List.mem_append, List.mem_filterMap]
  constructor
  · rintro (⟨event, hmem, ho⟩ | hcollapsed)
    · cases event with
      | finished origin failed =>
          cases ho
          exact .inl ⟨failed, hmem⟩
      | _ => cases ho
    · exact .inr hcollapsed
  · rintro (⟨failed, hmem⟩ | hcollapsed)
    · exact .inl ⟨_, hmem, rfl⟩
    · exact .inr hcollapsed

theorem job_mem_done : job.origin ∈ e.done ↔
    0 < e.ledger.number job.origin (.finished false) +
      e.ledger.number job.origin (.finished true) + e.ledger.number job.origin .collapsed := by
  have hfinished (failed : Bool) : .finished job.origin failed ∈ e.events.toList ↔
      0 < e.ledger.number job.origin (.finished failed) := by
    unfold Job.origin
    rw [← count_finished, List.count_pos_iff]
  have hcollapsed : job.origin ∈ e.collapsed ↔ 0 < e.ledger.number job.origin .collapsed := by
    unfold Job.origin
    rw [← count_collapsed, List.count_pos_iff]
  rw [mem_done, Bool.exists_bool, hfinished, hfinished, hcollapsed]
  omega

section Jobs

/-- A job that was accepted was accepted once. -/
theorem number_accepted_eq (h : Reachable b e) (hp : e.pools[i]? = some p)
    (hjob : job ∈ p.queue.accepted) : e.ledger.number job.origin .accepted = 1 := by
  have hone := number_accepted_le_one h job.origin
  have hpos := total_count_pos (fun p => p.queue.accepted) hp hjob
  rw [← number_accepted] at hpos
  omega

/-- What is on record of a job that was accepted. -/
structure OnRecord (e : Engine) (o : Origin) : Prop where
  placed : e.ledger.number o .queued + e.ledger.number o .discarded +
    e.ledger.number o .delivered = 1
  delivered : e.ledger.number o .delivered = e.ledger.number o .holding + e.begun.count o
  begun : e.begun.count o = e.ledger.number o .collapsed +
    (e.ledger.number o (.running false) + e.ledger.number o (.finished false)) +
    (e.ledger.number o (.running true) + e.ledger.number o (.finished true))

theorem onRecord (h : Reachable b e) (hp : e.pools[i]? = some p)
    (hjob : job ∈ p.queue.accepted) : e.OnRecord job.origin := by
  have hflow := (sound_of_reachable h).flow job.origin
  have hone := number_accepted_eq h hp hjob
  have hcount : e.begun.count job.origin = e.ledger.number job.origin .collapsed +
      (e.ledger.number job.origin (.begun false) + e.ledger.number job.origin (.begun true)) :=
    count_begun
  have hfalse := hflow.begun false
  have htrue := hflow.begun true
  have haccepted := hflow.accepted
  have hdelivered := hflow.delivered
  constructor
  · omega
  · omega
  · omega

theorem nodup_origins (h : Reachable b e) (hp : e.pools[i]? = some p) : p.origins.Nodup := by
  apply List.nodup_iff_count_le_one.mpr
  intro o
  have hle := worth_le_total
    (fun p : WorkerPool => (p.queue.accepted.toList.map Job.origin).count o) hp
  rw [← number_accepted] at hle
  have hone := number_accepted_le_one h o
  change p.origins.count o ≤ _ at hle
  omega

theorem nodup_held (h : Reachable b e) (hp : e.pools[i]? = some p) : p.held.Nodup := by
  have hall : e.held.Nodup := by
    apply List.nodup_iff_count_le_one.mpr
    intro o
    have hplaced := ((sound_of_reachable h).flow o).placed
    have hmade := Ledger.made_le_one e.ledger o
    rw [count_held]
    omega
  exact (List.nodup_flatMap.mp hall).1 p (Array.mem_toList_iff.mpr (Array.mem_of_getElem? hp))

theorem mem_origins : o ∈ p.origins ↔ ∃ job ∈ p.queue.accepted, job.origin = o := by
  simp [WorkerPool.origins]

theorem mem_pool_held : o ∈ p.held ↔ ∃ (k : Nat) (w : Worker) (job : Job),
    p.workers[k]? = some w ∧ w.activity.job? = some job ∧ job.origin = o := by
  simp only [WorkerPool.held, List.mem_filterMap, Option.map_eq_some_iff, Array.mem_toList_iff,
    Array.mem_iff_getElem?]
  constructor
  · rintro ⟨w, ⟨k, hw⟩, job, hj, ho⟩
    exact ⟨k, w, job, hw, hj, ho⟩
  · rintro ⟨k, w, job, hw, hj, ho⟩
    exact ⟨w, ⟨k, hw⟩, job, hj, ho⟩

/-- What was taken from the queue is the first part of what was accepted. -/
theorem sublist_delivered (h : Reachable b e) (hp : e.pools[i]? = some p) :
    (p.queue.delivered.toList.map Job.origin).Sublist p.origins := by
  unfold WorkerPool.origins
  rw [(orderly_of_pool h hp).order.order, List.append_assoc]
  exact (List.sublist_append_left _ _).map Job.origin

/-- A job that a queue accepted was taken from that queue if it was taken at all. -/
theorem mem_delivered_iff (h : Reachable b e) (hp : e.pools[i]? = some p)
    (hjob : job ∈ p.queue.accepted) :
    job ∈ p.queue.delivered ↔ 0 < e.ledger.number job.origin .delivered := by
  constructor
  · exact number_delivered_pos hp
  · intro hpos
    rw [number_delivered] at hpos
    obtain ⟨j, q, hq, hcount⟩ := exists_of_total_pos hpos
    obtain ⟨job', hmem, ho⟩ := List.mem_map.mp (List.count_pos_iff.mp hcount)
    have hjob' := mem_accepted_of_delivered h hq (Array.mem_toList_iff.mp hmem)
    obtain ⟨rfl, rfl⟩ := accepted_once h hp hq hjob hjob' ho
    cases hp.symm.trans hq
    exact Array.mem_toList_iff.mp hmem

/-- A job that a queue accepted is in the hands of the pool's workers if it is in anybody's. -/
theorem mem_held_iff (h : Reachable b e) (hp : e.pools[i]? = some p)
    (hjob : job ∈ p.queue.accepted) :
    job.origin ∈ p.held ↔ 0 < inHands (e.ledger.number job.origin) := by
  rw [← count_held, List.count_pos_iff]
  constructor
  · intro hmem
    obtain ⟨k, w, job', hw, hj, ho⟩ := mem_pool_held.mp hmem
    rw [← ho]
    exact mem_held hp hw hj
  · intro hmem
    obtain ⟨k, w, hw, hj⟩ := exists_worker_of_held h hp hjob hmem
    exact mem_pool_held.mpr ⟨k, w, job, hw, hj, rfl⟩

/-- What is in the buffer has not come to an end. -/
theorem not_done_of_buffer (h : Reachable b e) (hp : e.pools[i]? = some p)
    (hmem : job ∈ p.queue.buffer) : job.origin ∉ e.done := by
  obtain ⟨hplaced, hdelivered, hbegun⟩ :=
    onRecord h hp ((traced_of_reachable h).jobs i p job hp (.inl hmem))
  have hqueued : 0 < e.queued.count job.origin := by
    apply List.count_pos_iff.mpr
    apply List.mem_flatMap.mpr
    exact ⟨p, Array.mem_toList_iff.mpr (Array.mem_of_getElem? hp), List.mem_map_of_mem hmem⟩
  rw [count_queued] at hqueued
  rw [job_mem_done]
  omega

/-- Nor has what was discarded. -/
theorem not_done_of_discarded (h : Reachable b e) (hp : e.pools[i]? = some p)
    (hmem : job ∈ p.queue.discarded) : job.origin ∉ e.done := by
  have horder := (orderly_of_pool h hp).order
  have hjob : job ∈ p.queue.accepted := by
    rw [← Array.mem_toList_iff, horder.order]
    exact List.mem_append_right _ (Array.mem_toList_iff.mpr hmem)
  obtain ⟨hplaced, hdelivered, hbegun⟩ := onRecord h hp hjob
  have hdiscarded : 0 < e.discarded.count job.origin := by
    apply List.count_pos_iff.mpr
    apply List.mem_flatMap.mpr
    refine ⟨p, Array.mem_toList_iff.mpr (Array.mem_of_getElem? hp), ?_⟩
    exact List.mem_map_of_mem (Array.mem_toList_iff.mpr hmem)
  rw [count_discarded] at hdiscarded
  rw [job_mem_done]
  omega

end Jobs

/-- A job that a worker executes is on record as running. -/
theorem running_of_inFlight (hp : e.pools[i]? = some p) (hw : p.workers[k]? = some w)
    (hf : w.activity.inFlight = true) (hj : w.activity.job? = some job) :
    ∃ failed, 0 < e.ledger.number job.origin (.running failed) := by
  obtain ⟨failed, hstation⟩ : ∃ failed, w.activity.station? = some (job, .running failed) := by
    cases ha : w.activity with
    | executing job' conduct | stalled job' fault =>
        rw [ha] at hj
        cases hj
        exact ⟨_, rfl⟩
    | _ =>
        rw [ha] at hf
        cases hf
  exact ⟨failed, number_pos_of_hands rfl hp hw hstation⟩

theorem not_done_of_inFlight (h : Reachable b e) (hp : e.pools[i]? = some p)
    (hw : p.workers[k]? = some w) (hf : w.activity.inFlight = true)
    (hj : w.activity.job? = some job) : job.origin ∉ e.done := by
  have hjob := (traced_of_reachable h).jobs i p job hp (.inr ⟨k, w, hw, hj⟩)
  obtain ⟨hplaced, hdelivered, hbegun⟩ := onRecord h hp hjob
  obtain ⟨failed, hrunning⟩ := running_of_inFlight hp hw hf hj
  rw [job_mem_done]
  cases failed
  · omega
  · omega

/-- A pool in which nothing is left to do but to wait for executions that stall. -/
def Rests (b : Backend) (e : Engine) (i : Nat) : Prop :=
  ∀ (k : Nat) (w : Worker), e.worker? i k = some w →
    w.activity.isStalling = true ∨ e.step b (.act (.worker i k)) = none

theorem inFlight_of_isStalling {a : Activity} (h : a.isStalling = true) : a.inFlight = true := by
  cases a with
  | executing job conduct | stalled job fault => rfl
  | _ => cases h

theorem isLive_of_inFlight {a : Activity} (h : a.inFlight = true) : a.isLive = true := by
  cases a with
  | executing job conduct | stalled job fault => rfl
  | _ => cases h

namespace Rests

/-- A worker that has a job executes it. -/
theorem isStalling (hr : e.Rests b i) (hp : e.pools[i]? = some p) (hw : p.workers[k]? = some w)
    (hj : w.activity.job? = some job) : w.activity.isStalling = true := by
  rcases hr k w (worker?_eq_some.mpr ⟨p, hp, hw⟩) with hstalling | hnone
  · exact hstalling
  · by_contra hbusy
    obtain ⟨next, hs⟩ := step_of_busy (b := b) hp hw hj (by
      intro fault ha
      rw [ha] at hbusy
      exact hbusy rfl)
    rw [hnone] at hs
    cases hs

theorem inFlight_iff (hr : e.Rests b i) (hp : e.pools[i]? = some p)
    (hw : p.workers[k]? = some w) :
    w.activity.inFlight = true ↔ ∃ job, w.activity.job? = some job := by
  constructor
  · intro hflight
    cases ha : w.activity with
    | executing job conduct | stalled job fault => exact ⟨job, rfl⟩
    | _ =>
        rw [ha] at hflight
        cases hflight
  · rintro ⟨job, hj⟩
    exact inFlight_of_isStalling (hr.isStalling hp hw hj)

/-- Nobody is about to leave. -/
theorem hasEnded (hr : e.Rests b i) (hp : e.pools[i]? = some p) (hw : p.workers[k]? = some w)
    (hl : w.activity.isLive = false) : w.activity.hasEnded = true := by
  cases ha : w.activity with
  | leaving panicked =>
      rcases hr k w (worker?_eq_some.mpr ⟨p, hp, hw⟩) with hstalling | hnone
      · rw [ha] at hstalling
        cases hstalling
      · rw [step_of_leaving hp hw ha] at hnone
        cases hnone
  | ended panicked => rfl
  | _ =>
      rw [ha] at hl
      cases hl

/-- If there are jobs in the buffer, everybody who goes on executes one. -/
theorem inFlight_of_buffer (hr : e.Rests b i) (h : Reachable b e) (hp : e.pools[i]? = some p)
    (hbuffer : p.queue.buffer ≠ []) (hw : p.workers[k]? = some w)
    (hl : w.activity.isLive = true) : w.activity.inFlight = true := by
  have hidles {j : Nat} {a : Activity} (ha : p.activity? j = some a) (hprompt : Prompt p j) :
      a.isStalling = true := by
    obtain ⟨w', hw', rfl⟩ := activity?_eq_some.mp ha
    obtain ⟨next, hs⟩ := hprompt.step (b := b) hp (receiveReady_of_buffer hbuffer)
    rcases hr j w' (worker?_eq_some.mpr ⟨p, hp, hw'⟩) with hstalling | hnone
    · exact hstalling
    · rw [hnone] at hs
      cases hs
  have hk : p.activity? k = some w.activity := activity?_eq_some.mpr ⟨w, hw, rfl⟩
  have hturns := (orderly_of_pool h hp).turns
  cases ha : w.activity with
  | idle =>
      rw [ha] at hk
      cases hidles hk (.idle hk)
  | queued =>
      rw [ha] at hk
      rcases hturns.served hk with ⟨j, hj, hready⟩ | ⟨j, hj⟩
      · cases hidles hj (.called hj hready)
      · cases hidles hj (.receiving hj)
  | receiving =>
      rw [ha] at hk
      cases hidles hk (.receiving hk)
  | leaving panicked | ended panicked =>
      rw [ha] at hl
      cases hl
  | _ =>
      rw [← ha]
      exact inFlight_of_isStalling (hr.isStalling hp hw (by rw [ha]; rfl))

/-- As many jobs are in the hands of workers as workers execute one. -/
theorem length_held (hr : e.Rests b i) (hp : e.pools[i]? = some p) :
    p.held.length = p.inFlight := by
  unfold WorkerPool.held WorkerPool.inFlight
  rw [List.length_filterMap_eq_countP, ← Array.countP_toList]
  apply List.countP_congr
  intro w hmem
  obtain ⟨k, hw⟩ := Array.mem_iff_getElem?.mp (Array.mem_toList_iff.mp hmem)
  rw [hr.inFlight_iff hp hw, Option.isSome_map, Option.isSome_iff_exists]

/-- What is in the hands of a worker is running. -/
theorem running (hr : e.Rests b i) (h : Reachable b e) (hp : e.pools[i]? = some p)
    (hjob : job ∈ p.queue.accepted) :
    0 < inHands (e.ledger.number job.origin) ↔
      0 < e.ledger.number job.origin (.running false) +
        e.ledger.number job.origin (.running true) := by
  constructor
  · intro hhands
    obtain ⟨k, w, job', hw, hj, ho⟩ := mem_pool_held.mp ((mem_held_iff h hp hjob).mpr hhands)
    have hflight := (hr.inFlight_iff hp hw).mpr ⟨job', hj⟩
    obtain ⟨failed, hrunning⟩ := running_of_inFlight hp hw hflight hj
    rw [ho] at hrunning
    cases failed
    · omega
    · omega
  · intro hrunning
    unfold inHands
    omega

/-- A job is in the hands of a worker from when it is taken from the queue until its attempt has
come to an end. -/
theorem mem_held_iff (hr : e.Rests b i) (h : Reachable b e) (hp : e.pools[i]? = some p)
    (hjob : job ∈ p.queue.accepted) :
    job.origin ∈ p.held ↔ job ∈ p.queue.delivered ∧ job.origin ∉ e.done := by
  obtain ⟨hplaced, hdelivered, hbegun⟩ := onRecord h hp hjob
  have hrunning := hr.running h hp hjob
  rw [Engine.mem_held_iff h hp hjob, mem_delivered_iff h hp hjob, job_mem_done]
  unfold inHands at hrunning ⊢
  constructor
  · intro hhands
    omega
  · intro hgoing
    omega

/-- An attempt was begun for each job that was taken from the queue. -/
theorem mem_begun_iff (hr : e.Rests b i) (h : Reachable b e) (hp : e.pools[i]? = some p)
    (hjob : job ∈ p.queue.accepted) : job.origin ∈ e.begun ↔ job ∈ p.queue.delivered := by
  obtain ⟨hplaced, hdelivered, hbegun⟩ := onRecord h hp hjob
  have hrunning := hr.running h hp hjob
  rw [← List.count_pos_iff, mem_delivered_iff h hp hjob]
  unfold inHands at hrunning
  constructor
  · intro hpos
    omega
  · intro htaken
    omega

/-- As many attempts were begun as jobs were taken from the queue. -/
theorem length_attempts (hr : e.Rests b i) (h : Reachable b e) (hp : e.pools[i]? = some p) :
    (p.attempts e).length = p.queue.delivered.size := by
  have hsub := sublist_delivered h hp
  have honce : (p.attempts e).Nodup := by
    apply List.nodup_iff_count_le_one.mpr
    intro o
    by_cases hmem : o ∈ p.attempts e
    · obtain ⟨_, hours⟩ := List.mem_filter.mp hmem
      obtain ⟨job, hjob, rfl⟩ := mem_origins.mp (of_decide_eq_true hours)
      obtain ⟨hplaced, hdelivered, _⟩ := onRecord h hp hjob
      have hle : (p.attempts e).count job.origin ≤ e.begun.count job.origin :=
        List.filter_sublist.count_le _
      omega
    · rw [List.count_eq_zero_of_not_mem hmem]
      exact Nat.zero_le 1
  have hsame : (p.attempts e).Perm (p.queue.delivered.toList.map Job.origin) := by
    apply (List.perm_ext_iff_of_nodup honce (hsub.nodup (nodup_origins h hp))).mpr
    intro o
    unfold WorkerPool.attempts
    rw [List.mem_filter, decide_eq_true_iff]
    constructor
    · rintro ⟨hbegun, hours⟩
      obtain ⟨job, hjob, rfl⟩ := mem_origins.mp hours
      have htaken := (hr.mem_begun_iff h hp hjob).mp hbegun
      exact List.mem_map_of_mem (Array.mem_toList_iff.mpr htaken)
    · intro htaken
      have hours := hsub.subset htaken
      obtain ⟨job, hjob, ho⟩ := List.mem_map.mp htaken
      have haccepted := mem_accepted_of_delivered h hp (Array.mem_toList_iff.mp hjob)
      rw [← ho] at hours ⊢
      exact ⟨(hr.mem_begun_iff h hp haccepted).mpr (Array.mem_toList_iff.mp hjob), hours⟩
  rw [hsame.length_eq, List.length_map, Array.length_toList]

/-- What has not come to an end is executed, in the buffer, or discarded. -/
theorem length_unfinished (hr : e.Rests b i) (h : Reachable b e) (hp : e.pools[i]? = some p) :
    (p.unfinished e).length =
      p.inFlight + p.queue.buffer.length + p.queue.discarded.size := by
  have horder := (orderly_of_pool h hp).order.order
  have hsub := sublist_delivered h hp
  have hbuffer : (p.queue.buffer.map Job.origin).filter (· ∉ e.done) =
      p.queue.buffer.map Job.origin := by
    apply List.filter_eq_self.mpr
    intro o hmem
    obtain ⟨job, hjob, rfl⟩ := List.mem_map.mp hmem
    exact decide_eq_true (not_done_of_buffer h hp hjob)
  have hdiscarded : (p.queue.discarded.toList.map Job.origin).filter (· ∉ e.done) =
      p.queue.discarded.toList.map Job.origin := by
    apply List.filter_eq_self.mpr
    intro o hmem
    obtain ⟨job, hjob, rfl⟩ := List.mem_map.mp hmem
    exact decide_eq_true (not_done_of_discarded h hp (Array.mem_toList_iff.mp hjob))
  have hheld : ((p.queue.delivered.toList.map Job.origin).filter (· ∉ e.done)).Perm p.held := by
    have honce := (hsub.nodup (nodup_origins h hp)).filter (· ∉ e.done)
    apply (List.perm_ext_iff_of_nodup honce (nodup_held h hp)).mpr
    intro o
    rw [List.mem_filter, decide_eq_true_iff]
    constructor
    · rintro ⟨htaken, hgoing⟩
      obtain ⟨job, hjob, rfl⟩ := List.mem_map.mp htaken
      have haccepted := mem_accepted_of_delivered h hp (Array.mem_toList_iff.mp hjob)
      exact (hr.mem_held_iff h hp haccepted).mpr ⟨Array.mem_toList_iff.mp hjob, hgoing⟩
    · intro hmem
      obtain ⟨k, w, job, hw, hj, rfl⟩ := mem_pool_held.mp hmem
      have haccepted := (traced_of_reachable h).jobs i p job hp (.inr ⟨k, w, hw, hj⟩)
      obtain ⟨htaken, hgoing⟩ := (hr.mem_held_iff h hp haccepted).mp hmem
      exact ⟨List.mem_map_of_mem (Array.mem_toList_iff.mpr htaken), hgoing⟩
  unfold WorkerPool.unfinished WorkerPool.origins
  rw [horder, List.map_append, List.map_append, List.filter_append, List.filter_append, hbuffer,
    hdiscarded, List.length_append, List.length_append, hheld.length_eq, hr.length_held hp,
    List.length_map, List.length_map, Array.length_toList]

end Rests

end Engine

end LoadBench
