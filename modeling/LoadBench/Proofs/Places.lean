import LoadBench.Proofs.Account

/-!
Where the jobs are, as lists that are read off the engine: in the caller's hand, in the buffers of
the queues, in the hands of the workers, and on the records of what was completed or went away.
How often a job is in one of them is the number that the ledger has for it.
-/

namespace LoadBench

/-- Who keeps the entries of a station. -/
inductive Keeper where
  | caller
  | queue
  | hands
  | executions
  | events
deriving DecidableEq

def Station.keeper : Station → Keeper
  | .offered => .caller
  | .queued | .accepted | .delivered | .discarded => .queue
  | .holding | .running _ | .finishing _ | .failing | .recording => .hands
  | .begun _ | .collapsed => .executions
  | .finished _ | .tallied | .counted _ | .completed | .lost => .events

theorem Progress.keeper {progress : Progress} {x : Entry} (h : x ∈ progress.entries) :
    x.station.keeper = .caller := by
  simp only [Progress.entries] at h
  split at h
  · rw [Multiset.mem_singleton] at h
    rw [h]
    rfl
  · cases Multiset.notMem_zero _ h

theorem keeper_entriesAt {s : Station} {jobs : List Job} {x : Entry}
    (h : x ∈ Job.entriesAt s jobs) : x.station = s := by
  rw [Job.entriesAt, Multiset.mem_coe] at h
  obtain ⟨job, _, rfl⟩ := List.mem_map.mp h
  rfl

theorem JobQueue.keeper {π κ : Type} {q : JobQueue Job π κ} {x : Entry} (h : x ∈ q.entries) :
    x.station.keeper = .queue := by
  simp only [JobQueue.entries, Multiset.mem_add] at h
  rcases h with ((h | h) | h) | h <;> rw [keeper_entriesAt h] <;> rfl

theorem Activity.keeper {a : Activity} {x : Entry} (h : x ∈ a.entries) :
    x.station.keeper = .hands := by
  cases a with
  | holding job | executing job conduct | stalled job fault | finished job failed | failing job
  | recorded job =>
      rw [Multiset.mem_singleton.mp h]
      rfl
  | _ => cases Multiset.notMem_zero _ h

theorem Execution.keeper {x : Execution} {y : Entry} (h : y ∈ x.entries) :
    y.station.keeper = .executions := by
  simp only [Execution.entries] at h
  split at h
  · rw [Multiset.mem_singleton.mp h]
    rfl
  · rw [Multiset.mem_singleton.mp h]
    rfl
  · cases Multiset.notMem_zero _ h

theorem Event.keeper {event : Event} {x : Entry} (h : x ∈ event.entries) :
    x.station.keeper = .events := by
  simp only [Event.entries] at h
  split at h
  · rw [Multiset.mem_singleton.mp h]
    rfl
  · rw [Multiset.mem_singleton.mp h]
    rfl
  · rw [Multiset.mem_singleton.mp h]
    rfl
  · rw [Multiset.mem_singleton.mp h]
    rfl
  · rw [Multiset.mem_singleton.mp h]
    rfl
  · cases Multiset.notMem_zero _ h

theorem count_total {α : Type} (worth : α → Multiset Entry) (xs : Array α) (x : Entry) :
    (total worth xs).count x = total (fun y => (worth y).count x) xs := by
  have hlist := map_list_sum (Multiset.countAddMonoidHom x) (xs.toList.map worth)
  rw [List.map_map] at hlist
  exact hlist

theorem total_zero {α : Type} {worth : α → Nat} {xs : Array α} (h : ∀ x, worth x = 0) :
    total worth xs = 0 := by
  have hworth : worth = fun _ => 0 := funext h
  simp [total, hworth]

theorem total_add {α : Type} (worth worth' : α → Nat) (xs : Array α) :
    total (fun x => worth x + worth' x) xs = total worth xs + total worth' xs := by
  simp [total, List.sum_map_add]

/-- How often something is in lists that are read off the entries of an array. -/
theorem count_flatMap_eq_total {α β : Type} [DecidableEq β] (f : α → List β) (xs : Array α)
    (y : β) : (xs.toList.flatMap f).count y = total (fun x => (f x).count y) xs := by
  rw [List.count_flatMap, total]
  rfl

/-- How often something is read off the entries of an array, at most once off each. -/
theorem count_filterMap_eq_total {α β : Type} [DecidableEq β] (f : α → Option β) (xs : List α)
    (y : β) : (xs.filterMap f).count y = (xs.map fun x => if f x = some y then 1 else 0).sum := by
  induction xs with
  | nil => rfl
  | cons x xs ih =>
      rw [List.map_cons, List.sum_cons, ← ih]
      rcases hx : f x with _ | z
      · rw [List.filterMap_cons_none hx]
        simp
      · rw [List.filterMap_cons_some hx, List.count_cons]
        by_cases hz : z = y
        · simp [hz, add_comm]
        · simp [hz]

theorem eq_of_count_map_le_one {α β : Type} [DecidableEq β] (f : α → β) {xs : List α} {x y : α}
    (hx : x ∈ xs) (hy : y ∈ xs) (hf : f y = f x) (h : (xs.map f).count (f x) ≤ 1) : y = x := by
  induction xs with
  | nil => cases hx
  | cons z xs ih =>
      have htwice {u : α} (hu : u ∈ xs) (hz : f z = f x) (hux : f u = f x) : False := by
        have hpos : 0 < (xs.map f).count (f x) :=
          List.count_pos_iff.mpr (hux ▸ List.mem_map_of_mem hu)
        rw [List.map_cons, hz, List.count_cons_self] at h
        omega
      rcases List.mem_cons.mp hx with rfl | hx' <;> rcases List.mem_cons.mp hy with rfl | hy'
      · rfl
      · exact (htwice hy' rfl hf).elim
      · exact (htwice hx' hf rfl).elim
      · refine ih hx' hy' (le_trans ?_ h)
        rw [List.map_cons]
        exact List.count_le_count_cons

theorem count_entriesAt (s : Station) (jobs : List Job) (o : Origin) :
    (Job.entriesAt s jobs).count ⟨s, o⟩ = (jobs.map Job.origin).count o := by
  rw [Job.entriesAt, Multiset.coe_count,
    ← List.count_map_of_injective (jobs.map Job.origin) (Entry.mk s)
      (fun a b hab => (Entry.mk.inj hab).2), List.map_map]
  rfl

namespace Engine

/-- The job that a call has made and that is in no queue. -/
def inCall (e : Engine) : List Origin := (e.progress.hand.map (·.1.origin)).toList

/-- The jobs in the buffers of the queues. -/
def queued (e : Engine) : List Origin :=
  e.pools.toList.flatMap fun p => p.queue.buffer.map Job.origin

/-- The jobs in the hands of the workers. -/
def held (e : Engine) : List Origin :=
  e.pools.toList.flatMap fun p =>
    p.workers.toList.filterMap fun w => w.activity.job?.map Job.origin

/-- The jobs that were counted down on their latches. -/
def completed (e : Engine) : List Origin :=
  e.events.toList.filterMap fun
    | .completed latch index => some (.job latch index)
    | _ => none

/-- The jobs that went from a queue with its last receiver. -/
def discarded (e : Engine) : List Origin :=
  e.pools.toList.flatMap fun p => p.queue.discarded.toList.map Job.origin

/-- The jobs that went away with the call or the worker that had them. -/
def lost (e : Engine) : List Origin :=
  e.events.toList.filterMap fun
    | .lost latch index => some (.job latch index)
    | _ => none

variable {e : Engine} {o : Origin} {s : Station}

theorem exists_of_queued (h : o ∈ e.queued) :
    ∃ (i : Nat) (p : WorkerPool) (job : Job), e.pools[i]? = some p ∧ job ∈ p.queue.buffer ∧
      job.origin = o := by
  obtain ⟨p, hp, hmem⟩ := List.mem_flatMap.mp h
  obtain ⟨i, hi⟩ := Array.mem_iff_getElem?.mp (Array.mem_toList_iff.mp hp)
  obtain ⟨job, hjob, ho⟩ := List.mem_map.mp hmem
  exact ⟨i, p, job, hi, hjob, ho⟩

theorem exists_of_discarded (h : o ∈ e.discarded) :
    ∃ (i : Nat) (p : WorkerPool) (job : Job), e.pools[i]? = some p ∧ job ∈ p.queue.discarded ∧
      job.origin = o := by
  obtain ⟨p, hp, hmem⟩ := List.mem_flatMap.mp h
  obtain ⟨i, hi⟩ := Array.mem_iff_getElem?.mp (Array.mem_toList_iff.mp hp)
  obtain ⟨job, hjob, ho⟩ := List.mem_map.mp hmem
  exact ⟨i, p, job, hi, Array.mem_toList_iff.mp hjob, ho⟩

theorem exists_of_held (h : o ∈ e.held) :
    ∃ (i k : Nat) (p : WorkerPool) (w : Worker) (job : Job), e.pools[i]? = some p ∧
      p.workers[k]? = some w ∧ w.activity.job? = some job ∧ job.origin = o := by
  obtain ⟨p, hp, hmem⟩ := List.mem_flatMap.mp h
  obtain ⟨i, hi⟩ := Array.mem_iff_getElem?.mp (Array.mem_toList_iff.mp hp)
  obtain ⟨w, hw, ho⟩ := List.mem_filterMap.mp hmem
  obtain ⟨k, hk⟩ := Array.mem_iff_getElem?.mp (Array.mem_toList_iff.mp hw)
  obtain ⟨job, hjob, ho⟩ := Option.map_eq_some_iff.mp ho
  exact ⟨i, k, p, w, job, hi, hk, hjob, ho⟩

/-- Nobody but the keeper of a station has entries of it. -/
theorem count_eq_zero {m : Multiset Entry} {k : Keeper} (hm : ∀ x ∈ m, x.station.keeper = k)
    (h : s.keeper ≠ k) (o : Origin) : m.count ⟨s, o⟩ = 0 :=
  Multiset.count_eq_zero.mpr fun hmem => h (hm ⟨s, o⟩ hmem)

/-- The number that the ledger has is the number that the keeper of the station has. -/
theorem number_eq (e : Engine) (o : Origin) (s : Station) : e.ledger.number o s =
    match s.keeper with
    | .caller => e.progress.entries.count ⟨s, o⟩
    | .queue => total (fun p => p.queue.entries.count ⟨s, o⟩) e.pools
    | .hands =>
        total (fun p => total (fun w => w.activity.entries.count ⟨s, o⟩) p.workers) e.pools
    | .executions => total (fun x => x.entries.count ⟨s, o⟩) e.executions
    | .events => total (fun event => event.entries.count ⟨s, o⟩) e.events := by
  have hcaller (h : s.keeper ≠ .caller) : e.progress.entries.count ⟨s, o⟩ = 0 :=
    count_eq_zero (fun _ => Progress.keeper) h o
  have hqueue (h : s.keeper ≠ .queue) :
      total (fun p => p.queue.entries.count ⟨s, o⟩) e.pools = 0 :=
    total_zero fun p => count_eq_zero (fun _ => JobQueue.keeper) h o
  have hhands (h : s.keeper ≠ .hands) :
      total (fun p => total (fun w => w.activity.entries.count ⟨s, o⟩) p.workers) e.pools = 0 :=
    total_zero fun p => total_zero fun w => count_eq_zero (fun _ => Activity.keeper) h o
  have hexecutions (h : s.keeper ≠ .executions) :
      total (fun x => x.entries.count ⟨s, o⟩) e.executions = 0 :=
    total_zero fun x => count_eq_zero (fun _ => Execution.keeper) h o
  have hevents (h : s.keeper ≠ .events) :
      total (fun event => event.entries.count ⟨s, o⟩) e.events = 0 :=
    total_zero fun event => count_eq_zero (fun _ => Event.keeper) h o
  have hall : e.ledger.number o s = e.progress.entries.count ⟨s, o⟩ +
      (total (fun p => p.queue.entries.count ⟨s, o⟩) e.pools +
        total (fun p => total (fun w => w.activity.entries.count ⟨s, o⟩) p.workers) e.pools) +
      total (fun x => x.entries.count ⟨s, o⟩) e.executions +
      total (fun event => event.entries.count ⟨s, o⟩) e.events := by
    simp only [Ledger.number, ledger, entries, Multiset.count_add, count_total, WorkerPool.entries,
      total_add]
  rw [hall]
  cases hk : s.keeper <;> simp only [hk, ne_eq, reduceCtorEq, not_false_eq_true, forall_const]
    at hcaller hqueue hhands hexecutions hevents <;> simp_all

theorem count_singleton_entry (s s' : Station) (o o' : Origin) :
    ({⟨s, o⟩} : Multiset Entry).count ⟨s', o'⟩ = if s = s' ∧ o = o' then 1 else 0 := by
  rw [Multiset.count_singleton]
  simp only [Entry.mk.injEq, eq_comm]

theorem count_inCall (o : Origin) : e.inCall.count o = e.ledger.number o .offered := by
  rw [number_eq]
  change _ = e.progress.entries.count _
  simp only [inCall, Progress.entries]
  cases e.progress.hand with
  | none => rfl
  | some x =>
      obtain ⟨job, waits⟩ := x
      change [job.origin].count o = ({⟨.offered, job.origin⟩} : Multiset Entry).count ⟨.offered, o⟩
      rw [count_singleton_entry]
      by_cases h : job.origin = o
      · simp [h]
      · simp [h]

theorem count_queue_entries {π κ : Type} (q : JobQueue Job π κ) (o : Origin) :
    q.entries.count ⟨.queued, o⟩ = (q.buffer.map Job.origin).count o ∧
    q.entries.count ⟨.accepted, o⟩ = (q.accepted.toList.map Job.origin).count o ∧
    q.entries.count ⟨.delivered, o⟩ = (q.delivered.toList.map Job.origin).count o ∧
    q.entries.count ⟨.discarded, o⟩ = (q.discarded.toList.map Job.origin).count o := by
  simp only [JobQueue.entries, Multiset.count_add, count_entriesAt]
  refine ⟨?_, ?_, ?_, ?_⟩ <;> simp [count_entriesAt_of_ne]

theorem count_queued (o : Origin) : e.queued.count o = e.ledger.number o .queued := by
  rw [number_eq, queued, count_flatMap_eq_total]
  congr 1
  funext p
  exact (count_queue_entries p.queue o).1.symm

theorem count_discarded (o : Origin) : e.discarded.count o = e.ledger.number o .discarded := by
  rw [number_eq, discarded, count_flatMap_eq_total]
  congr 1
  funext p
  exact (count_queue_entries p.queue o).2.2.2.symm

theorem count_completed (o : Origin) : e.completed.count o = e.ledger.number o .completed := by
  rw [number_eq, completed, count_filterMap_eq_total, ← total]
  congr 1
  funext event
  cases event with
  | completed latch index => simp [Event.entries, count_singleton_entry]
  | finished origin failed | tallied origin | counted origin failed =>
      cases origin <;> simp [Event.entries]
  | _ => simp [Event.entries]

theorem count_lost (o : Origin) : e.lost.count o = e.ledger.number o .lost := by
  rw [number_eq, lost, count_filterMap_eq_total, ← total]
  congr 1
  funext event
  cases event with
  | lost latch index => simp [Event.entries, count_singleton_entry]
  | finished origin failed | tallied origin | counted origin failed =>
      cases origin <;> simp [Event.entries]
  | _ => simp [Event.entries]

theorem inHands_singleton {s : Station} (h : s.keeper = .hands) (o o' : Origin) :
    (inHands fun s' => ({⟨s, o⟩} : Multiset Entry).count ⟨s', o'⟩) = if o = o' then 1 else 0 := by
  cases s with
  | running failed | finishing failed => cases failed <;> simp [inHands, count_singleton_entry]
  | holding | failing | recording => simp [inHands, count_singleton_entry]
  | _ => cases h

theorem job?_eq_station? (a : Activity) : a.job? = a.station?.map (·.1) := by
  cases a <;> rfl

/-- What a worker has in its hands is one job, at one of the stations for it. -/
theorem inHands_activity (a : Activity) (o : Origin) :
    (inHands fun s => a.entries.count ⟨s, o⟩) =
      if a.job?.map Job.origin = some o then 1 else 0 := by
  rw [job?_eq_station?]
  rcases ha : a.station? with _ | ⟨job, s⟩
  · simp [Activity.entries, ha, inHands]
  · have hentries : a.entries = {⟨s, job.origin⟩} := by simp only [Activity.entries, ha]
    have hs : s.keeper = .hands :=
      Activity.keeper (a := a) (x := ⟨s, job.origin⟩)
        (by rw [hentries]; exact Multiset.mem_singleton_self _)
    rw [hentries, inHands_singleton hs]
    simp

theorem count_held (o : Origin) : e.held.count o = inHands (e.ledger.number o) := by
  have hworkers (ws : Array Worker) :
      (ws.toList.filterMap fun w => w.activity.job?.map Job.origin).count o =
        inHands fun s => total (fun w => w.activity.entries.count ⟨s, o⟩) ws := by
    rw [count_filterMap_eq_total, ← total]
    simp only [← inHands_activity, inHands, total_add]
  rw [held, count_flatMap_eq_total]
  simp only [hworkers, inHands, total_add, number_eq, Station.keeper]

/-- A worker that has its job at a station stands there in the ledger. -/
theorem number_pos_of_hands {i k : Nat} {p : WorkerPool} {w : Worker} {job : Job}
    (hs : s.keeper = .hands) (hp : e.pools[i]? = some p) (hw : p.workers[k]? = some w)
    (ha : w.activity.station? = some (job, s)) :
    0 < e.ledger.number job.origin s := by
  have hentries : w.activity.entries = {⟨s, job.origin⟩} := by simp only [Activity.entries, ha]
  have hone : 1 = w.activity.entries.count ⟨s, job.origin⟩ := by
    rw [hentries, Multiset.count_singleton_self]
  have hworkers := worth_le_total (fun w : Worker => w.activity.entries.count ⟨s, job.origin⟩) hw
  have hpools := worth_le_total
    (fun p => total (fun w => w.activity.entries.count ⟨s, job.origin⟩) p.workers) hp
  rw [number_eq, hs]
  simp only at hworkers hpools ⊢
  omega

variable {b : Backend} {p : WorkerPool}

theorem number_delivered (o : Origin) : e.ledger.number o .delivered =
    total (fun p => (p.queue.delivered.toList.map Job.origin).count o) e.pools := by
  simp only [number_eq, Station.keeper, (count_queue_entries _ _).2.2.1]

theorem number_accepted (o : Origin) : e.ledger.number o .accepted =
    total (fun p => (p.queue.accepted.toList.map Job.origin).count o) e.pools := by
  simp only [number_eq, Station.keeper, (count_queue_entries _ _).2.1]

/-- A record of an execution is part of the number that the ledger has for the job. -/
theorem number_pos_of_execution {x : Execution} {y : Entry} (hx : x ∈ e.executions)
    (hy : y ∈ x.entries) : 0 < e.ledger.number y.origin y.station := by
  have hkeeper : y.station.keeper = .executions := Execution.keeper hy
  obtain ⟨i, hi⟩ := Array.mem_iff_getElem?.mp hx
  have hle := worth_le_total (fun x : Execution => x.entries.count y) hi
  have hpos := Multiset.count_pos.mpr hy
  rw [number_eq, hkeeper]
  exact lt_of_lt_of_le hpos hle

/-- There is nothing of a job that is not made yet. -/
theorem number_of_jobsAt_le {latch index : Nat} (h : Reachable b e)
    (hj : Ledger.jobsAt e.batches latch ≤ index) (s : Station) :
    e.ledger.number (.job latch index) s = 0 := by
  have hmade : e.ledger.made (.job latch index) = 0 := if_neg (Nat.not_lt_of_le hj)
  have hflow := (sound_of_reachable h).flow (.job latch index)
  rw [hmade] at hflow
  exact hflow.eq_zero s

/-- There is nothing of a latch that is not made yet. -/
theorem number_of_unmade {latch index : Nat} (h : Reachable b e) (hl : e.batches.size ≤ latch)
    (s : Station) : e.ledger.number (.job latch index) s = 0 :=
  number_of_jobsAt_le h (Ledger.jobsAt_of_size_le hl ▸ Nat.zero_le index) s

/-- A job in one of the lists of a pool is part of the total over the pools. -/
theorem total_count_pos (jobs : WorkerPool → Array Job) {i : Nat} {job : Job}
    (hp : e.pools[i]? = some p) (hjob : job ∈ jobs p) :
    0 < total (fun p => ((jobs p).toList.map Job.origin).count job.origin) e.pools := by
  refine lt_of_lt_of_le ?_ (worth_le_total _ hp)
  exact List.count_pos_iff.mpr (List.mem_map_of_mem (Array.mem_toList_iff.mpr hjob))

theorem number_delivered_pos {i : Nat} {job : Job} (hp : e.pools[i]? = some p)
    (hjob : job ∈ p.queue.delivered) : 0 < e.ledger.number job.origin .delivered := by
  rw [number_delivered]
  exact total_count_pos (fun p => p.queue.delivered) hp hjob

/-- A job that a queue accepted was made for a latch that is there. -/
theorem latch_lt_of_accepted (h : Reachable b e) {i : Nat} {job : Job}
    (hp : e.pools[i]? = some p) (hjob : job ∈ p.queue.accepted) :
    job.latch < e.batches.size := by
  have hpos := total_count_pos (fun p => p.queue.accepted) hp hjob
  rw [← number_accepted] at hpos
  by_contra hsize
  exact hpos.ne (number_of_unmade h (Nat.le_of_not_lt hsize) .accepted).symm

/-- No job is accepted twice. -/
theorem accepted_once (h : Reachable b e) {i j : Nat} {q : WorkerPool} {job job' : Job}
    (hp : e.pools[i]? = some p) (hq : e.pools[j]? = some q) (hjob : job ∈ p.queue.accepted)
    (hjob' : job' ∈ q.queue.accepted) (ho : job'.origin = job.origin) :
    i = j ∧ job' = job := by
  have hone := number_accepted_le_one h job.origin
  have hmem := Array.mem_toList_iff.mpr hjob
  have hmem' := Array.mem_toList_iff.mpr hjob'
  by_cases hij : i = j
  · subst hij
    cases hp.symm.trans hq
    refine ⟨rfl, eq_of_count_map_le_one Job.origin hmem hmem' ho ?_⟩
    have hle := worth_le_total
      (fun p : WorkerPool => (p.queue.accepted.toList.map Job.origin).count job.origin) hp
    rw [← number_accepted] at hle
    omega
  · have hpos : 0 < (p.queue.accepted.toList.map Job.origin).count job.origin :=
      List.count_pos_iff.mpr (List.mem_map_of_mem hmem)
    have hpos' : 0 < (q.queue.accepted.toList.map Job.origin).count job.origin :=
      List.count_pos_iff.mpr (ho ▸ List.mem_map_of_mem hmem')
    have hle := worth_add_worth_le_total
      (fun p : WorkerPool => (p.queue.accepted.toList.map Job.origin).count job.origin) hij hp hq
      { queue := JobQueue.ofCapacity 0, tally := 0 } rfl
    rw [← number_accepted] at hle
    omega

end Engine

end LoadBench
