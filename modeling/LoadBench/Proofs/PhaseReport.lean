import LoadBench.Proofs.PooledPhase

/-!
What a pooled phase reports. When its call goes on, each of its commands was executed once on a
connection of one of the driver's workers and was counted once, and the difference of the counters
is made up of these executions and of the jobs that were left over in the pool before the phase
and were counted meanwhile.
-/

namespace LoadBench

/-- The jobs that are in the queue of a pool or in the hands of its workers. -/
def WorkerPool.jobs (p : WorkerPool) : List Origin :=
  p.queue.buffer.map Job.origin ++
    p.workers.toList.filterMap fun w => w.activity.job?.map Job.origin

theorem WorkerPool.mem_jobs {p : WorkerPool} {o : Origin} :
    o ∈ p.jobs ↔ ∃ job, p.Has job ∧ job.origin = o := by
  simp only [jobs, List.mem_append, List.mem_map, List.mem_filterMap, Option.map_eq_some_iff]
  constructor
  · rintro (⟨job, hmem, rfl⟩ | ⟨w, hw, job, hjob, rfl⟩)
    · exact ⟨job, .inl hmem, rfl⟩
    · obtain ⟨k, hk⟩ := Array.mem_iff_getElem?.mp (Array.mem_toList_iff.mp hw)
      exact ⟨job, .inr ⟨k, w, hk, hjob⟩, rfl⟩
  · rintro ⟨job, hmem | ⟨k, w, hk, hjob⟩, rfl⟩
    · exact .inl ⟨job, hmem, rfl⟩
    · exact .inr ⟨w, Array.mem_toList_iff.mpr (Array.mem_of_getElem? hk), job, hjob, rfl⟩

theorem WorkerPool.jobs_eq_nil {p : WorkerPool} : p.jobs = [] ↔ ∀ job, ¬p.Has job := by
  rw [List.eq_nil_iff_forall_not_mem]
  constructor
  · exact fun hnone job hhas => hnone _ (mem_jobs.mpr ⟨job, hhas, rfl⟩)
  · intro hnone o hmem
    obtain ⟨job, hhas, _⟩ := mem_jobs.mp hmem
    exact hnone job hhas

namespace Engine

variable {b : Backend} {e next start : Engine} {d : Driver} {p : WorkerPool} {phase : Phase}
  {todo : List Phase} {reports : List PhaseCount} {latch index : Nat}

/-- The executions for which one was added to a counter since an earlier state. -/
def additionsSince (earlier e : Engine) (c : Tally.Counter) : List Origin :=
  (e.additions c).drop (earlier.additions c).length

/-- Those of them that were left over in a pool. -/
def leftovers (earlier e : Engine) (p : WorkerPool) (c : Tally.Counter) : List Origin :=
  (earlier.additionsSince e c).filter (· ∈ p.jobs)

/-- How often one was added to a counter since an earlier state for a job of a latch or for one that
was left over in a pool. -/
def share (earlier e : Engine) (latch : Nat) (p : WorkerPool) (c : Tally.Counter) : Nat :=
  (indicesOn latch (earlier.additionsSince e c)).length + (earlier.leftovers e p c).length

/-- The driver's counters moved, each by what was added to it for the phase and for what was left
over. -/
structure Tallied (latch : Nat) (d : Driver) (p : WorkerPool) (earlier e : Engine) : Prop where
  grown : ∀ c, earlier.additions c ++ earlier.additionsSince e c = e.additions c
  moved : ∀ c, e.load d.tally c = earlier.load d.tally c + earlier.share e latch p c

variable {earlier : Engine} {c : Tally.Counter}

theorem Tallied.refl (latch : Nat) (d : Driver) (p : WorkerPool) (e : Engine) :
    Tallied latch d p e e := by
  have hnone (c : Tally.Counter) : e.additionsSince e c = [] := List.drop_length
  refine ⟨fun c => ?_, fun c => ?_⟩
  · rw [hnone, List.append_nil]
  · simp [share, leftovers, hnone, indicesOn]

theorem additionsSince_append {l : List Origin}
    (hgrown : earlier.additions c ++ earlier.additionsSince e c = e.additions c)
    (h : next.additions c = e.additions c ++ l) :
    earlier.additionsSince next c = earlier.additionsSince e c ++ l := by
  rw [additionsSince, h, ← hgrown, List.append_assoc, List.drop_left]

theorem share_append {l : List Origin}
    (hgrown : earlier.additions c ++ earlier.additionsSince e c = e.additions c)
    (h : next.additions c = e.additions c ++ l) (latch : Nat) (p : WorkerPool) :
    earlier.share next latch p c = earlier.share e latch p c +
      ((indicesOn latch l).length + (l.filter (· ∈ p.jobs)).length) := by
  simp only [share, leftovers, additionsSince_append hgrown h, indicesOn, List.filterMap_append,
    List.filter_append, List.length_append]
  omega

theorem length_indicesOn_singleton (latch : Nat) (job : Job) :
    (indicesOn latch [job.origin]).length = if job.latch = latch then 1 else 0 := by
  by_cases h : job.latch = latch <;> simp [indicesOn, Origin.indexOn, Job.origin, h]

theorem length_filter_singleton {α : Type} (P : α → Prop) [DecidablePred P] (x : α) :
    ([x].filter (P ·)).length = if P x then 1 else 0 := by
  by_cases h : P x <;> simp [h]

/-- A job that is counted in the driver's pool is one of the phase or was left over there, and a
job that is counted in another pool is neither. -/
theorem Going.share_of_counted (h : Going start d phase todo reports e)
    (hready : Ready b start d p phase todo reports) (hreachable : Reachable b e) {i : Nat}
    {q : WorkerPool} {job : Job} (hq : e.pools[i]? = some q) (hhas : q.Has job) :
    (indicesOn start.batches.size [job.origin]).length +
      ([job.origin].filter (· ∈ p.jobs)).length = if i = d.pool then 1 else 0 := by
  obtain ⟨q₀, hq₀, hgrows⟩ := h.pools i q hq
  have htraced := traced_of_reachable hready.reachable
  have hjobs {job' : Job} (ho : job'.origin = job.origin) (hhas : p.Has job') :
      job'.latch < start.batches.size ∧ job'.latch = job.latch := by
    have haccepted := htraced.jobs _ p _ hready.pool hhas
    refine ⟨latch_lt_of_accepted hready.reachable hready.pool haccepted, ?_⟩
    simp only [Job.origin, Origin.job.injEq] at ho
    exact ho.1
  rw [length_indicesOn_singleton, length_filter_singleton (· ∈ p.jobs)]
  by_cases hi : i = d.pool
  · subst hi
    cases hready.pool.symm.trans hq₀
    rw [if_pos rfl]
    rcases hgrows.has job hhas with hleft | ⟨_, hlatch, _⟩
    · obtain ⟨hlt, _⟩ := hjobs rfl hleft
      rw [if_neg hlt.ne, if_pos (WorkerPool.mem_jobs.mpr ⟨job, hleft, rfl⟩)]
    · rw [if_pos hlatch, if_neg]
      intro hmem
      obtain ⟨job', hhas', ho⟩ := WorkerPool.mem_jobs.mp hmem
      obtain ⟨hlt, hsame⟩ := hjobs ho hhas'
      omega
  · rw [if_neg hi]
    have haccepted : job ∈ q₀.queue.accepted := by
      rcases hgrows.accepted job ((traced_of_reachable hreachable).jobs i q job hq hhas) with
        hold | ⟨hpool, _⟩
      · exact hold
      · exact absurd hpool hi
    have hlt := latch_lt_of_accepted hready.reachable hq₀ haccepted
    rw [if_neg hlt.ne, if_neg]
    intro hmem
    obtain ⟨job', hhas', ho⟩ := WorkerPool.mem_jobs.mp hmem
    have hjob' := htraced.jobs _ p job' hready.pool hhas'
    exact hi (accepted_once hready.reachable hq₀ hready.pool haccepted hjob' ho).1

theorem load_of_modify {i : Nat} {t : Tally} (ht : e.tallies[i]? = some t)
    (hnext : next.tallies = e.tallies.modify i (·.add c)) (c' : Tally.Counter) :
    next.load i c' = e.load i c' + if c = c' then 1 else 0 := by
  simp [load, tallyAt, hnext, Array.getElem?_modify, ht, Tally.get_add]

/-- One step of the run of a phase moves the driver's counters with what it counts. -/
theorem Tallied.step (h : Tallied start.batches.size d p earlier e)
    (hgoing : Going start d phase todo reports e) (hready : Ready b start d p phase todo reports)
    (hshared : d.tally = p.tally) (hreachable : Reachable b e) (hcounting : Counting e next) :
    Tallied start.batches.size d p earlier next := by
  cases hcounting with
  | nothing ht hr =>
      refine ⟨fun c => ?_, fun c => ?_⟩
      · simpa only [additionsSince, hr] using h.grown c
      · simpa only [load, tallyAt, ht, share, leftovers, additionsSince, hr] using h.moved c
  | @one i k q w job c hq hw ha ht hr =>
      have hhas : q.Has job := .inr ⟨k, w, hw, Activity.job?_of_counts? ha⟩
      have hone := hgoing.share_of_counted hready hreachable hq hhas
      have hgrown (c' : Tally.Counter) :
          earlier.additions c' ++ earlier.additionsSince next c' = next.additions c' := by
        rw [additionsSince_append (h.grown c') (hr c'), ← List.append_assoc, h.grown, hr]
      have hshare (c' : Tally.Counter) : earlier.share next start.batches.size p c' =
          earlier.share e start.batches.size p c' +
            if c = c' then (if i = d.pool then 1 else 0) else 0 := by
        rw [share_append (h.grown c') (hr c')]
        split
        · rw [hone]
        · rfl
      obtain ⟨p', hp'⟩ := hgoing.pool
      obtain ⟨p₀, hp₀, hgrows⟩ := hgoing.pools d.pool p' hp'
      cases hready.pool.symm.trans hp₀
      have htraced := traced_of_reachable hreachable
      refine ⟨hgrown, fun c' => ?_⟩
      by_cases hi : i = d.pool
      · subst hi
        cases hp'.symm.trans hq
        have hlt := htraced.tallies d.pool q hq
        have hsame : q.tally = d.tally := hgrows.tally.trans hshared.symm
        rw [hsame] at ht hlt
        rw [load_of_modify (Array.getElem?_eq_getElem hlt) ht, hshare, if_pos rfl, h.moved,
          Nat.add_assoc]
      -- What is counted in another pool moves neither side: its counters are other ones, and its
      -- jobs are neither those of the phase nor left over in the driver's pool.
      · have hne : q.tally ≠ d.tally := by
          rw [hshared, ← hgrows.tally]
          exact htraced.apart i d.pool q p' hq hp' hi
        have hload : next.load d.tally c' = e.load d.tally c' := by
          simp [load, tallyAt, ht, Array.getElem?_modify, hne]
        rw [hload, hshare, if_neg hi, ite_self, Nat.add_zero]
        exact h.moved c'

/-- Once its latch is released, each job of a phase was executed once, and what was finished and
counted is what was executed. -/
theorem settled (h : PhaseLatch b phase latch e) (hr : e.isReleased latch = true) (index : Nat) :
    e.ledger.number (.job latch index) .collapsed = 0 ∧
      e.ledger.number (.job latch index) (.begun false) +
        e.ledger.number (.job latch index) (.begun true) =
          (if index < phase.iterations then 1 else 0) ∧
      e.ledger.number (.job latch index) .tallied =
        (if index < phase.iterations then 1 else 0) ∧
      ∀ failed, e.ledger.number (.job latch index) (.finished failed) =
          e.ledger.number (.job latch index) (.begun failed) ∧
        e.ledger.number (.job latch index) (.counted failed) =
          e.ledger.number (.job latch index) (.begun failed) := by
  obtain ⟨batch, hb, _⟩ := h.batch
  have hzero := (isReleased_iff hb).mp hr
  have houtstanding := h.outstanding
  have hcount := h.placed.count_eq index
  have hle (l : List Nat) : l.count index ≤ l.length := List.count_le_length
  have hunmade := hle (e.unmade latch)
  have hoffered := hle (indicesOn latch e.inCall)
  have hqueued := hle (indicesOn latch e.queued)
  have hheld := hle (indicesOn latch e.held)
  have hdiscarded := hle (indicesOn latch e.discarded)
  have hlost := hle (indicesOn latch e.lost)
  simp only [List.count_append, List.count_range, count_indicesOn, count_inCall, count_queued,
    count_held, count_completed, count_discarded, count_lost] at *
  have hcompleted : e.ledger.number (.job latch index) .completed =
      if index < phase.iterations then 1 else 0 := by omega
  have hflow := (sound_of_reachable h.reachable).flow (.job latch index)
  have hplaced := hflow.placed
  have hmade := Ledger.made_le_one e.ledger (.job latch index)
  have hhands : inHands (e.ledger.number (.job latch index)) = 0 := by omega
  have hin := hflow.offered
  have haccepted := hflow.accepted
  have hdelivered := hflow.delivered
  have hbegun := hflow.begun false
  have hbegun' := hflow.begun true
  have hfinished := hflow.finished
  have hfinished' := hflow.failed
  have htallied := hflow.tallied
  have hcounted := hflow.counted
  simp only [inHands] at hhands
  refine ⟨?_, ?_, ?_, ?_⟩
  · split at hcompleted <;> omega
  · split at hcompleted <;> split <;> omega
  · split at hcompleted <;> split <;> omega
  · intro failed
    cases failed <;> constructor <;> omega

/-- The execution of one command of a phase that began in an earlier state: it happened on the
connection of a worker of the driver, and it finished and was counted once, as it came out. -/
structure Executed (start e : Engine) (d : Driver) (phase : Phase) (x : Execution) (index : Nat) :
    Prop where
  command : phase.generate index = .ok x.command
  worker : ∃ k w, e.worker? d.pool k = some w ∧ w.conn = x.conn
  outcome : ∃ failed, x.conduct.outcome? = some failed ∧ ∀ failed',
    e.events.toList.count (.finished x.origin failed') = (if failed' = failed then 1 else 0) ∧
    e.events.toList.count (.counted x.origin failed') = if failed' = failed then 1 else 0
  tallied : e.events.toList.count (.tallied x.origin) = 1

/-- The states of the run of a phase, with those in which its call reads a counter. The step with
which the phase begins reads the first counter. -/
inductive Looks (b : Backend) (start : Engine) : List Engine → Engine → Prop
  | begins {e : Engine} (hs : start.step b (.act .caller) = some e) : Looks b start [start] e
  | passes {looks : List Engine} {e next : Engine} (label : Label) (h : Looks b start looks e)
      (hr : e.progress.isRunning = true) (hl : e.progress.reads = true → label ≠ .act .caller)
      (hs : e.step b label = some next) : Looks b start looks next
  | reads {looks : List Engine} {e next : Engine} (h : Looks b start looks e)
      (hl : e.progress.reads = true) (hs : e.step b (.act .caller) = some next) :
      Looks b start (looks ++ [e]) next

/-- What is the case when the call of a pooled phase goes on with a report. It has read the first
counter in the states `start` and `exit` and the second in the states `entry` and `last`. -/
structure Reported (start entry exit last e : Engine) (d : Driver) (p : WorkerPool) (phase : Phase)
    (report : PhaseCount) : Prop where
  /-- Each index of the phase has one execution. -/
  attempts : (indicesOn start.batches.size e.begun).Perm (List.range phase.iterations)
  executions : ∀ x ∈ e.executions, ∀ index, x.origin = .job start.batches.size index →
    Executed start e d phase x index
  queued : indicesOn start.batches.size e.queued = []
  held : indicesOn start.batches.size e.held = []
  labels : report.name = phase.name ∧ report.mode = .pooled ∧ report.iterations = phase.iterations
  /-- A leftover job that was executed is counted if this was added between the looks at the first
  counter. -/
  executed : report.counts.executed =
    phase.iterations + (start.leftovers exit p .executed).length
  /-- One that failed is counted as failed if that was added between the looks at the second. -/
  failed : report.counts.failed = (indicesOn start.batches.size (e.attempted true)).length +
    (entry.leftovers last p .failed).length
  /-- A leftover job is counted at most once. -/
  once : (start.leftovers exit p .executed).Nodup ∧ (entry.leftovers last p .failed).Nodup
  /-- Nothing else is counted if nothing was left over. -/
  exact : p.jobs = [] → report.counts =
    ⟨phase.iterations, (indicesOn start.batches.size (e.attempted true)).length⟩

variable {entry exit last : Engine} {looks : List Engine}

theorem isRunning_of_reads {progress : Progress} (h : progress.reads = true) :
    progress.isRunning = true := by
  cases progress <;> first | rfl | cases h

theorem Looks.during (h : Looks b start looks e) : During b start e := by
  induction h with
  | begins hs => exact .begins hs
  | passes label h hr hl hs ih => exact .step label ih hr hs
  | reads h hl hs ih => exact .step _ ih (isRunning_of_reads hl) hs

theorem Looks.reachable (h : Looks b start looks e) (hstart : Reachable b start) :
    ∀ look ∈ looks, Reachable b look := by
  induction h with
  | begins hs =>
      intro look hmem
      rwa [List.mem_singleton.mp hmem]
  | passes label h hr hl hs ih => exact ih
  | reads h hl hs ih =>
      intro look hmem
      rcases List.mem_append.mp hmem with hold | hnew
      · exact ih look hold
      · rw [List.mem_singleton.mp hnew]
        exact h.during.reachable hstart

/-- Every run of a phase has its looks. -/
theorem During.exists_looks (h : During b start e) : ∃ looks, Looks b start looks e := by
  induction h with
  | begins hs => exact ⟨_, .begins hs⟩
  | @step e next label h hr hs ih =>
      obtain ⟨looks, hlooks⟩ := ih
      by_cases hl : e.progress.reads = true ∧ label = .act .caller
      · obtain ⟨hreads, rfl⟩ := hl
        exact ⟨_, hlooks.reads hreads hs⟩
      · exact ⟨looks, hlooks.passes label hr (fun hreads hlabel => hl ⟨hreads, hlabel⟩) hs⟩

/-- Since each look the driver's counters moved by what was counted for the phase and for what was
left over. -/
theorem Looks.tallied (h : Looks b start looks e) (hready : Ready b start d p phase todo reports)
    (hshared : d.tally = p.tally) : (∃ answer, e.progress = .returned answer) ∨
      start ∈ looks ∧ ∀ earlier ∈ looks, Tallied start.batches.size d p earlier e := by
  have hstep {looks : List Engine} {e next : Engine} {label : Label} (h : Looks b start looks e)
      (hr : e.progress.isRunning = true) (hs : e.step b label = some next) :
      (∃ answer, next.progress = .returned answer) ∨ ∀ earlier,
        Tallied start.batches.size d p earlier e →
          Tallied start.batches.size d p earlier next := by
    have hreachable := h.during.reachable hready.reachable
    have hgoing := (h.during.going hready).resolve_left (not_returned_of_isRunning hr)
    rcases hgoing.step hreachable hr hs with hreturned | ⟨_, hcounting⟩
    · exact .inl hreturned
    · exact .inr fun _ ht => ht.step hgoing hready hshared hreachable hcounting
  induction h with
  | begins hs =>
      obtain rfl := hready.begun hs
      refine .inr ⟨List.mem_singleton_self _, fun earlier hmem => ?_⟩
      obtain rfl := List.mem_singleton.mp hmem
      obtain ⟨hgrown, hmoved⟩ := Tallied.refl earlier.batches.size d p earlier
      refine ⟨fun c => ?_, fun c => ?_⟩
      · simpa only [additionsSince, additions, events_beginPhase] using hgrown c
      · simpa only [load, tallyAt, tallies_beginPhase, share, leftovers, additionsSince, additions,
          events_beginPhase] using hmoved c
  | passes label h hr hl hs ih =>
      obtain ⟨hmem, htallied⟩ := ih.resolve_left (not_returned_of_isRunning hr)
      rcases hstep h hr hs with hreturned | hnext
      · exact .inl hreturned
      · exact .inr ⟨hmem, fun earlier hearlier => hnext earlier (htallied earlier hearlier)⟩
  | reads h hl hs ih =>
      have hr := isRunning_of_reads hl
      obtain ⟨hmem, htallied⟩ := ih.resolve_left (not_returned_of_isRunning hr)
      rcases hstep h hr hs with hreturned | hnext
      · exact .inl hreturned
      · refine .inr ⟨List.mem_append_left _ hmem, fun earlier hearlier => hnext earlier ?_⟩
        rcases List.mem_append.mp hearlier with hold | hnew
        · exact htallied earlier hold
        · rw [List.mem_singleton.mp hnew]
          exact .refl _ _ _ _

theorem During.tallied (h : During b start e) (hready : Ready b start d p phase todo reports)
    (hshared : d.tally = p.tally) :
    (∃ answer, e.progress = .returned answer) ∨ Tallied start.batches.size d p start e := by
  obtain ⟨looks, hlooks⟩ := h.exists_looks
  rcases hlooks.tallied hready hshared with hreturned | ⟨hmem, htallied⟩
  · exact .inl hreturned
  · exact .inr (htallied start hmem)

/-- The counted jobs of a phase are its indices, and those that count as failed are the failed
executions. -/
theorem counted_indices (h : PhaseLatch b phase latch e) (hr : e.isReleased latch = true) :
    (indicesOn latch (e.additions .executed)).Perm (List.range phase.iterations) ∧
      (indicesOn latch (e.additions .failed)).Perm (indicesOn latch (e.attempted true)) ∧
      (indicesOn latch e.begun).Perm (List.range phase.iterations) := by
  refine ⟨?_, ?_, ?_⟩ <;> rw [List.perm_iff_count] <;> intro index <;>
    obtain ⟨hcollapsed, hone, htallied, hsettled⟩ := settled h hr index
  · rw [count_indicesOn, count_additions, Tally.Counter.station, htallied, List.count_range]
  · rw [count_indicesOn, count_indicesOn, count_additions, count_attempted, Tally.Counter.station,
      (hsettled true).2]
  · rw [count_indicesOn, count_begun, hcollapsed, Nat.zero_add, hone, List.count_range]

/-- Nothing is counted for a latch before it has jobs. -/
theorem additions_of_jobless (h : Reachable b e) (hj : Ledger.jobsAt e.batches latch = 0)
    (c : Tally.Counter) : indicesOn latch (e.additions c) = [] := by
  apply indicesOn_eq_nil
  intro index
  rw [count_additions]
  exact number_of_jobsAt_le h (hj ▸ Nat.zero_le index) c.station

/-- One is added to a counter at most once for each job. -/
theorem count_additions_le_one (h : Reachable b e) (c : Tally.Counter) (latch index : Nat) :
    (e.additions c).count (.job latch index) ≤ 1 := by
  have hflow := (sound_of_reachable h).flow (.job latch index)
  have htallied := hflow.tallied_le_accepted.trans (number_accepted_le_one h (.job latch index))
  rw [count_additions]
  cases c with
  | executed => exact htallied
  | failed => exact (hflow.counted_le_tallied true).trans htallied

theorem nodup_leftovers (h : Reachable b e) (earlier : Engine) (p : WorkerPool)
    (c : Tally.Counter) : (earlier.leftovers e p c).Nodup := by
  rw [List.nodup_iff_count_le_one]
  intro o
  by_cases hmem : o ∈ p.jobs
  · obtain ⟨job, _, rfl⟩ := WorkerPool.mem_jobs.mp hmem
    have hsublist : (earlier.leftovers e p c).Sublist (e.additions c) :=
      List.filter_sublist.trans (List.drop_sublist _ _)
    exact (hsublist.count_le _).trans (count_additions_le_one h c job.latch job.index)
  · have hnot : o ∉ earlier.leftovers e p c := fun ho =>
      hmem (of_decide_eq_true (List.mem_filter.mp ho).2)
    rw [List.count_eq_zero_of_not_mem hnot]
    exact Nat.zero_le _

/-- What a phase whose latch is released has added to a counter. -/
def ownCount (e : Engine) (phase : Phase) (latch : Nat) : Tally.Counter → Nat
  | .executed => phase.iterations
  | .failed => (indicesOn latch (e.attempted true)).length

/-- How a counter moved between two looks at it, of which the second comes when the latch of the
phase is released. -/
def Moved (phase : Phase) (latch : Nat) (d : Driver) (p : WorkerPool) (earlier e : Engine)
    (c : Tally.Counter) : Prop :=
  e.load d.tally c = earlier.load d.tally c +
    (e.ownCount phase latch c + (earlier.leftovers e p c).length)

/-- Since a time when it had no jobs, a phase has moved a counter by all that it adds to it. -/
theorem Tallied.moved_of_released (h : Tallied latch d p earlier e)
    (hearlier : Reachable b earlier) (hj : Ledger.jobsAt earlier.batches latch = 0)
    (hlatch : PhaseLatch b phase latch e) (hr : e.isReleased latch = true) (c : Tally.Counter) :
    Moved phase latch d p earlier e c := by
  have hown : indicesOn latch (earlier.additionsSince e c) = indicesOn latch (e.additions c) := by
    have hnone := additions_of_jobless hearlier hj c
    rw [← h.grown c, indicesOn, indicesOn, List.filterMap_append]
    rw [indicesOn] at hnone
    rw [hnone, List.nil_append]
  obtain ⟨hexecuted, hfailed, _⟩ := counted_indices hlatch hr
  have hlength : (indicesOn latch (e.additions c)).length = e.ownCount phase latch c := by
    cases c with
    | executed => exact hexecuted.length_eq.trans List.length_range
    | failed => exact hfailed.length_eq
  rw [Moved, h.moved c, share, hown, hlength]

/-- What the call of a pooled phase has read by its looks, and how the counters moved between
them. -/
inductive Looked (start : Engine) (d : Driver) (p : WorkerPool) (phase : Phase)
    (todo : List Phase) (reports : List PhaseCount) : List Engine → Engine → Prop
  | entering {e : Engine}
      (hp : e.progress = .entering phase (start.load d.tally .executed)
        (.pooled start.batches.size) todo reports) :
      Looked start d p phase todo reports [start] e
  | running {entry e : Engine} (point : Point)
      (hj : Ledger.jobsAt entry.batches start.batches.size = 0)
      (hp : e.progress = .running
        ⟨phase, ⟨start.load d.tally .executed, entry.load d.tally .failed⟩, point⟩ todo reports)
      (hl : point.latch? = some start.batches.size) :
      Looked start d p phase todo reports [start, entry] e
  | leaving {entry e : Engine} (hj : Ledger.jobsAt entry.batches start.batches.size = 0)
      (hp : e.progress = .leaving phase
        ⟨start.load d.tally .executed, entry.load d.tally .failed⟩ none todo reports)
      (hr : e.isReleased start.batches.size = true) :
      Looked start d p phase todo reports [start, entry] e
  | left {entry exit e : Engine} (hj : Ledger.jobsAt entry.batches start.batches.size = 0)
      (hp : e.progress = .leaving phase
        ⟨start.load d.tally .executed, entry.load d.tally .failed⟩
        (some (exit.load d.tally .executed)) todo reports)
      (hr : e.isReleased start.batches.size = true)
      (hexit : Moved phase start.batches.size d p start exit .executed) :
      Looked start d p phase todo reports [start, entry, exit] e
  | reported {entry exit last e : Engine}
      (hp : e.progress = .planning todo (reports ++ [phase.report
        ⟨start.load d.tally .executed, entry.load d.tally .failed⟩
        ⟨exit.load d.tally .executed, last.load d.tally .failed⟩]))
      (hr : e.isReleased start.batches.size = true)
      (hexit : Moved phase start.batches.size d p start exit .executed)
      (hlast : Moved phase start.batches.size d p entry last .failed)
      (hsame : e.attempted = last.attempted) :
      Looked start d p phase todo reports [start, entry, exit, last] e

/-- A step that is not a look leaves what was read as it is. -/
theorem Looked.pass {label : Label} (h : Looked start d p phase todo reports looks e)
    (hd : e.driver = some d) (hreachable : Reachable b e)
    (hr : e.progress.isRunning = true) (hl : e.progress.reads = true → label ≠ .act .caller)
    (hs : e.step b label = some next) : (∃ answer, next.progress = .returned answer) ∨
      Looked start d p phase todo reports looks next := by
  have hsame (hreads : e.progress.reads = true) : next.progress = e.progress := by
    cases hcaller : label.ofCaller with
    | false => exact (step_move hs).progress hcaller
    | true => exact absurd (step_of_reads hreads hcaller hs).1 (hl hreads)
  cases h with
  | entering hp => exact .inr (.entering ((hsame (by rw [hp]; rfl)).trans hp))
  | running point hj hp hlatch =>
      have hfits := (fitting_of_reachable hreachable).progress
      rw [hp] at hfits
      rcases step_pooled hs hd hp hlatch hfits with hreturned | ⟨_, hon⟩
      · exact .inl hreturned
      · cases hon with
        | on point hp' hl' => exact .inr (.running point hj hp' hl')
        | released hr' hp' => exact .inr (.leaving hj hp' hr')
  | leaving hj hp hreleased =>
      exact .inr (.leaving hj ((hsame (by rw [hp]; rfl)).trans hp)
        (isReleased_step hreachable hs hreleased))
  | left hj hp hreleased hexit =>
      exact .inr (.left hj ((hsame (by rw [hp]; rfl)).trans hp)
        (isReleased_step hreachable hs hreleased) hexit)
  | reported hp =>
      rw [hp] at hr
      cases hr

/-- A look reads the counter as it is. -/
theorem Looked.look (h : Looked start d p phase todo reports looks e)
    (hlooks : ∀ look ∈ looks, Reachable b look) (hd : e.driver = some d)
    (hlatch : PhaseLatch b phase start.batches.size e)
    (htallied : ∀ earlier ∈ looks, Tallied start.batches.size d p earlier e)
    (hl : e.progress.reads = true) (hs : e.step b (.act .caller) = some next) :
    Looked start d p phase todo reports (looks ++ [e]) next := by
  obtain ⟨_, d', notices, hd', rfl⟩ := step_of_reads hl rfl hs
  cases hd.symm.trans hd'
  cases h with
  | entering hp =>
      obtain ⟨_, batch, hb, _, _, hjobs⟩ :
          0 ≤ phase.iterations ∧ Runs e.batches start.batches.size phase.iterations 0 := by
        have hfits := (fitting_of_reachable hlatch.reachable).progress
        rwa [hp] at hfits
      refine .running (.generating start.batches.size 0)
        ((Ledger.jobsAt_of_getElem? hb).trans hjobs) ?_ rfl
      rw [hp]
      rfl
  | running point hj hp hlatch =>
      rw [hp] at hl
      cases hl
  | @leaving entry _ hj hp hreleased =>
      refine .left hj ?_ hreleased ?_
      · rw [hp]
        rfl
      · have hmem : start ∈ [start, entry] := List.mem_cons_self
        exact (htallied start hmem).moved_of_released (hlooks start hmem)
          (Ledger.jobsAt_of_size_le (Nat.le_refl _)) hlatch hreleased .executed
  | @left entry exit _ hj hp hreleased hexit =>
      refine .reported ?_ hreleased hexit ?_ rfl
      · rw [hp]
        rfl
      · have hmem : entry ∈ [start, entry, exit] := List.mem_cons_of_mem _ List.mem_cons_self
        exact (htallied entry hmem).moved_of_released (hlooks entry hmem) hj hlatch hreleased
          .failed
  | reported hp =>
      rw [hp] at hl
      cases hl

theorem Looks.looked (h : Looks b start looks e) (hready : Ready b start d p phase todo reports)
    (hshared : d.tally = p.tally) : (∃ answer, e.progress = .returned answer) ∨
      Looked start d p phase todo reports looks e := by
  induction h with
  | begins hs =>
      obtain rfl := hready.begun hs
      exact .inr (.entering (by rw [beginPhase_of_pooled hready.pooled]))
  | @passes looks e next label h hr hl hs ih =>
      have hruns := not_returned_of_isRunning hr
      have hgoing := (h.during.going hready).resolve_left hruns
      have hreachable := h.during.reachable hready.reachable
      exact (ih.resolve_left hruns).pass hgoing.driver hreachable hr hl hs
  | @reads looks e next h hl hs ih =>
      have hruns := not_returned_of_isRunning (isRunning_of_reads hl)
      have hgoing := (h.during.going hready).resolve_left hruns
      have htallied := ((h.tallied hready hshared).resolve_left hruns).2
      exact .inr ((ih.resolve_left hruns).look (h.reachable hready.reachable) hgoing.driver
        (h.during.phaseLatch hready) htallied hl hs)

/-- What the report of a pooled phase counts, by the looks of its call. -/
theorem Looks.counts (h : Looks b start looks e) (hready : Ready b start d p phase todo reports)
    (hshared : d.tally = p.tally) {report : PhaseCount}
    (hreturned : e.progress = .planning todo (reports ++ [report])) :
    e.isReleased start.batches.size = true ∧
      ∃ entry exit last, looks = [start, entry, exit, last] ∧
        report = ⟨phase.name, phase.mode, phase.iterations,
          ⟨phase.iterations + (start.leftovers exit p .executed).length,
            (indicesOn start.batches.size (e.attempted true)).length +
              (entry.leftovers last p .failed).length⟩⟩ := by
  cases (h.looked hready hshared).resolve_left (not_returned_of_planning hreturned) with
  | entering hp | running _ hj hp | leaving hj hp | left hj hp =>
      cases hreturned.symm.trans hp
  | @reported entry exit last e hp hr hexit hlast hsame =>
      have hreports := hreturned.symm.trans hp
      simp only [Progress.planning.injEq, List.append_cancel_left_eq, List.cons.injEq, and_true,
        true_and] at hreports
      refine ⟨hr, entry, exit, last, rfl, ?_⟩
      simp only [Moved, ownCount] at hexit hlast
      rw [hreports, Phase.report, hexit, hlast, hsame]
      simp [Tally.since]

/-- If nothing was left over, the report counts the phase, and by as much the counters have
moved. -/
theorem During.report_of_empty (h : During b start e)
    (hready : Ready b start d p phase todo reports) (hshared : d.tally = p.tally)
    (hjobs : p.jobs = []) {report : PhaseCount}
    (hreturned : e.progress = .planning todo (reports ++ [report])) :
    e.isReleased start.batches.size = true ∧ report.counts =
        ⟨phase.iterations, (indicesOn start.batches.size (e.attempted true)).length⟩ ∧
      report = phase.report (start.tallyAt d.tally) (e.tallyAt d.tally) := by
  have hnone (earlier e : Engine) (c : Tally.Counter) : earlier.leftovers e p c = [] := by
    simp [leftovers, hjobs]
  obtain ⟨looks, hlooks⟩ := h.exists_looks
  obtain ⟨hr, entry, exit, last, _, rfl⟩ := hlooks.counts hready hshared hreturned
  have htallied :=
    (h.tallied hready hshared).resolve_left (not_returned_of_planning hreturned)
  have hmoved (c : Tally.Counter) : e.load d.tally c =
      start.load d.tally c + e.ownCount phase start.batches.size c := by
    have hmoved := htallied.moved_of_released hready.reachable
      (Ledger.jobsAt_of_size_le (Nat.le_refl _)) (h.phaseLatch hready) hr c
    rwa [Moved, hnone, List.length_nil, Nat.add_zero] at hmoved
  have hexecuted := hmoved .executed
  have hfailed := hmoved .failed
  simp only [load, Tally.get, ownCount] at hexecuted hfailed
  refine ⟨hr, by simp only [hnone, List.length_nil, Nat.add_zero], ?_⟩
  simp only [hnone, List.length_nil, Nat.add_zero, Phase.report, Tally.since, hexecuted, hfailed,
    Nat.add_sub_cancel_left]

theorem Going.executed (h : Going start d phase todo reports e)
    (hready : Ready b start d p phase todo reports)
    (hlatch : PhaseLatch b phase start.batches.size e)
    (hr : e.isReleased start.batches.size = true) {x : Execution} (hx : x ∈ e.executions)
    (ho : x.origin = .job start.batches.size index) : Executed start e d phase x index := by
  obtain ⟨conn, command, origin, conduct⟩ := x
  obtain rfl : origin = .job start.batches.size index := ho
  have htraced := traced_of_reachable hlatch.reachable
  obtain ⟨i, q, job, k, w, hq, hjob, horigin, hcommand, hw, hconn⟩ :
      ∃ i, e.RanIn i ⟨conn, command, .job start.batches.size index, conduct⟩ := by
    rcases htraced.executions _ hx with ⟨run, index', hdirect⟩ | hran
    · cases hdirect
    · exact hran
  simp only [Job.origin, Origin.job.injEq] at horigin
  obtain ⟨hl, rfl⟩ := horigin
  obtain ⟨q₀, hq₀, hgrows⟩ := h.pools i q hq
  obtain ⟨rfl, _, hg⟩ : OfPhase start d phase i job := by
    rcases hgrows.accepted job hjob with hold | hnew
    · have hlt := latch_lt_of_accepted hready.reachable hq₀ hold
      omega
    · exact hnew
  obtain ⟨hcollapsed, hone, htallied, hsettled⟩ := settled hlatch hr job.index
  rcases hc : conduct.outcome? with _ | failed
  · have hpos := number_pos_of_execution hx
      (y := ⟨.collapsed, .job start.batches.size job.index⟩) (by simp [Execution.entries, hc])
    change 0 < e.ledger.number (.job start.batches.size job.index) .collapsed at hpos
    omega
  · have hpos := number_pos_of_execution hx
      (y := ⟨.begun failed, .job start.batches.size job.index⟩) (by simp [Execution.entries, hc])
    change 0 < e.ledger.number (.job start.batches.size job.index) (.begun failed) at hpos
    have hlt : job.index < phase.iterations := by
      by_contra hge
      rw [if_neg hge] at hone
      cases failed <;> omega
    rw [if_pos hlt] at hone htallied
    refine ⟨hcommand ▸ hg, ⟨k, w, worker?_eq_some.mpr ⟨q, hq, hw⟩, hconn⟩, ⟨failed, hc, ?_⟩, ?_⟩
    · intro failed'
      obtain ⟨hfinished, hcounted⟩ := hsettled failed'
      rw [count_finished, count_events (s := .counted failed') rfl, hfinished, hcounted]
      have hbegun : e.ledger.number (.job start.batches.size job.index) (.begun failed') =
          if failed' = failed then 1 else 0 := by
        cases failed <;> cases failed' <;> simp at * <;> omega
      exact ⟨hbegun, hbegun⟩
    · rw [count_events (s := .tallied) rfl]
      exact htallied

/-- When the call of a pooled phase goes on, each of its commands was executed once and counted
once, and nothing of it is left in the pool. Its report counts these executions and the jobs that
were left over in the pool: as executed those whose execution was counted between the two looks at
the first counter, and as failed those whose failure was counted between the two at the second. -/
theorem pooled_report (hready : Ready b start d p phase todo reports) (hshared : d.tally = p.tally)
    (h : Looks b start looks e) {report : PhaseCount}
    (hreturned : e.progress = .planning todo (reports ++ [report])) :
    ∃ entry exit last, looks = [start, entry, exit, last] ∧
      Reported start entry exit last e d p phase report := by
  obtain ⟨hr, entry, exit, last, hlooks, rfl⟩ := h.counts hready hshared hreturned
  have hlatch := h.during.phaseLatch hready
  have hgoing := (h.during.going hready).resolve_left (not_returned_of_planning hreturned)
  have houtstanding := hlatch.outstanding
  have hzero : e.remaining start.batches.size = 0 := by
    obtain ⟨batch, hb, _⟩ := hlatch.batch
    exact (isReleased_iff hb).mp hr
  have hnone (hjobs : p.jobs = []) (earlier e : Engine) (c : Tally.Counter) :
      (earlier.leftovers e p c).length = 0 := by simp [leftovers, hjobs]
  have hreach := h.reachable hready.reachable
  rw [hlooks] at hreach
  exact ⟨entry, exit, last, hlooks, {
    attempts := (counted_indices hlatch hr).2.2
    executions := fun x hx index ho => hgoing.executed hready hlatch hr hx ho
    queued := List.length_eq_zero_iff.mp (by omega)
    held := List.length_eq_zero_iff.mp (by omega)
    labels := ⟨rfl, hready.pooled, rfl⟩
    executed := rfl
    failed := rfl
    once := ⟨nodup_leftovers (hreach exit (by simp)) start p .executed,
      nodup_leftovers (hreach last (by simp)) entry p .failed⟩
    exact := fun hjobs => by
      simp only [hnone hjobs, Nat.add_zero] }⟩

set_option maxRecDepth 2000 in
/-- A phase of one command over two jobs that were left over, all of which fail. The execution of
the first job was counted before the phase and its failure is counted after both counters are read,
so the report has one failure more than it has executions. -/
theorem pooled_report_of_leftovers : ∃ start looks entry exit last e d p,
    Ready (.always (.fail .queueClosed)) start d p (.pings 1) [] [] ∧
      p.jobs = [.job 0 1, .job 0 0] ∧ Looks (.always (.fail .queueClosed)) start looks e ∧
      looks = [start, entry, exit, last] ∧
      Reported start entry exit last e d p (.pings 1) ⟨"ping", .pooled, 1, ⟨2, 3⟩⟩ := by
  obtain ⟨start, hstart⟩ : ∃ start, Engine.run (.always (.fail .queueClosed)) {}
      ([.call (.start 1 1 false), .act .caller, .act .caller, .newLatch 2,
        .call (.submit (.ofName "ping") 0 2), .act .caller] ++
          List.replicate 5 (.act (.worker 0 0)) ++
            [.act .caller, .act .caller, .call (.plan [.pings 1])]) = some start := ⟨_, rfl⟩
  have hreachable := Reachable.start.run hstart
  obtain ⟨p, hp, hjobs, htally⟩ : ∃ p, start.pools[0]? = some p ∧
      p.jobs = [.job 0 1, .job 0 0] ∧ p.tally = 0 := by
    cases hstart
    exact ⟨_, rfl, rfl, rfl⟩
  have hready : Ready (.always (.fail .queueClosed)) start ⟨0, 0, none⟩ p (.pings 1) [] [] := by
    refine ⟨hreachable, ?_, hp, ?_, rfl⟩ <;> cases hstart <;> rfl
  obtain ⟨begun, hbegun⟩ :
      ∃ begun, start.step (.always (.fail .queueClosed)) (.act .caller) = some begun := by
    cases hstart
    exact ⟨_, rfl⟩
  obtain ⟨e, he⟩ : ∃ e, begun.runPhase (.always (.fail .queueClosed))
      (.act .caller :: List.replicate 10 (.act (.worker 0 0)) ++ [.act .caller, .act .caller] ++
        List.replicate 6 (.act (.worker 0 0)) ++ List.replicate 4 (.act .caller)) = some e := by
    cases hstart
    cases hbegun
    exact ⟨_, rfl⟩
  obtain ⟨looks, hlooks⟩ := ((During.begins hbegun).of_runPhase he).exists_looks
  have hreturned : e.progress = .planning [] ([] ++ [⟨"ping", .pooled, 1, ⟨2, 3⟩⟩]) := by
    cases hstart
    cases hbegun
    cases he
    rfl
  obtain ⟨entry, exit, last, hfour, hreported⟩ :=
    pooled_report hready htally.symm hlooks hreturned
  exact ⟨start, looks, entry, exit, last, e, _, p, hready, hjobs, hlooks, hfour, hreported⟩

end Engine

end LoadBench
