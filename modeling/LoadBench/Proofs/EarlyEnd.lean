import LoadBench.Proofs.Acceptance
import LoadBench.Proofs.PhaseReport
import LoadBench.Proofs.Rotation

/-!
A pooled phase that ends before it is done: it is given up, its generator panics, or the queue
turns a job away. The jobs that it got into the queue by then stay there, and only those; they are
executed and counted as if the phase went on, on a latch for which nobody waits any longer. What
the caller does later is no different for them, and they make no difference to a later phase.

That the jobs are executed needs somebody to execute them, so that part speaks of fair schedules on
which the pool is attended. All else holds on every run.
-/

namespace LoadBench

/-- The same pool, of which at most a caller has let go. -/
structure WorkerPool.Left (p p' : WorkerPool) : Prop where
  workers : p'.workers = p.workers
  items : p'.queue.items = p.queue.items
  isClosed : p'.queue.isClosed = p.queue.isClosed

theorem WorkerPool.Left.refl (p : WorkerPool) : p.Left p := ⟨rfl, rfl, rfl⟩

/-- An offer that is turned away leaves the queue as open as it was, which is not at all. -/
theorem JobQueue.isClosed_of_refused {α κ : Type} {q q' : JobQueue α Unit κ} {waits : Bool} {a : α}
    (h : q.enter waits a = (.refused, q')) : q.isClosed = true ∧ q'.isClosed = true := by
  unfold isClosed
  cases waits with
  | false =>
      obtain ⟨hclosed, rfl⟩ := offer_refused h
      rcases hclosed with hproducing | hslots
      · simp [hproducing]
      · simp [hslots]
  | true =>
      obtain ⟨hslots, rfl⟩ := reoffer_refused h
      have hresume := FairSemaphore.closed_resume (s := q.slots) (t := ())
      simp [hresume, hslots]

namespace Engine

/-- How a pooled phase may end early after `k` of its submits have completed. -/
inductive EndsEarly (q : JobQueue Job Unit Nat) (phase : Phase) (k : Nat) : Label → Answer → Prop
  | cancelled : EndsEarly q phase k .cancel .blocked
  | panicked {message : String} (hk : k < phase.iterations)
      (hg : phase.generate k = .error message) :
      EndsEarly q phase k (.act .caller) (.panic message)
  | refused (hc : q.isClosed = true) : EndsEarly q phase k (.act .caller) (.fault .queueClosed)

/-- The step in which a pooled phase ends early. -/
structure Abandons (b : Backend) (d : Driver) (phase : Phase) (k : Nat) (e : Engine) (label : Label)
    (ended : Engine) (answer : Answer) : Prop where
  /-- What the caller is told is not a report. -/
  reason : ∃ p, e.pools[d.pool]? = some p ∧ EndsEarly p.queue phase k label answer
  driver : ended.driver = some d
  /-- No queue is closed, and nothing is taken out of it. -/
  pools : ∀ (i : Nat) (p : WorkerPool), e.pools[i]? = some p →
    ∃ p', ended.pools[i]? = some p' ∧ p.Left p'
  /-- The driver may be given a plan at once. -/
  usable : ∀ phases, ended.step b (.call (.plan phases)) =
    some { ended with progress := .planning phases [] }

/-- What is the case at any time after a pooled phase, which began in the state `start`, has ended
early with `k` of its submits completed. -/
structure Aftermath (b : Backend) (start : Engine) (d : Driver) (phase : Phase) (k : Nat)
    (e : Engine) : Prop where
  /-- The jobs of the phase that were accepted are those of the first `k` indices. -/
  accepted : e.Filed d.pool start.batches.size phase k
  /-- Each of them is executed at most once, and no others are. -/
  attempts : (indicesOn start.batches.size e.begun).Subperm (List.range k)
  executions : ∀ x ∈ e.executions, ∀ index, x.origin = .job start.batches.size index →
    phase.generate index = .ok x.command ∧
      ∃ (j : Nat) (w : Worker), e.worker? d.pool j = some w ∧ w.conn = x.conn
  /-- A worker that completes one of them finds the latch unreleased, and goes on. -/
  completions : ∀ (i j : Nat) (w : Worker) (job : Job), e.worker? i j = some w →
    w.activity = .recorded job → job.latch = start.batches.size →
      e.isReleased start.batches.size = false ∧
        ∃ next, e.step b (.act (.worker i j)) = some next ∧
          next.worker? i j = some { w with activity := .idle } ∧
          next.completed = e.completed ++ [job.origin]
  /-- In an attended pool all of them are executed sooner or later, and each is counted unless the
  call panics at once. -/
  tried : ∀ s : Schedule b e, s.Fair d.pool → s.Attended d.pool → ∃ n, ∀ m, n ≤ m →
    (indicesOn start.batches.size (s.state m).begun).Perm (List.range k) ∧
      (indicesOn start.batches.size ((s.state m).recorded false) ++
        indicesOn start.batches.size ((s.state m).recorded true) ++
        indicesOn start.batches.size (s.state m).collapsed).Perm (List.range k)
  /-- A later phase that comes to its report has executed each of its own commands once. -/
  later : ∀ (d' : Driver) (p : WorkerPool) (phase' : Phase) (todo : List Phase)
    (reports : List PhaseCount) (e' : Engine) (report : PhaseCount),
    Ready b e d' p phase' todo reports → During b e e' →
      e'.progress = .planning todo (reports ++ [report]) →
        (indicesOn e.batches.size e'.begun).Perm (List.range phase'.iterations) ∧
          ∀ x ∈ e'.executions, ∀ index, x.origin = .job e.batches.size index →
            phase'.generate index = .ok x.command

variable {b : Backend} {e next start ended : Engine} {d : Driver} {p : WorkerPool} {phase : Phase}
  {todo : List Phase} {reports : List PhaseCount} {label : Label} {answer : Answer}
  {latch index i k : Nat} {job : Job}

section Ending

/-- Each pool is left by its caller, or nothing happens to it. -/
def AllLeft (e next : Engine) : Prop :=
  ∀ (i : Nat) (p : WorkerPool), e.pools[i]? = some p → ∃ p', next.pools[i]? = some p' ∧ p.Left p'

theorem AllLeft.same (h : next.pools = e.pools) : AllLeft e next := by
  intro i p hp
  rw [h]
  exact ⟨p, hp, .refl p⟩

theorem AllLeft.set {p' : WorkerPool} (hp : e.pools[i]? = some p)
    (hpools : next.pools = e.pools.set! i p') (h : p.Left p') : AllLeft e next := by
  intro j q hq
  rw [hpools]
  by_cases hj : i = j
  · subst hj
    cases hp.symm.trans hq
    exact ⟨p', getElem?_set_self hp p', h⟩
  · exact ⟨q, (getElem?_set_ne hj p').trans hq, .refl q⟩

/-- A step of a pooled phase that leads to no other point and not to its end. -/
theorem PooledMove.stops {point : Point} {turn : Turn} {before : Tally}
    (h : PooledMove e d phase point turn next) (hp : e.pools[d.pool]? = some p)
    (hk : (Progress.running ⟨phase, before, point⟩ todo reports).submitted = some k)
    (hturn : ∀ point, turn ≠ .to point) (hdone : turn ≠ .done) :
    next.driver = e.driver ∧ AllLeft e next ∧
      ((∃ message, turn = .panic message ∧ k < phase.iterations ∧
          phase.generate k = .error message) ∨
        turn = .fault .queueClosed ∧ p.queue.isClosed = true) := by
  cases h with
  | generates | awaits | accepts | parks => exact absurd rfl (hturn _)
  | @stumbles latch index message hlt hg =>
      cases hk
      exact ⟨rfl, .same rfl, .inl ⟨message, rfl, hlt, hg⟩⟩
  | @drops _ p' latch index job waits queue hpoint hp' hq =>
      cases hp.symm.trans hp'
      obtain ⟨hclosed, hclosed'⟩ := JobQueue.isClosed_of_refused hq
      refine ⟨rfl, .set hp (modify_eq_set (fun p : WorkerPool => { p with queue }) hp) ?_,
        .inr ⟨rfl, hclosed⟩⟩
      exact ⟨rfl, JobQueue.items_enter_refused hq, hclosed'.trans hclosed.symm⟩
  | returns hl => exact absurd rfl hdone

/-- Giving up a pooled phase lets go of the driver's queue and of nothing else. -/
theorem cancelPoint_left {point : Point} (hd : e.driver = some d) (hp : e.pools[d.pool]? = some p)
    (hl : point.latch? = some latch) (hs : e.cancelPoint point = some next) :
    next.driver = e.driver ∧ AllLeft e next := by
  cases point with
  | offering latch index job =>
      cases hs
      exact ⟨rfl, .same rfl⟩
  | waiting latch index job =>
      cases hs
      unfold withdrawJob
      rw [hd]
      refine ⟨rfl, .set hp (modify_eq_set
        (fun p : WorkerPool => { p with queue := p.queue.withdrawOffer () }) hp) ⟨rfl, rfl, ?_⟩⟩
      change (!p.queue.producing || (p.queue.slots.withdraw ()).closed) = _
      rw [FairSemaphore.closed_withdraw]
      rfl
  | awaiting latch =>
      cases hs
      exact ⟨rfl, .same rfl⟩
  | generating latch index => cases hs
  | _ => cases hl

/-- A call does not return while it reads the counters. -/
theorem Going.running_of_returned (h : Going start d phase todo reports e)
    (hr : e.progress.isRunning = true) (hs : e.step b label = some ended)
    (hreturned : ended.progress = .returned answer) : ∃ before point,
      e.progress = .running ⟨phase, before, point⟩ todo reports ∧
        point.latch? = some start.batches.size := by
  cases h.call with
  | @running before point hpoint hl => exact ⟨before, point, hpoint, hl⟩
  | entering hp | leaving _ hp =>
      exact absurd ⟨answer, hreturned⟩ (not_returned_of_reads (by rw [hp]; rfl) hs)
  | reported _ hp =>
      rw [hp] at hr
      cases hr

theorem Going.submitted_of_returned (h : Going start d phase todo reports e)
    (hr : e.progress.isRunning = true) (hs : e.step b label = some ended)
    (hreturned : ended.progress = .returned answer)
    (hunique : ∀ k', e.progress.submitted = some k' → k' = k) :
    e.progress.submitted = some k := by
  obtain ⟨before, point, hpoint, hl⟩ := h.running_of_returned hr hs hreturned
  obtain ⟨_, k', hk'⟩ := h.latch? (by rw [hpoint]; exact hl)
  rw [hk', hunique k' hk']

/-- A pooled phase returns early in one of three ways. -/
theorem Going.abandons (h : Going start d phase todo reports e) (hm : phase.mode = .pooled)
    (hr : e.progress.isRunning = true) (hk : e.progress.submitted = some k)
    (hs : e.step b label = some ended) (hreturned : ended.progress = .returned answer) :
    Abandons b d phase k e label ended answer := by
  obtain ⟨p, hp⟩ := h.pool
  obtain ⟨before, point, hpoint, hl⟩ := h.running_of_returned hr hs hreturned
  have husable (hdriver : ended.driver = some d) (phases : List Phase) :
      ended.step b (.call (.plan phases)) =
        some { ended with progress := .planning phases [] } := by
    simp [Engine.step, hreturned, Progress.atRest, begin, hdriver]
  have hsame (hprogress : ended.progress = e.progress) : False := by
    rw [hprogress, hpoint] at hreturned
    cases hreturned
  cases label with
  | act actor =>
      cases actor with
      | caller =>
          change e.callerStep b = some ended at hs
          rw [callerStep_of_pooled h.driver hpoint hm] at hs
          obtain ⟨⟨turn, e'⟩, hx, rfl⟩ := Option.map_eq_some_iff.mp hs
          rw [hpoint] at hk
          have hstops : (∀ point, turn ≠ .to point) ∧ turn ≠ .done := by
            constructor
            · rintro point rfl
              cases hreturned
            · rintro rfl
              cases hreturned
          obtain ⟨hdriver, hleft, ⟨message, rfl, hlt, hg⟩ | ⟨rfl, hclosed⟩⟩ :=
            (pooledStep_cases hx).stops hp hk hstops.1 hstops.2
          · cases hreturned
            exact ⟨⟨p, hp, .panicked hlt hg⟩, hdriver.trans h.driver, hleft,
              husable (hdriver.trans h.driver)⟩
          · cases hreturned
            exact ⟨⟨p, hp, .refused hclosed⟩, hdriver.trans h.driver, hleft,
              husable (hdriver.trans h.driver)⟩
      | worker i j =>
          have hmove := step_move hs
          have hprogress : ended.bare.progress = e.bare.progress := by
            generalize ended.bare = after at hmove
            cases hmove with
            | worker hp hw hmove => exact hmove.progress
            | caller hcaller hmove => cases hcaller
          exact (hsame hprogress).elim
  | call request =>
      simp [Engine.step, hpoint, Progress.atRest] at hs
  | cancel =>
      change e.cancel = some ended at hs
      unfold cancel at hs
      rw [hpoint] at hs
      obtain ⟨e', hx, rfl⟩ := Option.map_eq_some_iff.mp hs
      obtain ⟨hdriver, hleft⟩ := cancelPoint_left h.driver hp hl hx
      cases hreturned
      exact ⟨⟨p, hp, .cancelled⟩, hdriver.trans h.driver, hleft,
        husable (hdriver.trans h.driver)⟩
  | release permits =>
      cases hs
      exact (hsame rfl).elim
  | newLatch jobs =>
      cases hs
      exact (hsame rfl).elim

end Ending

section Leftovers

/-- A job of the phase that was accepted anywhere is one of the first ones. -/
theorem Filed.of_mem (h : e.Filed i latch phase k) {j : Nat} (hp : e.pools[j]? = some p)
    (hjob : job ∈ p.queue.accepted) (hl : job.latch = latch) :
    j = i ∧ job.index < k ∧ phase.generate job.index = .ok job.command := by
  have hmem : job.numbered ∈ (p.acceptedFor latch).map Job.numbered :=
    List.mem_map_of_mem (WorkerPool.mem_acceptedFor.mpr ⟨hjob, hl⟩)
  rw [h j p hp] at hmem
  split at hmem
  · next hj =>
      obtain ⟨index, hindex, heq⟩ := List.mem_map.mp hmem
      obtain ⟨rfl, hg⟩ := Prod.mk.inj heq
      exact ⟨hj, List.mem_range.mp hindex, hg⟩
  · cases hmem

theorem Filed.exists_of_lt (h : e.Filed i latch phase k) (hp : e.pools[i]? = some p)
    (hk : index < k) : ∃ job ∈ p.queue.accepted, job.origin = .job latch index := by
  have hmem : phase.numbered index ∈ (p.acceptedFor latch).map Job.numbered := by
    rw [h i p hp, if_pos rfl]
    exact List.mem_map_of_mem (List.mem_range.mpr hk)
  obtain ⟨job, hjob, heq⟩ := List.mem_map.mp hmem
  obtain ⟨rfl, _⟩ := Prod.mk.inj heq
  obtain ⟨haccepted, rfl⟩ := WorkerPool.mem_acceptedFor.mp hjob
  exact ⟨job, haccepted, rfl⟩

/-- An execution of a job of the phase. -/
theorem Filed.execution (h : e.Filed i latch phase k) (hreachable : Reachable b e) {x : Execution}
    (hx : x ∈ e.executions) (ho : x.origin = .job latch index) :
    index < k ∧ phase.generate index = .ok x.command ∧
      ∃ (j : Nat) (w : Worker), e.worker? i j = some w ∧ w.conn = x.conn := by
  obtain ⟨j, q, job, l, w, hq, hjob, horigin, hcommand, hw, hconn⟩ : ∃ j, e.RanIn j x := by
    rcases (traced_of_reachable hreachable).executions x hx with ⟨run, index', hdirect⟩ | hran
    · rw [ho] at hdirect
      cases hdirect
    · exact hran
  rw [ho] at horigin
  obtain ⟨hlatch, rfl⟩ := Origin.job.inj horigin
  obtain ⟨rfl, hlt, hg⟩ := h.of_mem hq hjob hlatch
  exact ⟨hlt, hcommand ▸ hg, l, w, worker?_eq_some.mpr ⟨q, hq, hw⟩, hconn⟩

theorem Filed.lt_of_begun (h : e.Filed i latch phase k) (hreachable : Reachable b e)
    (hindex : index ∈ indicesOn latch e.begun) : index < k := by
  obtain ⟨x, hx, ho⟩ := List.mem_map.mp (mem_indicesOn.mp hindex)
  exact (h.execution hreachable (Array.mem_toList_iff.mp hx) ho).1

/-- How often a job was executed, and with it how often it was counted. -/
theorem count_tried (h : Reachable b e) (latch index : Nat) :
    (indicesOn latch e.begun).count index ≤ 1 ∧
      (indicesOn latch (e.recorded false) ++ indicesOn latch (e.recorded true) ++
        indicesOn latch e.collapsed).count index ≤ (indicesOn latch e.begun).count index ∧
      (e.Tried (.job latch index) →
        0 < (indicesOn latch (e.recorded false) ++ indicesOn latch (e.recorded true) ++
          indicesOn latch e.collapsed).count index) := by
  have hflow := (sound_of_reachable h).flow (.job latch index)
  have hone := number_accepted_le_one h (.job latch index)
  have haccepted := hflow.accepted
  have hdelivered := hflow.delivered
  have h1 := hflow.begun false
  have h2 := hflow.begun true
  have h3 := hflow.finished
  have h4 := hflow.failed
  rw [tried_iff]
  simp only [List.count_append, count_indicesOn, count_begun, count_recorded, count_collapsed]
  omega

theorem Filed.attempts (h : e.Filed i latch phase k) (hreachable : Reachable b e) :
    (indicesOn latch e.begun).Subperm (List.range k) := by
  apply List.Nodup.subperm
  · rw [List.nodup_iff_count_le_one]
    intro index
    exact (count_tried hreachable latch index).1
  · intro index hindex
    exact List.mem_range.mpr (h.lt_of_begun hreachable hindex)

/-- Once the jobs of the first indices are tried, all of the attempts are accounted for. -/
theorem Filed.settled (h : e.Filed i latch phase k) (hreachable : Reachable b e)
    (htried : ∀ index < k, e.Tried (.job latch index)) :
    (indicesOn latch e.begun).Perm (List.range k) ∧
      (indicesOn latch (e.recorded false) ++ indicesOn latch (e.recorded true) ++
        indicesOn latch e.collapsed).Perm (List.range k) := by
  have hcount (index : Nat) : (indicesOn latch e.begun).count index =
        (if index < k then 1 else 0) ∧
      (indicesOn latch (e.recorded false) ++ indicesOn latch (e.recorded true) ++
        indicesOn latch e.collapsed).count index = if index < k then 1 else 0 := by
    obtain ⟨hone, hle, hpos⟩ := count_tried hreachable latch index
    by_cases hk : index < k
    · have hpos := hpos (htried index hk)
      rw [if_pos hk]
      omega
    · have hnone : (indicesOn latch e.begun).count index = 0 := by
        apply List.count_eq_zero.mpr
        intro hmem
        exact hk (h.lt_of_begun hreachable hmem)
      rw [if_neg hk]
      omega
  constructor
  · rw [List.perm_iff_count]
    intro index
    rw [(hcount index).1, List.count_range]
  · rw [List.perm_iff_count]
    intro index
    rw [(hcount index).2, List.count_range]

theorem Schedule.filed (s : Schedule b e) (h : Reachable b e) (hp : e.pools[i]? = some p)
    (hfiled : e.Filed i latch phase k) (hretired : e.Retired latch) (n : Nat) :
    (s.state n).Filed i latch phase k ∧ (s.state n).Retired latch ∧
      ∃ p', (s.state n).pools[i]? = some p' := by
  induction n with
  | zero =>
      rw [s.begins]
      exact ⟨hfiled, hretired, p, hp⟩
  | succ n ih =>
      obtain ⟨hfiled, hretired, q, hq⟩ := ih
      have hreachable := s.reachable h n
      obtain ⟨q', hq', _⟩ := (step_views hreachable (s.step n)).follows hq
      exact ⟨hfiled.retired ⟨q, hq⟩ hretired hreachable (s.step n),
        hretired.step hreachable (s.step n), q', hq'⟩

/-- In an attended pool the jobs that a phase left behind are all tried. -/
theorem Schedule.settles {s : Schedule b e} (hf : s.Fair i) (ha : s.Attended i)
    (h : Reachable b e) (hp : e.pools[i]? = some p) (ho : e.opens i = false)
    (hfiled : e.Filed i latch phase k) (hretired : e.Retired latch) :
    ∃ n, ∀ m, n ≤ m → (indicesOn latch (s.state m).begun).Perm (List.range k) ∧
      (indicesOn latch ((s.state m).recorded false) ++
        indicesOn latch ((s.state m).recorded true) ++
        indicesOn latch (s.state m).collapsed).Perm (List.range k) := by
  have hever (index : Nat) (hk : index < k) :
      ∃ n, ∀ m, n ≤ m → (s.state m).Tried (.job latch index) := by
    obtain ⟨job, hjob, horigin⟩ := hfiled.exists_of_lt hp hk
    rw [← horigin]
    exact tried hf ha h hp ho hjob
  choose! time htime using hever
  refine ⟨(Finset.range k).sup time, ?_⟩
  intro m hm
  apply (s.filed h hp hfiled hretired m).1.settled (s.reachable h m)
  intro index hk
  apply htime index hk
  exact le_trans (Finset.le_sup (Finset.mem_range.mpr hk)) hm

/-- The latch of the phase is not released while one of its jobs is not completed. -/
theorem PhaseLatch.countsDown (h : PhaseLatch b phase latch e) {j : Nat} {w : Worker}
    (hworker : e.worker? i j = some w) (ha : w.activity = .recorded job) (hl : job.latch = latch) :
    e.isReleased latch = false ∧ ∃ next, e.step b (.act (.worker i j)) = some next ∧
      next.worker? i j = some { w with activity := .idle } ∧
      next.completed = e.completed ++ [job.origin] := by
  subst hl
  obtain ⟨p, hp, hw⟩ := worker?_eq_some.mp hworker
  obtain ⟨batch, hb, howned, _⟩ := h.batch
  have hjobs := (fitting_of_reachable h.reachable).owned job.latch batch hb howned
  have hpos := remaining_pos_of_held h.reachable hp hw (by rw [ha]; rfl) hb hjobs
  refine ⟨?_, step_of_recorded hp hw ha hb hpos⟩
  rw [← Bool.not_eq_true, isReleased_iff hb, remaining_eq hb]
  omega

end Leftovers

/-- Workers that went on while the phase was being run attend the pool afterwards, too. -/
theorem Abandons.exists_attended (h : Abandons b d phase k e label ended answer)
    (hs : e.step b label = some ended) (hreachable : Reachable b e) (hb : b.Settles)
    (hd : e.driver = some d) (hsturdy : Sturdy d latch e) :
    ∃ s : Schedule b ended, s.Fair d.pool ∧ s.Attended d.pool := by
  obtain ⟨q, hq, hstaffed⟩ := hsturdy.staffed
  obtain ⟨q', hq', hleft⟩ := h.pools d.pool q hq
  have hstaffed' : ended.Staffed q' := by
    apply hstaffed.step hreachable hb hd hq hs hq'
    intro job hpush
    rw [JobQueue.accepted_of_items hleft.items] at hpush
    exact (ne_push _ _ hpush).elim
  refine ⟨ended.rotation b d.pool, rotation_fair b ended d.pool, ?_⟩
  exact rotation_attended (hreachable.step label hs) hb h.driver hq' hstaffed'

/-- However and whenever a pooled phase ends early, the jobs that it got into the queue are those of
its first indices, they and no others are executed, and the driver goes on as before. -/
theorem early_end (hready : Ready b start d p phase todo reports) (h : During b start e)
    (hr : e.progress.isRunning = true) (hs : e.step b label = some ended)
    (hreturned : ended.progress = .returned answer) :
    ∃ k, e.progress.submitted = some k ∧ Abandons b d phase k e label ended answer ∧
      ∀ labels later, ended.run b labels = some later → Aftermath b start d phase k later := by
  obtain ⟨k, _, hunique, hfiled⟩ := h.filed hready
  have hgoing := (h.going hready).resolve_left (not_returned_of_isRunning hr)
  have hk := hgoing.submitted_of_returned hr hs hreturned hunique
  have hreachable := h.reachable hready.reachable
  have habandons := hgoing.abandons hready.pooled hr hk hs hreturned
  refine ⟨k, hk, habandons, ?_⟩
  intro labels later hrun
  have hended : Reachable b ended := .step label hreachable hs
  have hlater := hended.run hrun
  have hlatch : PhaseLatch b phase start.batches.size later :=
    ((h.phaseLatch hready).step label hs).run hrun
  obtain ⟨q, hq⟩ := hgoing.pool
  obtain ⟨q', hq', _⟩ := habandons.pools d.pool q hq
  have hfiled' : ended.Filed d.pool start.batches.size phase k := by
    have hnext := hgoing.filed hreachable hr hs hunique hfiled
    rwa [hreturned] at hnext
  have hretired : ended.Retired start.batches.size := by
    obtain ⟨batch, hb, howned, _⟩ := ((h.phaseLatch hready).step label hs).batch
    refine ⟨⟨batch, hb, howned⟩, ?_⟩
    rw [hreturned]
    simp [Progress.latch?]
  have hopens : ended.opens d.pool = false := by
    unfold opens
    rw [hreturned]
    rfl
  obtain ⟨hfiled'', hretired'⟩ := hfiled'.run ⟨q', hq'⟩ hretired hended hrun
  obtain ⟨hopens', q'', hq''⟩ := run_opens hended hrun hq' hopens
  constructor
  · exact hfiled''
  · exact hfiled''.attempts hlater
  · intro x hx index ho
    exact (hfiled''.execution hlater hx ho).2
  · intro i j w job hworker ha hl
    exact hlatch.countsDown hworker ha hl
  · intro s hf ha
    exact Schedule.settles hf ha hlater hq'' hopens' hfiled'' hretired'
  · intro d' p phase' todo reports e' report hready' hduring hreport
    have hlatch' := hduring.phaseLatch hready'
    have hgoing' := (hduring.going hready').resolve_left (not_returned_of_planning hreport)
    cases hgoing'.call with
    | entering hp | running hp | leaving _ hp => cases hp.symm.trans hreport
    | reported hreleased =>
        refine ⟨(counted_indices hlatch' hreleased).2.2, ?_⟩
        intro x hx index ho
        exact (hgoing'.executed hready' hlatch' hreleased hx ho).command

/-- A phase of two commands that is given up while the second job waits for a slot. On a fair
schedule the first job is executed nevertheless. -/
theorem early_end_of_full_queue : ∃ start d p e ended,
    Ready (.always .succeed) start d p (.pings 2) [] [] ∧ During (.always .succeed) start e ∧
      Abandons (.always .succeed) d (.pings 2) 1 e .cancel ended .blocked ∧
      (∀ labels later, ended.run (.always .succeed) labels = some later →
        Aftermath (.always .succeed) start d (.pings 2) 1 later) ∧
      ∃ s : Schedule (.always .succeed) ended, s.Fair d.pool ∧ s.Attended d.pool ∧
        ∃ n, ∀ m, n ≤ m → (indicesOn start.batches.size (s.state m).begun).Perm [0] := by
  obtain ⟨start, hstart⟩ : ∃ start,
      Engine.run (.always .succeed) {} (opening 2) = some start := ⟨_, rfl⟩
  obtain ⟨p, hready, _⟩ := ready_of_opening hstart
  obtain ⟨begun, hbegun⟩ : ∃ begun, start.step (.always .succeed) (.act .caller) = some begun := by
    cases hstart
    exact ⟨_, rfl⟩
  obtain ⟨e, he⟩ : ∃ e, begun.runPhase (.always .succeed)
      (.replicate 5 (.act .caller)) = some e := by
    cases hstart
    cases hbegun
    exact ⟨_, rfl⟩
  have hduring : During (.always .succeed) start e := (During.begins hbegun).of_runPhase he
  obtain ⟨hrunning, hsubmitted⟩ :
      e.progress.isRunning = true ∧ e.progress.submitted = some 1 := by
    cases hstart
    cases hbegun
    cases he
    exact ⟨rfl, rfl⟩
  obtain ⟨ended, hended, hreturned⟩ : ∃ ended, e.step (.always .succeed) .cancel = some ended ∧
      ended.progress = .returned .blocked := by
    cases hstart
    cases hbegun
    cases he
    exact ⟨_, rfl, rfl⟩
  obtain ⟨k, hk, habandons, haftermath⟩ := early_end hready hduring hrunning hended hreturned
  rw [hsubmitted] at hk
  cases hk
  have hsettles : (Backend.always .succeed).Settles := fun _ _ _ => rfl
  have hstaffed := staffed_of_opening hstart hready
  obtain ⟨s, hfair, hattended⟩ : ∃ s : Schedule (.always .succeed) ended, s.Fair 0 ∧
      s.Attended 0 := by
    have hruns := not_returned_of_isRunning hrunning
    have hsturdy := (hduring.sturdy hready hsettles hstaffed).resolve_left hruns
    have hgoing := (hduring.going hready).resolve_left hruns
    exact habandons.exists_attended hended (hduring.reachable hready.reachable) hsettles
      hgoing.driver hsturdy
  obtain ⟨n, hn⟩ := (haftermath [] ended rfl).tried s hfair hattended
  exact ⟨start, ⟨0, 0, none⟩, p, e, ended, hready, hduring, habandons, haftermath, s, hfair,
    hattended, n, fun m hm => (hn m hm).1⟩

end Engine

end LoadBench
