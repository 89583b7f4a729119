import LoadBench.Proofs.EventLog
import LoadBench.Proofs.Measure
import LoadBench.Proofs.Occupancy

/-!
A caller that waits for a slot while everybody who goes on executes a job. Nothing happens to the
queue then, whoever acts, until one of the executions comes to its end.
-/

namespace LoadBench

/-- Only pooled phases come to the points of a pooled phase. -/
def Progress.InMode : Progress → Prop
  | .entering phase _ entry _ _ => entry.point.pooled = true → phase.mode = .pooled
  | .running run _ _ => run.point.pooled = true → run.phase.mode = .pooled
  | _ => True

namespace Progress

variable {progress : Progress} {job : Job} {waits : Bool}

theorem InMode.of_plain (h : progress.plain = true) : progress.InMode := by
  cases progress with
  | entering phase executed entry todo reports =>
      intro hpooled
      change (!entry.point.pooled) = true at h
      rw [hpooled] at h
      cases h
  | running run todo reports =>
      intro hpooled
      change (!run.point.pooled) = true at h
      rw [hpooled] at h
      cases h
  | _ => trivial

theorem InMode.accepted (h : progress.InMode) (hh : progress.hand = some (job, waits)) :
    progress.accepted.InMode := by
  cases progress with
  | running run todo reports =>
      obtain ⟨phase, before, point⟩ := run
      cases point with
      | offering latch index job' | waiting latch index job' => exact fun _ => h rfl
      | _ => cases hh
  | submitting s => trivial
  | _ => cases hh

theorem InMode.parked (h : progress.InMode) (hh : progress.hand = some (job, false)) :
    progress.parked.InMode := by
  cases progress with
  | running run todo reports =>
      obtain ⟨phase, before, point⟩ := run
      cases point with
      | offering latch index job' => exact fun _ => h rfl
      | _ => cases hh
  | submitting s => trivial
  | _ => cases hh

end Progress

namespace Engine

variable {b : Backend} {e next later : Engine} {label : Label} {labels : List Label} {i k : Nat}
  {d : Driver} {p p' : WorkerPool} {w : Worker} {job : Job}

theorem CallerMove.inMode (h : CallerMove e next) (hi : e.progress.InMode) :
    next.progress.InMode := by
  cases h with
  | quiet h => exact .of_plain h.after
  | closes hd hr he hp =>
      rcases hp with ⟨answer, rfl⟩ | rfl
      · exact .of_plain rfl
      · exact .of_plain rfl
  | beginsPhase hd hr hm | generates hr hm hi' hg | awaits hr hm hi' => exact fun _ => hm
  | entersPhase hd hr =>
      rw [hr] at hi
      exact hi
  | accepts hd hp hh hq => exact hi.accepted hh
  | parks hd hp hh hq => exact hi.parked hh
  | countsDirect hd hr | talliesDirect hd hr | countsDirectFailure hd hr => exact .of_plain rfl
  | _ => trivial

theorem inMode_of_reachable (h : Reachable b e) : e.progress.InMode := by
  induction h with
  | start => exact .of_plain rfl
  | @step e next label h hs ih =>
      have hm := step_move hs
      change next.bare.progress.InMode
      generalize next.bare = after at hm ⊢
      cases hm with
      | stay permits => exact ih
      | latch size => exact ih
      | worker hp hw h =>
          rw [h.progress]
          exact ih
      | caller _ h => exact h.inMode ih

/-- A caller that waits for a slot goes on when it has been given one, or when there is no worker
left. -/
theorem callerStep_of_waiting (h : Reachable b e) (hd : e.driver = some d)
    (hp : e.pools[d.pool]? = some p) (hw : e.waitsAt d.pool = true) :
    (∃ next, e.step b (.act .caller) = some next) ↔ p.queue.offerReady () = true := by
  have hmode := inMode_of_reachable h
  unfold waitsAt at hw
  change (∃ next, e.callerStep b = some next) ↔ _
  unfold callerStep
  cases hr : e.progress with
  | running run todo reports =>
      obtain ⟨phase, before, point⟩ := run
      cases point with
      | waiting latch index job =>
          rw [hr] at hmode
          have hm : phase.mode = .pooled := hmode rfl
          cases hready : p.queue.offerReady () with
          | true => simp [hd, phaseStep, hm, pooledStep, hp, hready]
          | false => simp [hd, phaseStep, hm, pooledStep, hp, hready]
      | _ => simp [hr, hd, Progress.hand] at hw
  | submitting s =>
      cases hs : s.waiting with
      | some job =>
          cases hready : p.queue.offerReady () with
          | true => simp [hd, submitStep, hs, hp, hready]
          | false => simp [hd, submitStep, hs, hp, hready]
      | none => simp [hr, hd, Progress.hand, hs] at hw
  | _ => simp [hr, hd, Progress.hand] at hw

section Done

/-- What has come to an end stays so. -/
theorem step_done (hs : e.step b label = some next) {o : Origin} (ho : o ∈ e.done) :
    o ∈ next.done := by
  rw [mem_done] at ho ⊢
  rcases ho with ⟨failed, hmem⟩ | hcollapsed
  · obtain ⟨l, hl, _⟩ := step_reports hs
    left
    refine ⟨failed, ?_⟩
    rw [hl]
    exact List.mem_append_left _ hmem
  · obtain ⟨x, hx, hxo, hout⟩ := mem_collapsed.mp hcollapsed
    exact .inr (mem_collapsed.mpr ⟨x, step_executions hs hx, hxo, hout⟩)

theorem step_origins (h : Reachable b e) (hs : e.step b label = some next)
    (hp : e.pools[i]? = some p) (hp' : next.pools[i]? = some p') :
    p.origins.Sublist p'.origins := by
  obtain ⟨q, hq, hfollows⟩ := (step_views h hs).follows hp
  cases hp'.symm.trans hq
  unfold WorkerPool.origins
  rcases hfollows.accepted with hsame | ⟨job, hpush⟩
  · rw [hsame]
  · rw [hpush, Array.toList_push, List.map_append]
    exact List.sublist_append_left _ _

theorem step_finished (h : Reachable b e) (hs : e.step b label = some next)
    (hp : e.pools[i]? = some p) (hp' : next.pools[i]? = some p') :
    (p.finished e).Sublist (p'.finished next) := by
  have hkeeps : (p.finished e).Sublist (p.origins.filter (· ∈ next.done)) := by
    apply List.monotone_filter_right
    intro o ho
    exact decide_eq_true (step_done hs (of_decide_eq_true ho))
  exact hkeeps.trans ((step_origins h hs hp hp').filter _)

/-- The jobs of a pool that were finished are finished later. -/
theorem run_finished (h : Reachable b e) (hr : e.run b labels = some later)
    (hp : e.pools[i]? = some p) :
    ∃ p', later.pools[i]? = some p' ∧ (p.finished e).Sublist (p'.finished later) := by
  induction labels generalizing e p with
  | nil =>
      cases hr
      exact ⟨p, hp, .refl _⟩
  | cons label labels ih =>
      obtain ⟨mid, hs, hr⟩ := run_cons.mp hr
      obtain ⟨q, hq, _⟩ := (step_views h hs).follows hp
      obtain ⟨p', hp', hsub⟩ := ih (h.step label hs) hr hq
      exact ⟨p', hp', (step_finished h hs hp hq).trans hsub⟩

end Done

/-- What others do is no business of the pool. -/
theorem step_pools_of_others (hs : e.step b label = some next) (hl : label.ofCaller = false)
    (hne : ∀ k, label ≠ .act (.worker i k)) : next.pools[i]? = e.pools[i]? := by
  have hm := step_move hs
  change next.bare.pools[i]? = e.bare.pools[i]?
  generalize next.bare = after at hm ⊢
  cases hm with
  | stay permits | latch size => rfl
  | caller hl' h =>
      rw [hl] at hl'
      cases hl'
  | @worker j k q w _ hq hw h =>
      obtain ⟨r, a, hpools, _⟩ := h.works
      rw [hpools]
      apply getElem?_set_ne
      rintro rfl
      exact hne k rfl

/-- A step of somebody who stalls either goes on stalling, or the execution comes to its end. -/
theorem step_of_stalling (hs : e.step b (.act (.worker i k)) = some next)
    (hp : e.pools[i]? = some p) (hw : p.workers[k]? = some w)
    (hstalling : w.activity.isStalling = true) :
    ∃ job, w.activity.job? = some job ∧
      ((∃ fault, next.pools[i]? = some (p.setActivity k (.stalled job fault))) ∨
        job.origin ∈ next.done) := by
  obtain ⟨q, w', hq, hw', hm⟩ := workerStep_move hs
  cases hp.symm.trans hq
  cases hw.symm.trans hw'
  change ∃ job, w.activity.job? = some job ∧
    ((∃ fault, next.bare.pools[i]? = some (p.setActivity k (.stalled job fault))) ∨
      job.origin ∈ next.bare.done)
  generalize next.bare = after at hm ⊢
  cases hm with
  | @stalls job fault ha =>
      refine ⟨job, by rw [ha]; rfl, .inl ⟨fault, ?_⟩⟩
      exact getElem?_set_self hp _
  | @finishes job failed ha =>
      refine ⟨job, Activity.job?_of_outcome? ha, .inr (mem_done.mpr (.inl ⟨failed, ?_⟩))⟩
      change _ ∈ (e.events.push _).toList
      rw [Array.toList_push]
      exact List.mem_append_right _ List.mem_cons_self
  | asks ha | takesTurn ha hr | takes ha hq | ends ha hq | begins ha hc | collapses ha hc
  | counts ha | tallies ha | countsFailure ha | completes ha hb hl | misuses ha hl | leaves ha =>
      rw [ha] at hstalling
      cases hstalling

/-- The caller waits for a slot that it was not given, and everybody who goes on executes a job
that stalls. -/
structure Jammed (e : Engine) (d : Driver) (p : WorkerPool) : Prop where
  driver : e.driver = some d
  pool : e.pools[d.pool]? = some p
  waits : e.waitsAt d.pool = true
  full : p.queue.offerReady () = false
  workers : ∀ (k : Nat) (w : Worker), p.workers[k]? = some w →
    w.activity.hasEnded = true ∨ w.activity.isStalling = true

namespace Jammed

theorem caller (hj : e.Jammed d p) (h : Reachable b e) : e.step b (.act .caller) = none := by
  cases hs : e.step b (.act .caller) with
  | none => rfl
  | some next =>
      have hready := (callerStep_of_waiting h hj.driver hj.pool hj.waits).mp ⟨next, hs⟩
      rw [hj.full] at hready
      cases hready

theorem not_ofCaller (hj : e.Jammed d p) (h : Reachable b e) (hs : e.step b label = some next)
    (hc : label ≠ .cancel) : label.ofCaller = false := by
  cases label with
  | act actor =>
      cases actor with
      | caller =>
          rw [hj.caller h] at hs
          cases hs
      | worker i k => rfl
  | call request =>
      exfalso
      simp only [Engine.step, Option.ite_none_right_eq_some] at hs
      obtain ⟨hrest, _⟩ := hs
      have hwaits := hj.waits
      unfold waitsAt at hwaits
      cases hr : e.progress with
      | idle | returned answer => simp [hr, Progress.hand] at hwaits
      | _ =>
          rw [hr] at hrest
          cases hrest
  | cancel => exact absurd rfl hc
  | release permits | newLatch jobs => rfl

/-- What has happened elsewhere does not matter. -/
theorem of_queue (hj : e.Jammed d p) (hprogress : next.progress = e.progress)
    (hdriver : next.driver = e.driver) (hp' : next.pools[d.pool]? = some p')
    (hq : p'.queue = p.queue) (hworkers : ∀ (k : Nat) (w : Worker), p'.workers[k]? = some w →
      w.activity.hasEnded = true ∨ w.activity.isStalling = true) : next.Jammed d p' where
  driver := hdriver.trans hj.driver
  pool := hp'
  waits := by
    have hwaits := hj.waits
    unfold waitsAt at hwaits ⊢
    rw [hprogress, hdriver]
    exact hwaits
  full := by
    rw [hq]
    exact hj.full
  workers := hworkers

/-- Whoever acts in the pool goes on stalling, unless an execution comes to its end. -/
theorem goes_on (hj : e.Jammed d p) (h : Reachable b e)
    (hs : e.step b (.act (.worker d.pool k)) = some next) (hp' : next.pools[d.pool]? = some p')
    (hsame : (p'.finished next).length = (p.finished e).length) :
    ∃ job fault, p' = p.setActivity k (.stalled job fault) := by
  have hp := hj.pool
  obtain ⟨q, w, hq, hw, _⟩ := workerStep_move hs
  cases hp.symm.trans hq
  rcases hj.workers k w hw with hended | hstalling
  · exfalso
    cases ha : w.activity with
    | ended panicked =>
        change e.workerStep b d.pool k = some next at hs
        simp [workerStep, hp, hw, ha] at hs
    | _ =>
        rw [ha] at hended
        cases hended
  · obtain ⟨job, hjob, ⟨fault, hpool⟩ | hdone⟩ := step_of_stalling hs hp hw hstalling
    · exact ⟨job, fault, Option.some.inj (hp'.symm.trans hpool)⟩
    · -- One attempt more would have come to its end.
      exfalso
      have hflight := inFlight_of_isStalling hstalling
      have haccepted := (traced_of_reachable h).jobs _ p job hp (.inr ⟨k, w, hw, hjob⟩)
      have hours := (step_origins h hs hp hp').subset (mem_origins.mpr ⟨job, haccepted, rfl⟩)
      have hmem : job.origin ∈ p'.finished next :=
        List.mem_filter.mpr ⟨hours, decide_eq_true hdone⟩
      rw [← (step_finished h hs hp hp').eq_of_length hsame.symm] at hmem
      have hdone := of_decide_eq_true (List.mem_filter.mp hmem).2
      exact not_done_of_inFlight h hp hw hflight hjob hdone

/-- Unless an execution comes to its end, a step of anybody leaves it at that. -/
theorem step (hj : e.Jammed d p) (h : Reachable b e) (hs : e.step b label = some next)
    (hc : label ≠ .cancel) (hp' : next.pools[d.pool]? = some p')
    (hsame : (p'.finished next).length = (p.finished e).length) :
    next.Jammed d p' ∧ next.progress = e.progress ∧ p'.queue = p.queue := by
  have hl : label.ofCaller = false := hj.not_ofCaller h hs hc
  obtain ⟨hprogress, _, hdriver⟩ := step_of_others hs hl
  by_cases hours : ∃ k, label = .act (.worker d.pool k)
  · obtain ⟨k, rfl⟩ := hours
    obtain ⟨job, fault, rfl⟩ := hj.goes_on h hs hp' hsame
    refine ⟨hj.of_queue hprogress hdriver hp' rfl ?_, hprogress, rfl⟩
    intro l w hw
    rw [WorkerPool.getElem?_setActivity] at hw
    split at hw
    · obtain ⟨_, _, rfl⟩ := Option.map_eq_some_iff.mp hw
      exact .inr rfl
    · exact hj.workers l w hw
  · have hpool := step_pools_of_others (i := d.pool) hs hl (fun k hk => hours ⟨k, hk⟩)
    cases hp'.symm.trans (hpool.trans hj.pool)
    exact ⟨hj.of_queue hprogress hdriver hp' rfl hj.workers, hprogress, rfl⟩

theorem run (hj : e.Jammed d p) (h : Reachable b e) (hc : ∀ label ∈ labels, label ≠ .cancel)
    (hr : e.run b labels = some later) (hp' : later.pools[d.pool]? = some p')
    (hsame : (p'.finished later).length = (p.finished e).length) :
    later.Jammed d p' ∧ later.progress = e.progress ∧ p'.queue = p.queue := by
  induction labels generalizing e p with
  | nil =>
      cases hr
      cases hj.pool.symm.trans hp'
      exact ⟨hj, rfl, rfl⟩
  | cons label labels ih =>
      obtain ⟨mid, hs, hr⟩ := run_cons.mp hr
      have hmid := h.step label hs
      obtain ⟨q, hq, _⟩ := (step_views h hs).follows hj.pool
      obtain ⟨q', hq', hrest⟩ := run_finished hmid hr hq
      cases hp'.symm.trans hq'
      have hle := (step_finished h hs hj.pool hq).length_le
      have hle' := hrest.length_le
      obtain ⟨hj', hprogress, hqueue⟩ :=
        hj.step h hs (hc label List.mem_cons_self) hq (by omega)
      obtain ⟨hj'', hprogress', hqueue'⟩ :=
        ih hj' hmid (fun l hl => hc l (List.mem_cons_of_mem _ hl)) hr (by omega)
      exact ⟨hj'', hprogress'.trans hprogress, hqueue'.trans hqueue⟩

end Jammed

end Engine

end LoadBench
