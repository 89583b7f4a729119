import LoadBench.Proofs.ClosedPool
import LoadBench.Proofs.Commute

/-!
What becomes of a pool whose driver is shut down, dropped or replaced. The queue closes in that
step. From then on it accepts nothing, and the workers drain it: each job that it accepted before
is executed once. Jobs are left over only if every worker panicked while there were some, and those
go unexecuted with the last worker.

All of that holds of every run, so it does not matter whether the caller waits for the workers,
gives up, or starts another driver in the meantime.
-/

namespace LoadBench

/-- The answer of a call to shut down a pool whose workers have all ended. -/
inductive WorkerPool.Verdict (p : WorkerPool) : Answer → Prop
  | ok (h : ∀ (k : Nat) (w : Worker), p.workers[k]? = some w → w.activity = .ended false) :
      Verdict p .ok
  /-- The first worker that panicked is named. -/
  | panicked {k : Nat} (hk : p.activity? k = some (.ended true))
      (hmin : ∀ j, j < k → p.activity? j = some (.ended false)) :
      Verdict p (.fault (.workerPanicked k))

namespace Engine

/-- The steps in which the queue of a driver's pool is closed. -/
inductive Closing (e : Engine) : Label → Prop
  | shutdown : Closing e (.call .shutdown)
  | drop : Closing e (.call .drop)
  /-- Another driver takes the place of this one. -/
  | replaced {pool workers : Nat} {split : Bool} {p : WorkerPool}
      (hr : e.progress = .starting pool workers split false) (hp : e.pools[pool]? = some p)
      (hw : p.workers.size = workers) : Closing e (.act .caller)

/-- What is the case at any time after the queue of pool `i` has been closed, which was `before`
until then and is `p` now. -/
structure ShutDown (b : Backend) (before : WorkerPool) (e : Engine) (i : Nat) (p : WorkerPool) :
    Prop where
  closed : p.queue.producing = false
  accepted : p.queue.accepted = before.queue.accepted
  order : p.queue.accepted.toList =
    p.queue.delivered.toList ++ p.queue.buffer ++ p.queue.discarded.toList
  /-- No job is executed twice. -/
  once : ∀ latch index, e.begun.count (.job latch index) ≤ 1
  /-- A worker ends only after it was told that nothing more comes, or by panicking. -/
  stopped : ∀ (k : Nat) (w : Worker), p.workers[k]? = some w → w.activity.isLive = false →
    Stopped b e i k w
  attempted : p.allEnded = true → ∀ job ∈ before.queue.accepted, job ∉ p.queue.discarded →
    e.begun.count job.origin = 1
  unattempted : ∀ job ∈ p.queue.discarded, e.begun.count job.origin = 0
  /-- Jobs are discarded only after every worker has panicked over a job. -/
  discarded : p.queue.discarded ≠ #[] → p.allEnded = true ∧
    ∀ (k : Nat) (w : Worker), p.workers[k]? = some w → Exited b i k true e
  /-- A caller that waits for the workers goes on waiting, gives up, which changes nothing else, or
  is told how they ended, which is only after they all have. -/
  waits : e.progress = .joining i → ∀ label next, e.step b label = some next →
    next.progress = .joining i ∨ label = .cancel ∧ next = e.finish .blocked ∨
      label = .act .caller ∧ p.allEnded = true ∧
        ∃ answer, p.Verdict answer ∧ next.progress = .returned answer
  returns : e.progress = .joining i → p.allEnded = true →
    ∃ next, e.step b (.act .caller) = some next

variable {b : Backend} {e next closed later : Engine} {d : Driver} {label : Label}
  {labels : List Label} {i : Nat} {p : WorkerPool} {job : Job}

section Jobs

/-- No job is executed twice. -/
theorem begun_le_one (h : Reachable b e) (latch index : Nat) :
    e.begun.count (.job latch index) ≤ 1 := by
  have hflow := (sound_of_reachable h).flow (.job latch index)
  have hone := number_accepted_le_one h (.job latch index)
  have haccepted := hflow.accepted
  have hdelivered := hflow.delivered
  rw [count_begun]
  omega

/-- A job that went with the last worker was not executed. -/
theorem begun_of_discarded (h : Reachable b e) (hp : e.pools[i]? = some p)
    (hjob : job ∈ p.queue.discarded) : e.begun.count job.origin = 0 := by
  have hflow := (sound_of_reachable h).flow job.origin
  have hone := number_accepted_le_one h job.origin
  have haccepted := hflow.accepted
  have hdelivered := hflow.delivered
  have hdiscarded : 0 < e.ledger.number job.origin .discarded := by
    rw [← count_discarded, List.count_pos_iff]
    apply List.mem_flatMap.mpr
    refine ⟨p, Array.mem_toList_iff.mpr (Array.mem_of_getElem? hp), ?_⟩
    exact List.mem_map_of_mem (Array.mem_toList_iff.mpr hjob)
  rw [Job.origin, count_begun]
  rw [Job.origin] at *
  omega

/-- A job that was taken from the queue, and that no worker has, was executed. -/
theorem begun_of_delivered (h : Reachable b e) (hp : e.pools[i]? = some p)
    (hjob : job ∈ p.queue.delivered)
    (hheld : ∀ (k : Nat) (w : Worker), p.workers[k]? = some w → w.activity.job? ≠ some job) :
    e.begun.count job.origin = 1 := by
  have hnone : inHands (e.ledger.number job.origin) = 0 := by
    rw [← count_held, List.count_eq_zero]
    intro hmem
    obtain ⟨k, w, hw, hj⟩ :=
      exists_worker_of_held h hp (mem_accepted_of_delivered h hp hjob) hmem
    exact hheld k w hw hj
  have hpos := number_delivered_pos hp hjob
  have hflow := (sound_of_reachable h).flow job.origin
  have hone := number_accepted_le_one h job.origin
  have haccepted := hflow.accepted
  have hdelivered := hflow.delivered
  unfold inHands at hnone
  rw [Job.origin, count_begun]
  rw [Job.origin] at *
  omega

end Jobs

section Ends

/-- What a caller is told that waits until all workers have ended. -/
theorem verdict_of_allEnded (h : p.allEnded = true) : p.Verdict
    (match p.firstPanicked with
    | some k => .fault (.workerPanicked k)
    | none => .ok) := by
  have hended {k : Nat} {w : Worker} (hw : p.workers[k]? = some w)
      (hne : ¬ (w.activity == .ended true) = true) : w.activity = .ended false := by
    obtain ⟨panicked, ha⟩ := p.ended_of_allEnded h hw
    cases panicked with
    | false => exact ha
    | true =>
        rw [ha] at hne
        exact absurd rfl hne
  split
  · next k hk =>
    obtain ⟨hlt, hk, hmin⟩ := Array.findIdx?_eq_some_iff_getElem.mp hk
    have hget := Array.getElem?_eq_getElem hlt
    apply WorkerPool.Verdict.panicked
    · rw [WorkerPool.activity?, hget]
      exact congrArg some (beq_iff_eq.mp hk)
    · intro j hj
      have hjlt := hj.trans hlt
      have hget := Array.getElem?_eq_getElem hjlt
      rw [WorkerPool.activity?, hget]
      exact congrArg some (hended hget (hmin j hj))
  · next hnone =>
    apply WorkerPool.Verdict.ok
    intro k w hw
    apply hended hw
    have hall := Array.findIdx?_eq_none_iff.mp hnone w (Array.mem_of_getElem? hw)
    rw [hall]
    exact Bool.false_ne_true

end Ends

section Close

theorem pools_closeDirect : (e.closeDirect b d).2.pools = e.pools := by
  unfold closeDirect
  split
  · rfl
  · rfl

theorem pools_dropDriver : (e.dropDriver b d).2.pools = e.pools.modify d.pool .close :=
  pools_closeDirect

theorem pools_beginShutdown : (e.beginShutdown b d).pools = e.pools.modify d.pool .close := by
  have hpools := pools_closeDirect (b := b) (e := { e with driver := none }) (d := d)
  unfold beginShutdown
  simp only
  split
  · exact congrArg (·.modify d.pool .close) hpools
  · exact congrArg (·.modify d.pool .close) hpools

theorem Closing.pool (hc : Closing e label) (h : Reachable b e) (hd : e.driver = some d)
    (hp : e.pools[d.pool]? = some p) (hs : e.step b label = some closed) :
    closed.pools[d.pool]? = some p.close := by
  have hmodify {pools : Array WorkerPool} (hpools : pools[d.pool]? = some p) :
      (pools.modify d.pool .close)[d.pool]? = some p.close := by
    rw [Array.getElem?_modify, if_pos rfl, hpools]
    rfl
  cases hc with
  | shutdown =>
      simp only [Engine.step, Option.ite_none_right_eq_some, Option.some.injEq, begin, hd] at hs
      rw [← hs.2, pools_beginShutdown]
      exact hmodify hp
  | drop =>
      simp only [Engine.step, Option.ite_none_right_eq_some, Option.some.injEq, begin, hd] at hs
      rw [← hs.2]
      change (dropDriver b { e with driver := none } d).2.pools[d.pool]? = _
      rw [pools_dropDriver]
      exact hmodify hp
  | @replaced pool workers split q hr hq hw =>
      have hne := ((housed_of_reachable h).opening pool (by rw [hr]; rfl)).2 d hd
      have hstart : e.callerStep b = some (e.completeStart b pool q split) := by
        simp [callerStep, hr, startStep, hq, hw]
      cases hstart.symm.trans hs
      simp only [completeStart, tell, setPool, hd]
      change (dropDriver b _ d).2.pools[d.pool]? = _
      rw [pools_dropDriver]
      apply hmodify
      exact (getElem?_set_ne (Ne.symm hne) _).trans hp

/-- The caller of a shutdown waits for the workers, unless closing the driver's own connection
makes it panic. -/
theorem joining_of_shutdown (hd : e.driver = some d) (hpanic : d.direct.bind b.closePanic = none)
    (hs : e.step b (.call .shutdown) = some closed) : closed.progress = .joining d.pool := by
  have hmessage : (closeDirect b { e with driver := none } d).1 = none := by
    rw [← hpanic]
    unfold closeDirect
    cases d.direct with
    | none => rfl
    | some conn => rfl
  simp only [Engine.step, Option.ite_none_right_eq_some, Option.some.injEq, begin, hd] at hs
  rw [← hs.2]
  unfold beginShutdown
  simp only [hmessage]

end Close

section Wait

/-- A step of a caller that waits for the workers of a pool, or of somebody who gives it up. -/
theorem own_step_of_joining (hr : e.progress = .joining i) (hp : e.pools[i]? = some p)
    (hl : label.ofCaller = true) (hs : e.step b label = some next) :
    label = .cancel ∧ next = e.finish .blocked ∨
      label = .act .caller ∧ p.allEnded = true ∧
        ∃ answer, p.Verdict answer ∧ next = (e.tell .shutDown).finish answer := by
  cases label with
  | act actor =>
      cases actor with
      | caller =>
          have hjoin : e.joinStep i = some next := by
            simpa [Engine.step, advance, callerStep, hr] using hs
          unfold joinStep at hjoin
          simp only [hp, Option.bind_eq_bind, Option.bind_some, Option.ite_none_right_eq_some,
            Option.pure_def, Option.some.injEq] at hjoin
          obtain ⟨hall, rfl⟩ := hjoin
          exact .inr ⟨rfl, hall, _, verdict_of_allEnded hall, rfl⟩
      | worker j k => cases hl
  | call request => simp [Engine.step, hr, Progress.atRest] at hs
  | cancel =>
      have hcancel : e.step b .cancel = some (e.finish .blocked) := by
        simp [Engine.step, cancel, hr]
      cases hcancel.symm.trans hs
      exact .inl ⟨rfl, rfl⟩
  | release permits | newLatch jobs => cases hl

/-- A step while the caller waits for the workers of a pool. -/
theorem step_of_joining (hr : e.progress = .joining i) (hp : e.pools[i]? = some p)
    (hs : e.step b label = some next) :
    next.progress = .joining i ∨ label = .cancel ∧ next = e.finish .blocked ∨
      label = .act .caller ∧ p.allEnded = true ∧
        ∃ answer, p.Verdict answer ∧ next.progress = .returned answer := by
  cases hl : label.ofCaller with
  | false => exact .inl ((step_of_others hs hl).1.trans hr)
  | true =>
      rcases own_step_of_joining hr hp hl hs with
        hleft | ⟨hlabel, hall, answer, hverdict, rfl⟩
      · exact .inr (.inl hleft)
      · exact .inr (.inr ⟨hlabel, hall, answer, hverdict, rfl⟩)

theorem exists_step_of_joining (hr : e.progress = .joining i) (hp : e.pools[i]? = some p)
    (hall : p.allEnded = true) : ∃ next, e.step b (.act .caller) = some next := by
  simp [Engine.step, advance, callerStep, hr, joinStep, hp, hall]

end Wait

/-- What a closed queue keeps and what becomes of its jobs. -/
theorem shutDown_of_closed (h : Reachable b e) (hp : e.pools[i]? = some p) {before : WorkerPool}
    (hclosed : p.queue.producing = false) (haccepted : p.queue.accepted = before.queue.accepted) :
    ShutDown b before e i p := by
  have horder := (orderly_of_pool h hp).order
  have hopens : e.opens i = false := by
    rw [← Bool.not_eq_true]
    intro ho
    obtain ⟨⟨q, hq, hproducing⟩, _⟩ := (housed_of_reachable h).opening i (beq_iff_eq.mp ho)
    cases hp.symm.trans hq
    rw [hclosed] at hproducing
    cases hproducing
  have hended := allEnded_iff_closed h hp hopens
  have hspoilt (hne : p.queue.discarded ≠ #[]) : p.allEnded = true := by
    rw [hended, ← Bool.not_eq_false]
    exact fun hopen => hne (horder.kept hopen)
  constructor
  · exact hclosed
  · exact haccepted
  · exact horder.order
  · exact begun_le_one h
  · intro k w hw hl
    exact stopped_of_reachable h (worker?_eq_some.mpr ⟨p, hp, hw⟩) hl
  · intro hall job hjob hkept
    apply begun_of_delivered h hp
    · rw [← haccepted, ← Array.mem_toList_iff, horder.order, horder.gone (hended.mp hall)] at hjob
      simpa [hkept] using hjob
    · intro k w hw hj
      obtain ⟨panicked, ha⟩ := p.ended_of_allEnded hall hw
      rw [ha] at hj
      cases hj
  · intro job hjob
    exact begun_of_discarded h hp hjob
  · intro hne
    refine ⟨hspoilt hne, ?_⟩
    intro k w hw
    obtain ⟨panicked, ha⟩ := p.ended_of_allEnded (hspoilt hne) hw
    -- Had it exited because the queue had ended, there would have been nothing to discard.
    cases stopped_of_reachable h (worker?_eq_some.mpr ⟨p, hp, hw⟩) (by rw [ha]; rfl) with
    | leaving hx hleaving =>
        rw [ha] at hleaving
        cases hleaving
    | @ended panicked hx _ =>
        cases panicked with
        | true => exact hx
        | false =>
            obtain ⟨q, hq, _, hnone⟩ := hx.drained
            cases hp.symm.trans hq
            exact absurd hnone hne
  · intro hr label next hs
    exact step_of_joining hr hp hs
  · intro hr hall
    exact exists_step_of_joining hr hp hall

/-- Once a driver has been shut down, dropped or replaced, its queue is drained: every job that was
accepted is executed once, unless all workers panic before the queue is empty. -/
theorem shutdown_drains (h : Reachable b e) (hd : e.driver = some d)
    (hp : e.pools[d.pool]? = some p) (hc : Closing e label) (hs : e.step b label = some closed)
    (hr : closed.run b labels = some later) :
    (label = .call .shutdown → d.direct.bind b.closePanic = none →
      closed.progress = .joining d.pool) ∧
    ∃ p', later.pools[d.pool]? = some p' ∧ ShutDown b p later d.pool p' := by
  constructor
  · rintro rfl hpanic
    exact joining_of_shutdown hd hpanic hs
  · have hreachable := h.step label hs
    obtain ⟨p', hp', hclosed, haccepted⟩ := run_pool
      (P := fun q => q.queue.producing = false ∧ q.queue.accepted = p.queue.accepted)
      (fun v v' hstep hv => ⟨(hstep.shut hv.1).1, (hstep.shut hv.1).2.trans hv.2⟩)
      hreachable hr (hc.pool h hd hp hs) ⟨rfl, rfl⟩
    exact ⟨p', hp', shutDown_of_closed (hreachable.run hr) hp' hclosed haccepted⟩

/-- The only worker panics over the first of two jobs, and the second one is discarded. -/
theorem shutdown_drains_of_panic : ∃ (e closed later : Engine) (d : Driver) (p p' : WorkerPool),
    Reachable (.always (.panicAtOnce "")) e ∧ e.driver = some d ∧ e.pools[d.pool]? = some p ∧
      p.queue.buffer.length = 2 ∧
      e.step (.always (.panicAtOnce "")) (.call .shutdown) = some closed ∧
      Engine.run (.always (.panicAtOnce "")) closed (.replicate 4 (.act (.worker 0 0))) =
        some later ∧
      later.pools[d.pool]? = some p' ∧ p'.queue.discarded.size = 1 ∧
      ShutDown (.always (.panicAtOnce "")) p later d.pool p' := by
  have hruns : ((Engine.run (.always (.panicAtOnce "")) {} [.newLatch 2,
      .call (.start 1 2 false), .act .caller, .act .caller,
      .call (.submit (.ofName "ping") 0 2), .act .caller, .act .caller, .act .caller]).bind
        fun e => e.driver.bind fun d => e.pools[d.pool]?.bind fun p =>
          (e.step (.always (.panicAtOnce "")) (.call .shutdown)).bind fun closed =>
            (Engine.run (.always (.panicAtOnce "")) closed
              (.replicate 4 (.act (.worker 0 0)))).bind fun later =>
                later.pools[d.pool]?.map fun p' =>
                  (p.queue.buffer.length, p'.queue.discarded.size)) = some (2, 1) := by
    decide +kernel
  simp only [Option.bind_eq_some_iff, Option.map_eq_some_iff, Prod.mk.injEq] at hruns
  obtain ⟨e, he, d, hd, p, hp, closed, hs, later, hr, p', hp', hbuffer, hsize⟩ := hruns
  have hreachable : Reachable (.always (.panicAtOnce "")) e := Reachable.start.run he
  obtain ⟨_, q, hq, hdown⟩ := shutdown_drains hreachable hd hp .shutdown hs hr
  cases hp'.symm.trans hq
  exact ⟨e, closed, later, d, p, p', hreachable, hd, hp, hbuffer, hs, hr, hp', hsize, hdown⟩

end Engine

end LoadBench
