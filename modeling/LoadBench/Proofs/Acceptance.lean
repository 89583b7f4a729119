import LoadBench.Proofs.PooledPhase

/-!
Which jobs a queue accepts. A step makes one queue accept one job, of the latch that the call is
busy with, or it makes none accept anything. So a pooled phase fills the queue of its driver in the
order of its indices, and nothing is accepted for its latch once its call goes on or returns.
-/

namespace LoadBench

/-- The jobs of one latch that the queue of a pool accepted, oldest first. -/
def WorkerPool.acceptedFor (p : WorkerPool) (latch : Nat) : List Job :=
  p.queue.accepted.toList.filter (·.latch = latch)

/-- A job by its index and its command. -/
def Job.numbered (job : Job) : Nat × Except String Command := (job.index, .ok job.command)

/-- What a phase generates for an index, with the index. -/
def Phase.numbered (phase : Phase) (index : Nat) : Nat × Except String Command :=
  (index, phase.generate index)

/-- The latch whose jobs a call offers. -/
def Progress.latch? : Progress → Option Nat
  | .entering _ _ entry _ _ => entry.point.latch?
  | .running run _ _ => run.point.latch?
  | .submitting s => some s.latch
  | _ => none

/-- How many submits of a pooled phase have completed. -/
def Progress.submitted : Progress → Option Nat
  | .entering _ _ (.pooled _) _ _ => some 0
  | .running { point := .generating _ index, .. } _ _
  | .running { point := .offering _ index _, .. } _ _
  | .running { point := .waiting _ index _, .. } _ _ => some index
  | .running { phase, point := .awaiting _, .. } _ _ => some phase.iterations
  | _ => none

theorem WorkerPool.mem_acceptedFor {p : WorkerPool} {latch : Nat} {job : Job} :
    job ∈ p.acceptedFor latch ↔ job ∈ p.queue.accepted ∧ job.latch = latch := by
  simp [acceptedFor]

theorem Progress.latch?_of_plain {progress : Progress} (h : progress.plain = true) :
    progress.latch? = none := by
  cases progress with
  | entering phase executed entry todo reports =>
      cases entry with
      | pooled latch => cases h
      | _ => rfl
  | running run todo reports =>
      obtain ⟨phase, before, point⟩ := run
      cases point with
      | generating | offering | waiting | awaiting => cases h
      | _ => rfl
  | submitting s => cases h
  | _ => rfl

theorem Progress.submitted_of_plain {progress : Progress} (h : progress.plain = true) :
    progress.submitted = none := by
  cases progress with
  | entering phase executed entry todo reports =>
      cases entry with
      | pooled latch => cases h
      | _ => rfl
  | running run todo reports =>
      obtain ⟨phase, before, point⟩ := run
      cases point with
      | generating | offering | waiting | awaiting => cases h
      | _ => rfl
  | _ => rfl

theorem Progress.latch?_accepted (progress : Progress) :
    progress.accepted.latch? = progress.latch? := by
  cases progress with
  | running run todo reports =>
      obtain ⟨phase, before, point⟩ := run
      cases point <;> rfl
  | _ => rfl

theorem Progress.latch?_parked (progress : Progress) :
    progress.parked.latch? = progress.latch? := by
  cases progress with
  | running run todo reports =>
      obtain ⟨phase, before, point⟩ := run
      cases point <;> rfl
  | _ => rfl

/-- The job that a call offers is one of the latch that it is busy with. -/
theorem Progress.Fits.hand {batches : Array Batch} {progress : Progress} {job : Job} {waits : Bool}
    (h : progress.Fits batches) (hh : progress.hand = some (job, waits)) :
    progress.latch? = some job.latch := by
  cases progress with
  | running run todo reports =>
      obtain ⟨phase, before, point⟩ := run
      cases point with
      | offering latch index job' | waiting latch index job' =>
          obtain ⟨_, _, hlatch, _⟩ := h
          cases hh
          rw [hlatch]
          rfl
      | _ => cases hh
  | submitting s =>
      obtain ⟨_, _, _, hwaiting⟩ := h
      obtain ⟨job', hjob, hx⟩ := Option.map_eq_some_iff.mp hh
      cases hx
      rw [hwaiting job hjob]
      rfl
  | _ => cases hh

/-- Another submit has completed once the job of a phase is in the queue. -/
theorem Progress.submitted_accepted {batches : Array Batch} {progress : Progress} {job : Job}
    {waits : Bool} (h : progress.Fits batches) (hh : progress.hand = some (job, waits)) {k : Nat}
    (hk : progress.submitted = some k) :
    progress.accepted.submitted = some (k + 1) ∧ job.index = k := by
  cases progress with
  | running run todo reports =>
      obtain ⟨phase, before, point⟩ := run
      cases point with
      | offering latch index job' | waiting latch index job' =>
          obtain ⟨_, _, _, hindex, _⟩ := h
          cases hh
          cases hk
          exact ⟨rfl, hindex⟩
      | _ => cases hh
  | submitting s => cases hk
  | _ => cases hh

theorem Progress.submitted_parked {progress : Progress} {job : Job}
    (hh : progress.hand = some (job, false)) : progress.parked.submitted = progress.submitted := by
  cases progress with
  | running run todo reports =>
      obtain ⟨phase, before, point⟩ := run
      cases point <;> rfl
  | submitting s => rfl
  | _ => cases hh

/-- No queue has accepted anything. -/
def SameAccepted (old new : Array WorkerPool) : Prop :=
  ∀ (i : Nat) (p p' : WorkerPool), old[i]? = some p → new[i]? = some p' →
    p'.queue.accepted = p.queue.accepted

namespace SameAccepted

theorem refl (pools : Array WorkerPool) : SameAccepted pools pools := by
  intro i p p' hp hp'
  rw [hp] at hp'
  cases hp'
  rfl

theorem set {pools : Array WorkerPool} {j : Nat} {p p' : WorkerPool} (hj : pools[j]? = some p)
    (h : p'.queue.accepted = p.queue.accepted) : SameAccepted pools (pools.set! j p') := by
  intro i q q' hq hq'
  rcases getElem?_set_cases hq' with ⟨rfl, rfl⟩ | ⟨_, hold⟩
  · rw [hj] at hq
    cases hq
    exact h
  · exact refl pools i q q' hq hold

theorem modify {pools : Array WorkerPool} {j : Nat} {f : WorkerPool → WorkerPool}
    (hf : ∀ p, (f p).queue.accepted = p.queue.accepted) :
    SameAccepted pools (pools.modify j f) := by
  intro i p p' hp hp'
  rw [Array.getElem?_modify, hp] at hp'
  split at hp'
  · cases hp'
    exact hf p
  · cases hp'
    rfl

theorem push (pools : Array WorkerPool) (p : WorkerPool) : SameAccepted pools (pools.push p) := by
  intro i q q' hq hq'
  rw [getElem?_push_of_some hq] at hq'
  cases hq'
  rfl

theorem trans {pools pools' pools'' : Array WorkerPool} (h : SameAccepted pools pools')
    (h' : SameAccepted pools' pools'') (hsize : pools'.size = pools.size) :
    SameAccepted pools pools'' := by
  intro i p p'' hp hp''
  obtain ⟨hlt, _⟩ := Array.getElem?_eq_some_iff.mp hp
  have hp' := Array.getElem?_eq_getElem (hsize ▸ hlt)
  exact (h' i _ p'' hp' hp'').trans (h i p _ hp hp')

theorem closeDriven (pools : Array WorkerPool) (d : Option Driver) :
    SameAccepted pools (Engine.closeDriven pools d) := by
  cases d with
  | none => exact refl pools
  | some d => exact modify fun p => rfl

theorem withdrawDriven (pools : Array WorkerPool) (d : Option Driver) :
    SameAccepted pools (Engine.withdrawDriven pools d) := by
  cases d with
  | none => exact refl pools
  | some d => exact modify fun p => rfl

end SameAccepted

namespace Engine

/-- What a step makes the queues accept: nothing, or one job of the latch that the call is busy
with, by the queue of the driver. -/
inductive Accepting (e next : Engine) : Prop
  | nothing (hsame : SameAccepted e.pools next.pools)
      (hcount : ∀ k k', e.progress.submitted = some k → next.progress.submitted = some k' → k' = k)
  | one {d : Driver} {p p' : WorkerPool} {job : Job} (hd : e.driver = some d)
      (hp : e.pools[d.pool]? = some p) (hpools : next.pools = e.pools.set! d.pool p')
      (hpush : p'.queue.accepted = p.queue.accepted.push job)
      (hl : e.progress.latch? = some job.latch)
      (hcount : ∀ k, e.progress.submitted = some k →
        next.progress.submitted = some (k + 1) ∧ job.index = k)

variable {b : Backend} {e next start : Engine} {d : Driver} {p : WorkerPool} {phase : Phase}
  {todo : List Phase} {reports : List PhaseCount} {latch : Nat}

theorem CallerMove.accepting (h : CallerMove e next) (hf : e.Fitting) : Accepting e next := by
  have hrest {progress : Progress} (hr : progress.atRest = true) : progress.submitted = none := by
    cases progress with
    | idle | returned answer => rfl
    | _ => cases hr
  have hqueue {d : Driver} {p : WorkerPool} {queue : JobQueue Job Unit Nat}
      (hp : e.pools[d.pool]? = some p) (hq : queue.accepted = p.queue.accepted) :
      SameAccepted e.pools (e.pools.set! d.pool { p with queue }) := .set hp hq
  cases h with
  | quiet h =>
      refine .nothing ?_ fun k k' _ hk' => ?_
      · rcases h.pools with hsame | ⟨pool, hdialed⟩
        · rw [hsame]
          exact .refl _
        · rw [hdialed]
          exact .modify fun p => rfl
      · rw [Progress.submitted_of_plain h.after] at hk'
        cases hk'
  | undertakes hr hl command left => exact .nothing (.refl _) nofun
  | opens hr hw hc split => exact .nothing (.push _ _) nofun
  | spawns hr hp he conn => exact .nothing (.set hp rfl) nofun
  | abandons hr he answer =>
      exact .nothing (.modify fun p => JobQueue.accepted_dropReceiver) nofun
  | @starts pool workers split p events hr hp hw he answer =>
      refine .nothing (.trans (.set hp ?_) (.closeDriven _ _) ?_) nofun
      · exact JobQueue.accepted_dropReceiver
      · exact Array.size_setIfInBounds
  | closes hd hr he hp =>
      refine .nothing (.closeDriven _ _) fun k k' hk _ => ?_
      rw [hrest hr] at hk
      cases hk
  | countsDirect hd hr | talliesDirect hd hr | countsDirectFailure hd hr =>
      exact .nothing (.refl _) nofun
  | beginsPhase hd hr hm =>
      refine .nothing (.refl _) fun k k' hk _ => ?_
      rw [hr] at hk
      cases hk
  | @entersPhase d phase executed entry todo reports hd hr =>
      refine .nothing (.refl _) fun k k' hk hk' => ?_
      rw [hr] at hk
      cases entry with
      | pooled latch =>
          cases hk
          cases hk'
          rfl
      | _ => cases hk
  | generates hr hm hi hg =>
      refine .nothing (.refl _) fun k k' hk hk' => ?_
      rw [hr] at hk
      cases hk
      cases hk'
      rfl
  | @awaits phase before latch index todo reports hr hm hi =>
      refine .nothing (.refl _) fun k k' hk hk' => ?_
      have hfits := hf.progress
      rw [hr] at hk hfits
      cases hk
      cases hk'
      exact Nat.le_antisymm hi hfits.1
  | returns hr hm hl => exact .nothing (.refl _) nofun
  | @accepts d p job waits queue hd hp hh hq =>
      obtain ⟨slots, rfl⟩ := JobQueue.items_enter_taken hq
      refine .one hd hp rfl rfl (hf.progress.hand hh) fun k hk => ?_
      exact Progress.submitted_accepted hf.progress hh hk
  | parks hd hp hh hq =>
      obtain ⟨_, _, _, rfl⟩ := JobQueue.offer_parked hq
      refine .nothing (hqueue hp rfl) fun k k' hk hk' => ?_
      change e.progress.parked.submitted = some k' at hk'
      rw [Progress.submitted_parked hh, hk] at hk'
      exact (Option.some.inj hk').symm
  | drops hd hp hh hq answer =>
      have haccepted := JobQueue.accepted_of_items (JobQueue.items_enter_refused hq)
      exact .nothing (hqueue hp haccepted) nofun
  | forgets hh answer => exact .nothing (.refl _) nofun
  | withdraws hh answer => exact .nothing (.withdrawDriven _ _) nofun
  | submits hd hp hr hw hl hq =>
      obtain ⟨_, _, n, _, rfl⟩ := JobQueue.offer_taken hq
      refine .one hd hp rfl rfl (by rw [hr]; rfl) fun k hk => ?_
      rw [hr] at hk
      cases hk
  | submitsParked hd hp hr hw hl hq =>
      obtain ⟨_, _, _, rfl⟩ := JobQueue.offer_parked hq
      exact .nothing (hqueue hp rfl) nofun
  | submitsDropped hd hp hr hw hl hq answer =>
      obtain ⟨_, rfl⟩ := JobQueue.offer_refused hq
      exact .nothing (hqueue hp rfl) nofun

theorem Move.accepting {label : Label} (h : Move b e label next) (hf : e.Fitting) :
    Accepting e next := by
  have hidle (hp : next.progress = e.progress) (k k' : Nat) (hk : e.progress.submitted = some k)
      (hk' : next.progress.submitted = some k') : k' = k := by
    rw [hp, hk] at hk'
    exact (Option.some.inj hk').symm
  cases h with
  | stay permits => exact .nothing (.refl _) (hidle rfl)
  | latch size => exact .nothing (.refl _) (hidle rfl)
  | worker hp hw h =>
      exact .nothing (fun i q q' hq hq' => h.accepted hp hq hq') (hidle h.progress)
  | caller _ h => exact h.accepting hf

theorem step_accepting {label : Label} (h : Reachable b e) (hs : e.step b label = some next) :
    Accepting e next := by
  cases (step_move hs).accepting (fitting_of_reachable h).bare with
  | nothing hsame hcount => exact .nothing hsame hcount
  | one hd hp hpools hpush hl hcount => exact .one hd hp hpools hpush hl hcount

/-- A call becomes busy only with a latch of its own or with one that is not a phase's. -/
theorem CallerMove.latch? (h : CallerMove e next) (hl : next.progress.latch? = some latch) :
    e.progress.latch? = some latch ∨ latch = e.batches.size ∨ e.isShared latch = true := by
  cases h with
  | quiet h =>
      rw [Progress.latch?_of_plain h.after] at hl
      cases hl
  | undertakes hr hl' command left =>
      cases hl
      exact .inr (.inr hl')
  | opens hr hw hc split => cases hl
  | closes hd hr he hp => rcases hp with ⟨answer, rfl⟩ | rfl <;> cases hl
  | beginsPhase hd hr hm =>
      cases hl
      exact .inr (.inl rfl)
  | entersPhase hd hr =>
      rw [hr]
      exact .inl hl
  | generates hr hm hi hg | awaits hr hm hi =>
      rw [hr]
      exact .inl hl
  | accepts hd hp hh hq => exact .inl ((Progress.latch?_accepted _).symm.trans hl)
  | parks hd hp hh hq => exact .inl ((Progress.latch?_parked _).symm.trans hl)
  | submits hd hp hr hw hl' hq | submitsParked hd hp hr hw hl' hq =>
      rw [hr]
      exact .inl hl
  | _ => cases hl

/-- A latch that was made by a phase and that no call is busy with any longer. -/
structure Retired (e : Engine) (latch : Nat) : Prop where
  owned : ∃ batch : Batch, e.batches[latch]? = some batch ∧ batch.owned = true
  idle : e.progress.latch? ≠ some latch

theorem Retired.step {label : Label} (hr : e.Retired latch) (h : Reachable b e)
    (hs : e.step b label = some next) : next.Retired latch := by
  obtain ⟨batch, hb, howned⟩ := hr.owned
  obtain ⟨batch', hb', howned', _⟩ := (step_move hs).batch (fitting_of_reachable h).bare hb
  refine ⟨⟨batch', hb', howned'.trans howned⟩, fun hl => hr.idle ?_⟩
  have hm := step_move hs
  change next.bare.progress.latch? = some latch at hl
  change e.bare.progress.latch? = some latch
  generalize next.bare = after at hm hl
  cases hm with
  | stay permits => exact hl
  | latch size => exact hl
  | worker hp hw h => rwa [h.progress] at hl
  | caller _ h =>
      obtain ⟨hlt, _⟩ := Array.getElem?_eq_some_iff.mp hb
      rcases h.latch? hl with hbusy | hnew | hshared
      · exact hbusy
      · exact absurd hnew hlt.ne
      · change e.isShared latch = true at hshared
        rw [isShared, hb, Option.any_some, howned] at hshared
        cases hshared

/-- How many of the jobs of a phase its driver's queue has accepted: those of the first `k`
indices, in order. No other queue has accepted any. -/
def Filed (e : Engine) (i latch : Nat) (phase : Phase) (k : Nat) : Prop :=
  ∀ (j : Nat) (p : WorkerPool), e.pools[j]? = some p →
    (p.acceptedFor latch).map Job.numbered =
      if j = i then (List.range k).map phase.numbered else []

theorem acceptedFor_congr {p p' : WorkerPool} (h : p'.queue.accepted = p.queue.accepted)
    (latch : Nat) : p'.acceptedFor latch = p.acceptedFor latch := by
  rw [WorkerPool.acceptedFor, h, WorkerPool.acceptedFor]

theorem acceptedFor_push {p p' : WorkerPool} {job : Job}
    (h : p'.queue.accepted = p.queue.accepted.push job) (latch : Nat) :
    p'.acceptedFor latch = p.acceptedFor latch ++ if job.latch = latch then [job] else [] := by
  rw [WorkerPool.acceptedFor, h, Array.toList_push, List.filter_append]
  by_cases hl : job.latch = latch <;> simp [WorkerPool.acceptedFor, hl]

/-- A pool that was just made has accepted nothing. -/
theorem Filed.of_old {i k : Nat} (hv : Views e next) (hi : ∃ p, e.pools[i]? = some p)
    (h : ∀ (j : Nat) (p p' : WorkerPool), e.pools[j]? = some p → next.pools[j]? = some p' →
      (p'.acceptedFor latch).map Job.numbered =
        if j = i then (List.range k).map phase.numbered else []) :
    next.Filed i latch phase k := by
  intro j p' hp'
  rcases hp : e.pools[j]? with _ | p
  · obtain ⟨_, ⟨capacity, _, hfresh⟩, _⟩ :=
      hv.fresh j _ (view?_eq_none.mpr hp) (view?_eq_some.mpr ⟨p', hp', rfl⟩)
    obtain rfl : p' = { queue := JobQueue.ofCapacity capacity, tally := e.tallies.size } :=
      congrArg PoolView.pool hfresh
    have hne : j ≠ i := by
      rintro rfl
      obtain ⟨p, hp'⟩ := hi
      rw [hp] at hp'
      cases hp'
    rw [if_neg hne]
    rfl
  · exact h j p p' hp hp'

theorem Filed.of_same {label : Label} {i k : Nat} (hfiled : e.Filed i latch phase k)
    (hi : ∃ p, e.pools[i]? = some p) (h : Reachable b e) (hs : e.step b label = some next)
    (hsame : SameAccepted e.pools next.pools) : next.Filed i latch phase k := by
  refine .of_old (step_views h hs) hi fun j p p' hp hp' => ?_
  rw [acceptedFor_congr (hsame j p p' hp hp')]
  exact hfiled j p hp

/-- Nothing more is accepted for a latch that is not in use any longer. -/
theorem Filed.retired {label : Label} {i k : Nat} (hfiled : e.Filed i latch phase k)
    (hi : ∃ p, e.pools[i]? = some p) (hr : e.Retired latch) (h : Reachable b e)
    (hs : e.step b label = some next) : next.Filed i latch phase k := by
  cases step_accepting h hs with
  | nothing hsame hcount => exact hfiled.of_same hi h hs hsame
  | @one d q q' job hd hq hpools hpush hl hcount =>
      refine .of_old (step_views h hs) hi fun j p p' hp hp' => ?_
      rw [hpools] at hp'
      rcases getElem?_set_cases hp' with ⟨rfl, rfl⟩ | ⟨_, hold⟩
      · have hne : job.latch ≠ latch := by
          rintro rfl
          exact hr.idle hl
        cases hq.symm.trans hp
        rw [acceptedFor_push hpush, if_neg hne, List.append_nil]
        exact hfiled d.pool _ hp
      · cases hp.symm.trans hold
        exact hfiled j p hp

theorem Filed.run {labels : List Label} {i k : Nat} (hfiled : e.Filed i latch phase k)
    (hi : ∃ p, e.pools[i]? = some p) (hr : e.Retired latch) (h : Reachable b e)
    (hrun : e.run b labels = some next) : next.Filed i latch phase k ∧ next.Retired latch := by
  induction labels generalizing e with
  | nil =>
      cases hrun
      exact ⟨hfiled, hr⟩
  | cons label labels ih =>
      obtain ⟨mid, hs, hrun⟩ := run_cons.mp hrun
      obtain ⟨p, hp⟩ := hi
      obtain ⟨p', hp', _⟩ := (step_views h hs).follows hp
      exact ih (hfiled.retired ⟨p, hp⟩ hr h hs) ⟨p', hp'⟩ (hr.step h hs) (h.step label hs) hrun

/-- Nothing was accepted for a latch before it was made. -/
theorem acceptedFor_of_unmade (h : Reachable b e) (hl : e.batches.size ≤ latch) {i : Nat}
    (hp : e.pools[i]? = some p) : p.acceptedFor latch = [] := by
  rw [List.eq_nil_iff_forall_not_mem]
  intro job hmem
  obtain ⟨hjob, hlatch⟩ := WorkerPool.mem_acceptedFor.mp hmem
  have hlt := latch_lt_of_accepted h hp hjob
  omega

theorem Ready.filed (hready : Ready b start d p phase todo reports)
    (hs : start.step b (.act .caller) = some e) :
    e.Filed d.pool start.batches.size phase 0 ∧ e.progress.submitted = some 0 := by
  obtain rfl := hready.begun hs
  refine ⟨fun j q hq => ?_, ?_⟩
  · rw [pools_beginPhase] at hq
    rw [acceptedFor_of_unmade hready.reachable (Nat.le_refl _) hq]
    split <;> rfl
  · rw [beginPhase_of_pooled hready.pooled]
    rfl

/-- A call that is busy with a latch during a pooled phase is busy with the phase's. -/
theorem Going.latch? (h : Going start d phase todo reports e)
    (hl : e.progress.latch? = some latch) :
    latch = start.batches.size ∧ ∃ k, e.progress.submitted = some k := by
  cases h.call with
  | entering hp =>
      rw [hp] at hl ⊢
      exact ⟨(Option.some.inj hl).symm, 0, rfl⟩
  | @running before point hp hl' =>
      rw [hp] at hl ⊢
      refine ⟨Option.some.inj (hl.symm.trans hl'), ?_⟩
      cases point with
      | generating | offering | waiting | awaiting => exact ⟨_, rfl⟩
      | _ => cases hl'
  | leaving _ hp | reported _ hp =>
      rw [hp] at hl
      cases hl

/-- A call that has been busy with a pooled phase submits nothing any more once it reads its
counters again. -/
theorem Going.submitted {label : Label} (h : Going start d phase todo reports e)
    (hr : e.progress.isRunning = true) (hs : e.step b label = some next) :
    (∃ k, e.progress.submitted = some k) ∨ next.progress.submitted = none := by
  cases h.call with
  | entering hp => exact .inl (h.latch? (by rw [hp]; rfl)).2
  | running hp hl => exact .inl (h.latch? (by rw [hp]; exact hl)).2
  | leaving _ hp =>
      right
      rcases step_leaving hp hs with ⟨_, hnext⟩ | ⟨_, hnext⟩ <;> rw [hnext] <;> rfl
  | reported _ hp =>
      rw [hp] at hr
      cases hr

/-- One more job of a phase is accepted when one more of its submits completes, and not before. -/
theorem Going.filed {label : Label} {k : Nat} (h : Going start d phase todo reports e)
    (hreachable : Reachable b e) (hr : e.progress.isRunning = true)
    (hs : e.step b label = some next) (hk : ∀ k', e.progress.submitted = some k' → k' = k)
    (hfiled : e.Filed d.pool start.batches.size phase k) :
    next.Filed d.pool start.batches.size phase (next.progress.submitted.getD k) := by
  cases step_accepting hreachable hs with
  | nothing hsame hcount =>
      have hsubmitted : next.progress.submitted.getD k = k := by
        rcases hnext : next.progress.submitted with _ | k'
        · rfl
        · rcases h.submitted hr hs with ⟨k'', hold⟩ | hnone
          · obtain rfl := hk k'' hold
            exact hcount k'' k' hold hnext
          · cases hnone.symm.trans hnext
      rw [hsubmitted]
      exact hfiled.of_same h.pool hreachable hs hsame
  | @one d' q q' job hd hq hpools hpush hl hcount =>
      obtain ⟨hjob, k', hk'⟩ := h.latch? hl
      obtain rfl := hk k' hk'
      obtain ⟨hnext, hindex⟩ := hcount k' hk'
      cases h.driver.symm.trans hd
      have hq' : next.pools[d.pool]? = some q' := by
        rw [hpools]
        exact getElem?_set_self hq q'
      have hg : phase.generate job.index = .ok job.command := by
        rcases h.move hreachable hr hs with ⟨answer, hreturned⟩ | ⟨hm, _⟩
        · rw [hreturned] at hnext
          cases hnext
        · exact (hm.accepts d.pool q q' job hq hq' hpush).2.2
      rw [hnext, Option.getD_some]
      refine .of_old (step_views hreachable hs) h.pool fun j p p' hp hp' => ?_
      by_cases hj : j = d.pool
      · subst hj
        cases hq'.symm.trans hp'
        cases hq.symm.trans hp
        have hbefore := hfiled d.pool _ hp
        rw [if_pos rfl] at hbefore ⊢
        rw [acceptedFor_push hpush, if_pos hjob, List.map_append, hbefore, List.range_succ,
          List.map_append, List.map_singleton, List.map_singleton, ← hindex, Job.numbered,
          Phase.numbered, hg]
      · rw [hpools, getElem?_set_ne (Ne.symm hj), hp] at hp'
        cases hp'
        have hbefore := hfiled j _ hp
        rwa [if_neg hj] at hbefore ⊢

/-- A phase submits no more than it has commands. -/
theorem Going.submitted_le {k : Nat} (h : Going start d phase todo reports e)
    (hreachable : Reachable b e) (hk : e.progress.submitted = some k) : k ≤ phase.iterations := by
  have hfits := (fitting_of_reachable hreachable).progress
  cases h.call with
  | entering hp =>
      rw [hp] at hk
      cases hk
      exact Nat.zero_le _
  | @running before point hp hl =>
      rw [hp] at hfits hk
      cases point with
      | generating latch index =>
          cases hk
          exact hfits.1
      | offering latch index job | waiting latch index job =>
          cases hk
          exact Nat.le_of_lt hfits.1
      | awaiting latch =>
          cases hk
          exact Nat.le_refl _
      | _ => cases hk
  | leaving _ hp | reported _ hp =>
      rw [hp] at hk
      cases hk

theorem During.filed (h : During b start e) (hready : Ready b start d p phase todo reports) :
    ∃ k ≤ phase.iterations, (∀ k', e.progress.submitted = some k' → k' = k) ∧
      e.Filed d.pool start.batches.size phase k := by
  induction h with
  | begins hs =>
      obtain ⟨hfiled, hk⟩ := hready.filed hs
      exact ⟨0, Nat.zero_le _, fun k' hk' => Option.some.inj (hk'.symm.trans hk), hfiled⟩
  | @step e next label h hr hs ih =>
      obtain ⟨k, hle, hk, hfiled⟩ := ih
      have hgoing := (h.going hready).resolve_left (not_returned_of_isRunning hr)
      have hnext := hgoing.filed (h.reachable hready.reachable) hr hs hk hfiled
      refine ⟨next.progress.submitted.getD k, ?_, fun k' hk' => by rw [hk', Option.getD_some],
        hnext⟩
      rcases hk' : next.progress.submitted with _ | k'
      · exact hle
      · have hduring := h.step label hr hs
        rcases hduring.going hready with ⟨answer, hreturned⟩ | hgoing'
        · rw [hreturned] at hk'
          cases hk'
        · exact hgoing'.submitted_le (hduring.reachable hready.reachable) hk'

end Engine

end LoadBench
