import LoadBench.Proofs.Inversion
import LoadBench.Proofs.Total

/-!
How a call that makes jobs fits the latches. A pooled phase makes its jobs in order, one for each
index, on a latch of its own that was made for exactly that many; somebody outside makes jobs only
for latches that no phase made.
-/

namespace LoadBench

/-- A latch belongs to a phase of so many iterations, and so many jobs were made for it. -/
def Runs (batches : Array Batch) (latch iterations jobs : Nat) : Prop :=
  ∃ batch, batches[latch]? = some batch ∧
    batch.owned = true ∧ batch.size = iterations ∧ batch.jobs = jobs

/-- Whether a phase has made as many jobs as its point says. -/
def PhaseRun.Fits (batches : Array Batch) (run : PhaseRun) : Prop :=
  match run.point with
  | .generating latch index =>
      index ≤ run.phase.iterations ∧ Runs batches latch run.phase.iterations index
  | .offering latch index job | .waiting latch index job =>
      index < run.phase.iterations ∧ Runs batches latch run.phase.iterations (index + 1) ∧
        job.latch = latch ∧ job.index = index ∧ run.phase.generate index = .ok job.command
  | .awaiting latch => Runs batches latch run.phase.iterations run.phase.iterations
  | _ => True

/-- Whether the jobs of a call are made for a latch that it may use. -/
def Progress.Fits (batches : Array Batch) : Progress → Prop
  | .entering phase _ entry _ _ =>
      PhaseRun.Fits batches { phase, before := {}, point := entry.point }
  | .running run _ _ => run.Fits batches
  | .submitting s => ∃ batch, batches[s.latch]? = some batch ∧ batch.owned = false ∧
      ∀ job, s.waiting = some job → job.latch = s.latch
  | _ => True

/-- Every latch is still there, for the same jobs. -/
def Keeps (old new : Array Batch) : Prop :=
  ∀ (latch : Nat) (batch : Batch), old[latch]? = some batch →
    ∃ batch' : Batch, new[latch]? = some batch' ∧
      batch'.owned = batch.owned ∧ batch'.size = batch.size ∧ batch'.jobs = batch.jobs

theorem Keeps.push (batches : Array Batch) (batch : Batch) :
    Keeps batches (batches.push batch) := by
  intro latch old hold
  exact ⟨old, getElem?_push_of_some hold batch, rfl, rfl, rfl⟩

theorem Keeps.set {batches : Array Batch} {latch : Nat} {batch : Batch}
    (hb : batches[latch]? = some batch) (left : Latch) :
    Keeps batches (batches.set! latch { batch with latch := left }) := by
  intro latch' old hold
  by_cases h : latch = latch'
  · subst h
    rw [hb] at hold
    cases hold
    exact ⟨_, getElem?_set_self hb _, rfl, rfl, rfl⟩
  · exact ⟨old, (getElem?_set_ne h _).trans hold, rfl, rfl, rfl⟩

theorem Runs.keeps {old new : Array Batch} (hk : Keeps old new) {latch iterations jobs : Nat}
    (h : Runs old latch iterations jobs) : Runs new latch iterations jobs := by
  obtain ⟨batch, hb, howned, hsize, hjobs⟩ := h
  obtain ⟨batch', hb', howned', hsize', hjobs'⟩ := hk latch batch hb
  exact ⟨batch', hb', howned'.trans howned, hsize'.trans hsize, hjobs'.trans hjobs⟩

theorem PhaseRun.Fits.keeps {old new : Array Batch} (hk : Keeps old new) {run : PhaseRun}
    (h : run.Fits old) : run.Fits new := by
  obtain ⟨phase, before, point⟩ := run
  cases point with
  | generating latch index => exact ⟨h.1, h.2.keeps hk⟩
  | offering latch index job => exact ⟨h.1, h.2.1.keeps hk, h.2.2⟩
  | waiting latch index job => exact ⟨h.1, h.2.1.keeps hk, h.2.2⟩
  | awaiting latch => exact Runs.keeps hk h
  | _ => trivial

theorem Progress.Fits.keeps {old new : Array Batch} (hk : Keeps old new) {progress : Progress}
    (h : progress.Fits old) : progress.Fits new := by
  cases progress with
  | entering phase executed entry todo reports => exact PhaseRun.Fits.keeps hk h
  | running run todo reports => exact PhaseRun.Fits.keeps hk h
  | submitting s =>
      obtain ⟨batch, hb, howned, hwaiting⟩ := h
      obtain ⟨batch', hb', howned', _, _⟩ := hk s.latch batch hb
      exact ⟨batch', hb', howned'.trans howned, hwaiting⟩
  | _ => trivial

theorem Progress.fits_of_plain {batches : Array Batch} {progress : Progress}
    (h : progress.plain = true) : progress.Fits batches := by
  cases progress with
  | entering phase executed entry todo reports => cases entry <;> trivial
  | running run todo reports =>
      obtain ⟨phase, before, point⟩ := run
      cases point with
      | generating _ _ | offering _ _ _ | waiting _ _ _ | awaiting _ => cases h
      | _ => trivial
  | submitting s => cases h
  | _ => trivial

theorem Progress.hand_of_plain {progress : Progress} (h : progress.plain = true) :
    progress.hand = none := by
  cases progress with
  | running run todo reports =>
      obtain ⟨phase, before, point⟩ := run
      cases point <;> first | rfl | cases h
  | submitting s => cases h
  | _ => rfl

theorem Progress.hand_at_rest {progress : Progress} (h : progress.atRest = true) :
    progress.hand = none ∧ progress.opening = none := by
  cases progress with
  | idle | returned answer => exact ⟨rfl, rfl⟩
  | _ => cases h

theorem Progress.opening_of_hand {progress : Progress} {x : Job × Bool}
    (h : progress.hand = some x) : progress.opening = none := by
  cases progress <;> first | rfl | cases h

theorem Progress.hand_accepted {progress : Progress} {job : Job} {waits : Bool}
    (hh : progress.hand = some (job, waits)) : progress.accepted.hand = none := by
  cases progress with
  | running run todo reports =>
      obtain ⟨phase, before, point⟩ := run
      cases point <;> rfl
  | submitting s => rfl
  | _ => cases hh

theorem Progress.opening_accepted {progress : Progress} {x : Job × Bool}
    (hh : progress.hand = some x) : progress.accepted.opening = none := by
  cases progress with
  | running run todo reports =>
      obtain ⟨phase, before, point⟩ := run
      cases point <;> rfl
  | submitting s => rfl
  | _ => cases hh

theorem Progress.hand_parked {progress : Progress} {job : Job}
    (hh : progress.hand = some (job, false)) : progress.parked.hand = some (job, true) := by
  cases progress with
  | running run todo reports =>
      obtain ⟨phase, before, point⟩ := run
      cases point with
      | offering latch index job =>
          cases hh
          rfl
      | _ => cases hh
  | submitting s => simp [Progress.hand] at hh
  | _ => cases hh

/-- A phase or somebody outside goes on with the next job once one is in the queue. -/
theorem Progress.Fits.accepted {batches : Array Batch} {progress : Progress} {job : Job}
    {waits : Bool} (h : progress.Fits batches) (hh : progress.hand = some (job, waits)) :
    progress.accepted.Fits batches := by
  cases progress with
  | running run todo reports =>
      obtain ⟨phase, before, point⟩ := run
      cases point with
      | offering latch index job | waiting latch index job => exact ⟨h.1, h.2.1⟩
      | _ => cases hh
  | submitting s =>
      obtain ⟨batch, hb, howned, _⟩ := h
      exact ⟨batch, hb, howned, by simp⟩
  | _ => cases hh

theorem Progress.Fits.parked {batches : Array Batch} {progress : Progress}
    (h : progress.Fits batches) : progress.parked.Fits batches := by
  cases progress with
  | running run todo reports =>
      obtain ⟨phase, before, point⟩ := run
      cases point <;> exact h
  | _ => exact h

namespace Engine

/-- Every call and every latch of a phase are in step. -/
structure Fitting (e : Engine) : Prop where
  progress : e.progress.Fits e.batches
  owned : ∀ (latch : Nat) (batch : Batch), e.batches[latch]? = some batch →
    batch.owned = true → batch.jobs ≤ batch.size

variable {b : Backend} {e next : Engine} {i k : Nat} {p : WorkerPool} {w : Worker}

theorem WorkerMove.progress (h : WorkerMove b e i k p w next) : next.progress = e.progress := by
  cases h <;> rfl

theorem WorkerMove.driver (h : WorkerMove b e i k p w next) : next.driver = e.driver := by
  cases h <;> rfl

/-- A worker's step counts down at most the latch of the job that it completes. -/
theorem WorkerMove.batches (h : WorkerMove b e i k p w next) :
    next.batches = e.batches ∨ ∃ (job : Job) (batch : Batch) (left : Latch),
      w.activity = .recorded job ∧ e.batches[job.latch]? = some batch ∧
        batch.latch.countDown? = some left ∧
        next.batches = e.batches.set! job.latch { batch with latch := left } := by
  cases h with
  | @completes job batch left ha hb hl => exact .inr ⟨job, batch, left, ha, hb, hl, rfl⟩
  | _ => exact .inl rfl

/-- A new job, the latch that it was made for, and that latch afterwards. -/
theorem newJob_of_getElem? {latch : Nat} {batch : Batch} (hb : e.batches[latch]? = some batch)
    (command : Command) :
    (e.newJob latch command).1 = { command, latch, index := batch.jobs } ∧
      (e.newJob latch command).2.batches =
        e.batches.set! latch { batch with jobs := batch.jobs + 1 } := by
  constructor
  · simp [newJob, hb]
  · exact modify_eq_set (fun b => { b with jobs := b.jobs + 1 }) hb

/-- A step that leaves the latches alone only has to fit where the call goes. -/
theorem Fitting.of_progress (hf : e.Fitting) (hb : next.batches = e.batches)
    (hp : next.progress.Fits e.batches) : next.Fitting where
  progress := by
    rw [hb]
    exact hp
  owned := by
    rw [hb]
    exact hf.owned

/-- A job is made for a latch, by the phase that the latch belongs to or by somebody outside. -/
theorem Fitting.newJob (hf : e.Fitting) {latch : Nat} {batch : Batch}
    (hroom : batch.owned = true → batch.jobs < batch.size)
    (hn : next.batches = e.batches.set! latch { batch with jobs := batch.jobs + 1 })
    (hp : next.progress.Fits next.batches) : next.Fitting where
  progress := hp
  owned latch' batch' hb' howned := by
    rw [hn] at hb'
    rcases getElem?_set_cases hb' with ⟨_, rfl⟩ | ⟨_, hold⟩
    · exact hroom howned
    · exact hf.owned latch' batch' hold howned

/-- Somebody outside makes a job for a latch that no phase made. -/
private theorem Fitting.submitted (hf : e.Fitting) {s : Submission}
    (hr : e.progress = .submitting s) :
    ∃ batch, e.batches[s.latch]? = some batch ∧ batch.owned = false ∧
      (e.newJob s.latch s.command).2.batches =
        e.batches.set! s.latch { batch with jobs := batch.jobs + 1 } ∧
      (e.newJob s.latch s.command).2.batches[s.latch]? =
        some { batch with jobs := batch.jobs + 1 } := by
  have hfits := hf.progress
  rw [hr] at hfits
  obtain ⟨batch, hb, howned, _⟩ := hfits
  obtain ⟨_, hbatches⟩ := newJob_of_getElem? hb s.command
  refine ⟨batch, hb, howned, hbatches, ?_⟩
  rw [hbatches]
  exact getElem?_set_self hb _

theorem CallerMove.fitting (h : CallerMove e next) (hf : e.Fitting) : next.Fitting := by
  cases h with
  | quiet h => exact hf.of_progress h.batches (Progress.fits_of_plain h.after)
  | @undertakes latch hr hl command left =>
      refine hf.of_progress rfl ?_
      obtain ⟨batch, hb, howned⟩ : ∃ batch, e.batches[latch]? = some batch ∧
          batch.owned = false := by
        simpa [isShared, Option.any_eq_true] using hl
      exact ⟨batch, hb, howned, by simp⟩
  | opens hr hw hc split => exact hf.of_progress rfl trivial
  | spawns hr hp he conn => exact hf.of_progress rfl trivial
  | abandons hr he answer => exact hf.of_progress rfl trivial
  | starts hr hp hw he answer => exact hf.of_progress rfl trivial
  | closes hd hr he hp =>
      refine hf.of_progress rfl ?_
      rcases hp with ⟨answer, rfl⟩ | rfl <;> trivial
  | countsDirect hd hr | talliesDirect hd hr | countsDirectFailure hd hr =>
      exact hf.of_progress rfl trivial
  | @beginsPhase d phase todo reports hd hr hm =>
      refine ⟨⟨Nat.zero_le _, _, Array.getElem?_push_size, rfl, rfl, rfl⟩, ?_⟩
      intro latch batch hb howned
      change (e.batches.push _)[latch]? = some batch at hb
      rw [Array.getElem?_push] at hb
      split at hb
      · cases hb
        exact Nat.zero_le _
      · exact hf.owned latch batch hb howned
  | @entersPhase d phase executed entry todo reports hd hr =>
      have hfits := hf.progress
      rw [hr] at hfits
      cases entry <;> exact hf.of_progress rfl hfits
  | @generates phase before latch index todo reports command hr hm hi hg =>
      have hfits := hf.progress
      rw [hr] at hfits
      obtain ⟨_, batch, hb, howned, hsize, hjobs⟩ := hfits
      change batch.size = phase.iterations at hsize
      obtain ⟨hjob, hbatches⟩ := newJob_of_getElem? hb command
      refine hf.newJob (fun _ => by omega) hbatches ⟨hi, ?_, ?_⟩
      · refine ⟨{ batch with jobs := batch.jobs + 1 }, ?_, howned, hsize, by simp [hjobs]⟩
        change (e.newJob latch command).2.batches[latch]? = _
        rw [hbatches]
        exact getElem?_set_self hb _
      · rw [hjob]
        exact ⟨rfl, hjobs, hg⟩
  | @awaits phase before latch index todo reports hr hm hi =>
      have hfits := hf.progress
      rw [hr] at hfits
      obtain ⟨hle, hruns⟩ := hfits
      obtain rfl : index = phase.iterations := Nat.le_antisymm hle hi
      exact hf.of_progress rfl hruns
  | returns hr hm hl => exact hf.of_progress rfl trivial
  | accepts hd hp hh hq => exact hf.of_progress rfl (hf.progress.accepted hh)
  | parks hd hp hh hq => exact hf.of_progress rfl hf.progress.parked
  | drops hd hp hh hq answer => exact hf.of_progress rfl trivial
  | forgets hh answer => exact hf.of_progress rfl trivial
  | withdraws hh answer => exact hf.of_progress rfl trivial
  | @submits d p s left queue hd hp hr hw hl hq =>
      obtain ⟨batch, hb, howned, hbatches, hfits⟩ := hf.submitted hr
      exact hf.newJob (by simp [howned]) hbatches ⟨_, hfits, howned, by simp [hw]⟩
  | @submitsParked d p s left queue hd hp hr hw hl hq =>
      obtain ⟨batch, hb, howned, hbatches, hfits⟩ := hf.submitted hr
      refine hf.newJob (by simp [howned]) hbatches ⟨_, hfits, howned, ?_⟩
      intro job hjob
      cases hjob
      rfl
  | @submitsDropped d p s left queue hd hp hr hw hl hq answer =>
      obtain ⟨batch, hb, howned, hbatches, hfits⟩ := hf.submitted hr
      exact hf.newJob (by simp [howned]) hbatches trivial

/-- A caller's step makes a latch, makes a job for one, or leaves the latches alone. -/
theorem CallerMove.batches (h : CallerMove e next) (hf : e.Fitting) :
    next.batches = e.batches ∨ (∃ batch, next.batches = e.batches.push batch) ∨
      ∃ (latch : Nat) (batch : Batch), e.batches[latch]? = some batch ∧
        next.batches = e.batches.set! latch { batch with jobs := batch.jobs + 1 } := by
  cases h with
  | quiet h => exact .inl h.batches
  | beginsPhase hd hr hm => exact .inr (.inl ⟨_, rfl⟩)
  | @generates phase before latch index todo reports command hr hm hi hg =>
      have hfits := hf.progress
      rw [hr] at hfits
      obtain ⟨_, batch, hb, _⟩ := hfits
      exact .inr (.inr ⟨latch, batch, hb, (newJob_of_getElem? hb command).2⟩)
  | @submits d p s left queue hd hp hr hw hl hq =>
      obtain ⟨batch, hb, _, hbatches, _⟩ := hf.submitted hr
      exact .inr (.inr ⟨s.latch, batch, hb, hbatches⟩)
  | @submitsParked d p s left queue hd hp hr hw hl hq =>
      obtain ⟨batch, hb, _, hbatches, _⟩ := hf.submitted hr
      exact .inr (.inr ⟨s.latch, batch, hb, hbatches⟩)
  | @submitsDropped d p s left queue hd hp hr hw hl hq answer =>
      obtain ⟨batch, hb, _, hbatches, _⟩ := hf.submitted hr
      exact .inr (.inr ⟨s.latch, batch, hb, hbatches⟩)
  | _ => exact .inl rfl

/-- A latch stays the latch of the same jobs, and only the worker that completes one of them
counts it down. -/
theorem Move.batch {label : Label} (h : Move b e label next) (hf : e.Fitting) {latch : Nat}
    {batch : Batch} (hb : e.batches[latch]? = some batch) :
    ∃ batch' : Batch, next.batches[latch]? = some batch' ∧ batch'.owned = batch.owned ∧
      batch'.size = batch.size ∧ batch.jobs ≤ batch'.jobs ∧
        (batch'.latch = batch.latch ∨ ∃ i k p w job,
          label = .act (.worker i k) ∧ e.pools[i]? = some p ∧ p.workers[k]? = some w ∧
          w.activity = .recorded job ∧ job.latch = latch ∧
          batch.latch.countDown? = some batch'.latch) := by
  cases h with
  | stay permits => exact ⟨batch, hb, rfl, rfl, Nat.le_refl _, .inl rfl⟩
  | latch size => exact ⟨batch, getElem?_push_of_some hb _, rfl, rfl, Nat.le_refl _, .inl rfl⟩
  | @worker i k p w _ hp hw h =>
      rcases h.batches with hsame | ⟨job, batch', left, ha, hb', hl, hset⟩
      · exact ⟨batch, by rw [hsame]; exact hb, rfl, rfl, Nat.le_refl _, .inl rfl⟩
      · by_cases hjob : job.latch = latch
        · subst hjob
          rw [hb] at hb'
          cases hb'
          refine ⟨{ batch with latch := left }, by rw [hset]; exact getElem?_set_self hb _,
            rfl, rfl, Nat.le_refl _, .inr ⟨i, k, p, w, job, rfl, hp, hw, ha, rfl, hl⟩⟩
        · refine ⟨batch, ?_, rfl, rfl, Nat.le_refl _, .inl rfl⟩
          rw [hset, getElem?_set_ne hjob]
          exact hb
  | caller _ h =>
      rcases h.batches hf with hsame | ⟨new, hnew⟩ | ⟨latch', batch', hb', hset⟩
      · exact ⟨batch, by rw [hsame]; exact hb, rfl, rfl, Nat.le_refl _, .inl rfl⟩
      · exact ⟨batch, by rw [hnew]; exact getElem?_push_of_some hb new, rfl, rfl, Nat.le_refl _,
          .inl rfl⟩
      · by_cases hl : latch' = latch
        · subst hl
          rw [hb] at hb'
          cases hb'
          exact ⟨{ batch with jobs := batch.jobs + 1 }, by rw [hset]; exact getElem?_set_self hb _,
            rfl, rfl, Nat.le_succ _, .inl rfl⟩
        · refine ⟨batch, ?_, rfl, rfl, Nat.le_refl _, .inl rfl⟩
          rw [hset, getElem?_set_ne hl]
          exact hb

theorem Move.fitting {label : Label} (h : Move b e label next) (hf : e.Fitting) : next.Fitting := by
  cases h with
  | stay permits => exact hf
  | latch size =>
      refine ⟨hf.progress.keeps (.push _ _), ?_⟩
      intro latch batch hb howned
      change (e.batches.push _)[latch]? = some batch at hb
      rw [Array.getElem?_push] at hb
      split at hb
      · cases hb
        exact Nat.zero_le _
      · exact hf.owned latch batch hb howned
  | worker hp hw h =>
      rcases h.batches with hsame | ⟨job, batch, left, _, hb, hl, hset⟩
      · exact hf.of_progress hsame (h.progress ▸ hf.progress)
      · refine ⟨?_, ?_⟩
        · rw [h.progress, hset]
          exact hf.progress.keeps (.set hb left)
        · intro latch' batch' hb' howned
          rw [hset] at hb'
          rcases getElem?_set_cases hb' with ⟨_, rfl⟩ | ⟨_, hold⟩
          · exact hf.owned job.latch batch hb howned
          · exact hf.owned latch' batch' hold howned
  | caller _ h => exact h.fitting hf

theorem Fitting.bare (hf : e.Fitting) : e.bare.Fitting := ⟨hf.progress, hf.owned⟩

theorem fitting_of_reachable (h : Reachable b e) : e.Fitting := by
  induction h with
  | start => exact ⟨trivial, by simp⟩
  | step label _ hs ih =>
      have hbare := (step_move hs).fitting ih.bare
      exact ⟨hbare.progress, hbare.owned⟩

end Engine

end LoadBench
