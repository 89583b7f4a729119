import LoadBench.Proofs.PooledPhase

/-!
A pooled phase over workers that go on. If every execution comes to an end by itself and the pool
has only jobs of phases, no worker of the pool ends while the phase is being run, and no job of the
phase is lost.
-/

namespace LoadBench.Engine

/-- A pool with workers that all go on, whose jobs were all made by phases. -/
structure Staffed (e : Engine) (p : WorkerPool) : Prop where
  workers : 0 < p.workers.size
  live : ∀ (k : Nat) (w : Worker), p.workers[k]? = some w → w.activity.isLive = true
  owned : ∀ job, p.Has job →
    ∃ batch : Batch, e.batches[job.latch]? = some batch ∧ batch.owned = true

/-- The driver's pool is staffed, and no job of a latch went away. -/
structure Sturdy (d : Driver) (latch : Nat) (e : Engine) : Prop where
  staffed : ∃ p, e.pools[d.pool]? = some p ∧ e.Staffed p
  kept : indicesOn latch e.lost = []

variable {b : Backend} {e next start : Engine} {d : Driver} {p : WorkerPool} {phase : Phase}
  {todo : List Phase} {reports : List PhaseCount} {latch : Nat}

/-- No worker of a staffed pool has a reason to end as long as the driver has the pool. -/
theorem Staffed.not_dies (hs : e.Staffed p) (h : Reachable b e) (hb : b.Settles)
    (hd : e.driver = some d) (hp : e.pools[d.pool]? = some p) {k : Nat} {w : Worker}
    (hw : p.workers[k]? = some w) :
    ¬ Dies b e p w := by
  intro hdies
  cases hdies with
  | drained ha hbuffer hclosed =>
      obtain ⟨p', hp', hproducing⟩ := (housed_of_reachable h).driver d hd
      rw [hp] at hp'
      cases hp'
      rw [hclosed] at hproducing
      cases hproducing
  | @collapsed job ha hc =>
      have hsettles := hb e.executions w.conn job.command
      cases hx : b.execute e.executions w.conn job.command with
      | panicAtOnce message =>
          rw [hx] at hsettles
          cases hsettles
      | _ =>
          rw [hx] at hc
          cases hc
  | @misused job ha hl =>
      obtain ⟨batch, hbatch, howned⟩ := hs.owned job (.inr ⟨k, w, hw, by rw [ha]; rfl⟩)
      have hjobs := (fitting_of_reachable h).owned job.latch batch hbatch howned
      exact not_misused h hp hw ha hbatch hjobs (hl batch hbatch)
  | left ha =>
      have hlive := hs.live k w hw
      rw [ha] at hlive
      cases hlive

/-- A staffed pool stays staffed if what it accepts was made by phases. -/
theorem Staffed.step {label : Label} {p' : WorkerPool} (hs : e.Staffed p) (h : Reachable b e)
    (hb : b.Settles) (hd : e.driver = some d) (hp : e.pools[d.pool]? = some p)
    (hstep : e.step b label = some next) (hp' : next.pools[d.pool]? = some p')
    (hnew : ∀ job, p'.queue.accepted = p.queue.accepted.push job →
      ∃ batch : Batch, e.batches[job.latch]? = some batch ∧ batch.owned = true) :
    next.Staffed p' := by
  obtain ⟨p'', hp'', hfollows⟩ := (step_views h hstep).follows hp
  rw [hp'] at hp''
  cases hp''
  refine ⟨?_, fun k w' hw' => ?_, fun job hjob => ?_⟩
  · obtain ⟨w', hw', _⟩ := hfollows.extended.2 0 _ (Array.getElem?_eq_getElem hs.workers)
    obtain ⟨hlt, _⟩ := Array.getElem?_eq_some_iff.mp hw'
    exact hlt
  · rcases step_worker hstep (worker?_eq_some.mpr ⟨p', hp', hw'⟩) with
      hlive | hold | ⟨q, w, hq, hw, hdies⟩
    · exact hlive
    · obtain ⟨q, hq, hw⟩ := worker?_eq_some.mp hold
      rw [hp] at hq
      cases hq
      exact hs.live k w' hw
    · rw [hp] at hq
      cases hq
      exact absurd hdies (hs.not_dies h hb hd hp hw)
  · obtain ⟨batch, hbatch, howned⟩ := (hfollows.has job hjob).elim (hs.owned job) (hnew job)
    obtain ⟨batch', hbatch', howned', _⟩ :=
      (step_move hstep).batch (fitting_of_reachable h).bare hbatch
    exact ⟨batch', hbatch', howned'.trans howned⟩

/-- Nothing is lost of a latch that is not made yet. -/
theorem lost_of_unmade (h : Reachable b e) (hl : e.batches.size ≤ latch) :
    indicesOn latch e.lost = [] := by
  apply indicesOn_eq_nil
  intro index
  rw [count_lost]
  exact number_of_unmade h hl .lost

/-- While a phase is being run, nobody but the driver's queue has accepted any of its jobs. -/
theorem Going.pool_of_accepted (h : Going start d phase todo reports e) (hstart : Reachable b start)
    {i : Nat} {job : Job} (hp : e.pools[i]? = some p) (hjob : job ∈ p.queue.accepted)
    (hl : job.latch = start.batches.size) :
    i = d.pool := by
  obtain ⟨q, hq, hgrows⟩ := h.pools i p hp
  rcases hgrows.accepted job hjob with hold | hnew
  · have hlt := latch_lt_of_accepted hstart hq hold
    omega
  · exact hnew.1

/-- Workers that have just been started go on. -/
theorem staffed_of_opening {conduct : Conduct} {iterations : Nat}
    (hr : Engine.run (.always conduct) {} (opening iterations) = some start)
    (hready : Ready (.always conduct) start d p phase todo reports) : start.Staffed p := by
  obtain ⟨p', hready', hworkers, hbuffer, _⟩ := ready_of_opening hr
  cases hready.driver.symm.trans hready'.driver
  cases hready.pool.symm.trans hready'.pool
  have hidle {k : Nat} {w : Worker} (hw : p.workers[k]? = some w) : w.activity = .idle := by
    have hmem := Array.mem_of_getElem? hw
    rw [hworkers] at hmem
    cases List.mem_singleton.mp (Array.mem_toList_iff.mpr hmem)
    rfl
  refine ⟨?_, fun k w hw => ?_, ?_⟩
  · rw [hworkers]
    exact Nat.one_pos
  · rw [hidle hw]
    rfl
  · rintro job (hmem | ⟨k, w, hw, hj⟩)
    · rw [hbuffer] at hmem
      cases hmem
    · rw [hidle hw] at hj
      cases hj

theorem Ready.sturdy (hready : Ready b start d p phase todo reports) (hb : b.Settles)
    (hs : start.Staffed p) (hstep : start.step b (.act .caller) = some e) :
    Sturdy d start.batches.size e := by
  obtain rfl := hready.begun hstep
  have hp := hready.pool_beginPhase
  refine ⟨⟨p, hp, ?_⟩, ?_⟩
  · refine hs.step hready.reachable hb hready.driver hready.pool hstep hp fun job hpush => ?_
    exact (ne_push _ _ hpush).elim
  · rw [lost, events_beginPhase]
    exact lost_of_unmade hready.reachable (Nat.le_refl _)

/-- A step of the run of a phase over workers that go on. -/
theorem Sturdy.step {label : Label} (h : Sturdy d start.batches.size e)
    (hgoing : Going start d phase todo reports e) (hlatch : PhaseLatch b phase start.batches.size e)
    (hstart : Reachable b start) (hb : b.Settles) (hr : e.progress.isRunning = true)
    (hs : e.step b label = some next) :
    (∃ answer, next.progress = .returned answer) ∨ Sturdy d start.batches.size next := by
  have hreachable := hlatch.reachable
  rcases hgoing.move hreachable hr hs with hreturned | ⟨hm, _⟩
  · exact .inl hreturned
  · obtain ⟨p, hp, hstaffed⟩ := h.staffed
    obtain ⟨p', hp', _⟩ := (step_views hreachable hs).follows hp
    refine .inr ⟨⟨p', hp', ?_⟩, ?_⟩
    · refine hstaffed.step hreachable hb hgoing.driver hp hs hp' fun job hpush => ?_
      obtain ⟨_, hjob, _⟩ := hm.accepts _ _ _ _ hp hp' hpush
      obtain ⟨batch, hbatch, howned, _⟩ := hlatch.batch
      exact ⟨batch, hjob ▸ hbatch, howned⟩
    · rcases hm.lost with hsame | ⟨i, k, q, w, job, hq, hw, hj, hlost, hdies⟩
      · rw [hsame]
        exact h.kept
      · have hjob : job ∈ q.queue.accepted :=
          (traced_of_reachable hreachable).jobs i q job hq (.inr ⟨k, w, hw, hj⟩)
        have hne : job.latch ≠ start.batches.size := by
          intro hl
          obtain rfl := hgoing.pool_of_accepted hstart hq hjob hl
          rw [hp] at hq
          cases hq
          exact hstaffed.not_dies hreachable hb hgoing.driver hp hw hdies
        rw [hlost, indicesOn, List.filterMap_append, ← indicesOn, h.kept]
        simp [Job.origin, Origin.indexOn, hne]

theorem During.sturdy (h : During b start e) (hready : Ready b start d p phase todo reports)
    (hb : b.Settles) (hs : start.Staffed p) :
    (∃ answer, e.progress = .returned answer) ∨ Sturdy d start.batches.size e := by
  induction h with
  | begins hstep => exact .inr (hready.sturdy hb hs hstep)
  | step label h hr hstep ih =>
      have hruns := not_returned_of_isRunning hr
      have hgoing := (h.going hready).resolve_left hruns
      exact (ih.resolve_left hruns).step hgoing (h.phaseLatch hready) hready.reachable hb hr hstep

end LoadBench.Engine
