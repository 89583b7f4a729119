import LoadBench.Proofs.Ownership

/-!
Connections over a whole history of calls. A connection has at most one owner ever, so it can be
told for all time what is executed on it: on a worker's connection the jobs that this worker took
out of its queue, on a driver's own connection the commands that its direct phases issued, and on a
connection that is kept outside nothing.
-/

namespace LoadBench.Engine

/-- A run from the empty engine goes through a state. -/
def Visits (b : Backend) (labels : List Label) (s : Engine) : Prop :=
  ∃ before, before <+: labels ∧ run b {} before = some s

/-- A run from the empty engine goes through a state, and there it takes this step. -/
def StepsAt (b : Backend) (labels : List Label) (s : Engine) (label : Label) : Prop :=
  ∃ before, before ++ [label] <+: labels ∧ run b {} before = some s

/-- Somebody has a connection in some state of a run. -/
def Had (b : Backend) (labels : List Label) (conn : Nat) (owner : Owner) : Prop :=
  ∃ s, Visits b labels s ∧ s.Owns conn owner

/-- A worker takes a job out of the queue at a step of a run. -/
def Dequeued (b : Backend) (labels : List Label) (i k : Nat) (job : Job) : Prop :=
  ∃ s p w queue, StepsAt b labels s (.act (.worker i k)) ∧ s.pools[i]? = some p ∧
    p.workers[k]? = some w ∧ w.activity = .receiving ∧ p.queue.receive = (.item job, queue)

/-- A direct phase issues one of its commands at a step of a run, on the driver's connection. -/
def Issues (b : Backend) (labels : List Label) (x : Execution) : Prop :=
  ∃ s phase before number index todo reports, StepsAt b labels s (.act .caller) ∧
    s.progress = .running ⟨phase, before, .issuing number index x.command⟩ todo reports ∧
    phase.mode = .direct ∧ index < phase.iterations ∧ phase.generate index = .ok x.command ∧
    x.origin = .direct number index ∧ s.slot = some x.conn

/-- What the owner of a connection may execute on it in a run. -/
def Entitled (b : Backend) (labels : List Label) (x : Execution) : Owner → Prop
  | .worker i k => ∃ job, Dequeued b labels i k job ∧ x.origin = job.origin ∧
      x.command = job.command
  | .direct => Issues b labels x
  | .outside _ => False

variable {b : Backend} {e next s : Engine} {label : Label} {labels : List Label} {conn i k : Nat}
  {owner owner' : Owner} {p : WorkerPool} {w w' : Worker} {job : Job} {x : Execution}

section Runs

theorem run_concat : run b s (labels ++ [label]) = some next ↔
    ∃ e, run b s labels = some e ∧ e.step b label = some next := by
  induction labels generalizing s with
  | nil => simp [run]
  | cons first labels ih =>
      rw [List.cons_append, run_cons]
      simp only [ih, run_cons]
      constructor
      · rintro ⟨mid, hfirst, e, hr, hs⟩
        exact ⟨e, ⟨mid, hfirst, hr⟩, hs⟩
      · rintro ⟨e, ⟨mid, hfirst, hr⟩, hs⟩
        exact ⟨mid, hfirst, e, hr, hs⟩

/-- What holds of the empty engine and is kept by one more step of a run holds after any run. -/
theorem history {P : List Label → Engine → Prop} (hstart : P [] {})
    (hstep : ∀ labels label e next, run b {} labels = some e → e.step b label = some next →
      P labels e → P (labels ++ [label]) next)
    (hr : run b {} labels = some e) : P labels e := by
  induction labels using List.reverseRecOn generalizing e with
  | nil =>
      cases hr
      exact hstart
  | append_singleton labels label ih =>
      obtain ⟨mid, hmid, hs⟩ := run_concat.mp hr
      exact hstep labels label mid e hmid hs (ih hmid)

theorem Visits.last (hr : run b {} labels = some e) : Visits b labels e :=
  ⟨labels, List.prefix_rfl, hr⟩

theorem Visits.concat (h : Visits b labels s) (label : Label) :
    Visits b (labels ++ [label]) s := by
  obtain ⟨before, hbefore, hr⟩ := h
  exact ⟨before, hbefore.trans (List.prefix_append _ _), hr⟩

theorem StepsAt.last (hr : run b {} labels = some e) (label : Label) :
    StepsAt b (labels ++ [label]) e label := ⟨labels, List.prefix_rfl, hr⟩

theorem StepsAt.concat {label' : Label} (h : StepsAt b labels s label') (label : Label) :
    StepsAt b (labels ++ [label]) s label' := by
  obtain ⟨before, hbefore, hr⟩ := h
  exact ⟨before, hbefore.trans (List.prefix_append _ _), hr⟩

/-- A state that a run goes through is its last one, or the run goes through it before. -/
theorem visits_concat (hr : run b {} (labels ++ [label]) = some next)
    (h : Visits b (labels ++ [label]) s) : Visits b labels s ∨ s = next := by
  obtain ⟨before, hbefore, hs⟩ := h
  rcases List.prefix_concat_iff.mp hbefore with rfl | hold
  · exact .inr (Option.some.inj (hs.symm.trans hr))
  · exact .inl ⟨before, hold, hs⟩

theorem visits_nil (h : Visits b [] s) : s = {} := by
  obtain ⟨before, hbefore, hs⟩ := h
  rw [List.prefix_nil.mp hbefore] at hs
  cases hs
  rfl

end Runs

section Hands

theorem Had.concat (h : Had b labels conn owner) (label : Label) :
    Had b (labels ++ [label]) conn owner := by
  obtain ⟨s, hvisits, howns⟩ := h
  exact ⟨s, hvisits.concat label, howns⟩

theorem Had.last (hr : run b {} labels = some e) (ho : e.Owns conn owner) :
    Had b labels conn owner := ⟨e, .last hr, ho⟩

theorem not_owns_of_start : ¬ ({} : Engine).Owns conn owner := by
  intro howns
  cases owner with
  | worker i k =>
      obtain ⟨w, hw, _⟩ := howns
      simp [worker?] at hw
  | direct | outside place => cases howns

/-- Whoever had a connection in a run had it before the last step, or has it now. -/
theorem had_concat (hr : run b {} (labels ++ [label]) = some next)
    (h : Had b (labels ++ [label]) conn owner) :
    Had b labels conn owner ∨ next.Owns conn owner := by
  obtain ⟨s, hvisits, howns⟩ := h
  rcases visits_concat hr hvisits with hold | rfl
  · exact .inl ⟨s, hold, howns⟩
  · exact .inr howns

/-- A connection never changes hands: a new owner always gets the next connection. -/
theorem had_unique (hr : run b {} labels = some e) : ∀ conn owner, Had b labels conn owner →
    conn < e.connections ∧ ∀ owner', Had b labels conn owner' → owner' = owner := by
  refine history (P := fun labels e => ∀ conn owner, Had b labels conn owner →
    conn < e.connections ∧ ∀ owner', Had b labels conn owner' → owner' = owner) ?_ ?_ hr
  · rintro conn owner ⟨s, hvisits, howns⟩
    obtain rfl := visits_nil hvisits
    exact absurd howns not_owns_of_start
  · intro labels label e next hr hs ih conn owner hhad
    have hreachable := Reachable.start.run hr
    have hnext := run_concat.mpr ⟨e, hr, hs⟩
    have hle := (step_handling (owned_of_reachable hreachable).undialed hs).1.le
    -- Nobody has a connection after the step that was there before, unless it was theirs.
    have hold {conn : Nat} {owner : Owner} (ho : next.Owns conn owner)
        (hlt : conn < e.connections) : Had b labels conn owner := by
      rcases step_owns hreachable hs ho with howns | rfl
      · exact .last hr howns
      · exact absurd hlt (Nat.lt_irrefl _)
    rcases had_concat hnext hhad with hbefore | hnow
    · obtain ⟨hlt, hunique⟩ := ih conn owner hbefore
      refine ⟨by omega, fun owner' hhad' => ?_⟩
      rcases had_concat hnext hhad' with hbefore' | hnow'
      · exact hunique owner' hbefore'
      · exact hunique owner' (hold hnow' hlt)
    · refine ⟨lt_of_owns (hreachable.step label hs) hnow, fun owner' hhad' => ?_⟩
      rcases had_concat hnext hhad' with hbefore' | hnow'
      · obtain ⟨hlt, hunique⟩ := ih conn owner' hbefore'
        exact (hunique owner (hold hnow hlt)).symm
      · exact owner_unique (hreachable.step label hs) hnow' hnow

end Hands

section Executions

theorem Dequeued.concat (h : Dequeued b labels i k job) (label : Label) :
    Dequeued b (labels ++ [label]) i k job := by
  obtain ⟨s, p, w, queue, hsteps, hrest⟩ := h
  exact ⟨s, p, w, queue, hsteps.concat label, hrest⟩

theorem Entitled.concat (h : Entitled b labels x owner) (label : Label) :
    Entitled b (labels ++ [label]) x owner := by
  cases owner with
  | worker i k =>
      obtain ⟨job, hdequeued, hx⟩ := h
      exact ⟨job, hdequeued.concat label, hx⟩
  | direct =>
      obtain ⟨s, phase, before, number, index, todo, reports, hsteps, hrest⟩ := h
      exact ⟨s, phase, before, number, index, todo, reports, hsteps.concat label, hrest⟩
  | outside place => exact h

/-- A worker has a job after its step that it had before, or it takes the job just now. -/
theorem WorkerMove.dequeues (hp : e.pools[i]? = some p) (hw : p.workers[k]? = some w)
    (h : WorkerMove b e i k p w next) (hw' : next.worker? i k = some w')
    (hj : w'.activity.job? = some job) : w.activity.job? = some job ∨
      w.activity = .receiving ∧ ∃ queue, p.queue.receive = (.item job, queue) := by
  have hput {q : WorkerPool} {a : Activity} (hq : q.workers = p.workers)
      (hpools : next.pools = e.pools.set! i (q.setActivity k a)) : a.job? = some job := by
    rcases worker?_put hp hw hq hpools hw' with ⟨_, _, rfl⟩ | ⟨hne, _⟩
    · exact hj
    · exact absurd ⟨rfl, rfl⟩ hne
  cases h with
  | asks ha =>
      have hnone := hput (q := { p with queue := p.queue.ask k }) rfl rfl
      split at hnone <;> cases hnone
  | takesTurn ha hr => cases hput (q := { p with queue := p.queue.takeTurn k }) rfl rfl
  | @takes job' queue ha hq =>
      cases hput (q := { p with queue }) rfl rfl
      exact .inr ⟨ha, queue, hq⟩
  | @ends queue ha hq => cases hput (q := { p with queue }) rfl rfl
  | begins ha hc =>
      have hsame := hput (q := p) rfl rfl
      exact .inl (by rw [ha]; exact hsame)
  | stalls ha | counts ha | tallies ha | countsFailure ha =>
      have hsame := hput (q := p) rfl rfl
      exact .inl (by rw [ha]; exact hsame)
  | finishes ha =>
      have hsame := hput (q := p) rfl rfl
      exact .inl ((Activity.job?_of_outcome? ha).trans hsame)
  | collapses ha hc | completes ha hb hl | misuses ha hl => cases hput (q := p) rfl rfl
  | leaves ha => cases hput (q := p.dropReceiver) rfl rfl

/-- A worker has only jobs that it took out of its queue. -/
theorem dequeued_of_job (hr : run b {} labels = some e) : ∀ i k w job, e.worker? i k = some w →
    w.activity.job? = some job → Dequeued b labels i k job := by
  refine history (P := fun labels e => ∀ i k w job, e.worker? i k = some w →
    w.activity.job? = some job → Dequeued b labels i k job) ?_ ?_ hr
  · intro i k w job hw
    simp [worker?] at hw
  · intro labels label e next hr hs ih i k w' job hw' hj
    have hm := step_move hs
    change next.bare.worker? i k = some w' at hw'
    generalize next.bare = after at hm hw'
    cases hm with
    | stay permits | latch size => exact (ih i k w' job hw' hj).concat _
    | caller hl h =>
        rcases h.worker hw' with hold | ⟨_, hidle⟩
        · exact (ih i k w' job hold hj).concat label
        · rw [hidle] at hj
          cases hj
    | @worker i' k' p w _ hp hw h =>
        rcases h.worker hp hw hw' with ⟨rfl, rfl, _⟩ | ⟨_, hold⟩
        · rcases h.dequeues hp hw hw' hj with hjob | ⟨ha, queue, hq⟩
          · exact (ih i k w job (worker?_eq_some.mpr ⟨p, hp, hw⟩) hjob).concat _
          · exact ⟨e, p, w, queue, .last hr _, hp, hw, ha, hq⟩
        · exact (ih i k w' job hold hj).concat _

/-- A command is executed for the owner of its connection, who is entitled to that. -/
theorem begins_entitled (hr : run b {} labels = some e) (hs : e.step b label = some next)
    (hx : Begins b e label x) :
    ∃ owner, e.Owns x.conn owner ∧ Entitled b (labels ++ [label]) x owner := by
  have hreachable := Reachable.start.run hr
  cases hx with
  | @worker i k p w job hl hp hw ha =>
      have hworker := worker?_eq_some.mpr ⟨p, hp, hw⟩
      have hdequeued := dequeued_of_job hr i k w job hworker (by rw [ha]; rfl)
      exact ⟨.worker i k, ⟨w, hworker, rfl, by rw [ha]; rfl⟩, job, hdequeued.concat label, rfl, rfl⟩
  | direct hl hd hdirect hrunning hm =>
      subst hl
      have hslot := (slot_of_driver hd).trans hdirect
      obtain ⟨_, _, _, _, _, hh, _⟩ := exists_inHand hreachable hrunning hm ⟨nofun, nofun⟩
      cases hh with
      | issues hlt hg =>
          exact ⟨.direct, hslot, e, _, _, _, _, _, _, .last hr _, hrunning, hm, hlt, hg, rfl, hslot⟩

/-- Whatever was executed on a connection, its owner was entitled to execute. -/
theorem entitled_of_executed (hr : run b {} labels = some e) : ∀ x ∈ e.executions,
    ∃ owner, Had b labels x.conn owner ∧ Entitled b labels x owner := by
  refine history (P := fun labels e => ∀ x ∈ e.executions,
    ∃ owner, Had b labels x.conn owner ∧ Entitled b labels x owner) ?_ ?_ hr
  · intro x hx
    simp at hx
  · intro labels label e next hr hs ih x hx
    have hkept (hold : x ∈ e.executions) : ∃ owner, Had b (labels ++ [label]) x.conn owner ∧
        Entitled b (labels ++ [label]) x owner := by
      obtain ⟨owner, hhad, hentitled⟩ := ih x hold
      exact ⟨owner, hhad.concat label, hentitled.concat label⟩
    rcases step_begins hs with hsame | ⟨y, hbegins, hpush⟩
    · exact hkept (hsame ▸ hx)
    · rw [hpush] at hx
      rcases Array.mem_push.mp hx with hold | rfl
      · exact hkept hold
      · obtain ⟨owner, howns, hentitled⟩ := begins_entitled hr hs hbegins
        exact ⟨owner, (Had.last hr howns).concat label, hentitled⟩

end Executions

end LoadBench.Engine
