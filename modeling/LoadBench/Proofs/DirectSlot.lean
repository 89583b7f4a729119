import LoadBench.Proofs.Backpressure
import LoadBench.Proofs.Dials
import LoadBench.Proofs.DirectCommand
import LoadBench.Proofs.Startup

/-!
The connection of a driver's direct phases, over any history of calls. It is dialed for by a direct
phase that finds none, and by nothing else. If that dial comes to nothing, the driver is left
without one. Once the driver has a connection, it keeps it for as long as it is the driver, however
its calls end, so no direct phase dials again, and each of them executes its commands on that
connection.
-/

namespace LoadBench

/-- A direct phase of so many equal commands. -/
def Phase.directPings (iterations : Nat) : Phase := { Phase.pings iterations with mode := .direct }

namespace Engine

variable {b : Backend} {e mid next s : Engine} {d d' : Driver} {phase : Phase} {todo : List Phase}
  {reports : List PhaseCount} {label : Label} {labels : List Label} {i conn : Nat} {p : WorkerPool}

/-- While a driver stays over its pool, it gets a connection by a dial of a direct phase, or it has
the one that it had. -/
theorem step_slot (h : Reachable b e) (hs : e.step b label = some next) (hd : e.driver = some d)
    (hd' : next.driver = some d') (hpool : d'.pool = d.pool) :
    d' = d ∨ e.progress.dials = true ∧ d' = { d with direct := some e.connections } := by
  cases step_deals h hs with
  | nothing h' =>
      rcases h'.driver d' hd' with hold | ⟨_, split, hr⟩
      · exact .inl (Option.some.inj (hold.symm.trans hd))
      · have hne := ((housed_of_reachable h).opening d'.pool (by rw [hr]; rfl)).2 d hd
        exact absurd hpool.symm hne
  | @connection j who h' =>
      have hnext := h'.driver.symm.trans hd'
      rw [hd] at hnext
      cases who with
      | worker | outside => exact .inl (Option.some.inj hnext).symm
      | direct =>
          refine .inr ⟨?_, (Option.some.inj hnext).symm⟩
          have hdialing := h'.dialing
          unfold dialing? at hdialing
          split at hdialing
          · cases hdialing
          · next hr =>
            rw [hr]
            rfl
          · next hr =>
            rw [hr]
            rfl
          · rw [hd] at hdialing
            cases hdialing
          · cases hdialing

/-- A driver that has a connection for its direct phases keeps it. -/
theorem step_keeps (h : Reachable b e) (hs : e.step b label = some next) (hd : e.driver = some d)
    (hdirect : d.direct = some conn) (hd' : next.driver = some d') (hpool : d'.pool = d.pool) :
    d' = d := by
  rcases step_slot h hs hd hd' hpool with hsame | ⟨hdials, _⟩
  · exact hsame
  · have hnone := (owned_of_reachable h).undialed hdials
    rw [slot_of_driver hd, hdirect] at hnone
    cases hnone

/-- A driver that is gone does not come back. -/
theorem run_gone (h : Reachable b e) (hp : e.pools[i]? = some p) (ho : e.opens i = false)
    (hgone : ∀ d, e.driver = some d → d.pool ≠ i) (hr : e.run b labels = some next) :
    ∀ d, next.driver = some d → d.pool ≠ i := by
  induction labels generalizing e p with
  | nil =>
      cases hr
      exact hgone
  | cons label labels ih =>
      obtain ⟨mid, hs, hr⟩ := run_cons.mp hr
      obtain ⟨p', hp', _⟩ := (step_views h hs).follows hp
      refine ih (h.step label hs) hp' (step_opens h hs hp ho) ?_ hr
      rintro d hd rfl
      rcases step_drives hs hd with ⟨d', hd', hpool, _⟩ | ⟨pool, _, _, _, hr', _, rfl, _⟩
      · exact hgone d' hd' hpool
      · unfold opens at ho
        rw [hr'] at ho
        simp [Progress.opening] at ho

/-- So a driver is the same one all the time between two states in which it is the driver. -/
theorem driver_of_run (h : Reachable b e) (hs : e.step b label = some mid)
    (hd : e.driver = some d) (hr : mid.run b labels = some next) (hd' : next.driver = some d')
    (hpool : d'.pool = d.pool) : ∃ d₁, mid.driver = some d₁ ∧ d₁.pool = d.pool := by
  by_contra hnone
  obtain ⟨p, hp, _⟩ := (housed_of_reachable h).driver d hd
  obtain ⟨p', hp', _⟩ := (step_views h hs).follows hp
  have hopens := step_opens h hs hp (not_opens_of_driver h hd)
  exact run_gone (h.step label hs) hp' hopens (fun d₁ hd₁ hsame => hnone ⟨d₁, hd₁, hsame⟩) hr d'
    hd' hpool

/-- What a direct phase executes, it executes on the connection of the driver. -/
theorem step_direct (h : Reachable b e) (hs : e.step b label = some next) {x : Execution}
    (hx : x ∈ next.executions) (hdirect : x.isDirect = true) :
    x ∈ e.executions ∨ e.slot = some x.conn := by
  rcases step_executes h hs hx with hold | hslot | ⟨_, _, _, _, job, _, _, _, _, ho⟩
  · exact .inl hold
  · exact .inr hslot
  · rw [Execution.isDirect, ← ho] at hdirect
    cases hdirect

/-- What is the case of a driver that has a connection for its direct phases, in any later state in
which it is the driver. -/
structure KeepsSlot (s : Engine) (d : Driver) (conn : Nat) (e : Engine) : Prop where
  driver : e.driver = some d
  dials : e.progress.dials = false
  executions : ∀ x ∈ e.executions, x.isDirect = true → x ∈ s.executions ∨ x.conn = conn

theorem keepsSlot_of_run (h : Reachable b s) (hd : s.driver = some d)
    (hdirect : d.direct = some conn) (hr : s.run b labels = some e) (hd' : e.driver = some d')
    (hpool : d'.pool = d.pool) : KeepsSlot s d conn e := by
  induction labels generalizing s with
  | nil =>
      cases hr
      refine ⟨hd, ?_, fun x hx _ => .inl hx⟩
      by_contra hdials
      have hnone := (owned_of_reachable h).undialed (Bool.eq_true_of_not_eq_false hdials)
      rw [slot_of_driver hd, hdirect] at hnone
      cases hnone
  | cons label labels ih =>
      obtain ⟨mid, hs, hr⟩ := run_cons.mp hr
      obtain ⟨d₁, hd₁, hpool₁⟩ := driver_of_run h hs hd hr hd' hpool
      obtain rfl := step_keeps h hs hd hdirect hd₁ hpool₁
      have hlater := ih (h.step label hs) hd₁ hr
      refine ⟨hlater.driver, hlater.dials, fun x hx hx' => ?_⟩
      rcases hlater.executions x hx hx' with hmid | hconn
      · rcases step_direct h hs hmid hx' with hold | hslot
        · exact .inl hold
        · rw [slot_of_driver hd, hdirect] at hslot
          exact .inr (Option.some.inj hslot).symm
      · exact .inr hconn

theorem run_of_runWhile {goesOn : Progress → Bool} (hr : e.runWhile b goesOn labels = some next) :
    e.run b labels = some next := by
  induction labels generalizing e with
  | nil => exact hr
  | cons label labels ih =>
      simp only [runWhile, Option.ite_none_right_eq_some, Option.bind_eq_some_iff] at hr
      obtain ⟨_, mid, hs, hr⟩ := hr
      exact run_cons.mpr ⟨mid, hs, ih hr⟩

/-- As long as no direct phase dials, the driver has the connection that it had, or none. -/
theorem same_of_runWhile (h : Reachable b s) (hd : s.driver = some d)
    (hr : s.runWhile b (!·.dials) labels = some e) (hd' : e.driver = some d')
    (hpool : d'.pool = d.pool) : d' = d := by
  induction labels generalizing s d with
  | nil =>
      cases hr
      exact Option.some.inj (hd'.symm.trans hd)
  | cons label labels ih =>
      simp only [runWhile, Option.ite_none_right_eq_some, Option.bind_eq_some_iff] at hr
      obtain ⟨hdials, mid, hs, hr⟩ := hr
      obtain ⟨d₁, hd₁, hpool₁⟩ := driver_of_run h hs hd (run_of_runWhile hr) hd' hpool
      rcases step_slot h hs hd hd₁ hpool₁ with rfl | ⟨hdial, _⟩
      · exact ih (h.step label hs) hd₁ hr hpool
      · rw [hdial] at hdials
        cases hdials

/-- What is the case of a driver's direct phases. -/
structure DirectPhases (b : Backend) (s : Engine) (d : Driver) : Prop where
  /-- Whatever there was before, a direct phase that begins is one of these at every state until its
  call goes on or returns. -/
  leg : ∀ (phase : Phase) (todo : List Phase) (reports : List PhaseCount) (e : Engine),
    s.progress = .planning (phase :: todo) reports → phase.mode = .direct → During b s e →
      DirectLeg b s d phase todo reports e
  /-- Once the driver has a connection, it keeps it, whatever happens to its calls. -/
  keeps : ∀ (conn : Nat) (labels : List Label) (e : Engine) (d' : Driver),
    d.direct = some conn → s.run b labels = some e → e.driver = some d' → d'.pool = d.pool →
      KeepsSlot s d conn e
  /-- Until a direct phase dials, it has what it had. -/
  same : ∀ (labels : List Label) (e : Engine) (d' : Driver),
    s.runWhile b (!·.dials) labels = some e → e.driver = some d' → d'.pool = d.pool → d' = d

/-- A direct phase without a connection dials once, before it generates anything, and if the dial
comes to nothing so does the phase. A connection serves all later direct phases of its driver. Each
direct phase executes its commands one by one in the order of their indices, and it has counted
exactly those before the one at which it stops. -/
theorem direct_phases (h : Reachable b s) (hd : s.driver = some d) : DirectPhases b s d where
  leg _ _ _ _ hr hm hduring := hduring.directLeg h hd hr hm
  keeps _ _ _ _ hdirect hr hd' hpool := keepsSlot_of_run h hd hdirect hr hd' hpool
  same _ _ _ hr hd' hpool := same_of_runWhile h hd hr hd' hpool

/-- The first direct phase of a driver stops at a dial that fails. The next one dials again, and it
executes both of its commands on the new connection. -/
theorem direct_phases_of_refusal : ∃ s d e, Reachable (.refusing 1) s ∧ s.driver = some d ∧
    d.direct = none ∧ s.dialAttempts = 2 ∧ During (.refusing 1) s e ∧
      DirectLeg (.refusing 1) s d (.directPings 2) [] [] e ∧
      e.progress = .planning [] [⟨"ping", .direct, 2, ⟨2, 0⟩⟩] ∧
      e.executions.toList.map (·.conn) = [1, 1] := by
  obtain ⟨s, hs⟩ : ∃ s, Engine.run (.refusing 1) {} [.call (.start 1 1 false), .act .caller,
      .act .caller, .call (.plan [.directPings 1]), .act .caller, .act .caller, .act .caller,
      .call (.plan [.directPings 2])] = some s := ⟨_, rfl⟩
  obtain ⟨begun, hbegun⟩ : ∃ begun, s.step (.refusing 1) (.act .caller) = some begun := by
    cases hs
    exact ⟨_, rfl⟩
  obtain ⟨e, he⟩ : ∃ e, begun.runPhase (.refusing 1) (.replicate 13 (.act .caller)) = some e := by
    cases hs
    cases hbegun
    exact ⟨_, rfl⟩
  have hreachable : Reachable (.refusing 1) s := Reachable.start.run hs
  have hduring : During (.refusing 1) s e := (During.begins hbegun).of_runPhase he
  have hdriver : s.driver = some ⟨0, 0, none⟩ := by
    cases hs
    rfl
  have hplanned : s.progress = .planning [.directPings 2] [] := by
    cases hs
    rfl
  have hleg := (direct_phases hreachable hdriver).leg _ _ _ e hplanned rfl hduring
  cases hs
  cases hbegun
  cases he
  exact ⟨_, _, _, hreachable, hdriver, rfl, rfl, hduring, hleg, rfl, rfl⟩

end Engine

end LoadBench
