import LoadBench.Proofs.Enabled
import LoadBench.Proofs.Measure
import LoadBench.Proofs.Run

/-!
A pooled phase over workers that go on comes to its end, whoever takes the next step. Somebody can
always take one, and each step takes work away; so the only way for a run to end is the return of
the call.
-/

namespace LoadBench.Engine

/-- The call that ran a phase has its report and goes on with the next one. -/
def Finished (phase : Phase) (todo : List Phase) (reports : List PhaseCount) (e : Engine) : Prop :=
  ∃ counts, e.progress = .planning todo (reports ++ [{
    name := phase.name
    mode := phase.mode
    iterations := phase.iterations
    counts }])

/-- Whichever steps the caller and the workers take, they come to a state of a kind. -/
inductive Inevitably (b : Backend) (goal : Engine → Prop) : Engine → Prop
  | now {e : Engine} (h : goal e) : Inevitably b goal e
  | later {e : Engine} (hcan : ∃ actor next, e.step b (.act actor) = some next)
      (hall : ∀ actor next, e.step b (.act actor) = some next → Inevitably b goal next) :
      Inevitably b goal e

/-- What is the case in each state of a phase that has not come to its end. -/
structure Completes (b : Backend) (phase : Phase) (todo : List Phase) (reports : List PhaseCount)
    (e : Engine) : Prop where
  enabled : ∃ actor next, e.step b (.act actor) = some next
  decreases : ∀ actor next, e.step b (.act actor) = some next → next.work < e.work
  /-- Nothing else that may happen meanwhile adds work. -/
  steady : ∀ label next, e.step b label = some next → next.work ≤ e.work
  returns : Inevitably b (Finished phase todo reports) e

variable {b : Backend} {e next start : Engine} {d : Driver} {p : WorkerPool} {phase : Phase}
  {todo : List Phase} {reports : List PhaseCount}

/-- A pooled phase that is not being run any longer, and whose call has not returned, is
finished. -/
theorem Going.running_or_finished (h : Going start d phase todo reports e) :
    e.progress.isRunning = true ∨ Finished phase todo reports e := by
  cases h.call with
  | entering hp | running hp | leaving _ hp =>
      rw [hp]
      exact .inl rfl
  | reported _ hp => exact .inr ⟨_, hp⟩

/-- The run of a phase over workers that go on ends with the return of the call. -/
theorem During.inevitably (h : During b start e) (hready : Ready b start d p phase todo reports)
    (hs : start.Staffed p) (hb : b.Settles) (hg : phase.Generates)
    (hgoing : Going start d phase todo reports e) (hsturdy : Sturdy d start.batches.size e) :
    Inevitably b (Finished phase todo reports) e := by
  -- The induction is on the work that is left, since every step of an actor takes some away.
  induction hn : e.work using Nat.strong_induction_on generalizing e with
  | h n ih =>
      rcases hgoing.running_or_finished with hr | hfinished
      · have hlatch := h.phaseLatch hready
        have hreachable := h.reachable hready.reachable
        refine .later (hsturdy.enabled hgoing hlatch hready.reachable hb hready.pooled hr) ?_
        intro actor next hstep
        have hless := (hgoing.work hreachable hr hstep).2 actor rfl
        have hreturned := hsturdy.not_returned hgoing hreachable hready.pooled hg hr hstep
        have hnext : During b start next := .step _ h hr hstep
        rcases hnext.going hready with ⟨answer, hanswer⟩ | hgoing'
        · exact absurd hanswer (hreturned answer)
        · rcases hnext.sturdy hready hb hs with ⟨answer, hanswer⟩ | hsturdy'
          · exact absurd hanswer (hreturned answer)
          · exact ih next.work (hn ▸ hless) hnext hgoing' hsturdy' rfl
      · exact .now hfinished

/-- In every state of a pooled phase over workers that go on, somebody can go on, every step takes
work away, and the call comes to its report under every schedule. -/
theorem completion (hready : Ready b start d p phase todo reports) (hs : start.Staffed p)
    (hb : b.Settles) (hg : phase.Generates) (h : During b start e)
    (hr : e.progress.isRunning = true) :
    Completes b phase todo reports e := by
  have hreachable := h.reachable hready.reachable
  have hgoing := (h.going hready).resolve_left (not_returned_of_isRunning hr)
  have hsturdy := (h.sturdy hready hb hs).resolve_left (not_returned_of_isRunning hr)
  refine ⟨?_, ?_, ?_, h.inevitably hready hs hb hg hgoing hsturdy⟩
  · exact hsturdy.enabled hgoing (h.phaseLatch hready) hready.reachable hb hready.pooled hr
  · exact fun actor next hstep => (hgoing.work hreachable hr hstep).2 actor rfl
  · exact fun label next hstep => (hgoing.work hreachable hr hstep).1

/-- A phase of three commands, with one worker and room for one job. -/
theorem completion_of_three : ∃ start d p e, Ready (.always .succeed) start d p (.pings 3) [] [] ∧
    start.Staffed p ∧ During (.always .succeed) start e ∧
      Completes (.always .succeed) (.pings 3) [] [] e := by
  obtain ⟨start, hstart⟩ : ∃ start,
      Engine.run (.always .succeed) {} (opening 3) = some start := ⟨_, rfl⟩
  obtain ⟨p, hready, _⟩ := ready_of_opening hstart
  have hstaffed := staffed_of_opening hstart hready
  obtain ⟨e, he⟩ : ∃ e, start.step (.always .succeed) (.act .caller) = some e := by
    cases hstart
    exact ⟨_, rfl⟩
  have hrunning : e.progress.isRunning = true := by
    cases hstart
    cases he
    rfl
  have hduring : During (.always .succeed) start e := .begins he
  exact ⟨start, ⟨0, 0, none⟩, p, e, hready, hstaffed, hduring,
    completion hready hstaffed (fun _ _ _ => rfl) (fun _ _ => ⟨_, rfl⟩) hduring hrunning⟩

end LoadBench.Engine
