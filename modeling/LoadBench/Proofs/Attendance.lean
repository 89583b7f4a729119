import LoadBench.Engine.Schedule

/-!
How a call is attended to. From the call on the caller and the workers take steps, in whatever
order, and permits may come to the gate. The call may be given up where it may be left, which is how
a caller that is interrupted leaves it. Nobody makes other calls meanwhile, or latches.

The schedule attends to calls, so what is proved of every attendance is proved of it.
-/

namespace LoadBench.Engine

/-- Whether a label is part of how a call is attended to. -/
def Label.attends : Label → Bool
  | .act _ | .release _ | .cancel => true
  | .call _ | .newLatch _ => false

/-- The states from a call on. -/
inductive InCall (b : Backend) (start : Engine) (request : Request) : Engine → Prop
  | begins {e : Engine} (hs : start.step b (.call request) = some e) : InCall b start request e
  | step {e next : Engine} (label : Label) (h : InCall b start request e)
      (hl : label.attends = true) (hs : e.step b label = some next) : InCall b start request next

/-- A way to serve calls that leaves each of them in one of its states, and tells what the call has
answered there. A call without an answer is one that has been left. -/
def Attends (b : Backend) (serve : Engine → Request → Answer × Engine) : Prop :=
  ∀ (e : Engine) (request : Request), e.progress.atRest = true →
    InCall b e request (serve e request).2 ∧
      (serve e request).1 = (serve e request).2.progress.answer?.getD .blocked

/-- Calls are made by a caller at rest. -/
theorem atRest_of_call {b : Backend} {e next : Engine} {request : Request}
    (hs : e.step b (.call request) = some next) : e.progress.atRest = true :=
  (Option.ite_none_right_eq_some.mp hs).1

section Schedule

variable {b : Backend} {P : Engine → Prop}
  (hP : ∀ (e next : Engine) (actor : Actor), P e → e.step b (.act actor) = some next → P next)

include hP

theorem turn_keeps (actor : Actor) (fuel left : Nat) (e : Engine) (h : P e) :
    P (turn b actor fuel left e).2 := by
  induction fuel generalizing left e with
  | zero => exact h
  | succ fuel ih =>
      rw [turn]
      split
      · exact h
      · split
        · exact h
        · next next hs => exact ih _ next (hP e next actor h hs)

theorem Line.turn_keeps (l : Line) (uses : Nat) (actor : Actor) (h : P l.engine) :
    P (l.turn b uses actor).engine :=
  Engine.turn_keeps hP actor (l.engine.work + 1) uses l.engine h

theorem Line.round_keeps (n : Nat) (l : Line) (h : P l.engine) : P (l.round b n).engine := by
  induction n generalizing l with
  | zero => exact h
  | succ n ih =>
      rw [Line.round]
      split
      · exact h
      · exact ih _ (Line.turn_keeps hP _ _ _ h)

theorem Line.drive_keeps (fuel uses : Nat) (l : Line) (h : P l.engine) :
    P (Line.drive b fuel uses l).engine := by
  induction fuel generalizing uses l with
  | zero => exact h
  | succ fuel ih =>
      have hround := Line.round_keeps hP turnsPerRound (l.turn b uses .caller)
        (Line.turn_keeps hP _ _ _ h)
      simp only [Line.drive]
      split
      · exact hround
      · exact ih _ _ hround

/-- What each step of somebody keeps is kept when everybody goes on until nobody can. -/
theorem settle_keeps (e : Engine) (h : P e) : P (e.settle b) := Line.drive_keeps hP _ _ _ h

end Schedule

/-- The schedule attends to calls. -/
theorem perform_attends (b : Backend) : Attends b (perform b) := by
  intro e request hr
  have hsettles {mid : Engine} (h : InCall b e request mid) : InCall b e request (mid.settle b) :=
    settle_keeps (fun _ _ actor h hs => .step (.act actor) h rfl hs) mid h
  have hbegins : InCall b e request (e.begin b request) := .begins (if_pos hr)
  refine ⟨?_, rfl⟩
  unfold perform
  simp only
  split
  · next mid hs => exact hsettles (.step .cancel (hsettles hbegins) rfl hs)
  · exact hsettles hbegins

end LoadBench.Engine
