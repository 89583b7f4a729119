import LoadBench.Engine.Step

/-!
Runs of the engine as lists of labels, one after the other.
-/

namespace LoadBench

/-- A backend that answers every dial and does the same with every command. -/
def Backend.always (conduct : Conduct) : Backend where
  dial _ := .connect
  execute _ _ _ := conduct
  closePanic _ := none

/-- A pooled phase of so many equal commands. -/
def Phase.pings (iterations : Nat) : Phase where
  name := "ping"
  mode := .pooled
  iterations
  generate _ := .ok (.ofName "ping")

namespace Engine

/-- The state after the labels of a list, if each of them can act in its turn. -/
def run (b : Backend) : Engine → List Label → Option Engine
  | e, [] => some e
  | e, label :: labels => (e.step b label).bind fun next => run b next labels

/-- The state after the labels of a list, as long as the call goes on in some way. -/
def runWhile (b : Backend) (goesOn : Progress → Bool) : Engine → List Label → Option Engine
  | e, [] => some e
  | e, label :: labels =>
      if goesOn e.progress then
        (e.step b label).bind fun next => runWhile b goesOn next labels
      else none

/-- The caller starts one worker, with room for one job, and plans a phase. -/
def opening (iterations : Nat) : List Label :=
  [.call (.start 1 1 false), .act .caller, .act .caller, .call (.plan [.pings iterations])]

variable {b : Backend} {e next : Engine} {label : Label} {labels : List Label}

theorem run_cons : e.run b (label :: labels) = some next ↔
    ∃ mid, e.step b label = some mid ∧ mid.run b labels = some next :=
  Option.bind_eq_some_iff

theorem Reachable.run (h : Reachable b e) (hr : e.run b labels = some next) :
    Reachable b next := by
  induction labels generalizing e with
  | nil =>
      cases hr
      exact h
  | cons label labels ih =>
      obtain ⟨mid, hs, hr⟩ := run_cons.mp hr
      exact ih (h.step label hs) hr

theorem of_runWhile {goesOn : Progress → Bool} {P : Engine → Prop}
    (hstep : ∀ (e next : Engine) (label : Label), P e → goesOn e.progress = true →
      e.step b label = some next → P next)
    (h : P e) (hr : e.runWhile b goesOn labels = some next) : P next := by
  induction labels generalizing e with
  | nil =>
      cases hr
      exact h
  | cons label labels ih =>
      simp only [runWhile, Option.ite_none_right_eq_some, Option.bind_eq_some_iff] at hr
      obtain ⟨hgoesOn, mid, hs, hr⟩ := hr
      exact ih (hstep e mid label h hgoesOn hs) hr

theorem runWhile_of_stopped {goesOn : Progress → Bool} (h : goesOn e.progress = false)
    (hr : e.runWhile b goesOn labels = some next) : next = e := by
  cases labels with
  | nil =>
      cases hr
      rfl
  | cons label labels =>
      simp only [runWhile, h, Bool.false_eq_true, if_false] at hr
      cases hr

end Engine

end LoadBench
