import LoadBench.Proofs.Acceptance
import LoadBench.Proofs.Commute
import LoadBench.Proofs.FairRun
import Mathlib.Data.Nat.Pairing

/-!
A fair schedule, from any state on. The workers of a pool take turns, each of them again and again,
and nobody else does anything. If every execution comes to an end by itself and all workers of a
driver's pool go on, the pool is attended on that schedule.
-/

namespace LoadBench.Engine

/-- What is next at the turn of a worker: its own step, if it has one. -/
def turnOf (b : Backend) (e : Engine) (i k : Nat) : Label :=
  if (e.workerStep b i k).isSome then .act (.worker i k) else .release 0

/-- The state after so many turns. The turn of a number is that of the worker that is the first
part of the number as a pair, so each worker has a turn again and again. -/
def afterTurns (b : Backend) (e : Engine) (i : Nat) : Nat → Engine
  | 0 => e
  | n + 1 =>
      let now := e.afterTurns b i n
      (now.step b (now.turnOf b i n.unpair.1)).getD now

variable {b : Backend} {e next : Engine} {d : Driver} {p : WorkerPool} {i k n : Nat}

theorem ofCaller_turnOf : (e.turnOf b i k).ofCaller = false := by
  unfold turnOf
  split <;> rfl

theorem exists_step_turnOf (b : Backend) (e : Engine) (i k : Nat) :
    ∃ next, e.step b (e.turnOf b i k) = some next := by
  unfold turnOf
  split
  · next henabled => exact Option.isSome_iff_exists.mp henabled
  · exact ⟨_, rfl⟩

theorem step_afterTurns : (e.afterTurns b i n).step b ((e.afterTurns b i n).turnOf b i n.unpair.1) =
    some (e.afterTurns b i (n + 1)) := by
  obtain ⟨next, hs⟩ := exists_step_turnOf b (e.afterTurns b i n) i n.unpair.1
  simp only [afterTurns, hs, Option.getD_some]

/-- The schedule on which the workers of a pool take turns. -/
def rotation (b : Backend) (e : Engine) (i : Nat) : Schedule b e where
  state := e.afterTurns b i
  label n := (e.afterTurns b i n).turnOf b i n.unpair.1
  begins := rfl
  step _ := step_afterTurns

theorem rotation_fair (b : Backend) (e : Engine) (i : Nat) : (e.rotation b i).Fair i := by
  intro k start henabled
  refine ⟨Nat.pair k start, Nat.right_le_pair k start, ?_⟩
  obtain ⟨next, hs⟩ := henabled _ (Nat.right_le_pair k start)
  change (e.afterTurns b i (Nat.pair k start)).workerStep b i k = some next at hs
  change (e.afterTurns b i (Nat.pair k start)).turnOf b i (Nat.pair k start).unpair.1 = _
  rw [Nat.unpair_pair, turnOf, hs]
  rfl

/-- What others do makes no queue accept anything. -/
theorem accepted_of_others {label : Label} (hs : e.step b label = some next)
    (hl : label.ofCaller = false) : SameAccepted e.pools next.pools := by
  have hm := step_move hs
  change SameAccepted e.bare.pools next.bare.pools
  generalize next.bare = after at hm ⊢
  cases hm with
  | stay permits | latch size => exact .refl _
  | worker hp hw h => exact fun i q q' hq hq' => h.accepted hp hq hq'
  | caller hl' _ =>
      rw [hl] at hl'
      cases hl'

/-- A staffed pool stays staffed while its workers take turns. -/
theorem Staffed.afterTurns (hs : e.Staffed p) (h : Reachable b e) (hb : b.Settles)
    (hd : e.driver = some d) (hp : e.pools[d.pool]? = some p) (n : Nat) :
    Reachable b (e.afterTurns b d.pool n) ∧ (e.afterTurns b d.pool n).driver = some d ∧
      ∃ p', (e.afterTurns b d.pool n).pools[d.pool]? = some p' ∧
        (e.afterTurns b d.pool n).Staffed p' := by
  induction n with
  | zero => exact ⟨h, hd, p, hp, hs⟩
  | succ n ih =>
      obtain ⟨hreachable, hdriver, p', hp', hstaffed⟩ := ih
      have hstep := step_afterTurns (b := b) (e := e) (i := d.pool) (n := n)
      obtain ⟨_, _, hsame⟩ := step_of_others hstep ofCaller_turnOf
      obtain ⟨p'', hp'', _⟩ := (step_views hreachable hstep).follows hp'
      refine ⟨hreachable.step _ hstep, hsame.trans hdriver, p'', hp'', ?_⟩
      apply hstaffed.step hreachable hb hdriver hp' hstep hp''
      intro job hpush
      rw [accepted_of_others hstep ofCaller_turnOf d.pool p' p'' hp' hp''] at hpush
      exact (ne_push _ _ hpush).elim

theorem rotation_attended (h : Reachable b e) (hb : b.Settles) (hd : e.driver = some d)
    (hp : e.pools[d.pool]? = some p) (hs : e.Staffed p) :
    (e.rotation b d.pool).Attended d.pool := by
  constructor
  · intro n q hq
    obtain ⟨_, _, p', hp', hstaffed⟩ := hs.afterTurns h hb hd hp n
    change (e.afterTurns b d.pool n).pools[d.pool]? = some q at hq
    cases hp'.symm.trans hq
    have hw := Array.getElem?_eq_getElem hstaffed.workers
    exact .inl ⟨0, _, hw, hstaffed.live 0 _ hw⟩
  · intro n k w hw job fault
    have hreachable := (hs.afterTurns h hb hd hp n).1
    exact not_stalled (settles_of_reachable hb hreachable hw) job fault

end LoadBench.Engine
