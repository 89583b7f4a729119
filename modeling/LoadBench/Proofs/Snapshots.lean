import LoadBench.Tally.Accesses
import LoadBench.Proofs.Total

/-!
What a snapshot of the counters of executions can show. At each moment no more failures are counted
than executions, since a call counts its failure after its execution. A snapshot is not of one
moment: it has the first counter of one and the second of a later one. So it shows more failures
than executions if in between more failures are counted than there were executions without one,
and the failures of one counted execution are enough for that.
-/

namespace LoadBench.Tally

/-- Whether a call has counted its execution. -/
def Recording.counted : Recording → Bool
  | .entering _ => false
  | .failing | .returned _ => true

/-- Whether a call has counted a failure. -/
def Recording.countedFailure : Recording → Bool
  | .returned failed => failed
  | .entering _ | .failing => false

theorem Recording.counted_of_failure {r : Recording} (h : r.countedFailure = true) :
    r.counted = true := by
  cases r with
  | entering _ | failing => cases h
  | returned _ => rfl

namespace Accesses

/-- What can come about from a state on, by any accesses in any order. -/
inductive Later (s : Accesses) : Accesses → Prop
  | refl : Later s s
  | step {t next : Accesses} (label : Label) (h : Later s t) (hs : t.step label = some next) :
      Later s next

variable {s t next : Accesses} {label : Label}

theorem Later.trans (h : Later s t) (h' : Later t next) : Later s next := by
  induction h' with
  | refl => exact h
  | step label _ hs ih => exact ih.step label hs

/-! ## One access -/

/-- What one access finds and what it leaves. -/
inductive Access (s : Accesses) : Label → Accesses → Prop
  | begins (failed : Bool) : Access s (.record failed) { s with
      recordings := s.recordings.push (.entering failed) }
  | counts {k : Nat} {failed : Bool} (hk : s.recordings[k]? = some (.entering failed)) :
      Access s (.add k) { s with
        executed := s.executed + 1
        recordings := s.recordings.set! k (if failed then .failing else .returned false) }
  | countsFailure {k : Nat} (hk : s.recordings[k]? = some .failing) : Access s (.add k) { s with
      failed := s.failed + 1
      recordings := s.recordings.set! k (.returned true) }
  | comes : Access s .snapshot { s with readings := s.readings.push .entering }
  | loads {k : Nat} (hk : s.readings[k]? = some .entering) : Access s (.load k) { s with
      readings := s.readings.set! k (.halfway s.executed) }
  | loadsFailures {k : Nat} {executed : UInt64} (hk : s.readings[k]? = some (.halfway executed)) :
      Access s (.load k) { s with
        readings := s.readings.set! k (.returned executed s.failed) }

theorem step_access (h : s.step label = some next) : Access s label next := by
  cases label with
  | record failed =>
      cases h
      exact .begins failed
  | add k =>
      simp only [step] at h
      split at h
      · next hk =>
          cases h
          exact .counts hk
      · next hk =>
          cases h
          exact .countsFailure hk
      · cases h
  | snapshot =>
      cases h
      exact .comes
  | load k =>
      simp only [step] at h
      split at h
      · next hk =>
          cases h
          exact .loads hk
      · next hk =>
          cases h
          exact .loadsFailures hk
      · cases h

/-! ## The counters at one moment -/

private theorem countP_set {p : Recording → Bool} {xs : Array Recording} {k : Nat} {x : Recording}
    (hk : xs[k]? = some x) (y : Recording) :
    (xs.set! k y).countP p + (if p x then 1 else 0) = xs.countP p + if p y then 1 else 0 := by
  obtain ⟨hlt, rfl⟩ := Array.getElem?_eq_some_iff.mp hk
  have hle := Array.boole_getElem_le_countP (p := p) hlt
  rw [Array.set!_eq_setIfInBounds, Array.setIfInBounds, dif_pos hlt, Array.countP_set]
  omega

/-- Each counter holds how many calls have added to it. -/
structure Counted (s : Accesses) : Prop where
  executed : s.executed = UInt64.ofNat (s.recordings.countP Recording.counted)
  failed : s.failed = UInt64.ofNat (s.recordings.countP Recording.countedFailure)

theorem Counted.step (h : s.Counted) (hs : s.step label = some next) : next.Counted := by
  cases step_access hs with
  | begins failed =>
      constructor
      · rw [Array.countP_push]
        exact h.executed
      · rw [Array.countP_push]
        exact h.failed
  | @counts k failed hk =>
      have hset (p : Recording → Bool) :=
        countP_set (p := p) hk (if failed then .failing else .returned false)
      constructor
      · have hexecuted := hset Recording.counted
        rw [show Recording.counted (if failed then .failing else .returned false) = true by
          cases failed <;> rfl] at hexecuted
        rw [← Nat.add_zero (Array.countP _ _)]
        exact (congrArg (· + 1) h.executed).trans
          ((UInt64.ofNat_add _ 1).symm.trans (congrArg UInt64.ofNat hexecuted.symm))
      · have hfailed := hset Recording.countedFailure
        rw [show Recording.countedFailure (if failed then .failing else .returned false) = false by
          cases failed <;> rfl] at hfailed
        exact h.failed.trans (congrArg UInt64.ofNat hfailed.symm)
  | @countsFailure k hk =>
      constructor
      · have hexecuted := countP_set (p := Recording.counted) hk (.returned true)
        exact h.executed.trans (congrArg UInt64.ofNat (Nat.add_right_cancel hexecuted).symm)
      · have hfailed := countP_set (p := Recording.countedFailure) hk (.returned true)
        exact (congrArg (· + 1) h.failed).trans
          ((UInt64.ofNat_add _ 1).symm.trans (congrArg UInt64.ofNat hfailed.symm))
  | comes | loads _ | loadsFailures _ => exact ⟨h.executed, h.failed⟩

theorem counted_of_later (h : Later {} s) : s.Counted := by
  induction h with
  | refl => exact ⟨rfl, rfl⟩
  | step label _ hs ih => exact ih.step hs

/-- What the counters hold at one moment. -/
structure Moment (s : Accesses) : Prop where
  executed : s.executed.toNat = s.recordings.countP Recording.counted
  failed : s.failed.toNat = s.recordings.countP Recording.countedFailure
  le : s.failed ≤ s.executed

theorem moment (h : Later {} s) (hb : s.recordings.size < 2 ^ 64) : s.Moment := by
  have hcounted := counted_of_later h
  have hexecuted : s.executed.toNat = s.recordings.countP Recording.counted := by
    have hle : s.recordings.countP Recording.counted ≤ s.recordings.size :=
      Array.countP_le_size
    rw [hcounted.executed, UInt64.toNat_ofNat', Nat.mod_eq_of_lt (by omega)]
  have hfailed : s.failed.toNat = s.recordings.countP Recording.countedFailure := by
    have hle : s.recordings.countP Recording.countedFailure ≤ s.recordings.size :=
      Array.countP_le_size
    rw [hcounted.failed, UInt64.toNat_ofNat', Nat.mod_eq_of_lt (by omega)]
  refine ⟨hexecuted, hfailed, ?_⟩
  rw [UInt64.le_iff_toNat_le, hexecuted, hfailed]
  exact Array.countP_mono_left fun _ _ => Recording.counted_of_failure

/-! ## From one moment to a later one -/

/-- Neither the calls nor the counts go back. -/
structure Grown (s t : Accesses) : Prop where
  size : s.recordings.size ≤ t.recordings.size
  executed : s.recordings.countP Recording.counted ≤ t.recordings.countP Recording.counted
  failed : s.recordings.countP Recording.countedFailure ≤
    t.recordings.countP Recording.countedFailure

theorem Access.grown (h : Access s label next) : s.Grown next := by
  cases h with
  | begins failed =>
      refine ⟨?_, ?_, ?_⟩
      · rw [Array.size_push]
        exact Nat.le_succ _
      · rw [Array.countP_push]
        exact Nat.le_add_right _ _
      · rw [Array.countP_push]
        exact Nat.le_add_right _ _
  | @counts k failed hk =>
      have hset (p : Recording → Bool) :=
        countP_set (p := p) hk (if failed then .failing else .returned false)
      refine ⟨(Array.size_setIfInBounds ..).ge, ?_, ?_⟩
      · exact (Nat.le_add_right _ _).trans (hset Recording.counted).ge
      · exact (Nat.le_add_right _ _).trans (hset Recording.countedFailure).ge
  | @countsFailure k hk =>
      refine ⟨(Array.size_setIfInBounds ..).ge, ?_, ?_⟩
      · exact (Nat.add_right_cancel (countP_set (p := Recording.counted) hk (.returned true))).ge
      · exact (Nat.le_add_right _ _).trans
          (countP_set (p := Recording.countedFailure) hk (.returned true)).ge
  | comes | loads _ | loadsFailures _ => exact ⟨Nat.le_refl _, Nat.le_refl _, Nat.le_refl _⟩

theorem Later.grown (h : Later s t) : s.Grown t := by
  induction h with
  | refl => exact ⟨Nat.le_refl _, Nat.le_refl _, Nat.le_refl _⟩
  | step label _ hs ih =>
      have hone := (step_access hs).grown
      exact ⟨ih.size.trans hone.size, ih.executed.trans hone.executed, ih.failed.trans hone.failed⟩

/-! ## Snapshots -/

/-- Where the counts come from that a call has loaded. -/
inductive Loaded (s : Accesses) : Reading → Prop
  | entering : Loaded s .entering
  | halfway {first : Accesses} (h : Later {} first) (hs : Later first s) :
      Loaded s (.halfway first.executed)
  | returned {first second : Accesses} (h : Later {} first) (hf : Later first second)
      (hs : Later second s) : Loaded s (.returned first.executed second.failed)

theorem Loaded.later {r : Reading} (h : Loaded s r) (ht : Later s t) : Loaded t r := by
  cases h with
  | entering => exact .entering
  | halfway h hs => exact .halfway h (hs.trans ht)
  | returned h hf hs => exact .returned h hf (hs.trans ht)

theorem loaded_of_later (h : Later {} s) {k : Nat} {r : Reading} (hk : s.readings[k]? = some r) :
    Loaded s r := by
  induction h generalizing k r with
  | refl =>
      rw [Array.getElem?_empty] at hk
      cases hk
  | @step t next label h hs ih =>
      have hnext : Later t next := .step label .refl hs
      cases step_access hs with
      | begins _ | counts _ | countsFailure _ => exact (ih hk).later hnext
      | comes =>
          rw [Array.getElem?_push] at hk
          split at hk
          · cases hk
            exact .entering
          · exact (ih hk).later hnext
      | loads _ =>
          rcases getElem?_set_cases hk with ⟨_, rfl⟩ | ⟨_, hold⟩
          · exact .halfway h hnext
          · exact (ih hold).later hnext
      | loadsFailures hj =>
          rcases getElem?_set_cases hk with ⟨_, rfl⟩ | ⟨_, hold⟩
          · cases ih hj with
            | halfway hfirst hlater => exact .returned hfirst hlater hnext
          · exact (ih hold).later hnext

/-- What a snapshot shows: the first counter at one moment and the second at a later one. -/
structure Shown (executed failed : UInt64) (first second : Accesses) : Prop where
  shows : executed = first.executed ∧ failed = second.failed
  earlier : first.Moment
  later : second.Moment
  /-- It shows no more failures than executions if in between no more failures were counted than
  there were executions without a counted failure. -/
  fits : failed ≤ executed ↔
    second.failed.toNat - first.failed.toNat ≤ first.executed.toNat - first.failed.toNat
  /-- With the loads in the other order it never would. -/
  swapped : first.failed ≤ second.executed

theorem shown_of_later {first second : Accesses} (h : Later {} first) (hf : Later first second)
    (hb : second.recordings.size < 2 ^ 64) : Shown first.executed second.failed first second := by
  have hgrown := hf.grown
  have hfirst := moment h (Nat.lt_of_le_of_lt hgrown.size hb)
  have hsecond := moment (h.trans hf) hb
  have hle := UInt64.le_iff_toNat_le.mp hfirst.le
  have hfailed : first.failed.toNat ≤ second.failed.toNat := by
    rw [hfirst.failed, hsecond.failed]
    exact hgrown.failed
  refine ⟨⟨rfl, rfl⟩, hfirst, hsecond, ?_, ?_⟩
  · rw [UInt64.le_iff_toNat_le]
    omega
  · rw [UInt64.le_iff_toNat_le]
    exact hfailed.trans (UInt64.le_iff_toNat_le.mp hsecond.le)

/-- Every snapshot is one of two moments, of which the second may show a failure whose execution
the first does not. -/
theorem snapshot_of_two_moments (h : Later {} s) (hb : s.recordings.size < 2 ^ 64) {k : Nat}
    {executed failed : UInt64} (hk : s.readings[k]? = some (.returned executed failed)) :
    ∃ first second, Later {} first ∧ Later first second ∧ Later second s ∧
      Shown executed failed first second := by
  cases loaded_of_later h hk with
  | @returned first second hfirst hf hs =>
      have hbound : second.recordings.size < 2 ^ 64 := Nat.lt_of_le_of_lt hs.grown.size hb
      exact ⟨first, second, hfirst, hf, hs, shown_of_later hfirst hf hbound⟩

/-- An execution fails and is counted while a snapshot is taken, which shows the failure alone. -/
theorem snapshot_of_two_moments_of_one_failure : ∃ s : Accesses, Later {} s ∧
    s.readings[0]? = some (.returned 0 1) ∧ ¬ (1 : UInt64) ≤ 0 ∧
      ∃ first second, Later {} first ∧ Later first second ∧ Later second s ∧
        Shown 0 1 first second := by
  have hlater : Later {} {
      executed := 1
      failed := 1
      recordings := #[.returned true]
      readings := #[.returned 0 1] } :=
    (((((Later.refl.step .snapshot rfl).step (.load 0) rfl).step (.record true) rfl).step
      (.add 0) rfl).step (.add 0) rfl).step (.load 0) rfl
  exact ⟨_, hlater, rfl, by decide, snapshot_of_two_moments (k := 0) hlater (by decide) rfl⟩

/-! ## Calls that nobody interleaves with -/

private theorem set_push {β : Type} (xs : Array β) (x y : β) :
    (xs.push x).setIfInBounds xs.size y = xs.push y := by
  apply Array.ext_getElem?
  intro j
  rw [Array.getElem?_setIfInBounds, Array.getElem?_push, Array.getElem?_push, Array.size_push]
  grind

/-- Such a call counts as the counters do that are one value. -/
theorem tally_of_record (failed : Bool) (hexecuted : s.executed.toNat + 1 < 2 ^ 64)
    (hfailed : s.failed.toNat + 1 < 2 ^ 64) :
    ∃ t, s.record? failed = some t ∧ t.tally = s.tally.record failed := by
  have hadd {n : UInt64} (hn : n.toNat + 1 < 2 ^ 64) : (n + 1).toNat = n.toNat + 1 := by
    rw [UInt64.toNat_add]
    exact Nat.mod_eq_of_lt hn
  refine ⟨{ s with
    executed := s.executed + 1
    failed := if failed then s.failed + 1 else s.failed
    recordings := s.recordings.push (.returned failed) }, ?_, ?_⟩
  · cases failed <;> simp [record?, step, set_push]
  · cases failed <;> simp [tally, Tally.record, Tally.add, hadd hexecuted, hadd hfailed]

/-- Such a snapshot shows what the counters hold. -/
theorem reading_of_snapshot (s : Accesses) : s.snapshot? = some { s with
    readings := s.readings.push (.returned s.executed s.failed) } := by
  simp [snapshot?, step, set_push]

end Accesses

end LoadBench.Tally
