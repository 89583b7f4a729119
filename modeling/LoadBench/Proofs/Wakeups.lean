import LoadBench.Latch.Waiters
import LoadBench.Proofs.Total

/-!
No wake-up of a latch is lost. A waiter sleeps only after a look that saw a count above zero, and
it was registered before that look. So when the count reaches zero the waiter is either still
awake or registered, and the one caller that took the count to zero is yet to wake it.

A count never goes up again. That is why a wait that is over stays justified, and why there is
only one caller that wakes.
-/

namespace LoadBench.Latch.Waiters

/-- What can come about at a latch of a count, by any operations in any order. -/
inductive Reachable (n : Nat) : Waiters → Prop
  | start : Reachable n { count := n }
  | step {s next : Waiters} (label : Label) (h : Reachable n s) (hs : s.step label = some next) :
      Reachable n next

/-- A wait is over only when the count is zero. Whoever sleeps and was not woken has reason to:
the count is above zero, or somebody is about to wake. -/
structure Justified (count waking : Nat) (w : Waiter) : Prop where
  returned : w.place = .returned → count = 0
  asleep : w.place = .asleep → w.woken = false → 0 < count ∨ 0 < waking

variable {n count waking : Nat} {s next : Waiters} {w w' : Waiter}

namespace Justified

theorem advance (h : Justified count waking w) (ha : Waiter.advance? count w = some w') :
    Justified count waking w' := by
  obtain ⟨place, woken⟩ := w
  cases place with
  | entering =>
      cases ha
      exact ⟨nofun, nofun⟩
  | registered =>
      cases ha
      -- The look decides, and it is at the count as it is now.
      by_cases hc : count = 0
      · simp only [hc, if_pos]
        exact ⟨fun _ => rfl, nofun⟩
      · simp only [hc, if_neg, not_false_eq_true]
        exact ⟨nofun, fun _ _ => .inl (Nat.pos_of_ne_zero hc)⟩
  | asleep =>
      simp only [Waiter.advance?] at ha
      split at ha
      · cases ha
        exact ⟨nofun, nofun⟩
      · cases ha
  | returned => cases ha

/-- When the count goes down the caller has the wake-up before it, or the count is not zero yet. -/
theorem countDown (h : Justified (count + 1) waking w) :
    Justified count (if count = 0 then waking + 1 else waking) w := by
  refine ⟨fun hw => absurd (h.returned hw) (Nat.succ_ne_zero count), fun hw hwoken => ?_⟩
  by_cases hc : count = 0
  · rw [if_pos hc]
    exact .inr (Nat.succ_pos waking)
  · exact .inl (Nat.pos_of_ne_zero hc)

/-- A wake-up leaves nobody asleep that is not woken. -/
theorem wake (h : Justified count (waking + 1) w) : Justified count waking (Waiter.wake w) := by
  obtain ⟨place, woken⟩ := w
  cases place with
  | entering => exact ⟨nofun, nofun⟩
  | registered => exact ⟨nofun, nofun⟩
  | asleep => exact ⟨nofun, nofun⟩
  | returned => exact ⟨h.returned, nofun⟩

/-- Nobody sleeps through the end: with nothing left to count and nobody about to wake, a waiter
has returned or can go on. -/
theorem advances (h : Justified 0 0 w) :
    w.place = .returned ∨ ∃ w', Waiter.advance? 0 w = some w' := by
  obtain ⟨place, woken⟩ := w
  cases place with
  | entering => exact .inr ⟨_, rfl⟩
  | registered => exact .inr ⟨_, rfl⟩
  | asleep =>
      cases woken with
      | false =>
          have hpos := h.asleep rfl rfl
          omega
      | true => exact .inr ⟨_, rfl⟩
  | returned => exact .inl rfl

end Justified

/-- The state of a latch that was made with a count. -/
structure Sound (n : Nat) (s : Waiters) : Prop where
  count : s.count = n - s.countDowns
  misuses : s.misuses = s.countDowns - n
  /-- The call that took the count to zero wakes or has woken; no other call ever does. -/
  wakeUps : s.waking + s.wakeUps = if s.count = 0 ∧ 0 < n then 1 else 0
  waiters : ∀ (k : Nat) (w : Waiter), s.waiters[k]? = some w → Justified s.count s.waking w

namespace Sound

theorem start : Sound n { count := n } := by
  refine ⟨rfl, (Nat.zero_sub n).symm, ?_, ?_⟩
  · exact (if_neg fun h => Nat.ne_of_gt h.2 h.1).symm
  · intro k w hw
    rw [Array.getElem?_empty] at hw
    cases hw

theorem enter (h : s.Sound n) : Sound n { s with waiters := s.waiters.push {} } := by
  refine ⟨h.count, h.misuses, h.wakeUps, ?_⟩
  intro k w hw
  change (s.waiters.push {})[k]? = some w at hw
  rw [Array.getElem?_push] at hw
  split at hw
  · cases hw
    exact ⟨nofun, nofun⟩
  · exact h.waiters k w hw

theorem advance {k : Nat} (h : s.Sound n) (hw : s.waiters[k]? = some w)
    (ha : Waiter.advance? s.count w = some w') :
    Sound n { s with waiters := s.waiters.set! k w' } := by
  refine ⟨h.count, h.misuses, h.wakeUps, ?_⟩
  intro j v hv
  rcases getElem?_set_cases hv with ⟨rfl, rfl⟩ | ⟨_, hv⟩
  · exact (h.waiters _ w hw).advance ha
  · exact h.waiters j v hv

theorem misuse (h : s.Sound n) (hc : s.count = 0) :
    Sound n { s with countDowns := s.countDowns + 1, misuses := s.misuses + 1 } := by
  have hcount := h.count
  have hmisuses := h.misuses
  refine ⟨?_, ?_, h.wakeUps, h.waiters⟩
  · change s.count = n - (s.countDowns + 1)
    omega
  · change s.misuses + 1 = s.countDowns + 1 - n
    omega

theorem countDown {m : Nat} (h : s.Sound n) (hc : s.count = m + 1) :
    Sound n { s with
      count := m
      waking := if m = 0 then s.waking + 1 else s.waking
      countDowns := s.countDowns + 1 } := by
  have hcount := h.count
  have hmisuses := h.misuses
  have hwakeUps := h.wakeUps
  rw [hc, if_neg (fun h => Nat.succ_ne_zero m h.1)] at hwakeUps
  refine ⟨?_, ?_, ?_, ?_⟩
  · change m = n - (s.countDowns + 1)
    omega
  · change s.misuses = s.countDowns + 1 - n
    omega
  · change (if m = 0 then s.waking + 1 else s.waking) + s.wakeUps = if m = 0 ∧ 0 < n then 1 else 0
    by_cases hm : m = 0
    · rw [if_pos hm, if_pos ⟨hm, by omega⟩]
      omega
    · rw [if_neg hm, if_neg (fun h => hm h.1)]
      exact hwakeUps
  · intro k w hw
    have hbefore := h.waiters k w hw
    rw [hc] at hbefore
    exact hbefore.countDown

theorem wake {m : Nat} (h : s.Sound n) (hm : s.waking = m + 1) :
    Sound n { s with
      waiters := s.waiters.map Waiter.wake
      waking := m
      wakeUps := s.wakeUps + 1 } := by
  have hwakeUps := h.wakeUps
  refine ⟨h.count, h.misuses, ?_, ?_⟩
  · change m + (s.wakeUps + 1) = if s.count = 0 ∧ 0 < n then 1 else 0
    omega
  · intro k v hv
    change (s.waiters.map Waiter.wake)[k]? = some v at hv
    rw [Array.getElem?_map, Option.map_eq_some_iff] at hv
    obtain ⟨w, hw, rfl⟩ := hv
    have hbefore := h.waiters k w hw
    rw [hm] at hbefore
    exact hbefore.wake

theorem step {label : Label} (h : s.Sound n) (hs : s.step label = some next) : next.Sound n := by
  cases label with
  | enter =>
      cases hs
      exact h.enter
  | advance k =>
      simp only [Waiters.step] at hs
      split at hs
      · cases hs
      · next w hw =>
          obtain ⟨w', ha, rfl⟩ := Option.map_eq_some_iff.mp hs
          exact h.advance hw ha
  | countDown =>
      simp only [Waiters.step] at hs
      split at hs
      · next hc =>
          cases hs
          exact h.misuse hc
      · next m hc =>
          cases hs
          exact h.countDown hc
  | wake =>
      simp only [Waiters.step] at hs
      split at hs
      · cases hs
      · next m hm =>
          cases hs
          exact h.wake hm

theorem of_reachable (h : Reachable n s) : s.Sound n := by
  induction h with
  | start => exact .start
  | step label _ hs ih => exact ih.step hs

end Sound

/-- What a latch of a count promises in each of its states. -/
structure Promise (n : Nat) (s : Waiters) : Prop where
  /-- No wait is over while something is left to count. -/
  returned : ∀ (k : Nat) (w : Waiter), s.waiters[k]? = some w → w.place = .returned → s.count = 0
  count : s.count = n - s.countDowns
  /-- At most one caller wakes, and one does as soon as the count has gone to zero. -/
  wakeUps : s.waking + s.wakeUps = if s.count = 0 ∧ 0 < n then 1 else 0
  /-- A call on a released latch is a misuse that moves neither the count nor a waiter. -/
  misuse : s.count = 0 → (Latch.mk s.count).countDown? = none ∧
    s.step .countDown =
      some { s with countDowns := s.countDowns + 1, misuses := s.misuses + 1 }
  misuses : s.misuses = s.countDowns - n
  /-- A released latch that nobody is about to wake has no waiter asleep without a wake-up, and
  each waiter has returned or can go on. -/
  awake : s.count = 0 → s.waking = 0 → ∀ (k : Nat) (w : Waiter), s.waiters[k]? = some w →
    (w.place = .asleep → w.woken = true) ∧
      (w.place = .returned ∨ ∃ next, s.step (.advance k) = some next)

theorem no_lost_wakeUp (h : Reachable n s) : Promise n s := by
  have hsound := Sound.of_reachable h
  refine ⟨fun k w hw => (hsound.waiters k w hw).returned, hsound.count, hsound.wakeUps, ?_,
    hsound.misuses, ?_⟩
  · intro hc
    refine ⟨?_, ?_⟩
    · rw [hc]
      rfl
    · simp only [step, hc]
  · intro hc hwaking k w hw
    have hjustified := hsound.waiters k w hw
    rw [hc, hwaking] at hjustified
    refine ⟨fun hplace => ?_, ?_⟩
    · cases hwoken : w.woken with
      | false =>
          have hpos := hjustified.asleep hplace hwoken
          omega
      | true => rfl
    · rcases hjustified.advances with hplace | ⟨w', ha⟩
      · exact .inl hplace
      · refine .inr ⟨{ s with waiters := s.waiters.set! k w' }, ?_⟩
        simp only [step, hw]
        rw [hc, ha]
        rfl

/-- A waiter that looked too early sleeps, and is woken by the call that counts the last job. -/
theorem no_lost_wakeUp_of_early_look : ∃ s, Reachable 1 s ∧ s.count = 0 ∧ s.waking = 0 ∧
    s.waiters = #[{ place := .asleep, woken := true }] ∧ Promise 1 s := by
  have hasleep : Reachable 1 { count := 1, waiters := #[{ place := .asleep }] } :=
    ((Reachable.start.step .enter rfl).step (.advance 0) rfl).step (.advance 0) rfl
  have hcounted : Reachable 1 {
      count := 0
      waiters := #[{ place := .asleep }]
      waking := 1
      countDowns := 1 } := hasleep.step .countDown rfl
  have hwoken : Reachable 1 {
      count := 0
      waiters := #[{ place := .asleep, woken := true }]
      countDowns := 1
      wakeUps := 1 } := hcounted.step .wake (by simp [step, Waiter.wake])
  exact ⟨_, hwoken, rfl, rfl, rfl, no_lost_wakeUp hwoken⟩

end LoadBench.Latch.Waiters
