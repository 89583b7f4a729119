import LoadBench.Proofs.QueueSteps

/-!
Items leave a queue in the order in which it accepted them. As long as there is a receiver nothing
is discarded. The last receiver discards all that is left, and nothing is accepted afterwards, so
what is discarded are the last items that were accepted.
-/

namespace LoadBench.JobQueue

variable {α π κ : Type} {q q' : JobQueue α π κ}

/-- What was accepted was delivered, in the same order, and is in the buffer or was discarded from
there. -/
structure Ordered (q : JobQueue α π κ) : Prop where
  order : q.accepted.toList = q.delivered.toList ++ q.buffer ++ q.discarded.toList
  kept : q.slots.closed = false → q.discarded = #[]
  gone : q.slots.closed = true → q.buffer = []

namespace Ordered

theorem ofCapacity (capacity : Nat) : (ofCapacity capacity : JobQueue α π κ).Ordered :=
  ⟨rfl, fun _ => rfl, fun _ => rfl⟩

theorem congr (h : q.Ordered) (hi : q'.items = q.items) (hc : q'.slots.closed = q.slots.closed) :
    q'.Ordered := by
  simp only [items, Prod.mk.injEq] at hi
  obtain ⟨hbuffer, haccepted, hdelivered, hdiscarded⟩ := hi
  refine ⟨?_, ?_, ?_⟩
  · rw [haccepted, hdelivered, hbuffer, hdiscarded]
    exact h.order
  · rw [hc, hdiscarded]
    exact h.kept
  · rw [hc, hbuffer]
    exact h.gone

theorem ask {c : κ} (h : q.Ordered) : (q.ask c).Ordered :=
  h.congr items_ask (congrArg FairSemaphore.closed sameSlots_ask.slots)

theorem takeTurn [DecidableEq κ] {c : κ} (h : q.Ordered) : (q.takeTurn c).Ordered :=
  h.congr items_takeTurn (congrArg FairSemaphore.closed sameSlots_takeTurn.slots)

theorem withdrawOffer [DecidableEq π] {p : π} (h : q.Ordered) : (q.withdrawOffer p).Ordered :=
  h.congr items_withdrawOffer FairSemaphore.closed_withdraw

/-- Nothing was discarded when an item is accepted. -/
theorem push {slots : FairSemaphore π} {a : α} (h : q.Ordered) (hc : q.slots.closed = false)
    (hs : slots.closed = false) : ({ q with slots }.push a).Ordered := by
  refine ⟨?_, fun _ => h.kept hc, fun hclosed => ?_⟩
  · change (q.accepted.push a).toList =
      q.delivered.toList ++ (q.buffer ++ [a]) ++ q.discarded.toList
    rw [Array.toList_push, h.order, h.kept hc]
    simp
  · exact absurd (hs.symm.trans hclosed) Bool.false_ne_true

theorem offer (h : q.Ordered) (p : π) (a : α) : (q.offer p a).2.Ordered := by
  rcases hq : q.offer p a with ⟨_ | _ | _, q'⟩
  · obtain ⟨_, hc, n, _, rfl⟩ := offer_taken hq
    exact h.push hc hc
  · obtain ⟨_, _, _, rfl⟩ := offer_parked hq
    exact h.congr rfl rfl
  · obtain ⟨_, rfl⟩ := offer_refused hq
    exact h

theorem reoffer [DecidableEq π] (h : q.Ordered) (p : π) (a : α) : (q.reoffer p a).2.Ordered := by
  rcases hq : q.reoffer p a with ⟨_ | _ | _, q'⟩
  · obtain ⟨hc, _, rfl⟩ := reoffer_taken hq
    exact h.push hc hc
  · obtain rfl : q' = { q with slots := (q.slots.resume p).2 } := by
      simp only [JobQueue.reoffer] at hq
      split at hq
      · cases hq
      · next hs =>
          cases hq
          rw [hs]
    exact h.congr rfl FairSemaphore.closed_resume
  · obtain ⟨_, rfl⟩ := reoffer_refused hq
    exact h.congr rfl FairSemaphore.closed_resume

theorem enter {κ : Type} {q : JobQueue α Unit κ} (h : q.Ordered) (waits : Bool) (a : α) :
    (q.enter waits a).2.Ordered := by
  cases waits with
  | false => exact h.offer () a
  | true => exact h.reoffer () a

/-- The first item of the buffer is the next one to be delivered. -/
theorem receive (h : q.Ordered) : q.receive.2.Ordered := by
  simp only [JobQueue.receive]
  split
  · next a rest hb =>
      refine ⟨?_, fun hc => ?_, fun hc => ?_⟩
      · change q.accepted.toList = (q.delivered.push a).toList ++ rest ++ q.discarded.toList
        rw [h.order, hb, Array.toList_push]
        simp
      · exact h.kept (FairSemaphore.closed_release.symm.trans hc)
      · have hempty := h.gone (FairSemaphore.closed_release.symm.trans hc)
        rw [hb] at hempty
        cases hempty
  · split
    · exact h
    · exact h.congr rfl rfl

/-- The last receiver takes the whole buffer with it. -/
theorem dropReceiver (h : q.Ordered) : q.dropReceiver.Ordered := by
  simp only [JobQueue.dropReceiver]
  split
  · exact h
  · refine ⟨?_, fun hc => Bool.noConfusion hc, fun _ => rfl⟩
    change q.accepted.toList = q.delivered.toList ++ [] ++ (q.discarded ++ q.buffer.toArray).toList
    rw [h.order]
    cases hc : q.slots.closed with
    | false => simp [h.kept hc]
    | true => simp [h.gone hc]
  · exact h.congr rfl rfl

end Ordered

end LoadBench.JobQueue
