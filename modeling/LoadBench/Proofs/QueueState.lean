import LoadBench.Proofs.QueueOrder

/-!
What holds of a queue in every state, whoever uses it and however. Items stand in the order in
which they were accepted. Each slot is free, granted to a producer that has not noticed, or taken
by an item; the turn is free, granted, or had by one consumer. A producer or a consumer that gives
up leaves all of this as it would be without it.
-/

namespace LoadBench

namespace FairSemaphore

variable {τ : Type} {s s' : FairSemaphore τ} {t : τ}

/-- Who stands in line, in the order in which they began to wait. A permit is granted to the first
who has none, so those who were granted one are ahead of those who wait. -/
def line (s : FairSemaphore τ) : List τ := s.granted ++ s.waiting

theorem line_release : s.release.line = s.line := by
  simp only [line, release]
  split
  · next h => rw [h]
  · next t rest h => rw [h, List.append_assoc, List.singleton_append]

theorem waiting_release : s.release.waiting ⊆ s.waiting := by
  simp only [release]
  split
  · exact List.Subset.refl _
  · next t rest h =>
      rw [h]
      exact List.subset_cons_self t rest

variable [DecidableEq τ]

theorem line_withdraw : (s.withdraw t).line = s.line.erase t := by
  simp only [withdraw, List.contains_eq_mem, decide_eq_true_eq]
  split
  · next hg =>
      rw [line_release]
      exact (List.erase_append_left s.waiting hg).symm
  · next hg => exact (List.erase_append_right s.waiting hg).symm

theorem waiting_withdraw : (s.withdraw t).waiting ⊆ s.waiting := by
  simp only [withdraw]
  split
  · exact waiting_release
  · exact List.erase_subset

theorem permits_withdraw : (s.withdraw t).free + (s.withdraw t).granted.length =
    s.free + s.granted.length := by
  simp only [withdraw, List.contains_eq_mem, decide_eq_true_eq]
  split
  · next hg =>
      have hlength := List.length_erase_of_mem hg
      have hpos := List.length_pos_of_mem hg
      rw [permits_release]
      change s.free + (s.granted.erase t).length + 1 = _
      omega
  · rfl

/-- A caller that is turned away keeps no permit. -/
theorem permits_resume_of_closed (hc : s.closed = true) :
    (s.resume t).2.free + (s.resume t).2.granted.length = s.free + s.granted.length := by
  simp only [resume, hc, if_true, List.contains_eq_mem, decide_eq_true_eq]
  split
  · next hg =>
      have hlength := List.length_erase_of_mem hg
      have hpos := List.length_pos_of_mem hg
      rw [permits_release]
      change s.free + (s.granted.erase t).length + 1 = _
      omega
  · rfl

theorem busy_withdraw (h : s.Busy) : (s.withdraw t).Busy := by
  simp only [withdraw]
  split
  · exact busy_release h
  · intro hne
    exact h fun hnil => hne (by rw [hnil]; rfl)

/-- Whoever does not wait any longer has left the line. -/
theorem line_resume (hs : (s.resume t).1 ≠ .parked) : (s.resume t).2.line = s.line.erase t := by
  revert hs
  simp only [resume, List.contains_eq_mem, decide_eq_true_eq]
  split
  · next hg =>
      have herase := (List.erase_append_left s.waiting hg).symm
      split
      · intro _
        rw [line_release]
        exact herase
      · exact fun _ => herase
  · next hg =>
      split
      · exact fun _ => (List.erase_append_right s.waiting hg).symm
      · exact fun h => absurd rfl h

theorem waiting_resume : (s.resume t).2.waiting ⊆ s.waiting := by
  simp only [resume]
  split
  · split
    · exact waiting_release
    · exact List.Subset.refl _
  · split
    · exact List.erase_subset
    · exact List.Subset.refl _

end FairSemaphore

namespace JobQueue

variable {α π κ : Type} {q q' : JobQueue α π κ} {capacity : Nat} {p : π} {a : α} {c : κ}

/-- Whoever stands in line for a slot still does when a receiver goes. -/
theorem line_dropReceiver : q.dropReceiver.slots.line = q.slots.line ∧
    q.dropReceiver.slots.waiting = q.slots.waiting := by
  rcases slots_dropReceiver (q := q) with hsame | ⟨_, _, hwaiting, hgranted⟩
  · rw [hsame.slots]
    exact ⟨rfl, rfl⟩
  · rw [FairSemaphore.line, hwaiting, hgranted]
    exact ⟨rfl, rfl⟩

/-- The state of a queue that was made with a capacity. -/
structure Steady (capacity : Nat) (q : JobQueue α π κ) : Prop where
  order : q.Ordered
  handles : q.slots.closed = true ↔ q.receivers = 0
  room : q.slots.closed = false →
    q.slots.free + q.slots.granted.length + q.buffer.length = capacity
  busy : q.slots.closed = false → q.slots.Busy
  opened : q.turn.closed = false
  permit : q.turn.free + q.turn.granted.length + q.receiving.toList.length = 1
  turns : q.turn.Busy

namespace Steady

theorem ofCapacity (capacity : Nat) :
    (ofCapacity capacity : JobQueue α π κ).Steady capacity where
  order := .ofCapacity capacity
  handles := by simp [JobQueue.ofCapacity]
  room _ := rfl
  busy _ h := absurd rfl h
  opened := rfl
  permit := rfl
  turns h := absurd rfl h

/-- What happens at the slots is no business of the turn. -/
theorem ofSlots (h : q.Steady capacity) (order : q'.Ordered)
    (closed : q'.slots.closed = q.slots.closed)
    (room : q.slots.closed = false →
      q'.slots.free + q'.slots.granted.length + q'.buffer.length = capacity)
    (busy : q.slots.closed = false → q'.slots.Busy) (hreceivers : q'.receivers = q.receivers)
    (hturn : q'.turn = q.turn) (hreceiving : q'.receiving = q.receiving) :
    q'.Steady capacity where
  order := order
  handles := by rw [closed, hreceivers]; exact h.handles
  room hc := room (closed ▸ hc)
  busy hc := busy (closed ▸ hc)
  opened := hturn ▸ h.opened
  permit := by rw [hturn, hreceiving]; exact h.permit
  turns := hturn ▸ h.turns

/-- What happens at the turn is no business of the slots and the items. -/
theorem ofTurn (h : q.Steady capacity) (items : q'.items = q.items) (slots : q'.slots = q.slots)
    (hreceivers : q'.receivers = q.receivers) (opened : q'.turn.closed = false)
    (permit : q'.turn.free + q'.turn.granted.length + q'.receiving.toList.length = 1)
    (turns : q'.turn.Busy) : q'.Steady capacity where
  order := h.order.congr items (congrArg FairSemaphore.closed slots)
  handles := by rw [slots, hreceivers]; exact h.handles
  room hc := by
    have hbuffer : q'.buffer = q.buffer := congrArg Prod.fst items
    rw [slots, hbuffer]
    exact h.room (slots ▸ hc)
  busy hc := slots ▸ h.busy (slots ▸ hc)
  opened := opened
  permit := permit
  turns := turns

theorem offer (h : q.Steady capacity) (p : π) (a : α) : (q.offer p a).2.Steady capacity := by
  have horder := h.order.offer p a
  rcases hq : q.offer p a with ⟨_ | _ | _, q'⟩ <;> rw [hq] at horder
  · obtain ⟨_, hc, n, hn, rfl⟩ := offer_taken hq
    refine h.ofSlots horder rfl (fun _ => ?_) (fun _ hne => ?_) rfl rfl rfl
    · have hroom := h.room hc
      change n + q.slots.granted.length + (q.buffer ++ [a]).length = capacity
      rw [List.length_append, List.length_singleton]
      omega
    · have hfree := h.busy hc hne
      omega
  · obtain ⟨_, _, hfree, rfl⟩ := offer_parked hq
    exact h.ofSlots horder rfl h.room (fun _ _ => hfree) rfl rfl rfl
  · obtain ⟨_, rfl⟩ := offer_refused hq
    exact h

theorem reoffer [DecidableEq π] (h : q.Steady capacity) (hr : q.offerReady p = true) (a : α) :
    (q.reoffer p a).2.Steady capacity := by
  have horder := h.order.reoffer p a
  have hparked := reoffer_ne_parked hr a
  rcases hq : q.reoffer p a with ⟨_ | _ | _, q'⟩ <;> rw [hq] at horder hparked
  · obtain ⟨hc, hg, rfl⟩ := reoffer_taken hq
    refine h.ofSlots horder rfl (fun _ => ?_) (fun _ => h.busy hc) rfl rfl rfl
    have hroom := h.room hc
    have hlength := List.length_erase_of_mem hg
    have hpos := List.length_pos_of_mem hg
    change q.slots.free + (q.slots.granted.erase p).length + (q.buffer ++ [a]).length = capacity
    rw [List.length_append, List.length_singleton]
    omega
  · exact absurd rfl hparked
  · obtain ⟨hc, rfl⟩ := reoffer_refused hq
    have habsurd (hopen : q.slots.closed = false) : False := by
      rw [hc] at hopen
      cases hopen
    exact h.ofSlots horder FairSemaphore.closed_resume (fun hopen => (habsurd hopen).elim)
      (fun hopen => (habsurd hopen).elim) rfl rfl rfl

/-- A producer that gives up takes no slot with it. -/
theorem withdrawOffer [DecidableEq π] (h : q.Steady capacity) (p : π) :
    (q.withdrawOffer p).Steady capacity := by
  refine h.ofSlots h.order.withdrawOffer FairSemaphore.closed_withdraw (fun hc => ?_)
    (fun hc => FairSemaphore.busy_withdraw (h.busy hc)) rfl rfl rfl
  have hroom := h.room hc
  have hpermits := FairSemaphore.permits_withdraw (s := q.slots) (t := p)
  change (q.slots.withdraw p).free + (q.slots.withdraw p).granted.length + q.buffer.length = _
  omega

theorem ask (h : q.Steady capacity) (c : κ) : (q.ask c).Steady capacity := by
  have hpermit := h.permit
  refine h.ofTurn items_ask sameSlots_ask.slots receivers_ask ?_ ?_ ?_ <;>
    rcases ask_cases h.opened c with ⟨hfree, hq⟩ | ⟨n, hfree, hq⟩ <;> rw [hq]
  · exact h.opened
  · exact h.opened
  · exact hpermit
  · change n + q.turn.granted.length + 1 = 1
    omega
  · exact fun _ => hfree
  · intro _
    change n = 0
    omega

/-- A consumer that was granted the turn is the only one who has it. -/
theorem takeTurn [DecidableEq κ] (h : q.Steady capacity) (hr : q.turn.ready c = true) :
    (q.takeTurn c).Steady capacity := by
  obtain ⟨hg, hq⟩ := takeTurn_of_ready h.opened hr
  have hpermit := h.permit
  have hlength := List.length_erase_of_mem hg
  have hpos := List.length_pos_of_mem hg
  refine h.ofTurn items_takeTurn sameSlots_takeTurn.slots receivers_takeTurn ?_ ?_ ?_ <;> rw [hq]
  · exact h.opened
  · change q.turn.free + (q.turn.granted.erase c).length + 1 = 1
    omega
  · exact h.turns

theorem endTurn (h : q.Steady capacity) (hr : q.receiving = some c) :
    q.endTurn.Steady capacity := by
  have hpermit := h.permit
  have hreleased := FairSemaphore.permits_release (s := q.turn)
  rw [hr, Option.toList_some, List.length_singleton] at hpermit
  refine h.ofTurn items_endTurn rfl rfl (FairSemaphore.closed_release.trans h.opened) ?_
    (FairSemaphore.busy_release h.turns)
  change q.turn.release.free + q.turn.release.granted.length + 0 = 1
  omega

/-- An item that is taken leaves its slot to the next producer. -/
theorem receive (h : q.Steady capacity) (hr : q.receiving = some c) :
    q.receive.2.Steady capacity := by
  rcases hq : q.receive with ⟨a | _ | _, q'⟩
  · obtain ⟨rest, hbuffer, hq'⟩ := receive_item hq
    have horder := h.order.receive
    rw [hq, hq'] at horder
    have htaken : Steady capacity { q with
        buffer := rest
        slots := q.slots.release
        delivered := q.delivered.push a } := by
      refine h.ofSlots (horder.congr rfl rfl) FairSemaphore.closed_release (fun hc => ?_)
        (fun hc => FairSemaphore.busy_release (h.busy hc)) rfl rfl rfl
      have hroom := h.room hc
      have hreleased := FairSemaphore.permits_release (s := q.slots)
      rw [hbuffer, List.length_cons] at hroom
      change q.slots.release.free + q.slots.release.granted.length + rest.length = capacity
      omega
    rw [hq']
    exact htaken.endTurn hr
  · obtain ⟨_, _, rfl⟩ := receive_ended hq
    exact h.endTurn hr
  · obtain rfl := receive_nothing hq
    exact h

/-- A consumer that gives up takes neither an item nor the turn with it. -/
theorem withdrawAsk [DecidableEq κ] (h : q.Steady capacity) (c : κ) :
    (q.withdrawAsk c).Steady capacity := by
  simp only [JobQueue.withdrawAsk]
  split
  · next hr => exact h.endTurn hr
  · refine h.ofTurn rfl rfl rfl (FairSemaphore.closed_withdraw.trans h.opened) ?_
      (FairSemaphore.busy_withdraw h.turns)
    have hpermit := h.permit
    have hpermits := FairSemaphore.permits_withdraw (s := q.turn) (t := c)
    change (q.turn.withdraw c).free + (q.turn.withdraw c).granted.length +
      q.receiving.toList.length = 1
    omega

theorem close (h : q.Steady capacity) : q.close.Steady capacity :=
  h.ofTurn rfl rfl rfl h.opened h.permit h.turns

theorem cloneReceiver (h : q.Steady capacity) (hr : q.receivers ≠ 0) :
    q.cloneReceiver.Steady capacity where
  order := h.order.congr rfl rfl
  handles := by
    rw [show q.cloneReceiver.slots = q.slots from rfl, h.handles]
    exact iff_of_false hr (Nat.succ_ne_zero q.receivers)
  room := h.room
  busy := h.busy
  opened := h.opened
  permit := h.permit
  turns := h.turns

theorem dropReceiver (h : q.Steady capacity) (hr : q.receivers ≠ 0) :
    q.dropReceiver.Steady capacity := by
  obtain ⟨hturn, hreceiving⟩ := turn_dropReceiver (q := q)
  obtain ⟨_, hhandles⟩ := receivers_dropReceiver h.handles (Nat.pos_of_ne_zero hr)
  refine ⟨h.order.dropReceiver, hhandles, ?_, ?_, hturn ▸ h.opened, ?_, hturn ▸ h.turns⟩
  · rcases slots_dropReceiver (q := q) with hsame | ⟨_, hclosed, _⟩
    · rw [hsame.slots, hsame.buffer]
      exact h.room
    · intro hopen
      rw [hclosed] at hopen
      cases hopen
  · rcases slots_dropReceiver (q := q) with hsame | ⟨_, hclosed, _⟩
    · rw [hsame.slots]
      exact h.busy
    · intro hopen
      rw [hclosed] at hopen
      cases hopen
  · rw [hturn, hreceiving]
    exact h.permit

/-- No more items are in the buffer than the queue has room for. -/
theorem length_buffer_le (h : q.Steady capacity) : q.buffer.length ≤ capacity := by
  cases hc : q.slots.closed with
  | false =>
      have hroom := h.room hc
      omega
  | true =>
      rw [h.order.gone hc]
      exact Nat.zero_le capacity

end Steady

end JobQueue

end LoadBench
