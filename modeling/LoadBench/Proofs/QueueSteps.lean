import LoadBench.JobQueue

/-!
What the operations of the queue do, each said once as an equation on the queue. An operation that
can come out in several ways has one fact for each of them.
-/

namespace LoadBench

namespace FairSemaphore

variable {τ : Type} {s s' : FairSemaphore τ} {t : τ}

theorem request_taken (h : s.request t = (.taken, s')) :
    s.closed = false ∧ ∃ n, s.free = n + 1 ∧ s' = { s with free := n } := by
  simp only [request] at h
  split at h
  · cases h
  · next hc =>
      split at h
      · cases h
      · next n hn =>
          cases h
          exact ⟨by simpa using hc, n, hn, rfl⟩

theorem request_parked (h : s.request t = (.parked, s')) :
    s.closed = false ∧ s.free = 0 ∧ s' = { s with waiting := s.waiting ++ [t] } := by
  simp only [request] at h
  split at h
  · cases h
  · next hc =>
      split at h
      · next hn =>
          cases h
          exact ⟨by simpa using hc, hn, rfl⟩
      · cases h

theorem request_refused (h : s.request t = (.refused, s')) : s.closed = true ∧ s' = s := by
  simp only [request] at h
  split at h
  · next hc =>
      cases h
      exact ⟨hc, rfl⟩
  · split at h <;> cases h

theorem closed_release : s.release.closed = s.closed := by
  simp only [release]
  split <;> rfl

/-- Whoever is free to be served is served. -/
def Busy (s : FairSemaphore τ) : Prop := s.waiting ≠ [] → s.free = 0

/-- A permit that is given back is free or granted. -/
theorem permits_release : s.release.free + s.release.granted.length =
    s.free + s.granted.length + 1 := by
  simp only [release]
  split
  · change s.free + 1 + s.granted.length = _
    omega
  · simp only [List.length_append, List.length_singleton]
    omega

theorem perm_release : (s.release.waiting ++ s.release.granted).Perm (s.waiting ++ s.granted) := by
  simp only [release]
  split
  · next h => rw [h]
  · next t rest h =>
      rw [h, List.cons_append, ← List.append_assoc]
      exact List.perm_append_singleton t (rest ++ s.granted)

theorem busy_release (h : s.Busy) : s.release.Busy := by
  simp only [Busy, release]
  split
  · next hw =>
      intro hne
      exact absurd hw hne
  · next t rest hw =>
      intro _
      exact h (by rw [hw]; exact List.cons_ne_nil t rest)

variable [DecidableEq τ]

theorem closed_resume : (s.resume t).2.closed = s.closed := by
  simp only [resume]
  split
  · split
    · exact closed_release
    · rfl
  · split <;> rfl

theorem closed_withdraw : (s.withdraw t).closed = s.closed := by
  simp only [withdraw]
  split
  · exact closed_release
  · rfl

theorem resume_taken (h : s.resume t = (.taken, s')) :
    s.closed = false ∧ t ∈ s.granted ∧ s' = { s with granted := s.granted.erase t } := by
  simp only [resume] at h
  split at h
  · next hg =>
      split at h
      · cases h
      · next hc =>
          cases h
          exact ⟨by simpa using hc, by simpa using hg, rfl⟩
  · split at h <;> cases h

theorem resume_refused (h : s.resume t = (.refused, s')) : s.closed = true := by
  simp only [resume] at h
  split at h
  · split at h
    · next hc => exact hc
    · cases h
  · split at h
    · next hc => exact hc
    · cases h

/-- Somebody who is called back while nothing is closed was granted a permit. -/
theorem resume_of_ready (hc : s.closed = false) (hr : s.ready t = true) :
    t ∈ s.granted ∧ s.resume t = (.taken, { s with granted := s.granted.erase t }) := by
  have hg : t ∈ s.granted := by simpa [ready, hc] using hr
  exact ⟨hg, by simp [resume, hg, hc]⟩

/-- Somebody who is called back from the wait for a permit does not wait any longer. -/
theorem resume_ne_parked (hr : s.ready t = true) : (s.resume t).1 ≠ .parked := by
  simp only [ready, Bool.or_eq_true, Bool.and_eq_true] at hr
  simp only [resume]
  split
  · split <;> simp
  · next hg =>
      rcases hr with h | ⟨hc, _⟩
      · exact absurd h hg
      · simp [hc]

end FairSemaphore

namespace JobQueue

variable {α π κ : Type} {q q' : JobQueue α π κ} {p : π} {a : α} {c : κ}

theorem offer_taken (h : q.offer p a = (.taken, q')) :
    q.producing = true ∧ q.slots.closed = false ∧
      ∃ n, q.slots.free = n + 1 ∧ q' = { q with slots := { q.slots with free := n } }.push a := by
  simp only [offer] at h
  split at h
  · next hp =>
      split at h
      · next slots hs =>
          obtain ⟨hc, n, hn, rfl⟩ := FairSemaphore.request_taken hs
          cases h
          exact ⟨hp, hc, n, hn, rfl⟩
      · next hne _ =>
          cases h
          exact absurd rfl hne
  · cases h

theorem offer_parked (h : q.offer p a = (.parked, q')) :
    q.producing = true ∧ q.slots.closed = false ∧ q.slots.free = 0 ∧
      q' = { q with slots := { q.slots with waiting := q.slots.waiting ++ [p] } } := by
  simp only [offer] at h
  split at h
  · next hp =>
      split at h
      · cases h
      · next hs =>
          cases h
          obtain ⟨hc, hn, rfl⟩ := FairSemaphore.request_parked hs
          exact ⟨hp, hc, hn, rfl⟩
  · cases h

/-- An offer is turned away if the producers' side or the last receiver is gone. -/
theorem offer_refused (h : q.offer p a = (.refused, q')) :
    (q.producing = false ∨ q.slots.closed = true) ∧ q' = q := by
  simp only [offer] at h
  split at h
  · split at h
    · cases h
    · next hs =>
        cases h
        obtain ⟨hc, rfl⟩ := FairSemaphore.request_refused hs
        exact ⟨.inr hc, rfl⟩
  · next hp =>
      cases h
      exact ⟨.inl (by simpa using hp), rfl⟩

theorem reoffer_taken [DecidableEq π] (h : q.reoffer p a = (.taken, q')) :
    q.slots.closed = false ∧ p ∈ q.slots.granted ∧
      q' = { q with slots := { q.slots with granted := q.slots.granted.erase p } }.push a := by
  simp only [reoffer] at h
  split at h
  · next slots hs =>
      cases h
      obtain ⟨hc, hg, rfl⟩ := FairSemaphore.resume_taken hs
      exact ⟨hc, hg, rfl⟩
  · next hne _ =>
      cases h
      exact absurd rfl hne

theorem reoffer_refused [DecidableEq π] (h : q.reoffer p a = (.refused, q')) :
    q.slots.closed = true ∧ q' = { q with slots := (q.slots.resume p).2 } := by
  simp only [reoffer] at h
  split at h
  · cases h
  · next hs =>
      cases h
      exact ⟨FairSemaphore.resume_refused hs, by rw [hs]⟩

theorem reoffer_ne_parked [DecidableEq π] (hr : q.offerReady p = true) (a : α) :
    (q.reoffer p a).1 ≠ .parked := by
  have hresume := FairSemaphore.resume_ne_parked hr
  simp only [reoffer]
  split
  · simp
  · next h =>
      rw [h] at hresume
      exact hresume

/-- The call for a slot of a producer that waits already or that comes only now. -/
def enter {κ : Type} (q : JobQueue α Unit κ) (waits : Bool) (a : α) :
    Admission × JobQueue α Unit κ :=
  if waits then q.reoffer () a else q.offer () a

theorem receive_item (h : q.receive = (.item a, q')) :
    ∃ rest, q.buffer = a :: rest ∧ q' = { q with
      buffer := rest
      slots := q.slots.release
      delivered := q.delivered.push a }.endTurn := by
  simp only [receive] at h
  split at h
  · next rest hb =>
      cases h
      exact ⟨rest, hb, rfl⟩
  · split at h <;> cases h

theorem receive_ended (h : q.receive = (.ended, q')) :
    q.buffer = [] ∧ q.producing = false ∧ q' = q.endTurn := by
  simp only [receive] at h
  split at h
  · cases h
  · next hb =>
      split at h
      · cases h
      · next hp =>
          cases h
          exact ⟨hb, by simpa using hp, rfl⟩

theorem receive_nothing (h : q.receive = (.nothing, q')) : q = q' := by
  simp only [receive] at h
  split at h
  · cases h
  · split at h
    · cases h
      rfl
    · cases h

/-- The items of a queue, those it holds and those on record. -/
def items (q : JobQueue α π κ) : List α × Array α × Array α × Array α :=
  (q.buffer, q.accepted, q.delivered, q.discarded)

@[simp] theorem items_ask : (q.ask c).items = q.items := by
  simp only [ask]
  split <;> rfl

@[simp] theorem items_takeTurn [DecidableEq κ] : (q.takeTurn c).items = q.items := by
  simp only [takeTurn]
  split <;> rfl

@[simp] theorem items_endTurn : q.endTurn.items = q.items := rfl

@[simp] theorem items_withdrawOffer [DecidableEq π] : (q.withdrawOffer p).items = q.items := rfl

@[simp] theorem items_withdrawAsk [DecidableEq κ] : (q.withdrawAsk c).items = q.items := by
  simp only [withdrawAsk]
  split <;> rfl

theorem slots_withdrawAsk [DecidableEq κ] : (q.withdrawAsk c).slots = q.slots := by
  simp only [withdrawAsk]
  split <;> rfl

theorem receivers_withdrawAsk [DecidableEq κ] : (q.withdrawAsk c).receivers = q.receivers := by
  simp only [withdrawAsk]
  split <;> rfl

/-- A handle that goes leaves the items alone, or all that are in the buffer are discarded. -/
theorem items_dropReceiver : q.dropReceiver.items = q.items ∨
    q.dropReceiver.items = ([], q.accepted, q.delivered, q.discarded ++ q.buffer.toArray) := by
  simp only [dropReceiver]
  split
  · exact .inl rfl
  · exact .inr rfl
  · exact .inl rfl

theorem items_dropReceiver_close : q.close.dropReceiver.items = q.dropReceiver.items := by
  simp only [dropReceiver, close]
  split <;> rfl

@[simp] theorem producing_ask : (q.ask c).producing = q.producing := by
  simp only [ask]
  split <;> rfl

@[simp] theorem producing_takeTurn [DecidableEq κ] : (q.takeTurn c).producing = q.producing := by
  simp only [takeTurn]
  split <;> rfl

@[simp] theorem producing_dropReceiver : q.dropReceiver.producing = q.producing := by
  simp only [dropReceiver]
  split <;> rfl

theorem producing_receive : q.receive.2.producing = q.producing := by
  simp only [receive]
  split
  · rfl
  · split <;> rfl

theorem producing_enter {κ : Type} {q : JobQueue α Unit κ} {waits : Bool} :
    (q.enter waits a).2.producing = q.producing := by
  simp only [enter, reoffer, offer]
  split
  · split <;> rfl
  · split
    · split <;> rfl
    · rfl

/-- An offer concerns the producers' side only. -/
theorem offer_frame : ∃ slots buffer accepted,
    (q.offer p a).2 = { q with slots, buffer, accepted } := by
  simp only [offer]
  split
  · split <;> exact ⟨_, _, _, rfl⟩
  · exact ⟨_, _, _, rfl⟩

theorem reoffer_frame [DecidableEq π] : ∃ slots buffer accepted,
    (q.reoffer p a).2 = { q with slots, buffer, accepted } := by
  simp only [reoffer]
  split <;> exact ⟨_, _, _, rfl⟩

/-- A consumer that looks into the buffer accepts nothing and discards nothing. -/
theorem receive_frame : ∃ buffer slots turn receiving delivered,
    q.receive.2 = { q with buffer, slots, turn, receiving, delivered } := by
  simp only [receive]
  split
  · exact ⟨_, _, _, _, _, rfl⟩
  · split <;> exact ⟨_, _, _, _, _, rfl⟩

/-- Only an item that is taken gives a slot back. -/
theorem slots_receive : q.receive.2.slots = q.slots.release ∨ q.receive.2.slots = q.slots := by
  simp only [receive]
  split
  · exact .inl rfl
  · split <;> exact .inr rfl

/-- The same slots for the same items. -/
structure SameSlots (q q' : JobQueue α π κ) : Prop where
  slots : q'.slots = q.slots
  buffer : q'.buffer = q.buffer
  capacity : q'.capacity = q.capacity

theorem sameSlots_ask : q.SameSlots (q.ask c) := by
  simp only [ask]
  split <;> exact ⟨rfl, rfl, rfl⟩

theorem sameSlots_takeTurn [DecidableEq κ] : q.SameSlots (q.takeTurn c) := by
  simp only [takeTurn]
  split <;> exact ⟨rfl, rfl, rfl⟩

/-- A handle that goes leaves the slots alone, or it was the last one and they are closed. -/
theorem slots_dropReceiver : q.SameSlots q.dropReceiver ∨ q.dropReceiver.capacity = q.capacity ∧
    q.dropReceiver.slots.closed = true ∧ q.dropReceiver.slots.waiting = q.slots.waiting ∧
      q.dropReceiver.slots.granted = q.slots.granted := by
  simp only [dropReceiver]
  split
  · exact .inl ⟨rfl, rfl, rfl⟩
  · exact .inr ⟨rfl, rfl, rfl, rfl⟩
  · exact .inl ⟨rfl, rfl, rfl⟩

theorem capacity_dropReceiver (q : JobQueue α π κ) : q.dropReceiver.capacity = q.capacity := by
  rcases q.slots_dropReceiver with hsame | ⟨hcapacity, _⟩
  · exact hsame.capacity
  · exact hcapacity

theorem items_enter_taken {κ : Type} {q q' : JobQueue α Unit κ} {waits : Bool}
    (h : q.enter waits a = (.taken, q')) : ∃ slots, q' = { q with slots }.push a := by
  cases waits with
  | false =>
      obtain ⟨_, _, n, _, hq⟩ := offer_taken h
      exact ⟨_, hq⟩
  | true =>
      obtain ⟨_, _, hq⟩ := reoffer_taken h
      exact ⟨_, hq⟩

/-- A producer that is turned away is not in the queue's lists any longer. -/
theorem enter_refused {κ : Type} {q q' : JobQueue α Unit κ} {waits : Bool}
    (h : q.enter waits a = (.refused, q')) : waits = false ∧ q' = q ∨
      waits = true ∧ q.slots.closed = true ∧ q' = { q with slots := (q.slots.resume ()).2 } := by
  cases waits with
  | false =>
      obtain ⟨_, rfl⟩ := offer_refused h
      exact .inl ⟨rfl, rfl⟩
  | true =>
      obtain ⟨hc, rfl⟩ := reoffer_refused h
      exact .inr ⟨rfl, hc, rfl⟩

theorem items_enter_refused {κ : Type} {q q' : JobQueue α Unit κ} {waits : Bool}
    (h : q.enter waits a = (.refused, q')) : q'.items = q.items := by
  rcases enter_refused h with ⟨_, rfl⟩ | ⟨_, _, rfl⟩ <;> rfl

theorem ask_cases (hc : q.turn.closed = false) (c : κ) :
    q.turn.free = 0 ∧ q.ask c =
        { q with turn := { q.turn with waiting := q.turn.waiting ++ [c] } } ∨
      ∃ n, q.turn.free = n + 1 ∧ q.ask c =
        { q with turn := { q.turn with free := n }, receiving := some c } := by
  simp only [ask, FairSemaphore.request, hc]
  rcases hf : q.turn.free with _ | n
  · exact .inl ⟨rfl, rfl⟩
  · exact .inr ⟨n, rfl, rfl⟩

theorem takeTurn_of_ready [DecidableEq κ] (hc : q.turn.closed = false)
    (hr : q.turn.ready c = true) : c ∈ q.turn.granted ∧ q.takeTurn c =
      { q with
        turn := { q.turn with granted := q.turn.granted.erase c }
        receiving := some c } := by
  obtain ⟨hg, hresume⟩ := FairSemaphore.resume_of_ready hc hr
  exact ⟨hg, by simp [takeTurn, hresume]⟩

theorem receivers_ask : (q.ask c).receivers = q.receivers := by
  simp only [ask]
  split <;> rfl

theorem receivers_takeTurn [DecidableEq κ] : (q.takeTurn c).receivers = q.receivers := by
  simp only [takeTurn]
  split <;> rfl

theorem turn_dropReceiver : q.dropReceiver.turn = q.turn ∧
    q.dropReceiver.receiving = q.receiving := by
  simp only [dropReceiver]
  split <;> exact ⟨rfl, rfl⟩

theorem receivers_dropReceiver
    (h : q.slots.closed = true ↔ q.receivers = 0) (hpos : 0 < q.receivers) :
    q.dropReceiver.receivers + 1 = q.receivers ∧
      (q.dropReceiver.slots.closed = true ↔ q.dropReceiver.receivers = 0) := by
  simp only [dropReceiver]
  split
  · next hr => omega
  · next hr => exact ⟨hr.symm, by simp [FairSemaphore.close]⟩
  · next n hr =>
      refine ⟨hr.symm, ?_⟩
      rw [h, hr]
      simp

end JobQueue

end LoadBench
