import LoadBench.JobQueue.Calls
import LoadBench.Proofs.QueueState
import LoadBench.Proofs.Total

/-!
The items of a queue and the calls that bring and take them. An item is accepted for one offer and
delivered to one call for an item, and a call that was given up has none. Offers are numbered as
they begin, so that those who wait for a slot have been granted theirs in the order of their
numbers is a matter of comparing numbers.
-/

namespace LoadBench.JobQueue

namespace Calls

variable {α : Type} {s next : Calls α} {label : Label α} {capacity : Nat}

/-- What an operation finds and what it leaves. -/
inductive Move (s : Calls α) : Label α → Calls α → Prop
  | offered (a : α) : Move s (.offer a) { s with
      queue := (s.queue.offer s.offers.size (s.offers.size, a)).2
      offers := s.offers.push
        (.ofAdmission a (s.queue.offer s.offers.size (s.offers.size, a)).1) }
  | resumed {k : Nat} {a : α} (hk : s.offers[k]? = some (.running a))
      (hr : s.queue.offerReady k = true) : Move s (.resume k) { s with
      queue := (s.queue.reoffer k (k, a)).2
      offers := s.offers.set! k (.ofAdmission a (s.queue.reoffer k (k, a)).1) }
  | withdrawn {k : Nat} {a : α} (hk : s.offers[k]? = some (.running a)) :
      Move s (.withdraw k) { s with
        queue := s.queue.withdrawOffer k
        offers := s.offers.set! k (.withdrawn a) }
  | asked (hr : s.queue.receivers ≠ 0) : Move s .ask { s with
      queue := s.queue.ask s.asks.size
      asks := s.asks.push .running }
  | turned {k : Nat} (hk : s.asks[k]? = some .running) (hr : s.queue.turn.ready k = true) :
      Move s (.takeTurn k) { s with queue := s.queue.takeTurn k }
  | delivered {k : Nat} {item : Nat × α} (hk : s.asks[k]? = some .running)
      (hr : s.queue.receiving = some k) (hitem : s.queue.receive.1 = .item item) :
      Move s (.receive k) { s with
        queue := s.queue.receive.2
        asks := s.asks.set! k (.delivered item) }
  | ended {k : Nat} (hk : s.asks[k]? = some .running) (hr : s.queue.receiving = some k)
      (hended : s.queue.receive.1 = .ended) : Move s (.receive k) { s with
      queue := s.queue.receive.2
      asks := s.asks.set! k .ended }
  | forsaken {k : Nat} (hk : s.asks[k]? = some .running) : Move s (.forsake k) { s with
      queue := s.queue.withdrawAsk k
      asks := s.asks.set! k .withdrawn }
  | cloned (hr : s.queue.receivers ≠ 0) : Move s .cloneReceiver { s with
      queue := s.queue.cloneReceiver }
  | dropped (hr : s.queue.receivers ≠ 0) : Move s .dropReceiver { s with
      queue := s.queue.dropReceiver }
  | closed : Move s .close { s with queue := s.queue.close }

theorem step_move (h : s.step label = some next) : Move s label next := by
  cases label with
  | offer a =>
      cases h
      exact .offered a
  | resume k =>
      simp only [step] at h
      split at h
      · next a hk =>
          split at h
          · next hr =>
              cases h
              exact .resumed hk hr
          · cases h
      · cases h
  | withdraw k =>
      simp only [step] at h
      split at h
      · next a hk =>
          cases h
          exact .withdrawn hk
      · cases h
  | ask =>
      simp only [step] at h
      split at h
      · cases h
      · next hr =>
          cases h
          exact .asked hr
  | takeTurn k =>
      simp only [step] at h
      split at h
      · next hk =>
          split at h
          · next hr =>
              cases h
              exact .turned hk hr
          · cases h
      · cases h
  | receive k =>
      simp only [step] at h
      split at h
      · next hk =>
          split at h
          · next hr =>
              split at h
              · next item queue hq =>
                  cases h
                  have hmove := Move.delivered hk hr (congrArg Prod.fst hq)
                  rw [hq] at hmove
                  exact hmove
              · next queue hq =>
                  cases h
                  have hmove := Move.ended hk hr (congrArg Prod.fst hq)
                  rw [hq] at hmove
                  exact hmove
              · cases h
          · cases h
      · cases h
  | forsake k =>
      simp only [step] at h
      split at h
      · next hk =>
          cases h
          exact .forsaken hk
      · cases h
  | cloneReceiver =>
      simp only [step] at h
      split at h
      · cases h
      · next hr =>
          cases h
          exact .cloned hr
  | dropReceiver =>
      simp only [step] at h
      split at h
      · cases h
      · next hr =>
          cases h
          exact .dropped fun h => hr (.inl h)
  | close =>
      simp only [step] at h
      split at h
      · cases h
      · cases h
        exact .closed

theorem Move.steady (h : Move s label next) (hs : s.queue.Steady capacity) :
    next.queue.Steady capacity := by
  cases h with
  | offered a => exact hs.offer _ _
  | resumed _ hr => exact hs.reoffer hr _
  | withdrawn _ => exact hs.withdrawOffer _
  | asked _ => exact hs.ask _
  | turned _ hr => exact hs.takeTurn hr
  | delivered _ hr _ => exact hs.receive hr
  | ended _ hr _ => exact hs.receive hr
  | forsaken _ => exact hs.withdrawAsk _
  | cloned hr => exact hs.cloneReceiver hr
  | dropped hr => exact hs.dropReceiver hr
  | closed => exact hs.close

end Calls

/-! ## Offers -/

/-- The offers that run stand in line, in the order in which they began, and what was accepted are
the items of the offers that were, each once. -/
structure Offered {α : Type} (slots : FairSemaphore Nat) (accepted : Array (Nat × α))
    (offers : Array (Offer α)) : Prop where
  line : slots.line.Pairwise (· < ·)
  running : ∀ k, k ∈ slots.line ↔ ∃ a, offers[k]? = some (.running a)
  once : (accepted.toList.map Prod.fst).Nodup
  accepted : ∀ k a, (k, a) ∈ accepted ↔ offers[k]? = some (.accepted a)
  /-- Nobody who came later has a slot while somebody waits for one. -/
  earlier : ∀ j ∈ slots.waiting, ∀ k a, offers[k]? = some (.accepted a) → k < j

namespace Offered

variable {α : Type} {slots slots' : FairSemaphore Nat} {accepted : Array (Nat × α)}
  {offers offers' : Array (Offer α)} {k : Nat} {a : α} {o : Offer α}

theorem same (h : Offered slots accepted offers) (hl : slots'.line = slots.line)
    (hw : slots'.waiting ⊆ slots.waiting) : Offered slots' accepted offers where
  line := hl ▸ h.line
  running := hl ▸ h.running
  once := h.once
  accepted := h.accepted
  earlier j hj := h.earlier j (hw hj)

/-- An offer that has left the line runs no longer, and no other is touched. -/
theorem running_erase (h : Offered slots accepted offers)
    (hl : slots'.line = slots.line.erase k)
    (hset : ∀ j, offers'[j]? = if j = k then some o else offers[j]?) (ho : ∀ a, o ≠ .running a)
    (j : Nat) :
    j ∈ slots'.line ↔ ∃ a, offers'[j]? = some (.running a) := by
  have hnodup : slots.line.Nodup := h.line.imp fun hlt => Nat.ne_of_lt hlt
  rw [hl, hnodup.mem_erase_iff, hset, h.running]
  split
  · next hj =>
      refine iff_of_false (fun hand => hand.1 hj) ?_
      rintro ⟨a, ha⟩
      exact ho a (Option.some.inj ha)
  · next hj => exact and_iff_right hj

/-- An offer leaves the line without a slot. -/
theorem leave (h : Offered slots accepted offers)
    (hk : ∀ b, offers[k]? ≠ some (.accepted b)) (hl : slots'.line = slots.line.erase k)
    (hw : slots'.waiting ⊆ slots.waiting)
    (hset : ∀ j, offers'[j]? = if j = k then some o else offers[j]?)
    (hrunning : ∀ a, o ≠ .running a) (haccepted : ∀ a, o ≠ .accepted a) :
    Offered slots' accepted offers' := by
  have hsame (j : Nat) (b : α) :
      offers'[j]? = some (.accepted b) ↔ offers[j]? = some (.accepted b) := by
    rw [hset]
    split
    · next hj =>
        subst hj
        exact iff_of_false (fun hb => haccepted b (Option.some.inj hb)) (hk b)
    · rfl
  refine ⟨?_, h.running_erase hl hset hrunning, h.once, ?_, ?_⟩
  · rw [hl]
    exact h.line.sublist List.erase_sublist
  · exact fun j b => (h.accepted j b).trans (hsame j b).symm
  · exact fun i hi j b hb => h.earlier i (hw hi) j b ((hsame j b).mp hb)

/-- An offer is accepted, and nobody who came earlier waits. -/
theorem accept (h : Offered slots accepted offers)
    (hk : ∀ b, offers[k]? ≠ some (.accepted b)) (hl : slots'.line = slots.line.erase k)
    (hw : slots'.waiting ⊆ slots.waiting) (hfirst : ∀ j ∈ slots'.waiting, k < j)
    (hset : ∀ j, offers'[j]? = if j = k then some (.accepted a) else offers[j]?) :
    Offered slots' (accepted.push (k, a)) offers' := by
  have hnew (j : Nat) (b : α) : offers'[j]? = some (.accepted b) ↔
      offers[j]? = some (.accepted b) ∨ (j, b) = (k, a) := by
    rw [hset, Prod.mk.injEq]
    split
    · next hj =>
        subst hj
        simp only [hk b, false_or, true_and, Option.some.injEq, Offer.accepted.injEq]
        exact eq_comm
    · next hj =>
        refine ⟨.inl, fun hb => ?_⟩
        rcases hb with hb | ⟨rfl, _⟩
        · exact hb
        · exact absurd rfl hj
  refine ⟨?_, h.running_erase hl hset nofun, ?_, fun j b => ?_, ?_⟩
  · rw [hl]
    exact h.line.sublist List.erase_sublist
  · rw [Array.toList_push, List.map_append]
    refine List.Nodup.append h.once (List.nodup_singleton k) ?_
    intro j hj hjk
    obtain rfl := List.mem_singleton.mp hjk
    obtain ⟨⟨_, b⟩, hb, rfl⟩ := List.mem_map.mp hj
    exact hk b ((h.accepted _ b).mp (Array.mem_toList_iff.mp hb))
  · rw [hnew, Array.mem_push, h.accepted]
  · intro i hi j b hb
    rcases (hnew j b).mp hb with hold | hjk
    · exact h.earlier i (hw hi) j b hold
    · obtain ⟨rfl, rfl⟩ := Prod.mk.inj hjk
      exact hfirst i hi

/-- An offer that has to wait is the last in line. -/
theorem park (h : Offered slots accepted offers) :
    Offered { slots with waiting := slots.waiting ++ [offers.size] } accepted
      (offers.push (.running a)) := by
  have hline : ({ slots with waiting := slots.waiting ++ [offers.size] } : FairSemaphore Nat).line =
      slots.line ++ [offers.size] := (List.append_assoc _ _ _).symm
  have hbound {j : Nat} {o : Offer α} (hj : offers[j]? = some o) : j < offers.size :=
    (Array.getElem?_eq_some_iff.mp hj).choose
  have hold (j : Nat) (b : α) : (offers.push (.running a))[j]? = some (.accepted b) ↔
      offers[j]? = some (.accepted b) := by
    rw [Array.getElem?_push]
    split
    · next hj =>
        subst hj
        rw [Array.getElem?_eq_none_iff.mpr (Nat.le_refl _)]
        exact ⟨nofun, nofun⟩
    · rfl
  refine ⟨?_, fun j => ?_, h.once, fun j b => (h.accepted j b).trans (hold j b).symm, ?_⟩
  · rw [hline, List.pairwise_append]
    refine ⟨h.line, List.pairwise_singleton _ _, fun j hj m hm => ?_⟩
    obtain rfl := List.mem_singleton.mp hm
    obtain ⟨b, hb⟩ := (h.running j).mp hj
    exact hbound hb
  · rw [hline, List.mem_append, List.mem_singleton, h.running, Array.getElem?_push]
    split
    · next hj => exact iff_of_true (.inr hj) ⟨a, rfl⟩
    · next hj => exact or_iff_left hj
  · intro i hi j b hb
    have hb' := (hold j b).mp hb
    rcases List.mem_append.mp hi with hi | hi
    · exact h.earlier i hi j b hb'
    · obtain rfl := List.mem_singleton.mp hi
      exact hbound hb'

end Offered

/-! ## The calls -/

namespace Calls

variable {α : Type} {s next : Calls α} {label : Label α} {capacity : Nat}

private theorem getElem?_set_eq_ite {β : Type} {xs : Array β} {k : Nat} {x : β}
    (hk : xs[k]? = some x) (y : β) (j : Nat) :
    (xs.set! k y)[j]? = if j = k then some y else xs[j]? := by
  split
  · next hj =>
      subst hj
      exact getElem?_set_self hk y
  · next hj => exact getElem?_set_ne (fun h => hj h.symm) y

theorem offered_offer (h : Offered s.queue.slots s.queue.accepted s.offers)
    (hs : s.queue.Steady capacity) (a : α) :
    Offered (s.queue.offer s.offers.size (s.offers.size, a)).2.slots
      (s.queue.offer s.offers.size (s.offers.size, a)).2.accepted
      (s.offers.push (.ofAdmission a (s.queue.offer s.offers.size (s.offers.size, a)).1)) := by
  have hnone : s.offers[s.offers.size]? = none := Array.getElem?_eq_none_iff.mpr (Nat.le_refl _)
  have hnew (b : α) : s.offers[s.offers.size]? ≠ some (.accepted b) := by
    rw [hnone]
    exact nofun
  have hout : s.offers.size ∉ s.queue.slots.line := by
    rw [h.running, hnone]
    rintro ⟨_, ha⟩
    cases ha
  rcases hq : s.queue.offer s.offers.size (s.offers.size, a) with ⟨_ | _ | _, q'⟩
  · obtain ⟨_, hc, n, hn, rfl⟩ := offer_taken hq
    -- A slot is free, so nobody waits for one.
    have hwaiting : s.queue.slots.waiting = [] := by
      by_contra hne
      have hfree := hs.busy hc hne
      omega
    refine h.accept hnew (List.erase_of_not_mem hout).symm (List.Subset.refl _) ?_
      (fun _ => Array.getElem?_push)
    intro j hj
    change j ∈ s.queue.slots.waiting at hj
    rw [hwaiting] at hj
    cases hj
  · obtain ⟨_, _, _, rfl⟩ := offer_parked hq
    exact h.park
  · obtain ⟨_, rfl⟩ := offer_refused hq
    exact h.leave hnew (List.erase_of_not_mem hout).symm (List.Subset.refl _)
      (fun _ => Array.getElem?_push) nofun nofun

theorem offered_reoffer (h : Offered s.queue.slots s.queue.accepted s.offers) {k : Nat}
    {a : α} (hk : s.offers[k]? = some (.running a)) (hr : s.queue.offerReady k = true) :
    Offered (s.queue.reoffer k (k, a)).2.slots (s.queue.reoffer k (k, a)).2.accepted
      (s.offers.set! k (.ofAdmission a (s.queue.reoffer k (k, a)).1)) := by
  have hnew (b : α) : s.offers[k]? ≠ some (.accepted b) := by
    rw [hk]
    exact nofun
  have hparked := reoffer_ne_parked hr (k, a)
  have hleft := FairSemaphore.line_resume (FairSemaphore.resume_ne_parked hr)
  rcases hq : s.queue.reoffer k (k, a) with ⟨_ | _ | _, q'⟩ <;> rw [hq] at hparked
  · obtain ⟨_, hg, rfl⟩ := reoffer_taken hq
    refine h.accept hnew (List.erase_append_left _ hg).symm (List.Subset.refl _) ?_
      (getElem?_set_eq_ite hk _)
    exact fun j hj => (List.pairwise_append.mp h.line).2.2 k hg j hj
  · exact absurd rfl hparked
  · obtain ⟨_, rfl⟩ := reoffer_refused hq
    exact h.leave hnew hleft FairSemaphore.waiting_resume (getElem?_set_eq_ite hk _) nofun nofun

theorem Move.offers (h : Move s label next)
    (ho : Offered s.queue.slots s.queue.accepted s.offers) (hs : s.queue.Steady capacity) :
    Offered next.queue.slots next.queue.accepted next.offers := by
  have hreceive : Offered s.queue.receive.2.slots s.queue.receive.2.accepted s.offers := by
    have haccepted : s.queue.receive.2.accepted = s.queue.accepted := by
      obtain ⟨_, _, _, _, _, hq⟩ := receive_frame (q := s.queue)
      rw [hq]
    rw [haccepted]
    rcases slots_receive (q := s.queue) with hslots | hslots <;> rw [hslots]
    · exact ho.same FairSemaphore.line_release FairSemaphore.waiting_release
    · exact ho
  -- What consumers do about their turn is not seen by the offers.
  have hconsumer {queue : JobQueue (Nat × α) Nat Nat} (hitems : queue.items = s.queue.items)
      (hslots : queue.slots = s.queue.slots) :
      Offered queue.slots queue.accepted s.offers := by
    have haccepted : queue.accepted = s.queue.accepted := congrArg (·.2.1) hitems
    rw [haccepted, hslots]
    exact ho
  cases h with
  | offered a => exact offered_offer ho hs a
  | resumed hk hr => exact offered_reoffer ho hk hr
  | withdrawn hk =>
      refine ho.leave (fun b hb => ?_) FairSemaphore.line_withdraw
        FairSemaphore.waiting_withdraw (getElem?_set_eq_ite hk _) nofun nofun
      rw [hk] at hb
      cases hb
  | asked _ => exact hconsumer items_ask sameSlots_ask.slots
  | turned _ _ => exact hconsumer items_takeTurn sameSlots_takeTurn.slots
  | delivered _ _ _ => exact hreceive
  | ended _ _ _ => exact hreceive
  | forsaken _ => exact hconsumer items_withdrawAsk slots_withdrawAsk
  | cloned _ => exact ho
  | dropped _ =>
      obtain ⟨hline, hwaiting⟩ := line_dropReceiver (q := s.queue)
      have haccepted : s.queue.dropReceiver.accepted = s.queue.accepted := by
        rcases items_dropReceiver (q := s.queue) with hitems | hitems <;>
          exact congrArg (·.2.1) hitems
      rw [haccepted]
      exact ho.same hline (hwaiting ▸ List.Subset.refl _)
  | closed => exact ho

/-! ## Calls for an item -/

private theorem filterMap_set {β γ : Type} {f : β → Option γ} {xs : Array β} {k : Nat} {x : β}
    (hk : xs[k]? = some x) (hx : f x = none) (y : β) :
    ((xs.set! k y).toList.filterMap f).Perm ((f y).toList ++ xs.toList.filterMap f) := by
  obtain ⟨hlt, hget⟩ := Array.getElem?_eq_some_iff.mp hk
  obtain ⟨before, after, hxs, _, hset⟩ : ∃ before after,
      xs.toList = before ++ xs.toList[k] :: after ∧ before.length = k ∧
        xs.toList.set k y = before ++ y :: after := List.exists_of_set hlt
  rw [show xs.toList[k] = x from hget] at hxs
  rw [Array.set!_eq_setIfInBounds, Array.toList_setIfInBounds, hset, hxs]
  simp only [List.filterMap_append, List.filterMap_cons, hx]
  cases f y with
  | none => exact List.Perm.refl _
  | some z => exact List.perm_middle

/-- The items that were delivered are those that calls have returned with. -/
def Handed (s : Calls α) : Prop :=
  (s.asks.toList.filterMap Ask.item?).Perm s.queue.delivered.toList

private theorem delivered_of_items {κ : Type} {q q' : JobQueue α Nat κ}
    (h : q'.items = q.items) : q'.delivered = q.delivered :=
  congrArg (fun items => items.2.2.1) h

theorem Move.handed (h : Move s label next) (hs : s.Handed) : next.Handed := by
  -- An operation that delivers nothing, and after which the calls have returned with what they had.
  have hnothing {s' : Calls α} (hitems : s'.queue.delivered = s.queue.delivered)
      (hasks : (s'.asks.toList.filterMap Ask.item?).Perm (s.asks.toList.filterMap Ask.item?)) :
      s'.Handed := by
    rw [Handed, hitems]
    exact hasks.trans hs
  have hsame {queue : JobQueue (Nat × α) Nat Nat} {offers : Array (Offer α)}
      (hitems : queue.delivered = s.queue.delivered) :
      Handed { s with queue, offers } :=
    hnothing hitems (List.Perm.refl _)
  cases h with
  | offered a =>
      obtain ⟨_, _, _, hq⟩ := offer_frame (q := s.queue) (p := s.offers.size)
        (a := (s.offers.size, a))
      exact hsame (by rw [hq])
  | @resumed k a _ _ =>
      obtain ⟨_, _, _, hq⟩ := reoffer_frame (q := s.queue) (p := k) (a := (k, a))
      exact hsame (by rw [hq])
  | withdrawn _ => exact hs
  | asked _ =>
      refine hnothing (delivered_of_items items_ask) ?_
      rw [Array.toList_push, List.filterMap_append]
      exact List.Perm.of_eq (List.append_nil _)
  | turned _ _ => exact hsame (delivered_of_items items_takeTurn)
  | @delivered k item hk _ hitem =>
      obtain ⟨queue, hq⟩ : ∃ queue, s.queue.receive = (.item item, queue) :=
        ⟨_, Prod.ext hitem rfl⟩
      obtain ⟨rest, _, rfl⟩ := receive_item hq
      have hasks := filterMap_set (f := Ask.item?) hk rfl (.delivered item)
      change (Array.toList _ |>.filterMap Ask.item?).Perm s.queue.receive.2.delivered.toList
      rw [hq]
      change List.Perm _ (s.queue.delivered.push item).toList
      rw [Array.toList_push]
      exact (hasks.trans (hs.cons item)).trans (List.perm_append_singleton item _).symm
  | @ended k hk _ hended =>
      obtain ⟨queue, hq⟩ : ∃ queue, s.queue.receive = (.ended, queue) := ⟨_, Prod.ext hended rfl⟩
      obtain ⟨_, _, rfl⟩ := receive_ended hq
      exact hnothing (by rw [hq]; rfl) (filterMap_set (f := Ask.item?) hk rfl .ended)
  | forsaken hk =>
      exact hnothing (delivered_of_items items_withdrawAsk)
        (filterMap_set (f := Ask.item?) hk rfl .withdrawn)
  | cloned _ => exact hs
  | dropped _ =>
      rcases items_dropReceiver (q := s.queue) with hitems | hitems <;>
        exact hsame (congrArg (·.2.2.1) hitems)
  | closed => exact hs

/-! ## What holds in every state -/

structure Sound (capacity : Nat) (s : Calls α) : Prop where
  queue : s.queue.Steady capacity
  offers : Offered s.queue.slots s.queue.accepted s.offers
  handed : s.Handed

theorem Sound.ofCapacity (capacity : Nat) : (ofCapacity capacity : Calls α).Sound capacity where
  queue := .ofCapacity capacity
  offers := by
    refine ⟨.nil, fun k => ?_, .nil, fun k a => ?_, nofun⟩
    · exact iff_of_false nofun nofun
    · exact iff_of_false nofun nofun
  handed := .nil

theorem Sound.of_reachable (h : Reachable capacity s) : s.Sound capacity := by
  induction h with
  | start => exact .ofCapacity capacity
  | step label _ hs ih =>
      have hmove := step_move hs
      exact ⟨hmove.steady ih.queue, hmove.offers ih.offers ih.queue, hmove.handed ih.handed⟩

/-- Items are discarded by nothing but the loss of the last receiver. -/
theorem Move.discards (h : Move s label next) :
    next.queue.discarded = s.queue.discarded ∨
      label = .dropReceiver ∧ s.queue.receivers = 1 ∧ next.queue.receivers = 0 ∧
        next.queue.discarded = s.queue.discarded ++ s.queue.buffer.toArray := by
  have hreceive : s.queue.receive.2.discarded = s.queue.discarded := by
    obtain ⟨_, _, _, _, _, hq⟩ := receive_frame (q := s.queue)
    rw [hq]
  have hitems {queue : JobQueue (Nat × α) Nat Nat} (hitems : queue.items = s.queue.items) :
      queue.discarded = s.queue.discarded :=
    congrArg (fun items => items.2.2.2) hitems
  cases h with
  | offered a =>
      obtain ⟨_, _, _, hq⟩ := offer_frame (q := s.queue) (p := s.offers.size)
        (a := (s.offers.size, a))
      exact .inl (by rw [hq])
  | @resumed k a _ _ =>
      obtain ⟨_, _, _, hq⟩ := reoffer_frame (q := s.queue) (p := k) (a := (k, a))
      exact .inl (by rw [hq])
  | withdrawn _ => exact .inl rfl
  | asked _ => exact .inl (hitems items_ask)
  | turned _ _ => exact .inl (hitems items_takeTurn)
  | delivered _ _ _ => exact .inl hreceive
  | ended _ _ _ => exact .inl hreceive
  | forsaken _ => exact .inl (hitems items_withdrawAsk)
  | cloned _ => exact .inl rfl
  | dropped hr =>
      rcases hn : s.queue.receivers with _ | _ | n
      · exact absurd hn hr
      · refine .inr ⟨rfl, rfl, ?_, ?_⟩ <;> simp only [JobQueue.dropReceiver, hn]
      · refine .inl ?_
        simp only [JobQueue.dropReceiver, hn]
  | closed => exact .inl rfl

/-- Once the last receiver is gone, no item is accepted, delivered or discarded any more. -/
theorem Move.afterwards (h : Move s label next) (hs : s.queue.Steady capacity)
    (hr : s.queue.receivers = 0) :
    next.queue.receivers = 0 ∧ next.queue.items = s.queue.items := by
  have hclosed := hs.handles.mpr hr
  have hopen (hc : s.queue.slots.closed = false) : False := by
    rw [hclosed] at hc
    cases hc
  have hreceive : s.queue.receive.2.receivers = 0 ∧
      s.queue.receive.2.items = s.queue.items := by
    simp only [JobQueue.receive, hs.order.gone hclosed]
    split <;> exact ⟨hr, rfl⟩
  cases h with
  | offered a =>
      rcases hq : s.queue.offer s.offers.size (s.offers.size, a) with ⟨_ | _ | _, q'⟩
      · exact (hopen (offer_taken hq).2.1).elim
      · exact (hopen (offer_parked hq).2.1).elim
      · obtain ⟨_, rfl⟩ := offer_refused hq
        exact ⟨hr, rfl⟩
  | @resumed k a _ hready =>
      have hparked := reoffer_ne_parked hready (k, a)
      rcases hq : s.queue.reoffer k (k, a) with ⟨_ | _ | _, q'⟩ <;> rw [hq] at hparked
      · exact (hopen (reoffer_taken hq).1).elim
      · exact absurd rfl hparked
      · obtain ⟨_, rfl⟩ := reoffer_refused hq
        exact ⟨hr, rfl⟩
  | withdrawn _ => exact ⟨hr, rfl⟩
  | asked h => exact absurd hr h
  | turned _ _ => exact ⟨receivers_takeTurn.trans hr, items_takeTurn⟩
  | delivered _ _ _ => exact hreceive
  | ended _ _ _ => exact hreceive
  | forsaken _ => exact ⟨receivers_withdrawAsk.trans hr, items_withdrawAsk⟩
  | cloned h => exact absurd hr h
  | dropped h => exact absurd hr h
  | closed => exact ⟨hr, rfl⟩

/-- What an operation does to the calls that have returned: nothing. -/
theorem Move.settled (h : Move s label next) :
    (∀ (k : Nat) (o : Offer α), s.offers[k]? = some o → o.isRunning = false →
      next.offers[k]? = some o) ∧
    ∀ (k : Nat) (c : Ask (Nat × α)), s.asks[k]? = some c → c.isRunning = false →
      next.asks[k]? = some c := by
  have hset {β : Type} {f : β → Bool} {xs : Array β} {j k : Nat} {x y z : β}
      (hj : xs[j]? = some z) (hx : xs[k]? = some x) (hf : f x = false) (hz : f z = true) :
      (xs.set! j y)[k]? = some x := by
    rw [getElem?_set_ne]
    · exact hx
    · rintro rfl
      rw [hj] at hx
      cases hx
      rw [hz] at hf
      cases hf
  cases h with
  | offered a => exact ⟨fun _ _ ho _ => getElem?_push_of_some ho _, fun _ _ hc _ => hc⟩
  | resumed hk _ => exact ⟨fun _ _ ho hf => hset hk ho hf rfl, fun _ _ hc _ => hc⟩
  | withdrawn hk => exact ⟨fun _ _ ho hf => hset hk ho hf rfl, fun _ _ hc _ => hc⟩
  | asked _ => exact ⟨fun _ _ ho _ => ho, fun _ _ hc _ => getElem?_push_of_some hc _⟩
  | turned _ _ => exact ⟨fun _ _ ho _ => ho, fun _ _ hc _ => hc⟩
  | delivered hk _ _ => exact ⟨fun _ _ ho _ => ho, fun _ _ hc hf => hset hk hc hf rfl⟩
  | ended hk _ _ => exact ⟨fun _ _ ho _ => ho, fun _ _ hc hf => hset hk hc hf rfl⟩
  | forsaken hk => exact ⟨fun _ _ ho _ => ho, fun _ _ hc hf => hset hk hc hf rfl⟩
  | cloned _ => exact ⟨fun _ _ ho _ => ho, fun _ _ hc _ => hc⟩
  | dropped _ => exact ⟨fun _ _ ho _ => ho, fun _ _ hc _ => hc⟩
  | closed => exact ⟨fun _ _ ho _ => ho, fun _ _ hc _ => hc⟩

/-- What a queue of a capacity promises to those who call it, in each of its states. -/
structure Promise (capacity : Nat) (s : Calls α) : Prop where
  order : s.queue.accepted.toList =
    s.queue.delivered.toList ++ s.queue.buffer ++ s.queue.discarded.toList
  /-- Nothing is lost while there is a receiver. -/
  kept : 0 < s.queue.receivers → s.queue.discarded = #[]
  gone : s.queue.receivers = 0 → s.queue.buffer = []
  /-- The last receiver discards what is in the buffer when it goes, and nothing else does. -/
  discards : ∀ label next, s.step label = some next →
    next.queue.discarded ≠ s.queue.discarded →
      label = .dropReceiver ∧ s.queue.receivers = 1 ∧ next.queue.receivers = 0 ∧
        next.queue.discarded.toList = s.queue.buffer
  afterwards : s.queue.receivers = 0 → ∀ label next, s.step label = some next →
    next.queue.receivers = 0 ∧ next.queue.items = s.queue.items
  bound : s.queue.buffer.length ≤ capacity
  /-- An item is accepted for one offer, and not for one that was refused or withdrawn. -/
  once : (s.queue.accepted.toList.map Prod.fst).Nodup
  accepted : ∀ k a, (k, a) ∈ s.queue.accepted ↔ s.offers[k]? = some (.accepted a)
  /-- A delivered item goes to one call, which has not been given up. -/
  delivered : (s.asks.toList.filterMap Ask.item?).Perm s.queue.delivered.toList
  /-- The offers that run wait for a slot or were granted one. -/
  blocked : ∀ k, k ∈ s.queue.slots.granted ++ s.queue.slots.waiting ↔
    ∃ a, s.offers[k]? = some (.running a)
  /-- Slots are granted in the order in which the offers began, and nobody overtakes. -/
  granted : (s.queue.slots.granted ++ s.queue.slots.waiting).Pairwise (· < ·)
  overtaken : ∀ j ∈ s.queue.slots.waiting, ∀ k, j ≤ k →
    k ∉ s.queue.slots.granted ∧ ∀ a, s.offers[k]? ≠ some (.accepted a)
  /-- A call that is given up changes nothing about the items, and takes neither a slot nor the
  turn with it. -/
  withdrawn : ∀ k next, s.step (.withdraw k) = some next ∨ s.step (.forsake k) = some next →
    next.queue.items = s.queue.items
  room : 0 < s.queue.receivers → s.queue.slots.free + s.queue.slots.granted.length +
    s.queue.buffer.length = capacity
  turn : s.queue.turn.free + s.queue.turn.granted.length +
    s.queue.receiving.toList.length = 1
  /-- What a call has returned with stays what it was. -/
  settled : ∀ label next, s.step label = some next →
    (∀ (k : Nat) (o : Offer α), s.offers[k]? = some o → o.isRunning = false →
      next.offers[k]? = some o) ∧
    ∀ (k : Nat) (c : Ask (Nat × α)), s.asks[k]? = some c → c.isRunning = false →
      next.asks[k]? = some c

theorem exactly_once_in_order (h : Reachable capacity s) : Promise capacity s := by
  have hs := Sound.of_reachable h
  have hopen (hr : 0 < s.queue.receivers) : s.queue.slots.closed = false := by
    rw [← Bool.not_eq_true, hs.queue.handles]
    exact Nat.ne_of_gt hr
  have hkept (hr : 0 < s.queue.receivers) := hs.queue.order.kept (hopen hr)
  have hgone (hr : s.queue.receivers = 0) := hs.queue.order.gone (hs.queue.handles.mpr hr)
  refine ⟨hs.queue.order.order, hkept, hgone, ?_, ?_, hs.queue.length_buffer_le, hs.offers.once,
    hs.offers.accepted, hs.handed, hs.offers.running, hs.offers.line, ?_, ?_,
    fun hr => hs.queue.room (hopen hr), hs.queue.permit, fun _ _ hstep => (step_move hstep).settled⟩
  · intro label next hstep hne
    rcases (step_move hstep).discards with hsame | ⟨hlabel, hone, hnone, hall⟩
    · exact absurd hsame hne
    · refine ⟨hlabel, hone, hnone, ?_⟩
      rw [hall, hkept (by omega)]
      simp
  · exact fun hr label next hstep => (step_move hstep).afterwards hs.queue hr
  · intro j hj k hjk
    refine ⟨fun hk => ?_, fun a ha => ?_⟩
    · have hlt := (List.pairwise_append.mp hs.offers.line).2.2 k hk j hj
      omega
    · have hlt := hs.offers.earlier j hj k a ha
      omega
  · intro k next hstep
    rcases hstep with hstep | hstep
    · cases step_move hstep with
      | withdrawn _ => rfl
    · cases step_move hstep with
      | forsaken _ => exact items_withdrawAsk

/-- With room for one item the second offer waits and is withdrawn, so that the slot goes to the
third; and what the third brought is left when the receiver goes. -/
theorem exactly_once_in_order_of_three : ∃ s : Calls String, Reachable 1 s ∧
    s.offers = #[.accepted "a", .withdrawn "b", .accepted "c"] ∧
      s.queue.delivered = #[(0, "a")] ∧ s.queue.discarded = #[(2, "c")] ∧ Promise 1 s := by
  have hoffered : Reachable 1 {
      queue := {
        capacity := 1
        buffer := [(0, "a")]
        slots := { free := 0, waiting := [1, 2] }
        accepted := #[(0, "a")] }
      offers := #[.accepted "a", .running "b", .running "c"] } :=
    ((Reachable.start.step (.offer "a") rfl).step (.offer "b") rfl).step (.offer "c") rfl
  have hreceived : Reachable 1 {
      queue := {
        capacity := 1
        slots := { free := 0, granted := [2] }
        accepted := #[(0, "a")]
        delivered := #[(0, "a")] }
      offers := #[.accepted "a", .withdrawn "b", .running "c"]
      asks := #[.delivered (0, "a")] } :=
    ((hoffered.step (.withdraw 1) rfl).step .ask rfl).step (.receive 0) rfl
  have hresumed : Reachable 1 {
      queue := {
        capacity := 1
        buffer := [(2, "c")]
        slots := { free := 0 }
        accepted := #[(0, "a"), (2, "c")]
        delivered := #[(0, "a")] }
      offers := #[.accepted "a", .withdrawn "b", .accepted "c"]
      asks := #[.delivered (0, "a")] } := hreceived.step (.resume 2) rfl
  have hdropped := hresumed.step .dropReceiver rfl
  exact ⟨_, hdropped, rfl, rfl, rfl, exactly_once_in_order hdropped⟩

end Calls

end LoadBench.JobQueue
