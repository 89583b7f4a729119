import Mathlib.Data.List.ReduceOption
import LoadBench.Proofs.QueueRun

/-!
What the length of a queue says. The producers' side does not see the buffer; it counts the slots
that are not free. Every slot is free, granted to an offer that has not noticed, or taken by an
item, so in a state in which no call can go on it counts the items that are left to take.

It counts only as long as it is open. Once it is closed it sees no item, although calls for an item
still return with those that are left. The length of a settled queue is therefore that of its buffer
exactly if the producers' side is open or the buffer is empty.
-/

namespace LoadBench

namespace JobQueue

variable {α π κ : Type} {q q' : JobQueue α π κ} {capacity : Nat} {p : π} {a : α} {c : κ}

/-- Every slot of a queue is free, granted or taken, also once the last receiver is gone. -/
structure Slotted (capacity : Nat) (q : JobQueue α π κ) : Prop where
  made : q.capacity = capacity
  room : q.slots.free + q.slots.granted.length + q.buffer.length = capacity

namespace Slotted

theorem ofCapacity (capacity : Nat) : (ofCapacity capacity : JobQueue α π κ).Slotted capacity :=
  ⟨rfl, rfl⟩

theorem same (h : q.Slotted capacity) (hs : q.SameSlots q') : q'.Slotted capacity where
  made := hs.capacity.trans h.made
  room := by
    rw [hs.slots, hs.buffer]
    exact h.room

theorem offer (h : q.Slotted capacity) (p : π) (a : α) : (q.offer p a).2.Slotted capacity := by
  have hroom := h.room
  rcases hq : q.offer p a with ⟨_ | _ | _, q'⟩
  · obtain ⟨_, _, n, hn, rfl⟩ := offer_taken hq
    refine ⟨h.made, ?_⟩
    change n + q.slots.granted.length + (q.buffer ++ [a]).length = capacity
    rw [List.length_append, List.length_singleton]
    omega
  · obtain ⟨_, _, _, rfl⟩ := offer_parked hq
    exact ⟨h.made, hroom⟩
  · obtain ⟨_, rfl⟩ := offer_refused hq
    exact h

theorem reoffer [DecidableEq π] (h : q.Slotted capacity) (hr : q.offerReady p = true) (a : α) :
    (q.reoffer p a).2.Slotted capacity := by
  have hroom := h.room
  have hparked := reoffer_ne_parked hr a
  rcases hq : q.reoffer p a with ⟨_ | _ | _, q'⟩ <;> rw [hq] at hparked
  · obtain ⟨_, hg, rfl⟩ := reoffer_taken hq
    have hlength := List.length_erase_of_mem hg
    have hpos := List.length_pos_of_mem hg
    refine ⟨h.made, ?_⟩
    change q.slots.free + (q.slots.granted.erase p).length + (q.buffer ++ [a]).length = capacity
    rw [List.length_append, List.length_singleton]
    omega
  · exact absurd rfl hparked
  · obtain ⟨hc, rfl⟩ := reoffer_refused hq
    have hpermits := FairSemaphore.permits_resume_of_closed (t := p) hc
    refine ⟨h.made, ?_⟩
    change (q.slots.resume p).2.free + (q.slots.resume p).2.granted.length + q.buffer.length = _
    omega

theorem withdrawOffer [DecidableEq π] (h : q.Slotted capacity) (p : π) :
    (q.withdrawOffer p).Slotted capacity := by
  have hroom := h.room
  have hpermits := FairSemaphore.permits_withdraw (s := q.slots) (t := p)
  refine ⟨h.made, ?_⟩
  change (q.slots.withdraw p).free + (q.slots.withdraw p).granted.length + q.buffer.length = _
  omega

/-- An item that is taken gives its slot back. -/
theorem receive (h : q.Slotted capacity) : q.receive.2.Slotted capacity := by
  have hroom := h.room
  rcases hq : q.receive with ⟨a | _ | _, q'⟩
  · obtain ⟨rest, hbuffer, rfl⟩ := receive_item hq
    have hreleased := FairSemaphore.permits_release (s := q.slots)
    rw [hbuffer, List.length_cons] at hroom
    refine ⟨h.made, ?_⟩
    change q.slots.release.free + q.slots.release.granted.length + rest.length = capacity
    omega
  · obtain ⟨_, _, rfl⟩ := receive_ended hq
    exact ⟨h.made, hroom⟩
  · obtain rfl := receive_nothing hq
    exact h

theorem withdrawAsk [DecidableEq κ] (h : q.Slotted capacity) (c : κ) :
    (q.withdrawAsk c).Slotted capacity := by
  simp only [JobQueue.withdrawAsk]
  split
  · exact ⟨h.made, h.room⟩
  · exact ⟨h.made, h.room⟩

/-- The last receiver frees the slots of the items that go with it. -/
theorem dropReceiver (h : q.Slotted capacity) : q.dropReceiver.Slotted capacity := by
  have hroom := h.room
  simp only [JobQueue.dropReceiver]
  split
  · exact h
  · refine ⟨h.made, ?_⟩
    change q.slots.free + q.buffer.length + q.slots.granted.length + 0 = capacity
    omega
  · exact ⟨h.made, hroom⟩

end Slotted

end JobQueue

namespace JobQueue.Calls

variable {α : Type} {s next t : Calls α} {label : Label α} {labels : List (Label α)}
  {items : List (Nat × α)} {capacity : Nat}

theorem Move.slotted (h : Move s label next) (hs : s.queue.Slotted capacity) :
    next.queue.Slotted capacity := by
  cases h with
  | offered a => exact hs.offer _ _
  | resumed _ hr => exact hs.reoffer hr _
  | withdrawn _ => exact hs.withdrawOffer _
  | asked _ => exact hs.same sameSlots_ask
  | turned _ _ => exact hs.same sameSlots_takeTurn
  | delivered _ _ _ => exact hs.receive
  | ended _ _ _ => exact hs.receive
  | forsaken _ => exact hs.withdrawAsk _
  | cloned _ => exact hs.same ⟨rfl, rfl, rfl⟩
  | dropped _ => exact hs.dropReceiver
  | closed => exact hs.same ⟨rfl, rfl, rfl⟩

theorem slotted_of_reachable (h : Reachable capacity s) : s.queue.Slotted capacity := by
  induction h with
  | start => exact .ofCapacity capacity
  | step label _ hs ih => exact (step_move hs).slotted ih

/-- In a settled state the producers' side, as long as it is open, counts the buffer. -/
theorem Settled.length (hs : s.Settled) (h : Reachable capacity s) :
    s.queue.length = if s.queue.producing then s.queue.buffer.length else 0 := by
  have hslots := slotted_of_reachable h
  have hroom := hslots.room
  rw [hs.granted (Sound.of_reachable h).offers, List.length_nil] at hroom
  rw [JobQueue.length, hslots.made]
  split
  · omega
  · rfl

/-! ## What can still be taken -/

/-- Whether an operation is one of a call for an item. -/
def Label.ofConsumer : Label α → Bool
  | .ask | .takeTurn _ | .receive _ | .forsake _ => true
  | _ => false

/-- Calls for an item could return with these items from now on, if nobody else did anything. -/
def Obtainable (s : Calls α) (items : List (Nat × α)) : Prop :=
  ∃ labels t, (∀ label ∈ labels, label.ofConsumer = true) ∧ s.run labels = some t ∧
    (s.returns labels).reduceOption = items

/-- Whatever consumers do, they take the first items of the buffer and leave the others. -/
theorem buffer_of_consumers (hl : ∀ label ∈ labels, label.ofConsumer = true)
    (hr : s.run labels = some t) :
    s.queue.buffer = (s.returns labels).reduceOption ++ t.queue.buffer := by
  induction labels generalizing s with
  | nil =>
      cases hr
      rfl
  | cons label labels ih =>
      obtain ⟨next, hs, hr⟩ := run_cons.mp hr
      have hrest := ih (fun l hl' => hl l (List.mem_cons_of_mem label hl')) hr
      have hlabel := hl label List.mem_cons_self
      rw [returns_cons hs]
      cases (step_move hs).outcome with
      | hands item hret hbuffer =>
          rw [hbuffer, hrest, hret]
          rfl
      | ends hret hbuffer hnext =>
          rw [hbuffer, hret, ← hnext, hrest]
          rfl
      | same hret hbuffer =>
          rw [← hbuffer, hrest, hret]
          rfl
      | offers hret hoffer =>
          rcases hoffer with ⟨a, rfl⟩ | ⟨k, rfl⟩ <;> cases hlabel
      | discards hret hdrop hgone =>
          subst hdrop
          cases hlabel

/-- Nobody asks at a queue to which there is a handle. -/
structure Unasked (capacity : Nat) (s : Calls α) : Prop where
  queue : s.queue.Steady capacity
  nobody : s.queue.callers = []
  handle : s.queue.receivers ≠ 0

/-- A call that comes alone has its turn at once. -/
theorem Unasked.ask (h : s.Unasked capacity) (c : Nat) :
    (s.queue.ask c).receiving = some c ∧ (s.queue.ask c).callers = [c] := by
  obtain ⟨hreceiving, hline⟩ := List.append_eq_nil_iff.mp h.nobody
  have hgranted := (List.append_eq_nil_iff.mp hline).1
  have hpermit := h.queue.permit
  rw [hgranted, hreceiving] at hpermit
  have hfree : s.queue.turn.free = 1 := hpermit
  have hcallers := callers_ask h.queue c
  rw [h.nobody, List.perm_singleton] at hcallers
  refine ⟨?_, hcallers⟩
  rcases ask_cases h.queue.opened c with ⟨hnone, _⟩ | ⟨_, _, hask⟩
  · omega
  · rw [hask]

/-- It takes the first item, and leaves the queue to the next call. -/
theorem Unasked.takes (h : s.Unasked capacity) {item : Nat × α} {rest : List (Nat × α)}
    (hb : s.queue.buffer = item :: rest) :
    ∃ next, s.run [.ask, .receive s.asks.size] = some next ∧
      s.returns [.ask, .receive s.asks.size] = [some item] ∧ next.queue.buffer = rest ∧
        next.Unasked capacity := by
  obtain ⟨hreceiving, hcallers⟩ := h.ask s.asks.size
  have hask : s.step .ask = some { s with
      queue := s.queue.ask s.asks.size
      asks := s.asks.push .running } := if_neg h.handle
  have hbuffer : (s.queue.ask s.asks.size).buffer = item :: rest := sameSlots_ask.buffer.trans hb
  have hitem : (s.queue.ask s.asks.size).receive.1 = .item item := by
    rw [JobQueue.receive, hbuffer]
  have hnew : (s.asks.push .running)[s.asks.size]? = some (.running : Ask (Nat × α)) :=
    Array.getElem?_push_size
  have hreceive : step { s with
      queue := s.queue.ask s.asks.size
      asks := s.asks.push .running } (.receive s.asks.size) = some { s with
      queue := (s.queue.ask s.asks.size).receive.2
      asks := (s.asks.push .running).set! s.asks.size (.delivered item) } := by
    rcases hq : (s.queue.ask s.asks.size).receive with ⟨answer, queue⟩
    rw [hq] at hitem
    simp only [step, hnew, hreceiving, if_true, hq, show answer = .item item from hitem]
  refine ⟨_, run_cons.mpr ⟨_, hask, run_cons.mpr ⟨_, hreceive, rfl⟩⟩, ?_, ?_, ?_, ?_, ?_⟩
  · rw [returns_cons hask, returns_cons hreceive]
    simp only [returned?, getElem?_set_self hnew]
    rfl
  · change (s.queue.ask s.asks.size).receive.2.buffer = rest
    rw [JobQueue.receive, hbuffer]
    rfl
  · exact (h.queue.ask _).receive hreceiving
  · have hleft := callers_receive hreceiving (by simp [hitem])
    rw [hcallers] at hleft
    exact (List.cons.inj hleft).2.symm
  · obtain ⟨_, _, _, _, _, hframe⟩ := receive_frame (q := s.queue.ask s.asks.size)
    change (s.queue.ask s.asks.size).receive.2.receivers ≠ 0
    rw [hframe]
    exact (receivers_ask (q := s.queue) (c := s.asks.size)).symm ▸ h.handle

theorem Unasked.obtainable (h : s.Unasked capacity) (hi : items <+: s.queue.buffer) :
    s.Obtainable items := by
  induction items generalizing s with
  | nil => exact ⟨[], s, nofun, rfl, rfl⟩
  | cons item items ih =>
      obtain ⟨rest, hb⟩ := hi
      obtain ⟨next, hrun, hret, hbuffer, hnext⟩ := h.takes hb.symm
      have hprefix : items <+: next.queue.buffer := by
        rw [hbuffer]
        exact List.prefix_append items rest
      obtain ⟨labels, t, hlabels, ht, hitems⟩ := ih hnext hprefix
      refine ⟨[.ask, .receive s.asks.size] ++ labels, t, ?_, ?_, ?_⟩
      · intro label hl
        rcases List.mem_append.mp hl with hl | hl
        · rcases List.mem_pair.mp hl with rfl | rfl <;> rfl
        · exact hlabels label hl
      · rw [run_append, hrun]
        exact ht
      · rw [returns_append hrun, hret, List.reduceOption_append, hitems]
        rfl

/-- Nobody asks at a settled queue that holds items, since it would have been given one. -/
theorem Settled.unasked (hs : s.Settled) (h : Reachable capacity s) (hb : s.queue.buffer ≠ []) :
    s.Unasked capacity := by
  have hsteady := (Sound.of_reachable h).queue
  have hasked := asked_of_reachable h
  refine ⟨hsteady, ?_, ?_⟩
  · apply List.eq_nil_iff_forall_not_mem.mpr
    intro k hk
    exact hb (hs.ask hasked hsteady ((hasked.running k).mp hk)).1
  · intro hgone
    exact hb (hsteady.order.gone (hsteady.handles.mpr hgone))

/-! ## What the length says -/

/-- What the length of a queue tells about its items. -/
structure Measured (s : Calls α) : Prop where
  /-- The buffer holds what was accepted and neither delivered nor discarded. -/
  left : s.queue.accepted.toList =
    s.queue.delivered.toList ++ s.queue.buffer ++ s.queue.discarded.toList
  /-- All of it can still be taken, in this order, and nothing else. -/
  obtainable : ∀ items, s.Obtainable items ↔ items <+: s.queue.buffer
  /-- The length counts what can be taken, unless the producers' side was closed before that. -/
  counts : s.queue.length = s.queue.buffer.length ↔
    s.queue.producing = true ∨ s.queue.buffer = []
  empties : (s.queue.isEmpty = true ↔ s.queue.buffer = []) ↔
    s.queue.producing = true ∨ s.queue.buffer = []
  closed : s.queue.producing = false → s.queue.length = 0 ∧ s.queue.isEmpty = true

theorem length_counts (h : Reachable capacity s) (hs : s.Settled) : s.Measured := by
  have hlength := hs.length h
  have hempty : s.queue.isEmpty = true ↔ s.queue.length = 0 := beq_iff_eq
  refine ⟨(Sound.of_reachable h).queue.order.order, ?_, ?_, ?_, ?_⟩
  · intro items
    constructor
    · rintro ⟨labels, t, hl, hr, rfl⟩
      exact ⟨t.queue.buffer, (buffer_of_consumers hl hr).symm⟩
    · intro hi
      by_cases hb : s.queue.buffer = []
      · rw [hb, List.prefix_nil] at hi
        rw [hi]
        exact ⟨[], s, nofun, rfl, rfl⟩
      · exact (hs.unasked h hb).obtainable hi
  · rw [hlength]
    cases s.queue.producing with
    | true => simp
    | false =>
        rw [if_neg Bool.false_ne_true, eq_comm, List.length_eq_zero_iff]
        simp
  · rw [hempty, hlength]
    cases s.queue.producing <;> simp
  · intro hp
    rw [hempty, hlength, hp]
    exact ⟨rfl, rfl⟩

/-- The queue is closed while it holds an item, which it then neither counts nor keeps. -/
theorem length_counts_of_closed_queue : ∃ s : Calls String, Reachable 4 s ∧ s.Settled ∧
    s.Measured ∧ s.queue.producing = false ∧ s.Obtainable [(0, "a")] ∧ s.queue.length = 0 := by
  obtain ⟨s, hreachable, hs⟩ : ∃ s : Calls String, Reachable 4 s ∧ s = {
      queue := {
        capacity := 4
        buffer := [(0, "a")]
        slots := { free := 3 }
        producing := false
        accepted := #[(0, "a")] }
      offers := #[.accepted "a"] } :=
    ⟨_, (Reachable.start.step (.offer "a") rfl).step .close rfl, rfl⟩
  have hsettled : s.Settled := by
    subst hs
    intro k
    refine ⟨?_, rfl, rfl⟩
    rcases k with _ | k <;> rfl
  have hbuffer : s.queue.buffer = [(0, "a")] := congrArg (·.queue.buffer) hs
  have hclosed : s.queue.producing = false := congrArg (·.queue.producing) hs
  have hmeasured := length_counts hreachable hsettled
  exact ⟨s, hreachable, hsettled, hmeasured, hclosed,
    (hmeasured.obtainable _).mpr (hbuffer ▸ List.prefix_rfl), (hmeasured.closed hclosed).1⟩

end JobQueue.Calls

end LoadBench
