import LoadBench.Proofs.QueueCalls

/-!
Which calls are left waiting at a queue once none of them can go on. A call for an item then waits
at an empty queue to which something may still come, and an offer waits at a full queue from which
something may still be taken. So the two never wait together, and no call waits for something that
is there.

A wake-up travels from one waiting call to the next: whoever leaves, by getting what it wants or by
giving up, passes on what it had. What carries the proof is that every call that runs is known to
the queue, in a line or by its turn.
-/

namespace LoadBench.JobQueue

section Callers

variable {α π κ : Type} {q : JobQueue α π κ} {c : κ} {capacity : Nat}

/-- The consumers that the queue knows: the one that has its turn, and those in line for it. -/
def callers (q : JobQueue α π κ) : List κ := q.receiving.toList ++ q.turn.line

theorem callers_ask (h : q.Steady capacity) (c : κ) : (q.ask c).callers.Perm (c :: q.callers) := by
  unfold callers
  rcases ask_cases h.opened c with ⟨_, hask⟩ | ⟨n, hfree, hask⟩
  · have hline : (q.ask c).turn.line = q.turn.line ++ [c] := by
      rw [hask]
      exact (List.append_assoc _ _ _).symm
    have hreceiving : (q.ask c).receiving = q.receiving := by rw [hask]
    rw [hline, hreceiving, ← List.append_assoc]
    exact List.perm_append_singleton c _
  · have hpermit := h.permit
    have hnone : q.receiving.toList = [] := by
      apply List.eq_nil_of_length_eq_zero
      omega
    rw [hask, hnone]
    exact List.Perm.refl _

theorem callers_endTurn (hr : q.receiving = some c) : q.callers = c :: q.endTurn.callers := by
  unfold callers
  rw [hr]
  change c :: q.turn.line = c :: q.turn.release.line
  rw [FairSemaphore.line_release]

theorem callers_receive (hr : q.receiving = some c) (hn : q.receive.1 ≠ .nothing) :
    q.callers = c :: q.receive.2.callers := by
  rcases hq : q.receive with ⟨a | _ | _, q'⟩
  · obtain ⟨rest, _, rfl⟩ := receive_item hq
    exact callers_endTurn hr
  · obtain ⟨_, _, rfl⟩ := receive_ended hq
    exact callers_endTurn hr
  · rw [hq] at hn
    exact absurd rfl hn

variable [DecidableEq κ]

theorem callers_takeTurn (h : q.Steady capacity) (hr : q.turn.ready c = true) :
    (q.takeTurn c).callers.Perm q.callers := by
  obtain ⟨hg, htake⟩ := takeTurn_of_ready h.opened hr
  have hpermit := h.permit
  have hpos := List.length_pos_of_mem hg
  have hnone : q.receiving.toList = [] := by
    apply List.eq_nil_of_length_eq_zero
    omega
  unfold callers
  rw [htake, hnone]
  exact ((List.perm_cons_erase hg).append_right q.turn.waiting).symm

theorem callers_withdrawAsk : (q.withdrawAsk c).callers = q.callers.erase c := by
  unfold withdrawAsk
  split
  · next hr =>
      rw [callers_endTurn hr]
      exact (List.erase_cons_head c _).symm
  · next hr =>
      have hout : c ∉ q.receiving.toList := by
        rw [Option.mem_toList]
        exact hr
      unfold callers
      rw [List.erase_append_right _ hout, ← FairSemaphore.line_withdraw]

end Callers

namespace Calls

variable {α : Type} {s next : Calls α} {label : Label α} {capacity : Nat}

/-- The calls for an item that run are those that the queue knows, each once. -/
structure Asked (q : JobQueue (Nat × α) Nat Nat) (asks : Array (Ask (Nat × α))) : Prop where
  once : q.callers.Nodup
  running : ∀ k, k ∈ q.callers ↔ asks[k]? = some .running

namespace Asked

variable {q q' : JobQueue (Nat × α) Nat Nat} {asks asks' : Array (Ask (Nat × α))} {k : Nat}

theorem same (h : Asked q asks) (hp : q'.callers.Perm q.callers) : Asked q' asks := by
  constructor
  · exact hp.nodup_iff.mpr h.once
  · intro j
    exact hp.mem_iff.trans (h.running j)

theorem push (h : Asked q asks) (hp : q'.callers.Perm (asks.size :: q.callers)) :
    Asked q' (asks.push .running) := by
  have hnew : asks.size ∉ q.callers := by
    rw [h.running, Array.getElem?_eq_none_iff.mpr (Nat.le_refl _)]
    exact nofun
  constructor
  · exact hp.nodup_iff.mpr (List.nodup_cons.mpr ⟨hnew, h.once⟩)
  · intro j
    rw [hp.mem_iff, List.mem_cons, h.running, Array.getElem?_push]
    split
    · next hj => exact iff_of_true (.inl hj) rfl
    · next hj => exact or_iff_right hj

/-- A call that returns or is given up is known no longer. -/
theorem leave (h : Asked q asks) (hq : q'.callers = q.callers.erase k) {c : Ask (Nat × α)}
    (hk : asks[k]? = some .running) (hc : c ≠ .running) : Asked q' (asks.set! k c) := by
  constructor
  · rw [hq]
    exact h.once.erase k
  · intro j
    rw [hq, h.once.mem_erase_iff, h.running]
    by_cases hj : j = k
    · subst hj
      rw [getElem?_set_self hk]
      refine iff_of_false (fun hand => hand.1 rfl) ?_
      intro hc'
      exact hc (Option.some.inj hc')
    · rw [getElem?_set_ne (Ne.symm hj)]
      exact and_iff_right hj

end Asked

theorem Move.asked_kept (h : Move s label next) (ha : Asked s.queue s.asks)
    (hs : s.queue.Steady capacity) : Asked next.queue next.asks := by
  -- What producers do, and what becomes of the handles, is not seen by the consumers.
  have hproducer {queue : JobQueue (Nat × α) Nat Nat} (hturn : queue.turn = s.queue.turn)
      (hreceiving : queue.receiving = s.queue.receiving) : Asked queue s.asks := by
    apply ha.same
    unfold callers
    rw [hturn, hreceiving]
  cases h with
  | offered a =>
      obtain ⟨_, _, _, hq⟩ := offer_frame (q := s.queue) (p := s.offers.size)
        (a := (s.offers.size, a))
      exact hproducer (by rw [hq]) (by rw [hq])
  | @resumed k a _ _ =>
      obtain ⟨_, _, _, hq⟩ := reoffer_frame (q := s.queue) (p := k) (a := (k, a))
      exact hproducer (by rw [hq]) (by rw [hq])
  | withdrawn _ => exact hproducer rfl rfl
  | asked _ => exact ha.push (callers_ask hs _)
  | turned _ hr => exact ha.same (callers_takeTurn hs hr)
  | delivered hk hr hitem =>
      refine ha.leave ?_ hk nofun
      rw [callers_receive hr (by rw [hitem]; exact nofun), List.erase_cons_head]
  | ended hk hr hended =>
      refine ha.leave ?_ hk nofun
      rw [callers_receive hr (by rw [hended]; exact nofun), List.erase_cons_head]
  | forsaken hk => exact ha.leave callers_withdrawAsk hk nofun
  | cloned _ => exact hproducer rfl rfl
  | dropped _ =>
      obtain ⟨hturn, hreceiving⟩ := turn_dropReceiver (q := s.queue)
      exact hproducer hturn hreceiving
  | closed => exact hproducer rfl rfl

theorem asked_of_reachable (h : Reachable capacity s) : Asked s.queue s.asks := by
  induction h with
  | start =>
      constructor
      · exact List.nodup_nil
      · intro k
        exact iff_of_false List.not_mem_nil nofun
  | step label h hs ih => exact (step_move hs).asked_kept ih (Sound.of_reachable h).queue

/-- No call that waits can go on. -/
def Settled (s : Calls α) : Prop :=
  ∀ k, s.step (.resume k) = none ∧ s.step (.takeTurn k) = none ∧ s.step (.receive k) = none

/-- What the calls that are left waiting at a queue of a capacity wait for. -/
structure LeftWaiting (capacity : Nat) (s : Calls α) : Prop where
  /-- A call for an item waits only while there is none. -/
  ask_item (k : Nat) : s.asks[k]? = some .running → s.queue.buffer = []
  /-- An offer waits only while there is no slot. -/
  offer_slot (k : Nat) (a : α) : s.offers[k]? = some (.running a) →
    s.queue.slots.free = 0 ∧ s.queue.buffer.length = capacity
  ask_offer (j k : Nat) (a : α) :
    ¬ (s.asks[j]? = some .running ∧ s.offers[k]? = some (.running a))
  /-- No call for an item waits once the producing side is closed. -/
  ask_closed : s.queue.producing = false → ∀ k : Nat, s.asks[k]? ≠ some .running
  /-- No offer waits once the last receiver is gone. -/
  offer_gone : s.queue.receivers = 0 → ∀ (k : Nat) (a : α), s.offers[k]? ≠ some (.running a)

theorem Settled.not_ready (hs : s.Settled) {k : Nat} (hk : s.asks[k]? = some .running) :
    s.queue.turn.ready k ≠ true := by
  intro hr
  have hstep := (hs k).2.1
  simp [step, hk, hr] at hstep

theorem Settled.nothing (hs : s.Settled) {k : Nat} (hk : s.asks[k]? = some .running)
    (hr : s.queue.receiving = some k) : s.queue.buffer = [] ∧ s.queue.producing = true := by
  have hstep := (hs k).2.2
  simp only [step, hk, hr, if_pos, JobQueue.receive] at hstep
  cases hb : s.queue.buffer with
  | cons a rest => simp [hb] at hstep
  | nil =>
      cases hp : s.queue.producing with
      | true => exact ⟨rfl, rfl⟩
      | false => simp [hb, hp] at hstep

/-- If a call for an item waits, one has the turn and finds nothing. -/
theorem Settled.ask (hs : s.Settled) (ha : Asked s.queue s.asks) (hq : s.queue.Steady capacity)
    {k : Nat} (hk : s.asks[k]? = some .running) :
    s.queue.buffer = [] ∧ s.queue.producing = true := by
  have hgranted : s.queue.turn.granted = [] := by
    apply List.eq_nil_iff_forall_not_mem.mpr
    intro j hj
    have hrunning : s.asks[j]? = some .running := by
      apply (ha.running j).mp
      exact List.mem_append_right _ (List.mem_append_left _ hj)
    exact hs.not_ready hrunning (by simp [FairSemaphore.ready, hj])
  -- Nobody is in line while the turn is to be had, so somebody has it.
  obtain ⟨j, hj⟩ : ∃ j, s.queue.receiving = some j := by
    rcases List.mem_append.mp ((ha.running k).mpr hk) with hturn | hline
    · exact ⟨k, Option.mem_toList.mp hturn⟩
    · rw [FairSemaphore.line, hgranted, List.nil_append] at hline
      have hfree := hq.turns (List.ne_nil_of_mem hline)
      have hpermit := hq.permit
      rw [hfree, hgranted] at hpermit
      cases hr : s.queue.receiving with
      | none =>
          rw [hr] at hpermit
          cases hpermit
      | some j => exact ⟨j, rfl⟩
  apply hs.nothing _ hj
  apply (ha.running j).mp
  unfold callers
  rw [hj]
  exact List.mem_cons_self

theorem Settled.not_offerReady (hs : s.Settled)
    (ho : Offered s.queue.slots s.queue.accepted s.offers) {k : Nat}
    (hk : k ∈ s.queue.slots.line) : s.queue.slots.ready k ≠ true := by
  intro hr
  obtain ⟨a, hrunning⟩ := (ho.running k).mp hk
  have hstep := (hs k).1
  simp [step, hrunning, offerReady, hr] at hstep

/-- No slot is granted to an offer that has not noticed. -/
theorem Settled.granted (hs : s.Settled)
    (ho : Offered s.queue.slots s.queue.accepted s.offers) : s.queue.slots.granted = [] := by
  apply List.eq_nil_iff_forall_not_mem.mpr
  intro k hk
  exact hs.not_offerReady ho (List.mem_append_left _ hk) (by simp [FairSemaphore.ready, hk])

/-- An offer that waits stands before a full queue, and somebody is left to take from it. -/
theorem Settled.offer (hs : s.Settled) (ho : Offered s.queue.slots s.queue.accepted s.offers)
    (hq : s.queue.Steady capacity) {k : Nat} {a : α} (hk : s.offers[k]? = some (.running a)) :
    s.queue.slots.closed = false ∧ s.queue.slots.free = 0 ∧
      s.queue.buffer.length = capacity := by
  have hgranted := hs.granted ho
  have hwaiting : k ∈ s.queue.slots.waiting := by
    have hline := (ho.running k).mpr ⟨a, hk⟩
    rwa [FairSemaphore.line, hgranted, List.nil_append] at hline
  have hopen : s.queue.slots.closed = false := by
    rw [← Bool.not_eq_true]
    intro hclosed
    exact hs.not_offerReady ho (List.mem_append_right _ hwaiting)
      (by simp [FairSemaphore.ready, hclosed, hwaiting])
  have hfree := hq.busy hopen (List.ne_nil_of_mem hwaiting)
  have hroom := hq.room hopen
  rw [hfree, hgranted] at hroom
  exact ⟨hopen, hfree, by simpa using hroom⟩

/-- In every state in which no waiting call can go on, each of them waits for something that is not
there. -/
theorem left_waiting (hc : 0 < capacity) (h : Reachable capacity s) (hs : s.Settled) :
    LeftWaiting capacity s := by
  have hsound := Sound.of_reachable h
  have hask {k : Nat} (hk : s.asks[k]? = some .running) :=
    hs.ask (asked_of_reachable h) hsound.queue hk
  have hoffer {k : Nat} {a : α} (hk : s.offers[k]? = some (.running a)) :=
    hs.offer hsound.offers hsound.queue hk
  constructor
  · intro k hk
    exact (hask hk).1
  · intro k a hk
    exact (hoffer hk).2
  · intro j k a hwait
    have hempty := (hask hwait.1).1
    have hfull := (hoffer hwait.2).2.2
    rw [hempty] at hfull
    exact absurd hfull hc.ne
  · intro hclosed k hk
    have hopen := (hask hk).2
    rw [hclosed] at hopen
    cases hopen
  · intro hgone k a hk
    have hopen := (hoffer hk).1
    rw [hsound.queue.handles.mpr hgone] at hopen
    cases hopen

/-- The second offer gives up its place in line, and the third still waits for the one slot. -/
theorem left_waiting_of_full_queue : ∃ s : Calls String, Reachable 1 s ∧
    s.offers = #[.accepted "a", .withdrawn "b", .running "c"] ∧ s.Settled ∧ LeftWaiting 1 s := by
  have hreachable : Reachable 1 {
      queue := {
        capacity := 1
        buffer := [(0, "a")]
        slots := { free := 0, waiting := [2] }
        accepted := #[(0, "a")] }
      offers := #[.accepted "a", .withdrawn "b", .running "c"] } :=
    (((Reachable.start.step (.offer "a") rfl).step (.offer "b") rfl).step (.offer "c") rfl).step
      (.withdraw 1) rfl
  refine ⟨_, hreachable, rfl, ?settled, left_waiting Nat.one_pos hreachable ?settled⟩
  intro k
  refine ⟨?_, rfl, rfl⟩
  rcases k with _ | _ | _ | k
  · rfl
  · rfl
  · rfl
  · rfl

end Calls

end LoadBench.JobQueue
