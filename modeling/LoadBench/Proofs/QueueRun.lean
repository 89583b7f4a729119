import LoadBench.Proofs.QueueWaits

/-!
Runs of a queue with its calls, as lists of operations one after the other, and what the calls for
an item return with in the course of a run.

Once the producers' side is closed no offer is left that could still be accepted, so what a run
does to the buffer is told by what its calls for an item return with.
-/

namespace LoadBench.JobQueue.Calls

variable {α : Type} {s next t : Calls α} {label : Label α} {labels : List (Label α)}
  {capacity : Nat}

/-- The state after the operations of a list, if each of them can take place in its turn. -/
def run : Calls α → List (Label α) → Option (Calls α)
  | s, [] => some s
  | s, label :: labels => (s.step label).bind fun next => run next labels

theorem run_cons : s.run (label :: labels) = some t ↔
    ∃ next, s.step label = some next ∧ next.run labels = some t :=
  Option.bind_eq_some_iff

theorem run_append (before after : List (Label α)) :
    s.run (before ++ after) = (s.run before).bind fun t => t.run after := by
  induction before generalizing s with
  | nil => rfl
  | cons label before ih =>
      rw [List.cons_append, run, run, Option.bind_assoc]
      exact congrArg (Option.bind _) (funext fun next => ih)

theorem Reachable.run (h : Reachable capacity s) (hr : s.run labels = some t) :
    Reachable capacity t := by
  induction labels generalizing s with
  | nil =>
      cases hr
      exact h
  | cons label labels ih =>
      obtain ⟨next, hs, hr⟩ := run_cons.mp hr
      exact ih (h.step label hs) hr

/-- What the call for an item returns with that an operation ends. Such a call returns with an item
or, if nothing more comes, without one. -/
def returned? (next : Calls α) : Label α → Option (Option (Nat × α))
  | .receive k => next.asks[k]?.map Ask.item?
  | _ => none

/-- What calls for an item return with in the course of some operations, one after the other. -/
def returns : Calls α → List (Label α) → List (Option (Nat × α))
  | _, [] => []
  | s, label :: labels =>
      match s.step label with
      | none => []
      | some next => (next.returned? label).toList ++ next.returns labels

theorem returns_cons (hs : s.step label = some next) :
    s.returns (label :: labels) = (next.returned? label).toList ++ next.returns labels := by
  simp only [returns, hs]

theorem returns_append {after : List (Label α)} (hr : s.run labels = some t) :
    s.returns (labels ++ after) = s.returns labels ++ t.returns after := by
  induction labels generalizing s with
  | nil =>
      cases hr
      rfl
  | cons label labels ih =>
      obtain ⟨next, hs, hr⟩ := run_cons.mp hr
      rw [List.cons_append, returns_cons hs, returns_cons hs, ih hr, List.append_assoc]

/-- What an operation is for the buffer and for the calls for an item. -/
inductive Outcome (s next : Calls α) (label : Label α) : Prop
  /-- A call returns with the first item of the buffer. -/
  | hands (item : Nat × α) (hret : next.returned? label = some (some item))
      (hbuffer : s.queue.buffer = item :: next.queue.buffer)
  /-- A call returns without an item, since the buffer is empty. -/
  | ends (hret : next.returned? label = some none) (hbuffer : s.queue.buffer = [])
      (hnext : next.queue.buffer = [])
  | same (hret : next.returned? label = none) (hbuffer : next.queue.buffer = s.queue.buffer)
  /-- An item is offered, for the first time or by an offer that waited. -/
  | offers (hret : next.returned? label = none)
      (hlabel : (∃ a, label = .offer a) ∨ ∃ k, label = .resume k)
  /-- The last receiver goes. -/
  | discards (hret : next.returned? label = none) (hlabel : label = .dropReceiver)
      (hgone : next.queue.receivers = 0)

theorem Move.outcome (h : Move s label next) : Outcome s next label := by
  have hitems {queue : JobQueue (Nat × α) Nat Nat} (hitems : queue.items = s.queue.items) :
      queue.buffer = s.queue.buffer := congrArg Prod.fst hitems
  cases h with
  | offered a => exact .offers rfl (.inl ⟨a, rfl⟩)
  | @resumed k a _ _ => exact .offers rfl (.inr ⟨k, rfl⟩)
  | withdrawn _ => exact .same rfl rfl
  | asked _ => exact .same rfl (hitems items_ask)
  | turned _ _ => exact .same rfl (hitems items_takeTurn)
  | @delivered k item hk hr hitem =>
      obtain ⟨queue, hq⟩ : ∃ queue, s.queue.receive = (.item item, queue) :=
        ⟨_, Prod.ext hitem rfl⟩
      obtain ⟨rest, hbuffer, rfl⟩ := receive_item hq
      refine .hands item ?_ ?_
      · simp only [returned?, getElem?_set_self hk]
        rfl
      · change s.queue.buffer = item :: s.queue.receive.2.buffer
        rw [hbuffer, hq]
        rfl
  | @ended k hk hr hended =>
      obtain ⟨queue, hq⟩ : ∃ queue, s.queue.receive = (.ended, queue) := ⟨_, Prod.ext hended rfl⟩
      obtain ⟨hbuffer, _, rfl⟩ := receive_ended hq
      refine .ends ?_ hbuffer ?_
      · simp only [returned?, getElem?_set_self hk]
        rfl
      · change s.queue.receive.2.buffer = []
        rw [hq]
        exact hbuffer
  | forsaken _ => exact .same rfl (hitems items_withdrawAsk)
  | cloned _ => exact .same rfl rfl
  | dropped hr =>
      rcases hn : s.queue.receivers with _ | _ | n
      · exact absurd hn hr
      · refine .discards rfl rfl ?_
        simp only [JobQueue.dropReceiver, hn]
      · refine .same rfl ?_
        simp only [JobQueue.dropReceiver, hn]
  | closed => exact .same rfl rfl

end LoadBench.JobQueue.Calls
