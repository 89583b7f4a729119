import LoadBench.Proofs.QueueOrder
import LoadBench.Proofs.Traced

/-!
The discipline of a pool's queue. There is one turn: it is free, granted to a worker that waits for
it, or taken by the worker that receives. There are as many slots as the queue has room for: each
is free, granted to the caller while it waits, or taken by a job in the buffer. Whoever waits is in
one of the two lists, and nobody waits while there is a permit to be had.
-/

namespace LoadBench

namespace FairSemaphore

variable {s : FairSemaphore Unit}

/-- The only one who asks waits, or was granted a permit. -/
theorem alone (h : s.waiting ++ s.granted = [()]) :
    s.waiting = [()] ∧ s.granted = [] ∨ s.waiting = [] ∧ s.granted = [()] := by
  rcases List.append_eq_singleton_iff.mp h with ⟨hw, hg⟩ | ⟨hw, hg⟩
  · exact .inr ⟨hw, hg⟩
  · exact .inl ⟨hw, hg⟩

theorem alone_resume (hc : s.closed = true) (h : s.waiting ++ s.granted = [()]) :
    (s.resume ()).2.waiting ++ (s.resume ()).2.granted = [] ∧ (s.resume ()).2.closed = true := by
  rcases alone h with ⟨hw, hg⟩ | ⟨hw, hg⟩ <;> simp [resume, release, hc, hw, hg]

theorem alone_withdraw (h : s.waiting ++ s.granted = [()]) :
    (s.withdraw ()).waiting ++ (s.withdraw ()).granted = [] ∧
      (s.withdraw ()).closed = s.closed ∧
      (s.withdraw ()).free + (s.withdraw ()).granted.length = s.free + s.granted.length := by
  rcases alone h with ⟨hw, hg⟩ | ⟨hw, hg⟩ <;> simp [withdraw, release, hw, hg]

end FairSemaphore

/-- There is one turn, and whoever waits for it or has it is a worker that knows. -/
structure Turns (p : WorkerPool) : Prop where
  opened : p.queue.turn.closed = false
  permit : p.queue.turn.free + p.queue.turn.granted.length +
    p.queue.receiving.toList.length = 1
  busy : p.queue.turn.Busy
  nodup : (p.queue.turn.waiting ++ p.queue.turn.granted).Nodup
  queued : ∀ k, k ∈ p.queue.turn.waiting ++ p.queue.turn.granted ↔ p.activity? k = some .queued
  receiving : ∀ k, p.queue.receiving = some k ↔ p.activity? k = some .receiving

/-- Each slot is free, granted or taken, until the last receiver goes. -/
structure Slots (v : PoolView) : Prop where
  room : v.pool.queue.slots.closed = false → v.pool.queue.slots.free +
    v.pool.queue.slots.granted.length + v.pool.queue.buffer.length = v.pool.queue.capacity
  busy : v.pool.queue.slots.closed = false → v.pool.queue.slots.Busy
  caller : v.pool.queue.slots.waiting ++ v.pool.queue.slots.granted =
    if v.waiting then [()] else []
  capacity : 0 < v.pool.queue.capacity

/-- How many workers have not ended. -/
def WorkerPool.alive (p : WorkerPool) : Nat :=
  total (fun w => if w.activity.hasEnded then 0 else 1) p.workers

/-- Every worker that has not ended has a handle to the queue, and so has a call to start. -/
structure Handles (v : PoolView) : Prop where
  closed : v.pool.queue.slots.closed = true ↔ v.pool.queue.receivers = 0
  receivers : v.pool.queue.receivers = v.pool.alive + if v.opening then 1 else 0

/-- The discipline of a pool's queue. -/
structure Orderly (v : PoolView) : Prop where
  order : v.pool.queue.Ordered
  turns : Turns v.pool
  slots : Slots v
  handles : Handles v

namespace WorkerPool

variable {p q : WorkerPool} {k : Nat} {a : Activity} {w : Worker}

theorem activity?_setActivity (hw : p.workers[k]? = some w) (hq : q.workers = p.workers)
    (a : Activity) (j : Nat) :
    (q.setActivity k a).activity? j = if k = j then some a else p.activity? j := by
  rw [activity?, getElem?_setActivity, hq]
  split
  · next hj =>
      subst hj
      rw [hw]
      rfl
  · rfl

end WorkerPool

namespace Turns

variable {p q : WorkerPool} {k : Nat} {w : Worker}

/-- What becomes of the turn is no business of a worker that neither waits for it nor has it. -/
theorem congr (h : Turns p) (ht : q.queue.turn = p.queue.turn)
    (hr : q.queue.receiving = p.queue.receiving)
    (hqueued : ∀ k, q.activity? k = some .queued ↔ p.activity? k = some .queued)
    (hreceiving : ∀ k, q.activity? k = some .receiving ↔ p.activity? k = some .receiving) :
    Turns q where
  opened := ht ▸ h.opened
  permit := by
    rw [ht, hr]
    exact h.permit
  busy := ht ▸ h.busy
  nodup := ht ▸ h.nodup
  queued k := by
    rw [ht, hqueued]
    exact h.queued k
  receiving k := by
    rw [hr, hreceiving]
    exact h.receiving k

theorem set (h : Turns p) (hw : p.workers[k]? = some w) (ht : q.queue.turn = p.queue.turn)
    (hr : q.queue.receiving = p.queue.receiving) (hworkers : q.workers = p.workers)
    (hold : w.activity ≠ .queued ∧ w.activity ≠ .receiving) (a : Activity)
    (hnew : a ≠ .queued ∧ a ≠ .receiving) : Turns (q.setActivity k a) := by
  have hk : p.activity? k = some w.activity := by simp [WorkerPool.activity?, hw]
  refine h.congr ht hr ?_ ?_ <;> intro j <;>
    rw [WorkerPool.activity?_setActivity hw hworkers a] <;> split
  · next hj =>
      subst hj
      simp [hk, hold.1, hnew.1]
  · rfl
  · next hj =>
      subst hj
      simp [hk, hold.2, hnew.2]
  · rfl

/-- A worker does something else, and the turn has moved with it. -/
theorem move (hw : p.workers[k]? = some w) (hworkers : q.workers = p.workers) (a : Activity)
    (opened : q.queue.turn.closed = false)
    (permit : q.queue.turn.free + q.queue.turn.granted.length +
      q.queue.receiving.toList.length = 1)
    (busy : q.queue.turn.Busy) (nodup : (q.queue.turn.waiting ++ q.queue.turn.granted).Nodup)
    (queued : ∀ j, j ∈ q.queue.turn.waiting ++ q.queue.turn.granted ↔
      if k = j then a = .queued else p.activity? j = some .queued)
    (receiving : ∀ j, q.queue.receiving = some j ↔
      if k = j then a = .receiving else p.activity? j = some .receiving) :
    Turns (q.setActivity k a) := by
  refine ⟨opened, permit, busy, nodup, fun j => (queued j).trans ?_,
    fun j => (receiving j).trans ?_⟩ <;>
    rw [WorkerPool.activity?_setActivity hw hworkers a] <;> split <;> simp

/-- A worker that asks has the turn at once or stands in line for it. -/
theorem asks (h : Turns p) (hw : p.workers[k]? = some w) (ha : w.activity = .idle) :
    Turns ({ p with queue := p.queue.ask k }.setActivity k
      (if (p.queue.ask k).receiving = some k then .receiving else .queued)) := by
  have hk : p.activity? k = some .idle := by simp [WorkerPool.activity?, hw, ha]
  have hline : k ∉ p.queue.turn.waiting ++ p.queue.turn.granted := by
    rw [h.queued, hk]
    simp
  have hother : p.queue.receiving ≠ some k := by
    rw [Ne, h.receiving, hk]
    simp
  have hpermit := h.permit
  rcases JobQueue.ask_cases h.opened k with ⟨hfree, hask⟩ | ⟨n, hfree, hask⟩
  · have hperm : (p.queue.turn.waiting ++ [k] ++ p.queue.turn.granted).Perm
        (k :: (p.queue.turn.waiting ++ p.queue.turn.granted)) := by
      rw [List.append_assoc]
      exact List.perm_middle
    rw [hask, if_neg hother]
    refine move hw (by rfl) _ h.opened hpermit (fun _ => hfree) ?_ (fun j => ?_) fun j => ?_
    · exact hperm.nodup_iff.mpr (List.nodup_cons.mpr ⟨hline, h.nodup⟩)
    · refine hperm.mem_iff.trans ?_
      rw [List.mem_cons, h.queued]
      split
      · next hj => simp [hj]
      · next hj => simp [Ne.symm hj]
    · split
      · next hj => simpa [← hj] using hother
      · exact h.receiving j
  · rw [hfree] at hpermit
    have hnone : p.queue.receiving = none := by
      rw [← Option.toList_eq_nil_iff, ← List.length_eq_zero_iff]
      omega
    rw [hask, if_pos rfl]
    refine move hw (by rfl) _ h.opened ?_ (fun _ => ?_) h.nodup (fun j => ?_) fun j => ?_
    · rw [hnone, Option.toList_none, List.length_nil] at hpermit
      change n + p.queue.turn.granted.length + 1 = 1
      omega
    · show n = 0
      omega
    · split
      · next hj => simpa [← hj] using hline
      · exact h.queued j
    · split
      · next hj => simp [hj]
      · next hj =>
          rw [← h.receiving, hnone]
          simpa using hj

/-- A worker that is called back from the line has the turn. -/
theorem takesTurn (h : Turns p) (hw : p.workers[k]? = some w) (hr : p.queue.turn.ready k = true) :
    Turns ({ p with queue := p.queue.takeTurn k }.setActivity k .receiving) := by
  obtain ⟨hg, htake⟩ := JobQueue.takeTurn_of_ready h.opened hr
  have hpermit := h.permit
  have hlength := List.length_erase_of_mem hg
  have hpos := List.length_pos_of_mem hg
  have hnone : p.queue.receiving = none := by
    rw [← Option.toList_eq_nil_iff, ← List.length_eq_zero_iff]
    omega
  have hout : k ∉ p.queue.turn.waiting := fun hmem =>
    (List.nodup_append.mp h.nodup).2.2 k hmem k hg rfl
  have herase : p.queue.turn.waiting ++ p.queue.turn.granted.erase k =
      (p.queue.turn.waiting ++ p.queue.turn.granted).erase k := by
    rw [List.erase_append_right _ hout]
  rw [htake]
  refine move hw (by rfl) _ h.opened ?_ h.busy ?_ (fun j => ?_) fun j => ?_
  · rw [hnone, Option.toList_none, List.length_nil] at hpermit
    change p.queue.turn.free + (p.queue.turn.granted.erase k).length + 1 = 1
    omega
  · exact herase ▸ h.nodup.erase k
  · change j ∈ p.queue.turn.waiting ++ p.queue.turn.granted.erase k ↔ _
    rw [herase, h.nodup.mem_erase_iff, h.queued]
    split
    · next hj => simp [hj]
    · next hj => simp [Ne.symm hj]
  · split
    · next hj => simp [hj]
    · next hj =>
        rw [← h.receiving, hnone]
        simpa using hj

/-- The turn goes on when the worker that has it finds a job or the end. -/
theorem endsTurn (h : Turns p) (hw : p.workers[k]? = some w) (ha : w.activity = .receiving)
    (hworkers : q.workers = p.workers) (hturn : q.queue.turn = p.queue.turn.release)
    (hr : q.queue.receiving = none) (a : Activity) (hnew : a ≠ .queued ∧ a ≠ .receiving) :
    Turns (q.setActivity k a) := by
  have hk : p.activity? k = some .receiving := by simp [WorkerPool.activity?, hw, ha]
  have hreceiving := (h.receiving k).mpr hk
  have hpermit := h.permit
  have hreleased := FairSemaphore.permits_release (s := p.queue.turn)
  have hperm := FairSemaphore.perm_release (s := p.queue.turn)
  refine move hw hworkers a ?_ ?_ ?_ ?_ (fun j => ?_) fun j => ?_
  · rw [hturn, FairSemaphore.closed_release]
    exact h.opened
  · rw [hreceiving] at hpermit
    rw [hturn, hr]
    simp only [Option.toList_some, Option.toList_none, List.length_singleton,
      List.length_nil] at hpermit ⊢
    omega
  · rw [hturn]
    exact FairSemaphore.busy_release h.busy
  · rw [hturn]
    exact hperm.nodup_iff.mpr h.nodup
  · rw [hturn, hperm.mem_iff, h.queued]
    split
    · next hj => simp [← hj, hk, hnew.1]
    · rfl
  · rw [hr]
    split
    · simp [hnew.2]
    · next hj =>
        rw [← h.receiving, hreceiving]
        simpa using hj

end Turns

namespace Slots

variable {v v' : PoolView}

theorem congr (h : Slots v) (hq : v.pool.queue.SameSlots v'.pool.queue)
    (hwaiting : v'.waiting = v.waiting) : Slots v' := by
  refine ⟨?_, ?_, ?_, ?_⟩
  · rw [hq.slots, hq.buffer, hq.capacity]
    exact h.room
  · rw [hq.slots]
    exact h.busy
  · rw [hq.slots, hwaiting]
    exact h.caller
  · rw [hq.capacity]
    exact h.capacity

/-- A handle that goes may close the slots. -/
theorem dropReceiver (h : Slots v) (hq : v'.pool.queue = v.pool.queue.dropReceiver)
    (hwaiting : v'.waiting = v.waiting) : Slots v' := by
  rcases v.pool.queue.slots_dropReceiver with hsame | ⟨hcapacity, hclosed, hw, hg⟩
  · exact h.congr (hq ▸ hsame) hwaiting
  · have hnever {P : Prop} (hopen : v'.pool.queue.slots.closed = false) : P := by
      rw [hq, hclosed] at hopen
      cases hopen
    refine ⟨hnever, hnever, ?_, ?_⟩
    · rw [hq, hw, hg, hwaiting]
      exact h.caller
    · rw [hq, hcapacity]
      exact h.capacity

/-- A slot whose job is taken is given back. -/
theorem takes (h : Slots v) {job : Job} {rest : List Job}
    (hb : v.pool.queue.buffer = job :: rest) (hbuffer : v'.pool.queue.buffer = rest)
    (hslots : v'.pool.queue.slots = v.pool.queue.slots.release)
    (hcapacity : v'.pool.queue.capacity = v.pool.queue.capacity)
    (hwaiting : v'.waiting = v.waiting) : Slots v' := by
  have hpermits := FairSemaphore.permits_release (s := v.pool.queue.slots)
  have hperm := FairSemaphore.perm_release (s := v.pool.queue.slots)
  refine ⟨fun hc => ?_, fun hc => ?_, ?_, hcapacity ▸ h.capacity⟩
  · rw [hslots, FairSemaphore.closed_release] at hc
    have hroom := h.room hc
    rw [hb, List.length_cons] at hroom
    rw [hslots, hbuffer, hcapacity]
    omega
  · rw [hslots, FairSemaphore.closed_release] at hc
    rw [hslots]
    exact FairSemaphore.busy_release (h.busy hc)
  · rw [h.caller] at hperm
    rw [hslots, hwaiting]
    cases hw : v.waiting with
    | false =>
        rw [hw] at hperm
        exact List.perm_nil.mp hperm
    | true =>
        rw [hw] at hperm
        exact List.perm_singleton.mp hperm

/-- A job that is accepted has a slot, a free one or the one that its producer was granted. -/
theorem accepts (h : Slots v) {job : Job} {queue : JobQueue Job Unit Nat}
    (hq : v.pool.queue.enter v.waiting job = (.taken, queue)) :
    Slots { v with pool := { v.pool with queue }, waiting := false } := by
  have hlists := h.caller
  cases hw : v.waiting with
  | false =>
      rw [hw] at hq hlists
      obtain ⟨_, hc, n, hfree, rfl⟩ := JobQueue.offer_taken hq
      obtain ⟨hwaiting, hgranted⟩ := List.append_eq_nil_iff.mp hlists
      have hroom := h.room hc
      refine ⟨fun _ => ?_, fun _ hne => absurd hwaiting hne, hlists, h.capacity⟩
      simp only [JobQueue.push, List.length_append, List.length_singleton]
      omega
  | true =>
      rw [hw] at hq hlists
      obtain ⟨hc, hg, rfl⟩ := JobQueue.reoffer_taken hq
      obtain ⟨_, hgranted⟩ | ⟨hwaiting, hgranted⟩ := FairSemaphore.alone hlists
      · rw [hgranted] at hg
        cases hg
      · have hroom := h.room hc
        rw [hgranted, List.length_singleton] at hroom
        refine ⟨fun _ => ?_, fun _ hne => absurd hwaiting hne, ?_, h.capacity⟩
        · simp only [JobQueue.push, List.length_append, List.length_singleton, hgranted]
          simp
          omega
        · simp [JobQueue.push, hwaiting, hgranted]

end Slots

namespace PoolStep

variable {v v' : PoolView}

theorem ordered (h : PoolStep v v') (ho : v.pool.queue.Ordered) : v'.pool.queue.Ordered := by
  cases h with
  | asks hw ha => exact ho.ask
  | takesTurn hw ha hr => exact ho.takeTurn
  | takes hw ha hq | ends hw ha hq =>
      have hreceive := ho.receive
      rwa [hq] at hreceive
  | leaves hw ha panicked => exact ho.dropReceiver
  | spawns hopening conn => exact ho.congr rfl rfl
  | abandons hopening => exact (ho.congr rfl rfl : v.pool.queue.close.Ordered).dropReceiver
  | starts hopening => exact ho.dropReceiver
  | closes hopening hw => exact ho.congr rfl rfl
  | @accepts job queue hp hq | @refuses job queue hq =>
      have henter := ho.enter v.waiting job
      rwa [hq] at henter
  | @parks job queue hw hq =>
      have hoffer := ho.offer () job
      rwa [hq] at hoffer
  | withdraws hw => exact ho.withdrawOffer
  | _ => exact ho

theorem turns (h : PoolStep v v') (ht : Turns v.pool) : Turns v'.pool := by
  have hquiet {a : Activity} {job : Job} (hj : a.job? = some job) :
      a ≠ .queued ∧ a ≠ .receiving := by
    constructor <;> rintro rfl <;> cases hj
  cases h with
  | asks hw ha => exact ht.asks hw ha
  | takesTurn hw ha hr => exact ht.takesTurn hw hr
  | takes hw ha hq =>
      obtain ⟨rest, _, rfl⟩ := JobQueue.receive_item hq
      exact ht.endsTurn hw ha (by rfl) (by rfl) (by rfl) _ (by simp)
  | ends hw ha hq =>
      obtain ⟨_, _, rfl⟩ := JobQueue.receive_ended hq
      exact ht.endsTurn hw ha (by rfl) (by rfl) (by rfl) _ (by simp)
  | works hw hj ha => exact ht.set hw rfl rfl rfl (hquiet hj) _ (hquiet ha)
  | lets hw hj ha =>
      refine ht.set hw rfl rfl rfl (hquiet hj) _ ?_
      rcases ha with rfl | rfl <;> simp
  | leaves hw ha panicked =>
      exact ht.set hw (by exact JobQueue.turn_dropReceiver.1)
        (by exact JobQueue.turn_dropReceiver.2) (by rfl) (by simp [ha]) _ (by simp)
  | spawns ho conn =>
      refine ht.congr rfl rfl ?_ ?_ <;> intro k <;>
        simp only [WorkerPool.activity?, WorkerPool.spawn, Array.getElem?_push] <;> split
      · next hk => simp [hk]
      · rfl
      · next hk => simp [hk]
      · rfl
  | abandons ho =>
      exact ht.congr (JobQueue.turn_dropReceiver (q := v.pool.queue.close)).1
        (JobQueue.turn_dropReceiver (q := v.pool.queue.close)).2 (fun _ => .rfl) fun _ => .rfl
  | starts ho =>
      exact ht.congr JobQueue.turn_dropReceiver.1 JobQueue.turn_dropReceiver.2 (fun _ => .rfl)
        fun _ => .rfl
  | @accepts job queue hp hq =>
      obtain ⟨slots, rfl⟩ := JobQueue.items_enter_taken hq
      exact ht.congr rfl rfl (fun _ => .rfl) fun _ => .rfl
  | parks hw hq =>
      obtain ⟨_, _, _, rfl⟩ := JobQueue.offer_parked hq
      exact ht.congr rfl rfl (fun _ => .rfl) fun _ => .rfl
  | refuses hq =>
      rcases JobQueue.enter_refused hq with ⟨_, rfl⟩ | ⟨_, _, rfl⟩ <;>
        exact ht.congr rfl rfl (fun _ => .rfl) fun _ => .rfl
  | _ => exact ht.congr rfl rfl (fun _ => .rfl) fun _ => .rfl

theorem slots (h : PoolStep v v') (hs : Slots v) : Slots v' := by
  cases h with
  | asks hw ha => exact hs.congr JobQueue.sameSlots_ask rfl
  | takesTurn hw ha hr => exact hs.congr JobQueue.sameSlots_takeTurn rfl
  | takes hw ha hq =>
      obtain ⟨rest, hb, rfl⟩ := JobQueue.receive_item hq
      exact hs.takes hb rfl rfl rfl rfl
  | ends hw ha hq =>
      obtain ⟨_, _, rfl⟩ := JobQueue.receive_ended hq
      exact hs.congr ⟨rfl, rfl, rfl⟩ rfl
  | leaves hw ha panicked => exact hs.dropReceiver rfl rfl
  | abandons ho =>
      have hclose : Slots { v with pool := v.pool.close } := hs.congr ⟨rfl, rfl, rfl⟩ rfl
      exact hclose.dropReceiver rfl rfl
  | starts ho => exact hs.dropReceiver rfl rfl
  | accepts hp hq => exact hs.accepts hq
  | parks hw hq =>
      obtain ⟨_, hc, hfree, rfl⟩ := JobQueue.offer_parked hq
      have hlists := hs.caller
      rw [hw, if_neg Bool.false_ne_true, List.append_eq_nil_iff] at hlists
      refine ⟨hs.room, fun _ _ => hfree, ?_, hs.capacity⟩
      simp [hlists.1, hlists.2]
  | refuses hq =>
      rcases JobQueue.enter_refused hq with ⟨hw, rfl⟩ | ⟨hw, hc, rfl⟩
      · exact hs.congr ⟨rfl, rfl, rfl⟩ hw.symm
      · have hlists := hs.caller
        rw [hw, if_pos rfl] at hlists
        obtain ⟨hnone, hclosed⟩ := FairSemaphore.alone_resume hc hlists
        refine ⟨fun h => ?_, fun h => ?_, hnone, hs.capacity⟩ <;>
          exact absurd (h.symm.trans hclosed) Bool.false_ne_true
  | withdraws hw =>
      have hlists := hs.caller
      rw [hw, if_pos rfl] at hlists
      obtain ⟨hnone, hclosed, hpermits⟩ := FairSemaphore.alone_withdraw hlists
      refine ⟨fun h => ?_, fun h hne => ?_, hnone, hs.capacity⟩
      · have hroom := hs.room (hclosed.symm.trans h)
        change (v.pool.queue.slots.withdraw ()).free +
          (v.pool.queue.slots.withdraw ()).granted.length + v.pool.queue.buffer.length =
            v.pool.queue.capacity
        omega
      · exact absurd (List.append_eq_nil_iff.mp hnone).1 hne
  | _ => exact hs.congr ⟨rfl, rfl, rfl⟩ rfl

end PoolStep

theorem JobQueue.closed_enter_taken {α κ : Type} {q q' : JobQueue α Unit κ} {waits : Bool} {a : α}
    (h : q.enter waits a = (.taken, q')) :
    ∃ slots, slots.closed = q.slots.closed ∧ q' = { q with slots }.push a := by
  cases waits with
  | false =>
      obtain ⟨_, _, n, _, hq⟩ := offer_taken h
      exact ⟨{ q.slots with free := n }, rfl, hq⟩
  | true =>
      obtain ⟨_, _, hq⟩ := reoffer_taken h
      exact ⟨{ q.slots with granted := q.slots.granted.erase () }, rfl, hq⟩

theorem WorkerPool.alive_setActivity {p q : WorkerPool} {k : Nat} {w : Worker}
    (hw : p.workers[k]? = some w) (hq : q.workers = p.workers) (a : Activity) :
    (q.setActivity k a).alive + (if w.activity.hasEnded then 0 else 1) =
      p.alive + if a.hasEnded then 0 else 1 := by
  simp only [alive, setActivity, hq]
  exact total_modify (fun w => if w.activity.hasEnded then 0 else 1) _ hw

namespace Handles

variable {v v' : PoolView} {k : Nat} {w : Worker}

theorem congr (h : Handles v) (hclosed : v'.pool.queue.slots.closed = v.pool.queue.slots.closed)
    (hreceivers : v'.pool.queue.receivers = v.pool.queue.receivers)
    (halive : v'.pool.alive = v.pool.alive) (hopening : v'.opening = v.opening) : Handles v' := by
  refine ⟨?_, ?_⟩
  · rw [hclosed, hreceivers]
    exact h.closed
  · rw [hreceivers, halive, hopening]
    exact h.receivers

/-- A worker that goes on has the same handle. -/
theorem put (h : Handles v) {p : WorkerPool} {a : Activity} (hw : v.pool.workers[k]? = some w)
    (hold : w.activity.hasEnded = false) (hnew : a.hasEnded = false)
    (hworkers : p.workers = v.pool.workers)
    (hclosed : p.queue.slots.closed = v.pool.queue.slots.closed)
    (hreceivers : p.queue.receivers = v.pool.queue.receivers) : Handles (v.put p k a) := by
  have halive := WorkerPool.alive_setActivity hw hworkers a
  rw [hold, hnew] at halive
  exact h.congr hclosed hreceivers (Nat.add_right_cancel halive) rfl

/-- A handle goes with the worker that ends or with the call to start. -/
theorem drop (h : Handles v) {q : JobQueue Job Unit Nat}
    (hclosed : q.slots.closed = v.pool.queue.slots.closed)
    (hreceivers : q.receivers = v.pool.queue.receivers) (hq : v'.pool.queue = q.dropReceiver)
    (hone : v'.pool.alive + (if v'.opening then 1 else 0) + 1 =
      v.pool.alive + if v.opening then 1 else 0) : Handles v' := by
  have hsum := h.receivers
  obtain ⟨hdrop, hiff⟩ := q.receivers_dropReceiver (by rw [hclosed, hreceivers]; exact h.closed)
    (by omega)
  refine ⟨?_, ?_⟩
  · rw [hq]
    exact hiff
  · rw [hq]
    omega

end Handles

namespace PoolStep

variable {v v' : PoolView}

theorem handles (h : PoolStep v v') (hh : Handles v) : Handles v' := by
  have hlive {a : Activity} {job : Job} (hj : a.job? = some job) : a.hasEnded = false := by
    cases a <;> first | rfl | cases hj
  cases h with
  | asks hw ha =>
      refine hh.put hw (by rw [ha]; rfl) ?_ rfl
        (congrArg FairSemaphore.closed JobQueue.sameSlots_ask.slots) JobQueue.receivers_ask
      split <;> rfl
  | takesTurn hw ha hr =>
      exact hh.put hw (by rw [ha]; rfl) rfl rfl
        (congrArg FairSemaphore.closed JobQueue.sameSlots_takeTurn.slots)
        JobQueue.receivers_takeTurn
  | takes hw ha hq =>
      obtain ⟨rest, hb, rfl⟩ := JobQueue.receive_item hq
      exact hh.put hw (by rw [ha]; rfl) rfl rfl FairSemaphore.closed_release rfl
  | ends hw ha hq =>
      obtain ⟨_, _, rfl⟩ := JobQueue.receive_ended hq
      exact hh.put hw (by rw [ha]; rfl) rfl rfl rfl rfl
  | works hw hj ha => exact hh.put hw (hlive hj) (hlive ha) rfl rfl rfl
  | lets hw hj ha =>
      refine hh.put hw (hlive hj) ?_ rfl rfl rfl
      rcases ha with rfl | rfl <;> rfl
  | @leaves k w panicked hw ha panicked' =>
      refine hh.drop (q := v.pool.queue) rfl rfl rfl ?_
      have halive := WorkerPool.alive_setActivity (q := v.pool.dropReceiver) hw rfl
        (.ended panicked')
      rw [ha] at halive
      change (v.pool.dropReceiver.setActivity k (.ended panicked')).alive +
        (if v.opening then 1 else 0) + 1 = _
      change _ + 1 = v.pool.alive + 0 at halive
      omega
  | dials => exact hh.congr rfl rfl rfl rfl
  | spawns ho conn =>
      have hsum := hh.receivers
      rw [ho, if_pos rfl] at hsum
      refine ⟨?_, ?_⟩
      · change v.pool.queue.slots.closed = true ↔ v.pool.queue.receivers + 1 = 0
        rw [hh.closed]
        omega
      · change v.pool.queue.receivers + 1 =
          total (fun w => if w.activity.hasEnded then 0 else 1) (v.pool.workers.push { conn }) +
            if v.opening then 1 else 0
        rw [total_push, ho, if_pos rfl]
        change _ = v.pool.alive + 1 + 1
        omega
  | abandons ho => exact hh.drop (q := v.pool.queue.close) rfl rfl rfl (by rw [ho]; rfl)
  | starts ho => exact hh.drop (q := v.pool.queue) rfl rfl rfl (by rw [ho]; rfl)
  | closes ho hw => exact hh.congr rfl rfl rfl rfl
  | accepts hp hq =>
      obtain ⟨slots, hc, rfl⟩ := JobQueue.closed_enter_taken hq
      exact hh.congr hc rfl rfl rfl
  | parks hw hq =>
      obtain ⟨_, hc, hfree, rfl⟩ := JobQueue.offer_parked hq
      exact hh.congr rfl rfl rfl rfl
  | refuses hq =>
      rcases JobQueue.enter_refused hq with ⟨_, rfl⟩ | ⟨_, _, rfl⟩
      · exact hh.congr rfl rfl rfl rfl
      · exact hh.congr FairSemaphore.closed_resume rfl rfl rfl
  | withdraws hw => exact hh.congr FairSemaphore.closed_withdraw rfl rfl rfl

theorem orderly (h : PoolStep v v') (ho : Orderly v) : Orderly v' :=
  ⟨h.ordered ho.order, h.turns ho.turns, h.slots ho.slots, h.handles ho.handles⟩

end PoolStep

theorem PoolView.Fresh.orderly {v : PoolView} {tally : Nat} (h : v.Fresh tally) : Orderly v := by
  obtain ⟨capacity, hc, rfl⟩ := h
  refine ⟨.ofCapacity capacity,
    ⟨rfl, rfl, fun _ => by contradiction, .nil, fun k => ?_, fun k => ?_⟩,
    ⟨fun _ => rfl, fun _ _ => by contradiction, rfl, hc⟩, ⟨?_, rfl⟩⟩
  · simp [JobQueue.ofCapacity, WorkerPool.activity?]
  · simp [JobQueue.ofCapacity, WorkerPool.activity?]
  · simp [JobQueue.ofCapacity]

namespace Engine

variable {b : Backend} {e : Engine}

theorem orderly_of_reachable (h : Reachable b e) {i : Nat} {v : PoolView}
    (hv : e.view? i = some v) : Orderly v := by
  induction h generalizing i v with
  | start => simp [view?] at hv
  | @step e next label h hs ih =>
      have hviews := step_views h hs
      rcases he : e.view? i with _ | v₀
      · exact (hviews.fresh i v he hv).2.1.orderly
      · obtain ⟨v', hv', hstep⟩ := hviews.forward i v₀ he
        rw [hv] at hv'
        cases hv'
        rcases hstep with rfl | hstep
        · exact ih he
        · exact hstep.orderly (ih he)

theorem orderly_of_pool (h : Reachable b e) {i : Nat} {p : WorkerPool}
    (hp : e.pools[i]? = some p) : Orderly ⟨p, e.opens i, e.waitsAt i⟩ :=
  orderly_of_reachable h (view?_eq_some.mpr ⟨p, hp, rfl⟩)

theorem mem_accepted_of_delivered (h : Reachable b e) {i : Nat} {p : WorkerPool} {job : Job}
    (hp : e.pools[i]? = some p) (hjob : job ∈ p.queue.delivered) : job ∈ p.queue.accepted := by
  rw [← Array.mem_toList_iff, (orderly_of_pool h hp).order.order]
  exact List.mem_append_left _ (List.mem_append_left _ (Array.mem_toList_iff.mpr hjob))

end Engine

end LoadBench
