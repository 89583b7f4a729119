import LoadBench.Proofs.Enabled
import LoadBench.Proofs.Service

/-!
A pool whose queue is closed, and the workers that go on no longer.

Nothing enters a closed queue. What is in it is taken out by the workers, or it goes with the last
of them. A worker exits in one of three ways: its queue has ended, the call of an execution panicked
at once, or a latch was released already when its job completed. The first way is open to a worker
only while nothing is left, so a worker that exited that way speaks for the rest: there is nothing
for anybody to lose.
-/

namespace LoadBench

namespace PoolStep

variable {v v' : PoolView}

/-- A closed queue stays closed and accepts nothing. -/
theorem shut (h : PoolStep v v') (hc : v.pool.queue.producing = false) :
    v'.pool.queue.producing = false ∧ v'.pool.queue.accepted = v.pool.queue.accepted := by
  cases h with
  | asks hw ha =>
      exact ⟨JobQueue.producing_ask.trans hc, JobQueue.accepted_of_items JobQueue.items_ask⟩
  | takesTurn hw ha hr =>
      exact ⟨JobQueue.producing_takeTurn.trans hc,
        JobQueue.accepted_of_items JobQueue.items_takeTurn⟩
  | takes hw ha hq =>
      obtain ⟨rest, _, rfl⟩ := JobQueue.receive_item hq
      exact ⟨hc, rfl⟩
  | ends hw ha hq =>
      obtain ⟨_, _, rfl⟩ := JobQueue.receive_ended hq
      exact ⟨hc, rfl⟩
  | leaves hw ha panicked =>
      exact ⟨JobQueue.producing_dropReceiver.trans hc, JobQueue.accepted_dropReceiver⟩
  | abandons ho => exact ⟨JobQueue.producing_dropReceiver, JobQueue.accepted_dropReceiver⟩
  | starts ho =>
      exact ⟨JobQueue.producing_dropReceiver.trans hc, JobQueue.accepted_dropReceiver⟩
  | closes ho hw => exact ⟨rfl, rfl⟩
  | accepts hp hq =>
      rw [hc] at hp
      cases hp
  | parks hw hq =>
      obtain ⟨_, _, _, rfl⟩ := JobQueue.offer_parked hq
      exact ⟨hc, rfl⟩
  | @refuses job queue hq =>
      have hproducing : (v.pool.queue.enter v.waiting job).2.producing = v.pool.queue.producing :=
        JobQueue.producing_enter
      rw [hq] at hproducing
      exact ⟨hproducing.trans hc, JobQueue.accepted_of_items (JobQueue.items_enter_refused hq)⟩
  | _ => exact ⟨hc, rfl⟩

/-- If anything is discarded, then all that is in the buffer. -/
theorem discards (h : PoolStep v v') : v'.pool.queue.discarded = v.pool.queue.discarded ∨
    v'.pool.queue.discarded = v.pool.queue.discarded ++ v.pool.queue.buffer.toArray := by
  have hsame {q : JobQueue Job Unit Nat} (hq : q.items = v.pool.queue.items) :
      q.discarded = v.pool.queue.discarded := congrArg (·.2.2.2) hq
  have hdrop {q : JobQueue Job Unit Nat} (hq : q.items = v.pool.queue.items) :
      q.dropReceiver.discarded = v.pool.queue.discarded ∨
        q.dropReceiver.discarded = v.pool.queue.discarded ++ v.pool.queue.buffer.toArray := by
    rcases JobQueue.items_dropReceiver (q := q) with hkeeps | hdrops
    · exact .inl (hsame (hkeeps.trans hq))
    · right
      rw [← JobQueue.buffer_of_items hq, ← hsame hq]
      exact congrArg (·.2.2.2) hdrops
  cases h with
  | asks hw ha => exact .inl (hsame JobQueue.items_ask)
  | takesTurn hw ha hr => exact .inl (hsame JobQueue.items_takeTurn)
  | takes hw ha hq =>
      obtain ⟨rest, _, rfl⟩ := JobQueue.receive_item hq
      exact .inl rfl
  | ends hw ha hq =>
      obtain ⟨_, _, rfl⟩ := JobQueue.receive_ended hq
      exact .inl rfl
  | leaves hw ha panicked => exact hdrop rfl
  | abandons ho => exact hdrop rfl
  | starts ho => exact hdrop rfl
  | accepts hp hq =>
      obtain ⟨slots, rfl⟩ := JobQueue.items_enter_taken hq
      exact .inl rfl
  | parks hw hq =>
      obtain ⟨_, _, _, rfl⟩ := JobQueue.offer_parked hq
      exact .inl rfl
  | refuses hq => exact .inl (hsame (JobQueue.items_enter_refused hq))
  | _ => exact .inl rfl

/-- A closed queue that is empty has nothing to discard. -/
theorem unspoilt (h : PoolStep v v') (hd : v.pool.Drained) :
    v'.pool.queue.discarded = v.pool.queue.discarded := by
  rcases h.discards with hsame | hall
  · exact hsame
  · rw [hall, hd.2]
    exact Array.append_empty

end PoolStep

namespace WorkerPool

variable {p : WorkerPool} {k : Nat} {w : Worker}

theorem ended_of_allEnded (h : p.allEnded = true) (hw : p.workers[k]? = some w) :
    ∃ panicked, w.activity = .ended panicked := by
  have hended := Array.all_eq_true_iff_forall_mem.mp h w (Array.mem_of_getElem? hw)
  cases ha : w.activity with
  | ended panicked => exact ⟨panicked, rfl⟩
  | _ =>
      rw [ha] at hended
      cases hended

theorem allEnded_iff : p.allEnded = true ↔ p.alive = 0 := by
  constructor
  · intro h
    by_contra hne
    obtain ⟨k, w, hw, hpos⟩ := exists_of_total_pos (Nat.pos_of_ne_zero hne)
    obtain ⟨panicked, ha⟩ := ended_of_allEnded h hw
    rw [ha] at hpos
    exact absurd hpos (Nat.lt_irrefl 0)
  · intro h
    apply Array.all_eq_true_iff_forall_mem.mpr
    intro w hmem
    obtain ⟨k, hw⟩ := Array.mem_iff_getElem?.mp hmem
    have hle := worth_le_total (fun w : Worker => if w.activity.hasEnded then 0 else 1) hw
    by_contra hne
    simp only [hne] at hle
    change 1 ≤ p.alive at hle
    omega

end WorkerPool

namespace Engine

variable {b : Backend} {e next : Engine} {label : Label} {labels : List Label} {i k : Nat}
  {p : WorkerPool} {w : Worker} {panicked : Bool}

theorem step_pool {P : WorkerPool → Prop}
    (hP : ∀ v v' : PoolView, PoolStep v v' → P v.pool → P v'.pool) (h : Reachable b e)
    (hs : e.step b label = some next) (hp : e.pools[i]? = some p) (hpool : P p) :
    ∃ p', next.pools[i]? = some p' ∧ P p' := by
  obtain ⟨p', hp', hstep⟩ := (step_views h hs).pool hp
  refine ⟨p', hp', ?_⟩
  rcases hstep with ⟨rfl, _⟩ | hstep
  · exact hpool
  · exact hP _ _ hstep hpool

/-- What each operation at a pool keeps, every run keeps. -/
theorem run_pool {P : WorkerPool → Prop}
    (hP : ∀ v v' : PoolView, PoolStep v v' → P v.pool → P v'.pool) (h : Reachable b e)
    (hr : e.run b labels = some next) (hp : e.pools[i]? = some p) (hpool : P p) :
    ∃ p', next.pools[i]? = some p' ∧ P p' := by
  induction labels generalizing e p with
  | nil =>
      cases hr
      exact ⟨p, hp, hpool⟩
  | cons label labels ih =>
      obtain ⟨mid, hs, hr⟩ := run_cons.mp hr
      obtain ⟨p', hp', hpool'⟩ := step_pool hP h hs hp hpool
      exact ih (h.step label hs) hr hp' hpool'

/-- As long as nobody starts a pool, its workers are those who have handles to its queue. -/
theorem allEnded_iff_closed (h : Reachable b e) (hp : e.pools[i]? = some p)
    (ho : e.opens i = false) : p.allEnded = true ↔ p.queue.slots.closed = true := by
  have hhandles := (orderly_of_pool h hp).handles
  have hreceivers := hhandles.receivers
  simp only [ho, Bool.false_eq_true, if_false, Nat.add_zero] at hreceivers
  rw [hhandles.closed, hreceivers]
  exact WorkerPool.allEnded_iff

/-- Why a worker exits, and whether it does so by panicking. -/
inductive Exits (b : Backend) (e : Engine) (p : WorkerPool) (w : Worker) : Bool → Prop
  /-- It is told that nothing more comes. -/
  | drained (ha : w.activity = .receiving) (hd : p.Drained) : Exits b e p w false
  | collapsed {job : Job} {message : String} (ha : w.activity = .holding job)
      (hc : b.execute e.executions w.conn job.command = .panicAtOnce message) : Exits b e p w true
  | misused {job : Job} (ha : w.activity = .recorded job) (hl : e.isReleased job.latch = true) :
      Exits b e p w true

/-- The states of a run after a worker has exited. -/
inductive Exited (b : Backend) (i k : Nat) (panicked : Bool) : Engine → Prop
  | now {e next : Engine} {p : WorkerPool} {w : Worker} (h : Reachable b e)
      (hp : e.pools[i]? = some p) (hw : p.workers[k]? = some w) (hx : Exits b e p w panicked)
      (hs : e.step b (.act (.worker i k)) = some next) : Exited b i k panicked next
  | step {e next : Engine} (label : Label) (h : Exited b i k panicked e)
      (hs : e.step b label = some next) : Exited b i k panicked next

/-- A worker that goes on no longer. Once it has ended, it panicked when it exited or when its
connection was closed. -/
inductive Stopped (b : Backend) (e : Engine) (i k : Nat) (w : Worker) : Prop
  | leaving {panicked : Bool} (hx : Exited b i k panicked e) (ha : w.activity = .leaving panicked)
  | ended {panicked : Bool} (hx : Exited b i k panicked e)
      (ha : w.activity = .ended (panicked || (b.closePanic w.conn).isSome))

/-- A job that a worker has was made for a latch that is there. -/
theorem isReleased_of_misused (h : Reachable b e) (hp : e.pools[i]? = some p)
    (hw : p.workers[k]? = some w) {job : Job} (ha : w.activity = .recorded job)
    (hl : ∀ batch, e.batches[job.latch]? = some batch → batch.latch.countDown? = none) :
    e.isReleased job.latch = true := by
  have hjob := (traced_of_reachable h).jobs i p job hp (.inr ⟨k, w, hw, by rw [ha]; rfl⟩)
  have hb := Array.getElem?_eq_getElem (latch_lt_of_accepted h hp hjob)
  have hreleased := (Latch.countDown?_eq_none_iff _).mp (hl _ hb)
  unfold isReleased
  rw [hb]
  exact hreleased

theorem step_of_leaving (hp : e.pools[i]? = some p) (hw : p.workers[k]? = some w)
    (ha : w.activity = .leaving panicked) :
    e.step b (.act (.worker i k)) = some (e.leave b i p k w panicked) := by
  simp [Engine.step, advance, workerStep, hp, hw, ha]

/-- A worker after a step that does not go on did not do so before, or it exits, or it is gone. -/
theorem step_stopped (h : Reachable b e) (hs : e.step b label = some next) {w' : Worker}
    (hw' : next.worker? i k = some w') (hl : w'.activity.isLive = false) :
    e.worker? i k = some w' ∨ label = .act (.worker i k) ∧
      ∃ (p : WorkerPool) (w : Worker) (panicked : Bool), e.pools[i]? = some p ∧
        p.workers[k]? = some w ∧ w'.conn = w.conn ∧
        (Exits b e p w panicked ∧ w'.activity = .leaving panicked ∨
          w.activity = .leaving panicked ∧
            w'.activity = .ended (panicked || (b.closePanic w.conn).isSome)) := by
  have hm := step_move hs
  have hbare : next.bare.worker? i k = some w' := hw'
  generalize hnext : next.bare = after at hm hbare
  cases hm with
  | stay permits => exact .inl hbare
  | latch size => exact .inl hbare
  | caller _ hm =>
      rcases hm.worker hbare with hold | ⟨_, hidle⟩
      · exact .inl hold
      · rw [hidle] at hl
        cases hl
  | @worker j l p w _ hp hw hm =>
      have hput {q : WorkerPool} {a : Activity}
          (hpools : after.pools = e.pools.set! j (q.setActivity l a)) (hq : q.workers = p.workers) :
          e.worker? i k = some w' ∨ i = j ∧ k = l ∧ w' = { w with activity := a } := by
        rcases worker?_put (e := e) hp hw hq hpools hbare with hthis | ⟨_, hother⟩
        · exact .inr hthis
        · exact .inl hother
      -- Whoever is to go on after the step is live, which leaves the ways out.
      have hlive {q : WorkerPool} {a : Activity}
          (hpools : after.pools = e.pools.set! j (q.setActivity l a)) (hq : q.workers = p.workers)
          (ha : a.isLive = true) : e.worker? i k = some w' := by
        rcases hput hpools hq with hold | ⟨_, _, rfl⟩
        · exact hold
        · rw [ha] at hl
          cases hl
      cases hm with
      | asks ha => exact .inl (hlive rfl rfl (by split <;> rfl))
      | takesTurn ha hr => exact .inl (hlive rfl rfl rfl)
      | takes ha hq => exact .inl (hlive rfl rfl rfl)
      | ends ha hq =>
          obtain ⟨hb, hproducing, rfl⟩ := JobQueue.receive_ended hq
          rcases hput rfl rfl with hold | ⟨rfl, rfl, rfl⟩
          · exact .inl hold
          · exact .inr ⟨rfl, p, w, false, hp, hw, rfl, .inl ⟨.drained ha ⟨hproducing, hb⟩, rfl⟩⟩
      | begins ha hc => exact .inl (hlive rfl rfl rfl)
      | collapses ha hc =>
          obtain ⟨message, hc⟩ := Conduct.outcome?_eq_none.mp hc
          rcases hput rfl rfl with hold | ⟨rfl, rfl, rfl⟩
          · exact .inl hold
          · exact .inr ⟨rfl, p, w, true, hp, hw, rfl, .inl ⟨.collapsed ha hc, rfl⟩⟩
      | stalls ha => exact .inl (hlive rfl rfl rfl)
      | finishes ha => exact .inl (hlive rfl rfl rfl)
      | counts ha | tallies ha | countsFailure ha => exact .inl (hlive rfl rfl rfl)
      | completes ha hb hl => exact .inl (hlive rfl rfl rfl)
      | misuses ha hl =>
          have hreleased := isReleased_of_misused h hp hw ha hl
          rcases hput rfl rfl with hold | ⟨rfl, rfl, rfl⟩
          · exact .inl hold
          · exact .inr ⟨rfl, p, w, true, hp, hw, rfl, .inl ⟨.misused ha hreleased, rfl⟩⟩
      | @leaves panicked _ ha =>
          rw [step_of_leaving (e := e) hp hw ha] at hs
          cases hs
          rcases worker?_put (e := e) (q := p.dropReceiver) hp hw rfl rfl hw' with
            ⟨rfl, rfl, rfl⟩ | ⟨_, hold⟩
          · exact .inr ⟨rfl, p, w, panicked, hp, hw, rfl, .inr ⟨ha, rfl⟩⟩
          · exact .inl hold

/-- Every worker that goes on no longer has exited in one of the three ways. -/
theorem stopped_of_reachable (h : Reachable b e) (hw : e.worker? i k = some w)
    (hl : w.activity.isLive = false) : Stopped b e i k w := by
  induction h generalizing w with
  | start => simp [worker?] at hw
  | @step e next label h hs ih =>
      rcases step_stopped h hs hw hl with
        hold | ⟨rfl, p, w₀, panicked, hp, hw₀, hconn, ⟨hx, ha⟩ | ⟨hleaving, ha⟩⟩
      · cases ih hold hl with
        | leaving hx ha => exact .leaving (hx.step label hs) ha
        | ended hx ha => exact .ended (hx.step label hs) ha
      · exact .leaving (.now h hp hw₀ hx hs) ha
      · rw [← hconn] at ha
        cases ih (worker?_eq_some.mpr ⟨p, hp, hw₀⟩) (by rw [hleaving]; rfl) with
        | leaving hx hleaving' =>
            rw [hleaving] at hleaving'
            cases hleaving'
            exact .ended (hx.step _ hs) ha
        | ended hx hended =>
            rw [hleaving] at hended
            cases hended

theorem Exited.reachable (hx : Exited b i k panicked e) : Reachable b e := by
  induction hx with
  | now h hp hw hx hs => exact h.step _ hs
  | step label hx hs ih => exact ih.step label hs

/-- A worker that exits without panicking leaves nothing behind in the queue. -/
theorem Exited.drained (hx : Exited b i k false e) :
    ∃ p, e.pools[i]? = some p ∧ p.Drained ∧ p.queue.discarded = #[] := by
  have hkeeps (v v' : PoolView) (hstep : PoolStep v v')
      (hv : v.pool.Drained ∧ v.pool.queue.discarded = #[]) :
      v'.pool.Drained ∧ v'.pool.queue.discarded = #[] :=
    ⟨hstep.drained hv.1, (hstep.unspoilt hv.1).trans hv.2⟩
  induction hx with
  | now h hp hw hx hs =>
      obtain ⟨ha, hd⟩ := hx
      have hopen := open_of_live h hp hw (by rw [ha]; rfl)
      have horder := (orderly_of_pool h hp).order
      exact step_pool hkeeps h hs hp ⟨hd, horder.kept hopen⟩
  | step label hx hs ih =>
      obtain ⟨p, hp, hd⟩ := ih
      exact step_pool hkeeps hx.reachable hs hp hd

end Engine

end LoadBench
