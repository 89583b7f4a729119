import LoadBench.Proofs.Fits

/-!
What one step of the engine does to one pool: nothing, or one of the operations below. A pool is
looked at together with what the caller does to it, namely whether it still starts the pool and
whether it waits for a slot in its queue. What is proved of every pool is proved of the operations.
-/

namespace LoadBench

/-- A pool and what the caller does to it. -/
structure PoolView where
  pool : WorkerPool
  /-- The caller still starts the pool. -/
  opening : Bool
  /-- The caller waits for a slot in the queue. -/
  waiting : Bool

/-- The pool is another one now, in which a worker does something else. -/
def PoolView.put (v : PoolView) (p : WorkerPool) (k : Nat) (a : Activity) : PoolView :=
  { v with pool := p.setActivity k a }

/-- What may happen to a pool. -/
inductive PoolStep (v : PoolView) : PoolView → Prop
  | asks {k : Nat} {w : Worker} (hw : v.pool.workers[k]? = some w) (ha : w.activity = .idle) :
      PoolStep v (v.put { v.pool with queue := v.pool.queue.ask k } k
        (if (v.pool.queue.ask k).receiving = some k then .receiving else .queued))
  | takesTurn {k : Nat} {w : Worker} (hw : v.pool.workers[k]? = some w) (ha : w.activity = .queued)
      (hr : v.pool.queue.turn.ready k = true) :
      PoolStep v (v.put { v.pool with queue := v.pool.queue.takeTurn k } k .receiving)
  | takes {k : Nat} {w : Worker} {job : Job} {queue : JobQueue Job Unit Nat}
      (hw : v.pool.workers[k]? = some w) (ha : w.activity = .receiving)
      (hq : v.pool.queue.receive = (.item job, queue)) :
      PoolStep v (v.put { v.pool with queue } k (.holding job))
  | ends {k : Nat} {w : Worker} {queue : JobQueue Job Unit Nat}
      (hw : v.pool.workers[k]? = some w) (ha : w.activity = .receiving)
      (hq : v.pool.queue.receive = (.ended, queue)) :
      PoolStep v (v.put { v.pool with queue } k (.leaving false))
  /-- A worker goes on with its job. -/
  | works {k : Nat} {w : Worker} {job : Job} {a : Activity} (hw : v.pool.workers[k]? = some w)
      (hj : w.activity.job? = some job) (ha : a.job? = some job) : PoolStep v (v.put v.pool k a)
  /-- A worker is done with its job, or the job has done with the worker. -/
  | lets {k : Nat} {w : Worker} {job : Job} {a : Activity} (hw : v.pool.workers[k]? = some w)
      (hj : w.activity.job? = some job) (ha : a = .idle ∨ a = .leaving true) :
      PoolStep v (v.put v.pool k a)
  | leaves {k : Nat} {w : Worker} {panicked : Bool} (hw : v.pool.workers[k]? = some w)
      (ha : w.activity = .leaving panicked) (panicked' : Bool) :
      PoolStep v (v.put v.pool.dropReceiver k (.ended panicked'))
  | dials : PoolStep v { v with pool := { v.pool with dialed := v.pool.dialed + 1 } }
  | spawns (ho : v.opening = true) (conn : Nat) :
      PoolStep v { v with pool := { v.pool with dialed := v.pool.dialed + 1 }.spawn conn }
  | abandons (ho : v.opening = true) :
      PoolStep v { v with pool := v.pool.close.dropReceiver, opening := false }
  | starts (ho : v.opening = true) :
      PoolStep v { v with pool := v.pool.dropReceiver, opening := false }
  | closes (ho : v.opening = false) (hw : v.waiting = false) :
      PoolStep v { v with pool := v.pool.close }
  | accepts {job : Job} {queue : JobQueue Job Unit Nat} (hp : v.pool.queue.producing = true)
      (hq : v.pool.queue.enter v.waiting job = (.taken, queue)) :
      PoolStep v { v with pool := { v.pool with queue }, waiting := false }
  | parks {job : Job} {queue : JobQueue Job Unit Nat} (hw : v.waiting = false)
      (hq : v.pool.queue.offer () job = (.parked, queue)) :
      PoolStep v { v with pool := { v.pool with queue }, waiting := true }
  | refuses {job : Job} {queue : JobQueue Job Unit Nat}
      (hq : v.pool.queue.enter v.waiting job = (.refused, queue)) :
      PoolStep v { v with pool := { v.pool with queue }, waiting := false }
  | withdraws (hw : v.waiting = true) :
      PoolStep v { v with
        pool := { v.pool with queue := v.pool.queue.withdrawOffer () }, waiting := false }

/-- A pool that was just made. -/
def PoolView.Fresh (tally : Nat) (v : PoolView) : Prop :=
  ∃ capacity, 0 < capacity ∧ v = ⟨{ queue := JobQueue.ofCapacity capacity, tally }, true, false⟩

namespace Engine

/-- Whether the caller still starts a pool. -/
def opens (e : Engine) (i : Nat) : Bool := e.progress.opening == some i

/-- Whether the caller waits for a slot in the queue of a pool. -/
def waitsAt (e : Engine) (i : Nat) : Bool :=
  match e.progress.hand, e.driver with
  | some (_, true), some d => d.pool == i
  | _, _ => false

/-- A pool as the caller sees it. -/
def view? (e : Engine) (i : Nat) : Option PoolView :=
  e.pools[i]?.map fun pool => ⟨pool, e.opens i, e.waitsAt i⟩

/-- The driver and a call to start keep a pool that is open. -/
structure Housed (e : Engine) : Prop where
  driver : ∀ d, e.driver = some d → ∃ p, e.pools[d.pool]? = some p ∧ p.queue.producing = true
  opening : ∀ i, e.progress.opening = some i →
    (∃ p, e.pools[i]? = some p ∧ p.queue.producing = true) ∧
      ∀ d, e.driver = some d → d.pool ≠ i

/-- Each pool does nothing or one of the operations, and a pool that is made has counters of its
own. -/
structure Views (e next : Engine) : Prop where
  forward : ∀ i v, e.view? i = some v → ∃ v', next.view? i = some v' ∧ (v' = v ∨ PoolStep v v')
  fresh : ∀ i v', e.view? i = none → next.view? i = some v' →
    i = e.pools.size ∧ v'.Fresh e.tallies.size ∧ e.tallies.size < next.tallies.size

variable {b : Backend} {e next : Engine}

theorem view?_eq_some {i : Nat} {v : PoolView} : e.view? i = some v ↔
    ∃ p, e.pools[i]? = some p ∧ v = ⟨p, e.opens i, e.waitsAt i⟩ := by
  simp [view?, eq_comm]

theorem view?_eq_none {i : Nat} : e.view? i = none ↔ e.pools[i]? = none := by
  simp [view?]

/-- A pool is still what it was, or one of the operations was done to it. -/
theorem Views.pool (hv : Views e next) {i : Nat} {p : WorkerPool} (hp : e.pools[i]? = some p) :
    ∃ p', next.pools[i]? = some p' ∧ (p' = p ∧ next.opens i = e.opens i ∨
      PoolStep ⟨p, e.opens i, e.waitsAt i⟩ ⟨p', next.opens i, next.waitsAt i⟩) := by
  obtain ⟨v', hv', hstep⟩ := hv.forward i _ (view?_eq_some.mpr ⟨p, hp, rfl⟩)
  obtain ⟨p', hp', rfl⟩ := view?_eq_some.mp hv'
  refine ⟨p', hp', hstep.imp_left fun hsame => ?_⟩
  exact ⟨congrArg PoolView.pool hsame, congrArg PoolView.opening hsame⟩

/-- A step that changes one pool. -/
theorem Views.set {j : Nat} {p p' : WorkerPool} (hj : e.pools[j]? = some p)
    (hpools : next.pools = e.pools.set! j p')
    (hother : ∀ i, i ≠ j → next.opens i = e.opens i ∧ next.waitsAt i = e.waitsAt i)
    (hstep : PoolStep ⟨p, e.opens j, e.waitsAt j⟩ ⟨p', next.opens j, next.waitsAt j⟩) :
    Views e next where
  forward i v hv := by
    obtain ⟨q, hq, rfl⟩ := view?_eq_some.mp hv
    by_cases hi : i = j
    · subst hi
      rw [hj] at hq
      cases hq
      exact ⟨_, view?_eq_some.mpr ⟨p', by rw [hpools]; exact getElem?_set_self hj p', rfl⟩,
        .inr hstep⟩
    · obtain ⟨ho, hw⟩ := hother i hi
      refine ⟨_, view?_eq_some.mpr ⟨q, ?_, rfl⟩, .inl (by rw [ho, hw])⟩
      rw [hpools, getElem?_set_ne (Ne.symm hi)]
      exact hq
  fresh i v' hv hv' := by
    rw [view?_eq_none] at hv
    obtain ⟨q, hq, _⟩ := view?_eq_some.mp hv'
    rw [hpools] at hq
    rcases getElem?_set_cases hq with ⟨rfl, _⟩ | ⟨_, hold⟩
    · rw [hj] at hv
      cases hv
    · rw [hold] at hv
      cases hv

/-- A step that changes two pools, of which the second stays what it is for the caller. -/
theorem Views.set_two {i j : Nat} {p p' q q' : WorkerPool} (hi : e.pools[i]? = some p)
    (hj : e.pools[j]? = some q) (hne : i ≠ j)
    (hpools : next.pools = (e.pools.set! i p').set! j q')
    (hother : ∀ l, l ≠ i → next.opens l = e.opens l ∧ next.waitsAt l = e.waitsAt l)
    (hstep : PoolStep ⟨p, e.opens i, e.waitsAt i⟩ ⟨p', next.opens i, next.waitsAt i⟩)
    (hstep' : PoolStep ⟨q, e.opens j, e.waitsAt j⟩ ⟨q', e.opens j, e.waitsAt j⟩) :
    Views e next := by
  have hmid : Views e { next with pools := e.pools.set! i p' } := .set hi rfl hother hstep
  have hj' : (e.pools.set! i p')[j]? = some q := (getElem?_set_ne hne p').trans hj
  refine ⟨fun l v hv => ?_, fun l v' hv hv' => ?_⟩
  · by_cases hl : l = j
    · subst hl
      obtain ⟨r, hr, rfl⟩ := view?_eq_some.mp hv
      rw [hj] at hr
      cases hr
      obtain ⟨ho, hw⟩ := hother l (Ne.symm hne)
      refine ⟨_, view?_eq_some.mpr ⟨q', ?_, rfl⟩, .inr ?_⟩
      · rw [hpools]
        exact getElem?_set_self hj' q'
      · rw [ho, hw]
        exact hstep'
    · obtain ⟨v', hv', hstep⟩ := hmid.forward l v hv
      refine ⟨v', ?_, hstep⟩
      rw [← hv', view?, view?, hpools, getElem?_set_ne (Ne.symm hl)]
      rfl
  · obtain ⟨r, hr, _⟩ := view?_eq_some.mp hv'
    rw [hpools] at hr
    rw [view?_eq_none] at hv
    rcases getElem?_set_cases hr with ⟨rfl, _⟩ | ⟨_, hold⟩
    · rw [hj] at hv
      cases hv
    · rcases getElem?_set_cases hold with ⟨rfl, _⟩ | ⟨_, hold⟩
      · rw [hi] at hv
        cases hv
      · rw [hold] at hv
        cases hv

theorem Views.set_same {j : Nat} {p p' : WorkerPool} (hj : e.pools[j]? = some p)
    (hpools : next.pools = e.pools.set! j p')
    (hflags : ∀ i, next.opens i = e.opens i ∧ next.waitsAt i = e.waitsAt i)
    (hstep : PoolStep ⟨p, e.opens j, e.waitsAt j⟩ ⟨p', e.opens j, e.waitsAt j⟩) :
    Views e next := by
  refine .set hj hpools (fun i _ => hflags i) ?_
  rw [(hflags j).1, (hflags j).2]
  exact hstep

/-- A step that leaves the pools to themselves. -/
theorem Views.same (hpools : next.pools = e.pools)
    (hflags : ∀ i, next.opens i = e.opens i ∧ next.waitsAt i = e.waitsAt i) : Views e next where
  forward i v hv := by
    obtain ⟨q, hq, rfl⟩ := view?_eq_some.mp hv
    obtain ⟨ho, hw⟩ := hflags i
    exact ⟨_, view?_eq_some.mpr ⟨q, by rw [hpools]; exact hq, rfl⟩, .inl (by rw [ho, hw])⟩
  fresh i v' hv hv' := by
    rw [view?_eq_none] at hv
    obtain ⟨q, hq, _⟩ := view?_eq_some.mp hv'
    rw [hpools, hv] at hq
    cases hq

theorem WorkerMove.views {i k : Nat} {p : WorkerPool} {w : Worker} (hp : e.pools[i]? = some p)
    (hw : p.workers[k]? = some w) (h : WorkerMove b e i k p w next) : Views e next := by
  have hflags (j : Nat) : next.opens j = e.opens j ∧ next.waitsAt j = e.waitsAt j := by
    simp only [opens, waitsAt, h.progress, h.driver, and_self]
  have hset {p' : WorkerPool} (hpools : next.pools = e.pools.set! i p')
      (hstep : PoolStep ⟨p, e.opens i, e.waitsAt i⟩ ⟨p', e.opens i, e.waitsAt i⟩) :
      Views e next := .set_same hp hpools hflags hstep
  cases h with
  | asks ha => exact hset rfl (.asks hw ha)
  | takesTurn ha hr => exact hset rfl (.takesTurn hw ha hr)
  | takes ha hq => exact hset rfl (.takes hw ha hq)
  | ends ha hq => exact hset rfl (.ends hw ha hq)
  | begins ha hc => exact hset rfl (.works hw (by rw [ha]; rfl) rfl)
  | collapses ha hc => exact hset rfl (.lets hw (by rw [ha]; rfl) (.inr rfl))
  | stalls ha => exact hset rfl (.works hw (by rw [ha]; rfl) rfl)
  | @finishes job failed ha =>
      have hj : w.activity.job? = some job := by
        cases hact : w.activity <;> simp_all [Activity.outcome?, Activity.job?]
      exact hset rfl (.works hw hj rfl)
  | counts ha | tallies ha | countsFailure ha => exact hset rfl (.works hw (by rw [ha]; rfl) rfl)
  | completes ha hb hl => exact hset rfl (.lets hw (by rw [ha]; rfl) (.inl rfl))
  | misuses ha hl => exact hset rfl (.lets hw (by rw [ha]; rfl) (.inr rfl))
  | leaves ha => exact hset rfl (.leaves hw ha _)

theorem waitsAt_of_hand {d : Driver} {job : Job} {waits : Bool} (hd : e.driver = some d)
    (hh : e.progress.hand = some (job, waits)) (i : Nat) :
    e.waitsAt i = (waits && d.pool == i) := by
  simp only [waitsAt, hd, hh]
  cases waits <;> rfl

theorem waitsAt_driver {d : Driver} {job : Job} {waits : Bool} (hd : e.driver = some d)
    (hh : e.progress.hand = some (job, waits)) : e.waitsAt d.pool = waits := by
  rw [waitsAt_of_hand hd hh]
  simp

theorem waitsAt_of_hand_none (hh : e.progress.hand = none) (i : Nat) : e.waitsAt i = false := by
  simp only [waitsAt, hh]

/-- A caller's step at the queue of the driver, whose job goes in or comes out of its hand. -/
theorem Views.offer {d : Driver} {p : WorkerPool} {queue : JobQueue Job Unit Nat}
    (hd : e.driver = some d) (hd' : next.driver = some d) (hp : e.pools[d.pool]? = some p)
    (hpools : next.pools = e.pools.set! d.pool { p with queue })
    (hopen : e.progress.opening = none) (hopen' : next.progress.opening = none)
    {waits waits' : Bool} (hwaits : e.waitsAt d.pool = waits)
    (hwaits' : next.waitsAt d.pool = waits')
    (hstep : PoolStep ⟨p, false, waits⟩ ⟨{ p with queue }, false, waits'⟩) : Views e next := by
  have hopens (i : Nat) : e.opens i = false ∧ next.opens i = false := by
    simp [opens, hopen, hopen']
  have helse {e' : Engine} (hd : e'.driver = some d) (i : Nat) (hi : i ≠ d.pool) :
      e'.waitsAt i = false := by
    rcases hh : e'.progress.hand with _ | ⟨job, waits⟩
    · exact waitsAt_of_hand_none hh i
    · rw [waitsAt_of_hand hd hh]
      simp [Ne.symm hi]
  refine .set hp hpools ?_ ?_
  · intro i hi
    rw [(hopens i).1, (hopens i).2, helse hd i hi, helse hd' i hi]
    exact ⟨rfl, rfl⟩
  · rw [(hopens d.pool).1, (hopens d.pool).2, hwaits, hwaits']
    exact hstep

/-- A step that changes a pool if it is there. -/
theorem Views.modify {j : Nat} {f : WorkerPool → WorkerPool}
    (hpools : next.pools = e.pools.modify j f)
    (hother : ∀ i, i ≠ j → next.opens i = e.opens i ∧ next.waitsAt i = e.waitsAt i)
    (hstep : ∀ p, PoolStep ⟨p, e.opens j, e.waitsAt j⟩ ⟨f p, next.opens j, next.waitsAt j⟩)
    (hnone : e.pools[j]? = none → next.opens j = e.opens j ∧ next.waitsAt j = e.waitsAt j) :
    Views e next := by
  rcases hj : e.pools[j]? with _ | p
  · refine .same ?_ fun i => ?_
    · rw [hpools]
      apply Array.ext_getElem?
      intro i
      rw [Array.getElem?_modify]
      split
      · next h => rw [← h, hj]; rfl
      · rfl
    · by_cases hi : i = j
      · rw [hi]
        exact hnone hj
      · exact hother i hi
  · exact .set hj (by rw [hpools, modify_eq_set f hj]) hother (hstep p)

theorem Quiet.views (h : Quiet e next) : Views e next := by
  have hhand := Progress.hand_of_plain h.after
  have hflags (i : Nat) : next.opens i = e.opens i ∧ next.waitsAt i = e.waitsAt i := by
    rw [opens, opens, h.opening, waitsAt_of_hand_none h.hand, waitsAt_of_hand_none hhand]
    exact ⟨rfl, rfl⟩
  rcases h.pools with hsame | ⟨pool, hdialed⟩
  · exact .same hsame hflags
  · refine .modify (f := fun p => { p with dialed := p.dialed + 1 }) hdialed (fun i _ => hflags i)
      (fun p => ?_) (fun _ => hflags pool)
    rw [(hflags pool).1, (hflags pool).2]
    exact .dials

/-- A step of a call that has no job waiting before or after it. -/
private theorem flags_same (hh : ∀ job, e.progress.hand ≠ some (job, true))
    (hh' : ∀ job, next.progress.hand ≠ some (job, true))
    (ho : next.progress.opening = e.progress.opening) (i : Nat) :
    next.opens i = e.opens i ∧ next.waitsAt i = e.waitsAt i := by
  have hwaits {e' : Engine} (h : ∀ job, e'.progress.hand ≠ some (job, true)) :
      e'.waitsAt i = false := by
    simp only [waitsAt]
    split
    · next job d hjob hd => exact absurd hjob (h job)
    · rfl
  rw [opens, opens, ho, hwaits hh, hwaits hh']
  exact ⟨rfl, rfl⟩

theorem closeDriven_set {pools : Array WorkerPool} {i : Nat} {p : WorkerPool} {q : WorkerPool}
    {d : Driver} (hq : pools[d.pool]? = some q) (hne : i ≠ d.pool) :
    closeDriven (pools.set! i p) (some d) = (pools.set! i p).set! d.pool q.close := by
  apply modify_eq_set
  exact (getElem?_set_ne hne p).trans hq

/-- A pool that is made is fresh, and the others stay as they are. -/
theorem Views.opens (hr : e.progress.atRest = true) {workers capacity : Nat} (hc : 0 < capacity)
    (split : Bool) : Views e (e.openPool workers capacity split) := by
  obtain ⟨hhand, hopen⟩ := Progress.hand_at_rest hr
  have hopens (i : Nat) : (e.openPool workers capacity split).opens i = (e.pools.size == i) := rfl
  have hwaits (i : Nat) : (e.openPool workers capacity split).waitsAt i = false := rfl
  refine ⟨fun i v hv => ?_, fun i v' hv hv' => ?_⟩
  · obtain ⟨p, hp, rfl⟩ := view?_eq_some.mp hv
    obtain ⟨hlt, _⟩ := Array.getElem?_eq_some_iff.mp hp
    have hne : e.pools.size ≠ i := by omega
    refine ⟨_, view?_eq_some.mpr ⟨p, getElem?_push_of_some hp _, rfl⟩, .inl ?_⟩
    rw [hopens, hwaits, waitsAt_of_hand_none hhand]
    simp [Engine.opens, hopen, hne]
  · rw [view?_eq_none] at hv
    obtain ⟨p, hp, rfl⟩ := view?_eq_some.mp hv'
    rw [hopens, hwaits]
    simp only [openPool] at hp
    rw [Array.getElem?_push] at hp
    split at hp
    · next hi =>
        cases hp
        refine ⟨hi, ⟨capacity, hc, by simp [hi]⟩, ?_⟩
        simp only [openPool]
        split <;> simp
    · rw [hv] at hp
      cases hp

section Starting

variable {pool workers : Nat} {split stalled : Bool}
  (hr : e.progress = .starting pool workers split stalled)

include hr

theorem opens_of_starting (i : Nat) : e.opens i = (pool == i) := by
  simp [opens, hr, Progress.opening]

theorem waitsAt_of_starting (i : Nat) : e.waitsAt i = false :=
  waitsAt_of_hand_none (by rw [hr]; rfl) i

/-- A call to start that returns lets go of its own pool alone. -/
private theorem flags_after_start {answer : Answer} (hn : next.progress = .returned answer)
    {i : Nat} (hi : i ≠ pool) : next.opens i = e.opens i ∧ next.waitsAt i = e.waitsAt i := by
  rw [opens_of_starting hr, waitsAt_of_starting hr, waitsAt_of_hand_none (by rw [hn]; rfl), opens,
    hn]
  simp [Progress.opening, Ne.symm hi]

theorem Views.abandons {p : WorkerPool} (hp : e.pools[pool]? = some p) (events : List Event)
    (answer : Answer) : Views e (((e.note events).abandonPool pool).finish answer) := by
  refine .set hp (modify_eq_set (fun p : WorkerPool => p.close.dropReceiver) hp)
    (fun i hi => flags_after_start hr rfl hi) ?_
  rw [opens_of_starting hr, waitsAt_of_starting hr]
  exact .abandons (by simp)

/-- The new pool takes the place of the driver's, whose queue is closed. -/
theorem Views.starts (hh : e.Housed) {p : WorkerPool} (hp : e.pools[pool]? = some p)
    {answer : Answer} (hn : next.progress = .returned answer)
    (hpools : next.pools = closeDriven (e.pools.set! pool p.dropReceiver) e.driver) :
    Views e next := by
  have hother (i : Nat) (hi : i ≠ pool) := flags_after_start hr hn hi
  have hstarts : PoolStep ⟨p, e.opens pool, e.waitsAt pool⟩
      ⟨p.dropReceiver, next.opens pool, next.waitsAt pool⟩ := by
    rw [opens_of_starting hr, waitsAt_of_starting hr, waitsAt_of_hand_none (by rw [hn]; rfl),
      Engine.opens, hn]
    exact .starts (by simp)
  cases hd : e.driver with
  | none => exact .set hp (by rw [hpools, hd]; rfl) hother hstarts
  | some d =>
      obtain ⟨_, hne⟩ := hh.opening pool (by rw [hr]; rfl)
      obtain ⟨q, hq, _⟩ := hh.driver d hd
      have hdp : pool ≠ d.pool := Ne.symm (hne d hd)
      refine .set_two hp hq hdp (by rw [hpools, hd, closeDriven_set hq hdp]) hother hstarts ?_
      exact .closes (by simp [opens_of_starting hr, hdp]) (waitsAt_of_starting hr _)

end Starting

/-- A job that waited for a slot is taken back. -/
theorem Views.withdraws (hh : e.Housed) {job : Job} (hhand : e.progress.hand = some (job, true))
    (answer : Answer) :
    Views e (({ e with pools := withdrawDriven e.pools e.driver }.record
      (.lost job.latch job.index)).finish answer) := by
  have hopens (i : Nat) : e.opens i = false := by
    simp [Engine.opens, Progress.opening_of_hand hhand]
  cases hd : e.driver with
  | none =>
      refine .same rfl fun i => ?_
      rw [hopens, show e.waitsAt i = false by simp [waitsAt, hd, hhand]]
      exact ⟨rfl, rfl⟩
  | some d =>
      obtain ⟨p, hp, _⟩ := hh.driver d hd
      refine .set hp (modify_eq_set
        (fun p : WorkerPool => { p with queue := p.queue.withdrawOffer () }) hp)
        (fun i hi => ?_) ?_
      · rw [hopens, waitsAt_of_hand hd hhand, show (d.pool == i) = false by simp [Ne.symm hi]]
        exact ⟨rfl, rfl⟩
      · rw [hopens, waitsAt_driver hd hhand]
        exact .withdraws rfl

theorem CallerMove.views (h : CallerMove e next) (hh' : e.Housed) : Views e next := by
  cases h with
  | quiet h => exact h.views
  | undertakes hr hl command left =>
      obtain ⟨hhand, hopen⟩ := Progress.hand_at_rest hr
      exact .same rfl (flags_same (by simp [hhand]) (by simp [Progress.hand]) hopen.symm)
  | opens hr hw hc split => exact .opens hr hc split
  | @spawns pool workers split stalled p events hr hp he conn =>
      exact .set_same hp rfl (flags_same (by simp [hr, Progress.hand]) (by simp [Progress.hand])
        (by rw [hr]; rfl)) (.spawns (by simp [opens_of_starting hr]) conn)
  | @abandons pool workers split stalled events hr he answer =>
      obtain ⟨⟨p, hp, _⟩, _⟩ := hh'.opening pool (by rw [hr]; rfl)
      exact .abandons hr hp events answer
  | starts hr hp hw he answer => exact .starts hr hh' hp rfl rfl
  | @closes d progress events hd hr he hp =>
      obtain ⟨p, hp', _⟩ := hh'.driver d hd
      obtain ⟨hhand, hopen⟩ := Progress.hand_at_rest hr
      obtain ⟨hhand', hopen'⟩ : progress.hand = none ∧ progress.opening = none := by
        rcases hp with ⟨answer, rfl⟩ | rfl <;> exact ⟨rfl, rfl⟩
      rw [hd]
      exact .set_same hp' (modify_eq_set _ hp')
        (flags_same (by simp [hhand]) (by simp [hhand']) (hopen'.trans hopen.symm))
        (.closes (by simp [Engine.opens, hopen]) (waitsAt_of_hand_none hhand _))
  -- the call goes on with a phase, whose next job is not yet at the queue
  | countsDirect _ hr | talliesDirect _ hr | countsDirectFailure _ hr | beginsPhase _ hr _
  | generates hr _ _ _ | awaits hr _ _ | returns hr _ _ =>
      exact .same rfl (flags_same (by simp [hr, Progress.hand]) (by simp [Progress.hand])
        (by rw [hr]; rfl))
  | entersPhase _ hr =>
      exact .same rfl (flags_same (by simp [hr, Progress.hand]) (by simp [Progress.hand_of_entry])
        (by rw [hr]; rfl))
  | @accepts d p job waits queue hd hp hh hq =>
      obtain ⟨q, hq', hproducing⟩ := hh'.driver d hd
      rw [hp] at hq'
      cases hq'
      exact .offer hd hd hp rfl (Progress.opening_of_hand hh) (Progress.opening_accepted hh)
        (waitsAt_driver hd hh) (waitsAt_of_hand_none (Progress.hand_accepted hh) _)
        (.accepts hproducing hq)
  | @parks d p job queue hd hp hh hq =>
      have hparked := Progress.hand_parked hh
      exact .offer hd hd hp rfl (Progress.opening_of_hand hh) (Progress.opening_of_hand hparked)
        (waitsAt_driver hd hh) (waitsAt_driver (by exact hd) (by exact hparked)) (.parks rfl hq)
  | @drops d p job waits queue hd hp hh hq answer =>
      exact .offer hd hd hp rfl (Progress.opening_of_hand hh) rfl (waitsAt_driver hd hh)
        (waitsAt_of_hand_none rfl _) (.refuses hq)
  | forgets hh answer =>
      exact .same rfl (flags_same (by simp [hh]) (by simp [finish, Progress.hand])
        (Progress.opening_of_hand hh).symm)
  | withdraws hh answer => exact .withdraws hh' hh answer
  | @submits d p s left queue hd hp hr hw hl hq =>
      obtain ⟨q, hq', hproducing⟩ := hh'.driver d hd
      rw [hp] at hq'
      cases hq'
      exact .offer hd hd hp rfl (by rw [hr]; rfl) rfl
        (waitsAt_of_hand_none (Progress.hand_of_submitting hr hw) _)
        (waitsAt_of_hand_none (by simp [Progress.hand, hw]) _) (.accepts hproducing hq)
  | @submitsParked d p s left queue hd hp hr hw hl hq =>
      exact .offer hd hd hp rfl (by rw [hr]; rfl) rfl
        (waitsAt_of_hand_none (Progress.hand_of_submitting hr hw) _)
        (waitsAt_driver (by exact hd) (by rfl)) (.parks rfl hq)
  | @submitsDropped d p s left queue hd hp hr hw hl hq answer =>
      exact .offer hd hd hp rfl (by rw [hr]; rfl) rfl
        (waitsAt_of_hand_none (Progress.hand_of_submitting hr hw) _)
        (waitsAt_of_hand_none rfl _) (.refuses hq)

theorem Move.views {label : Label} (h : Move b e label next) (hh : e.Housed) : Views e next := by
  cases h with
  | stay permits => exact .same rfl fun _ => ⟨rfl, rfl⟩
  | latch size => exact .same rfl fun _ => ⟨rfl, rfl⟩
  | worker hp hw h => exact h.views hp hw
  | caller _ h => exact h.views hh

/-- Every pool is still there, as open as it was. -/
def Houses (old new : Array WorkerPool) : Prop :=
  ∀ (i : Nat) (p : WorkerPool), old[i]? = some p →
    ∃ p' : WorkerPool, new[i]? = some p' ∧ p'.queue.producing = p.queue.producing

theorem Houses.refl (pools : Array WorkerPool) : Houses pools pools := fun _ p hp => ⟨p, hp, rfl⟩

theorem Houses.set {pools : Array WorkerPool} {j : Nat} {p p' : WorkerPool}
    (hj : pools[j]? = some p) (hproducing : p'.queue.producing = p.queue.producing) :
    Houses pools (pools.set! j p') := by
  intro i q hq
  by_cases hi : j = i
  · subst hi
    rw [hj] at hq
    cases hq
    exact ⟨p', getElem?_set_self hj p', hproducing⟩
  · exact ⟨q, (getElem?_set_ne hi p').trans hq, rfl⟩

theorem Houses.modify {pools : Array WorkerPool} {j : Nat} {f : WorkerPool → WorkerPool}
    (hf : ∀ p, (f p).queue.producing = p.queue.producing) : Houses pools (pools.modify j f) := by
  intro i p hp
  rw [Array.getElem?_modify, hp]
  split
  · exact ⟨f p, rfl, hf p⟩
  · exact ⟨p, rfl, rfl⟩

/-- A step that closes no pool and starts none. -/
theorem Housed.keep (hh : e.Housed) (hpools : Houses e.pools next.pools)
    (hdriver : ∀ d, next.driver = some d → ∃ d', e.driver = some d' ∧ d'.pool = d.pool)
    (hopening : ∀ i, next.progress.opening = some i → e.progress.opening = some i) :
    next.Housed where
  driver d hd := by
    obtain ⟨d', hd', hpool⟩ := hdriver d hd
    obtain ⟨p, hp, hproducing⟩ := hh.driver d' hd'
    obtain ⟨p', hp', hproducing'⟩ := hpools d'.pool p hp
    exact ⟨p', hpool ▸ hp', hproducing'.trans hproducing⟩
  opening i hi := by
    obtain ⟨⟨p, hp, hproducing⟩, hne⟩ := hh.opening i (hopening i hi)
    obtain ⟨p', hp', hproducing'⟩ := hpools i p hp
    refine ⟨⟨p', hp', hproducing'.trans hproducing⟩, fun d hd => ?_⟩
    obtain ⟨d', hd', hpool⟩ := hdriver d hd
    exact hpool ▸ hne d' hd'

/-- A step after which no pool is being started, and that closes no pool. -/
theorem Housed.rest (hh : e.Housed) (hpools : Houses e.pools next.pools)
    (hdriver : next.driver = e.driver) (hopening : next.progress.opening = none) :
    next.Housed :=
  hh.keep hpools (fun d hd => ⟨d, hdriver ▸ hd, rfl⟩) fun i hi => by
    rw [hopening] at hi
    cases hi

theorem WorkerMove.houses {i k : Nat} {p : WorkerPool} {w : Worker} (hp : e.pools[i]? = some p)
    (h : WorkerMove b e i k p w next) : Houses e.pools next.pools := by
  have hput (q : WorkerPool) (hq : q.queue.producing = p.queue.producing) (a : Activity) :
      Houses e.pools (e.pools.set! i (q.setActivity k a)) := .set hp hq
  cases h with
  | asks ha => exact hput _ (by simp) _
  | takesTurn ha hr => exact hput _ (by simp) _
  | takes ha hq | ends ha hq =>
      exact hput _ (by rw [← JobQueue.producing_receive (q := p.queue), hq]) _
  | leaves ha => exact hput _ (by simp [WorkerPool.dropReceiver]) _
  | _ => exact hput _ rfl _

theorem CallerMove.housed (h : CallerMove e next) (hh : e.Housed) : next.Housed := by
  have hqueue (waits : Bool) {d : Driver} {p : WorkerPool} {job : Job} {answer : Admission}
      {queue : JobQueue Job Unit Nat} (hp : e.pools[d.pool]? = some p)
      (hq : p.queue.enter waits job = (answer, queue)) :
      Houses e.pools (e.pools.set! d.pool { p with queue }) :=
    .set hp (by rw [← JobQueue.producing_enter (q := p.queue), hq])
  cases h with
  | quiet h =>
      refine hh.keep ?_ ?_ fun i hi => h.opening ▸ hi
      · rcases h.pools with hsame | ⟨pool, hdialed⟩
        · rw [hsame]
          exact .refl _
        · rw [hdialed]
          exact .modify fun p => rfl
      · intro d hd
        rcases h.driver with hsame | ⟨d', direct, hd', hnext⟩
        · exact ⟨d, hsame ▸ hd, rfl⟩
        · rw [hnext] at hd
          cases hd
          exact ⟨d', hd', rfl⟩
  | @opens workers capacity hr hw hc split =>
      refine ⟨fun d hd => ?_, fun i hi => ?_⟩
      · obtain ⟨p, hp, hproducing⟩ := hh.driver d hd
        exact ⟨p, getElem?_push_of_some hp _, hproducing⟩
      · cases hi
        refine ⟨⟨_, Array.getElem?_push_size, rfl⟩, fun d hd => ?_⟩
        obtain ⟨p, hp, _⟩ := hh.driver d hd
        obtain ⟨hlt, _⟩ := Array.getElem?_eq_some_iff.mp hp
        omega
  | @spawns pool workers split stalled p events hr hp he conn =>
      exact hh.keep (.set hp rfl) (fun d hd => ⟨d, hd, rfl⟩) fun i hi => by rw [hr]; exact hi
  | @abandons pool workers split stalled events hr he answer =>
      obtain ⟨_, hne⟩ := hh.opening pool (by rw [hr]; rfl)
      refine ⟨fun d hd => ?_, by simp [finish, Progress.opening]⟩
      obtain ⟨p, hp, hproducing⟩ := hh.driver d hd
      refine ⟨p, ?_, hproducing⟩
      change (e.pools.modify pool _)[d.pool]? = _
      rw [Array.getElem?_modify, if_neg (Ne.symm (hne d hd))]
      exact hp
  | @starts pool workers split p events hr hp hw he answer =>
      obtain ⟨⟨q, hq, hproducing⟩, hne⟩ := hh.opening pool (by rw [hr]; rfl)
      rw [hp] at hq
      cases hq
      refine ⟨fun d hd => ?_, by simp [finish, Progress.opening]⟩
      cases hd
      refine ⟨p.dropReceiver, ?_, by simpa [WorkerPool.dropReceiver] using hproducing⟩
      change (closeDriven (e.pools.set! pool p.dropReceiver) e.driver)[pool]? = _
      cases hd : e.driver with
      | none => exact getElem?_set_self hp _
      | some d =>
          simp only [closeDriven]
          rw [Array.getElem?_modify, if_neg (hne d hd)]
          exact getElem?_set_self hp _
  | @closes d progress events hd hr he hp =>
      refine ⟨by simp, fun i hi => ?_⟩
      have hopening : progress.opening = none := by
        rcases hp with ⟨answer, rfl⟩ | rfl <;> rfl
      change progress.opening = some i at hi
      rw [hopening] at hi
      cases hi
  | accepts hd hp hh' hq => exact hh.rest (hqueue _ hp hq) rfl (Progress.opening_accepted hh')
  | parks hd hp hh' hq =>
      exact hh.rest (hqueue false hp hq) rfl
        (Progress.opening_of_hand (Progress.hand_parked hh'))
  | drops hd hp hh' hq answer => exact hh.rest (hqueue _ hp hq) rfl rfl
  | withdraws hh' answer =>
      refine hh.rest ?_ rfl rfl
      cases hd : e.driver with
      | none => exact .refl _
      | some d => exact .modify fun p => rfl
  | submits hd hp hr hw hl hq | submitsParked hd hp hr hw hl hq =>
      exact hh.rest (hqueue false hp hq) rfl rfl
  | submitsDropped hd hp hr hw hl hq answer =>
      exact hh.rest (hqueue false hp hq) rfl rfl
  | _ => exact hh.rest (.refl _) rfl rfl

theorem Move.housed {label : Label} (h : Move b e label next) (hh : e.Housed) : next.Housed := by
  cases h with
  | stay permits => exact hh
  | latch size => exact ⟨hh.driver, hh.opening⟩
  | worker hp hw h =>
      exact hh.keep (h.houses hp) (fun d hd => ⟨d, h.driver ▸ hd, rfl⟩) fun i hi => h.progress ▸ hi
  | caller _ h => exact h.housed hh

theorem Housed.bare (hh : e.Housed) : e.bare.Housed := ⟨hh.driver, hh.opening⟩

theorem housed_of_reachable (h : Reachable b e) : e.Housed := by
  induction h with
  | start => exact ⟨by simp, by simp [Progress.opening]⟩
  | step label _ hs ih =>
      have hbare := (step_move hs).housed ih.bare
      exact ⟨hbare.driver, hbare.opening⟩

/-- In any run, each pool does nothing or one of the operations at each step. -/
theorem step_views {label : Label} (h : Reachable b e) (hs : e.step b label = some next) :
    Views e next := by
  have hviews := (step_move hs).views (housed_of_reachable h).bare
  exact ⟨hviews.forward, hviews.fresh⟩

end Engine

end LoadBench
