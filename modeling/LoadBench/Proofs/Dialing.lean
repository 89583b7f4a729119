import LoadBench.Proofs.OwnConnection
import LoadBench.Proofs.OwnCounters

/-!
A start that is under way. The caller dials for one worker after the other, and a worker begins as
soon as its dial has succeeded. Nobody else dials meanwhile, and nobody else has the queue of the
new pool, so its workers only wait.
-/

namespace LoadBench

/-- What a start answers if one of its dials does not succeed. A dial that stalls succeeds once it
has a permit. -/
def DialConduct.refusal? : DialConduct → Option Answer
  | .connect | .stall => none
  | .fail fault => some (.fault fault)
  | .panic message => some (.panic message)

/-- A dial that does not panic is refused only by a fault. -/
theorem DialConduct.fails_of_refusal {c : DialConduct} {answer : Answer}
    (h : c.refusal? = some answer) (hc : ∀ message, c ≠ .panic message) :
    ∃ fault, c = .fail fault ∧ answer = .fault fault := by
  cases c with
  | connect | stall => cases h
  | fail fault =>
      cases h
      exact ⟨fault, rfl, rfl⟩
  | panic message => exact absurd rfl (hc message)

/-- Whether a call dials for workers. -/
def Progress.isStarting : Progress → Bool
  | .starting _ _ _ _ => true
  | _ => false

/-- A pool with so many live workers, whose connections are numbered from the first one on. -/
structure WorkerPool.Crew (p : WorkerPool) (capacity made first : Nat) : Prop where
  size : p.workers.size = made
  dialed : p.dialed = made
  slots : p.queue.capacity = capacity
  workers : ∀ (k : Nat) (w : Worker), p.workers[k]? = some w →
    w.conn = first + k ∧ w.activity.isLive = true

namespace WorkerPool.Crew

variable {p : WorkerPool} {capacity made first : Nat}

theorem spawn (hc : p.Crew capacity made first) :
    ({ p with dialed := p.dialed + 1 }.spawn (first + made)).Crew capacity (made + 1) first := by
  have hsize := hc.size
  exact {
    size := by simp [WorkerPool.spawn, hsize]
    dialed := congrArg (· + 1) hc.dialed
    slots := hc.slots
    workers := by
      intro k w hw
      simp only [WorkerPool.spawn] at hw
      rw [Array.getElem?_push, hsize] at hw
      split at hw
      · next hk =>
        cases hw
        rw [hk]
        exact ⟨rfl, rfl⟩
      · exact hc.workers k w hw }

/-- What is done to the queue does not change the crew. -/
theorem queue (hc : p.Crew capacity made first) {queue : JobQueue Job Unit Nat}
    (hq : queue.capacity = p.queue.capacity) :
    { p with queue }.Crew capacity made first where
  size := hc.size
  dialed := hc.dialed
  slots := hq.trans hc.slots
  workers := hc.workers

end WorkerPool.Crew

namespace Engine

variable {b : Backend} {e mid next : Engine} {label : Label} {i k : Nat} {p : WorkerPool}
  {w : Worker}

section Others

/-- A worker's step leaves the number of workers, of dials and of slots alone. -/
theorem WorkerMove.frame (h : WorkerMove b e i k p w next) :
    ∃ (q : WorkerPool) (a : Activity), next.pools = e.pools.set! i (q.setActivity k a) ∧
      q.workers = p.workers ∧ q.dialed = p.dialed ∧ q.queue.capacity = p.queue.capacity := by
  cases h with
  | asks ha => exact ⟨_, _, rfl, rfl, rfl, JobQueue.sameSlots_ask.capacity⟩
  | takesTurn ha hr => exact ⟨_, _, rfl, rfl, rfl, JobQueue.sameSlots_takeTurn.capacity⟩
  | takes ha hq =>
      obtain ⟨rest, _, rfl⟩ := JobQueue.receive_item hq
      exact ⟨_, _, rfl, rfl, rfl, rfl⟩
  | ends ha hq =>
      obtain ⟨_, _, rfl⟩ := JobQueue.receive_ended hq
      exact ⟨_, _, rfl, rfl, rfl, rfl⟩
  | leaves ha => exact ⟨_, _, rfl, rfl, rfl, JobQueue.capacity_dropReceiver _⟩
  | _ => exact ⟨p, _, rfl, rfl, rfl, rfl⟩

/-- So does whatever is not a step of the caller's. -/
theorem frame_of_others (hs : e.step b label = some next) (hl : label.ofCaller = false)
    (hp : e.pools[i]? = some p) :
    ∃ p', next.pools[i]? = some p' ∧ p'.workers.size = p.workers.size ∧ p'.dialed = p.dialed ∧
      p'.queue.capacity = p.queue.capacity := by
  have hm := step_move hs
  change ∃ p', next.bare.pools[i]? = some p' ∧ _
  generalize next.bare = after at hm ⊢
  cases hm with
  | stay permits | latch size => exact ⟨p, hp, rfl, rfl, rfl⟩
  | caller hl' _ =>
      rw [hl] at hl'
      cases hl'
  | @worker j l q w _ hq hw h =>
      obtain ⟨r, a, hpools, hworkers, hdialed, hcapacity⟩ := h.frame
      rw [hpools]
      by_cases hj : j = i
      · subst hj
        cases hp.symm.trans hq
        refine ⟨r.setActivity l a, getElem?_set_self hq _, ?_, hdialed, hcapacity⟩
        simp [WorkerPool.setActivity, hworkers]
      · exact ⟨p, (getElem?_set_ne hj _).trans hp, rfl, rfl, rfl⟩

/-- Nobody else dials. -/
theorem dials_of_others (hs : e.step b label = some next) (hl : label.ofCaller = false) :
    next.dialAttempts = e.dialAttempts ∧ next.connections = e.connections := by
  cases label with
  | act actor =>
      cases actor with
      | caller => cases hl
      | worker i k =>
          obtain ⟨hconnections, _, hattempts⟩ := worker_frame hs
          exact ⟨hattempts, hconnections⟩
  | call request | cancel => cases hl
  | release permits | newLatch jobs =>
      cases hs
      exact ⟨rfl, rfl⟩

end Others

/-- What becomes of a dial is what the backend does with it. -/
theorem dialStep_conduct {stalled : Bool} {dialed : Dialed}
    (hs : e.dialStep b stalled = some (dialed, next)) :
    next.dialAttempts = e.dialAttempts + (!stalled).toNat ∧
      match dialed with
      | .connected conn => conn = e.connections ∧
          (stalled = false → (b.dial e.dialAttempts).refusal? = none)
      | .parked => stalled = false → b.dial e.dialAttempts = .stall
      | .failed fault => stalled = false ∧ b.dial e.dialAttempts = .fail fault
      | .panicked message => stalled = false ∧ b.dial e.dialAttempts = .panic message := by
  cases stalled with
  | false =>
      simp only [dialStep, beginDial, Bool.not_false, if_true, Option.some.injEq] at hs
      split at hs
      · next hd =>
        cases hs
        refine ⟨rfl, rfl, fun _ => ?_⟩
        rw [hd]
        rfl
      · next hd =>
        cases hs
        exact ⟨rfl, rfl, hd⟩
      · next hd =>
        cases hs
        exact ⟨rfl, rfl, hd⟩
      · next hd =>
        split at hs
        · cases hs
          refine ⟨rfl, rfl, fun _ => ?_⟩
          rw [hd]
          rfl
        · cases hs
          exact ⟨rfl, fun _ => hd⟩
  | true =>
      simp only [dialStep, resumeDial, Bool.not_true, Bool.false_eq_true, if_false,
        Option.ite_none_right_eq_some, Option.some.injEq] at hs
      obtain ⟨_, hs⟩ := hs
      split at hs
      · cases hs
        refine ⟨rfl, rfl, ?_⟩
        intro hfresh
        cases hfresh
      · cases hs
        refine ⟨rfl, ?_⟩
        intro hfresh
        cases hfresh

/-- What becomes of the attempt with a number: it is counted when the dial is begun, so a dial that
waits is still the same attempt. -/
theorem dialStep_attempt {stalled : Bool} {dialed : Dialed} {attempt : Nat}
    (ha : e.dialAttempts = attempt + stalled.toNat)
    (hw : stalled = true → b.dial attempt = .stall)
    (hs : e.dialStep b stalled = some (dialed, next)) :
    next.dialAttempts = attempt + 1 ∧
      match dialed with
      | .connected conn => conn = e.connections ∧ (b.dial attempt).refusal? = none
      | .parked => b.dial attempt = .stall
      | .failed fault => b.dial attempt = .fail fault
      | .panicked message => b.dial attempt = .panic message := by
  obtain ⟨hattempts, hconduct⟩ := dialStep_conduct hs
  cases stalled with
  | false =>
      change e.dialAttempts = attempt at ha
      rw [ha] at hattempts hconduct
      refine ⟨hattempts, ?_⟩
      cases dialed with
      | connected conn => exact ⟨hconduct.1, hconduct.2 rfl⟩
      | parked => exact hconduct rfl
      | failed fault => exact hconduct.2
      | panicked message => exact hconduct.2
  | true =>
      have hstalls := hw rfl
      refine ⟨hattempts.trans ha, ?_⟩
      cases dialed with
      | connected conn =>
          refine ⟨hconduct.1, ?_⟩
          rw [hstalls]
          rfl
      | parked => exact hstalls
      | failed | panicked => cases hconduct.1

/-- The counters that a start makes. -/
def newTallies (e : Engine) (split : Bool) : Nat := e.tallies.size + if split then 2 else 1

/-- A start that was begun in `e` and that has started so many workers by now. -/
structure Underway (b : Backend) (e : Engine) (workers capacity : Nat) (split : Bool)
    (made : Nat) (stalled : Bool) (mid : Engine) : Prop where
  progress : mid.progress = .starting e.pools.size workers split stalled
  attempts : mid.dialAttempts = e.dialAttempts + made + stalled.toNat
  connections : mid.connections = e.connections + made
  driver : mid.driver = e.driver
  dials : ∀ k < made, (b.dial (e.dialAttempts + k)).refusal? = none
  /-- If the call waits, it is for a worker that is still missing. -/
  waits : stalled = true → made < workers ∧ b.dial (e.dialAttempts + made) = .stall
  le : made ≤ workers
  crew : ∃ p, mid.pools[e.pools.size]? = some p ∧ p.Crew capacity made e.connections
  unused : Unused e.tallies.size (e.newTallies split) e.pools.size mid

variable {workers capacity made : Nat} {split stalled : Bool}

theorem getElem?_openPool_self (e : Engine) (workers capacity : Nat) (split : Bool) :
    (e.openPool workers capacity split).pools[e.pools.size]? =
      some { queue := JobQueue.ofCapacity capacity, tally := e.tallies.size } :=
  Array.getElem?_push_size

/-- Nobody but a new pool has to do with the counters that are made for it. -/
theorem unused_openPool (h : Reachable b e) (workers capacity : Nat) (split : Bool) :
    Unused e.tallies.size (e.newTallies split) e.pools.size
      (e.openPool workers capacity split) where
  made := by
    unfold newTallies openPool
    cases split with
    | true => simp
    | false => simp
  pools j p hp hj := by
    simp only [openPool] at hp
    rw [Array.getElem?_push, if_neg hj] at hp
    exact .inl ((traced_of_reachable h).tallies j p hp)
  driver d hd := by
    obtain ⟨p, hp, _⟩ := (housed_of_reachable h).driver d hd
    obtain ⟨hlt, _⟩ := Array.getElem?_eq_some_iff.mp hp
    exact ⟨Nat.ne_of_lt hlt, .inl ((hasCounters_of_reachable h).driver d hd)⟩
  starting j p hj _ hne := by
    cases hj
    exact absurd rfl hne
  accepted := ⟨_, getElem?_openPool_self e workers capacity split, rfl⟩
  zero t hfirst _ := by
    rw [tallyAt_openPool]
    unfold tallyAt
    rw [Array.getElem?_eq_none hfirst]
    rfl

/-- A start whose sizes are all right is under way. -/
theorem underway_openPool (h : Reachable b e) (workers capacity : Nat) (split : Bool) :
    Underway b e workers capacity split 0 false (e.openPool workers capacity split) := by
  exact {
    progress := rfl
    attempts := rfl
    connections := rfl
    driver := rfl
    dials := nofun
    waits := nofun
    le := Nat.zero_le workers
    crew := ⟨_, getElem?_openPool_self e workers capacity split, rfl, rfl, rfl, nofun⟩
    unused := unused_openPool h workers capacity split }

/-- The caller waits for nothing but the permit of a dial that stalls. -/
theorem Underway.enabled (hu : Underway b e workers capacity split made false mid) :
    ∃ next, mid.step b (.act .caller) = some next := by
  obtain ⟨p, hp, hcrew⟩ := hu.crew
  change ∃ next, mid.callerStep b = some next
  simp only [callerStep, hu.progress, startStep, hp, Option.bind_eq_bind, Option.bind_some]
  split
  · exact ⟨_, rfl⟩
  · simp only [dialStep, Bool.not_false, if_true, Option.bind_some]
    split
    · exact ⟨_, rfl⟩
    · exact ⟨_, rfl⟩
    · exact ⟨_, rfl⟩
    · exact ⟨_, rfl⟩

theorem Underway.opening (hu : Underway b e workers capacity split made stalled mid) :
    mid.progress.opening = some e.pools.size := by
  rw [hu.progress]
  rfl

/-- A pool whose queue is open and accepted nothing loses no worker. -/
theorem live_of_unused (h : Reachable b mid) (hs : mid.step b label = some next)
    (hp : mid.pools[i]? = some p) (hopen : p.queue.producing = true)
    (hnone : p.queue.accepted = #[])
    (hlive : ∀ (k : Nat) (w : Worker), p.workers[k]? = some w → w.activity.isLive = true)
    (hw : next.worker? i k = some w) : w.activity.isLive = true := by
  have hempty (l : Nat) (w' : Worker) (job : Job) (hw' : p.workers[l]? = some w')
      (hj : w'.activity.job? = some job) : False := by
    have hmem := (traced_of_reachable h).jobs i p job hp (.inr ⟨l, w', hw', hj⟩)
    rw [hnone] at hmem
    exact Array.not_mem_empty job hmem
  rcases step_worker hs hw with hnew | hold | ⟨q, w', hq, hw', hdies⟩
  · exact hnew
  · obtain ⟨q, hq, hw⟩ := worker?_eq_some.mp hold
    cases hp.symm.trans hq
    exact hlive k w hw
  · cases hp.symm.trans hq
    cases hdies with
    | drained ha hb hclosed =>
        rw [hopen] at hclosed
        cases hclosed
    | @collapsed job ha hc => exact (hempty k w' job hw' (by rw [ha]; rfl)).elim
    | @misused job ha hl => exact (hempty k w' job hw' (by rw [ha]; rfl)).elim
    | left ha =>
        have hleft := hlive k w' hw'
        rw [ha] at hleft
        cases hleft

/-- Whoever acts, its counters stay unused as long as no driver comes to its pool. -/
theorem Underway.unused_next (hu : Underway b e workers capacity split made stalled mid)
    (h : Reachable b mid) (hs : mid.step b label = some next) (hd : next.driver = mid.driver) :
    Unused e.tallies.size (e.newTallies split) e.pools.size next := by
  apply hu.unused.step h hs
  intro d hd'
  exact (hu.unused.driver d (hd.symm.trans hd')).1

/-- What others do leaves a start where it is. -/
theorem Underway.others (hu : Underway b e workers capacity split made stalled mid)
    (h : Reachable b mid) (hs : mid.step b label = some next) (hl : label.ofCaller = false) :
    Underway b e workers capacity split made stalled next := by
  obtain ⟨hprogress, _, hdriver⟩ := step_of_others hs hl
  obtain ⟨hattempts, hconnections⟩ := dials_of_others hs hl
  obtain ⟨p, hp, hcrew⟩ := hu.crew
  obtain ⟨⟨q, hq, hopen⟩, _⟩ := (housed_of_reachable h).opening _ hu.opening
  cases hp.symm.trans hq
  obtain ⟨q, hq, hnone⟩ := hu.unused.accepted
  cases hp.symm.trans hq
  obtain ⟨p', hp', hsize, hdialed, hcapacity⟩ := frame_of_others hs hl hp
  exact {
    progress := hprogress.trans hu.progress
    attempts := hattempts.trans hu.attempts
    connections := hconnections.trans hu.connections
    driver := hdriver.trans hu.driver
    dials := hu.dials
    waits := hu.waits
    le := hu.le
    crew := by
      refine ⟨p', hp', hsize.trans hcrew.size, ?_, hcapacity.trans hcrew.slots, ?_⟩
      · rw [hdialed, hcrew.dialed]
      · intro k w' hw'
        have hworker := worker?_eq_some.mpr ⟨p', hp', hw'⟩
        constructor
        · rcases step_conn h hs hworker with ⟨w, hw, hconn⟩ | ⟨_, hk, _⟩
          · obtain ⟨r, hr, hw⟩ := worker?_eq_some.mp hw
            cases hp.symm.trans hr
            rw [← hconn]
            exact (hcrew.workers k w hw).1
          · rw [hp] at hk
            cases hk
            obtain ⟨hlt, _⟩ := Array.getElem?_eq_some_iff.mp hw'
            omega
        · exact live_of_unused h hs hp hopen hnone (fun l w hw => (hcrew.workers l w hw).2) hworker
    unused := hu.unused_next h hs hdriver }

/-- A start that failed at a dial, after it had started so many workers. -/
structure GivenUp (b : Backend) (e : Engine) (capacity : Nat) (split : Bool) (made : Nat)
    (answer : Answer) (next : Engine) : Prop where
  progress : next.progress = .returned answer
  refused : (b.dial (e.dialAttempts + made)).refusal? = some answer
  dials : ∀ k < made, (b.dial (e.dialAttempts + k)).refusal? = none
  attempts : next.dialAttempts = e.dialAttempts + made + 1
  connections : next.connections = e.connections + made
  driver : next.driver = e.driver
  crew : ∃ p, next.pools[e.pools.size]? = some p ∧ p.queue.producing = false ∧
    p.Crew capacity made e.connections
  unused : Unused e.tallies.size (e.newTallies split) e.pools.size next

theorem Underway.givenUp {answer : Answer}
    (hu : Underway b e workers capacity split made stalled mid) (h : Reachable b mid)
    (hs : mid.step b label = some next)
    (hrefused : (b.dial (e.dialAttempts + made)).refusal? = some answer)
    (hprogress : next.progress = .returned answer)
    (hattempts : next.dialAttempts = e.dialAttempts + made + 1)
    (hconnections : next.connections = mid.connections) (hdriver : next.driver = mid.driver)
    (hpools : next.pools = mid.pools.modify e.pools.size fun p => p.close.dropReceiver) :
    GivenUp b e capacity split made answer next := by
  obtain ⟨p, hp, hcrew⟩ := hu.crew
  exact {
    progress := hprogress
    refused := hrefused
    dials := hu.dials
    attempts := hattempts
    connections := hconnections.trans hu.connections
    driver := hdriver.trans hu.driver
    crew := by
      refine ⟨p.close.dropReceiver, ?_, ?_, ?_⟩
      · rw [hpools, modify_eq_set _ hp, getElem?_set_self hp]
      · exact JobQueue.producing_dropReceiver
      · exact hcrew.queue (JobQueue.capacity_dropReceiver _)
    unused := hu.unused_next h hs hdriver }

/-- What the caller's next step makes of a start. -/
inductive Dials (b : Backend) (e : Engine) (workers capacity : Nat) (split : Bool)
    (made : Nat) (stalled : Bool) (mid next : Engine) : Prop
  | waits (hu : Underway b e workers capacity split made true next)
  | spawns (hu : Underway b e workers capacity split (made + 1) false next)
  | completes {p : WorkerPool} (hm : made = workers) (hw : stalled = false)
      (hp : mid.pools[e.pools.size]? = some p) (hc : p.Crew capacity made e.connections)
      (hn : next = mid.completeStart b e.pools.size p split)
  | fails {answer : Answer} (hm : made < workers) (hg : GivenUp b e capacity split made answer next)

/-- The pool has got another worker. -/
theorem Underway.crew_spawn (hu : Underway b e workers capacity split made stalled mid)
    (hpools : next.pools =
      (mid.pools.modify e.pools.size fun p => { p with dialed := p.dialed + 1 }).modify
        e.pools.size (·.spawn mid.connections)) :
    ∃ p, next.pools[e.pools.size]? = some p ∧ p.Crew capacity (made + 1) e.connections := by
  obtain ⟨p, hp, hcrew⟩ := hu.crew
  refine ⟨{ p with dialed := p.dialed + 1 }.spawn (e.connections + made), ?_, hcrew.spawn⟩
  rw [hpools, modify_modify_eq_set _ _ hp, getElem?_set_self hp, hu.connections]

theorem Underway.dials_next (hu : Underway b e workers capacity split made stalled mid)
    (h : Reachable b mid) (hs : mid.step b (.act .caller) = some next) :
    Dials b e workers capacity split made stalled mid next := by
  obtain ⟨p, hp, hcrew⟩ := hu.crew
  have hstart : mid.startStep b e.pools.size workers split stalled = some next := by
    change mid.callerStep b = some next at hs
    simp only [callerStep, hu.progress] at hs
    exact hs
  simp only [startStep, hp, Option.bind_eq_bind, Option.bind_some] at hstart
  split at hstart
  · next hdone =>
    simp only [hcrew.size, Bool.and_eq_true, Bool.not_eq_true', beq_iff_eq] at hdone
    cases hstart
    exact .completes hdone.2 hdone.1 hp hcrew rfl
  · next hmore =>
    have hlt : made < workers := by
      have hle := hu.le
      cases hstalled : stalled with
      | true => exact (hu.waits hstalled).1
      | false =>
          simp only [hstalled, hcrew.size, Bool.not_false, Bool.true_and, beq_iff_eq] at hmore
          omega
    simp only [Option.bind_eq_some_iff] at hstart
    obtain ⟨⟨dialed, e'⟩, hdial, hstart⟩ := hstart
    obtain ⟨hattempts, hconduct⟩ :=
      dialStep_attempt hu.attempts (fun hstalled => (hu.waits hstalled).2) hdial
    cases dialStep_cases hdial with
    | connects attempts attempt gate =>
        cases hstart
        exact .spawns {
          progress := rfl
          attempts := hattempts
          connections := congrArg (· + 1) hu.connections
          driver := hu.driver
          dials := by
            intro k hk
            rcases Nat.lt_succ_iff_lt_or_eq.mp hk with hold | rfl
            · exact hu.dials k hold
            · exact hconduct.2
          waits := by
            intro hstalled
            cases hstalled
          le := hlt
          crew := hu.crew_spawn rfl
          unused := hu.unused_next h hs rfl }
    | fails attempts attempt hd =>
        rcases hd with ⟨fault, rfl⟩ | ⟨message, rfl⟩
        · cases hstart
          have hrefused := congrArg DialConduct.refusal? hconduct
          exact .fails hlt (hu.givenUp h hs hrefused rfl hattempts rfl rfl rfl)
        · cases hstart
          have hrefused := congrArg DialConduct.refusal? hconduct
          exact .fails hlt (hu.givenUp h hs hrefused rfl hattempts rfl rfl rfl)
    | parks attempts gate =>
        cases hstart
        exact .waits {
          progress := rfl
          attempts := hattempts
          connections := hu.connections
          driver := hu.driver
          dials := hu.dials
          waits := fun _ => ⟨hlt, hconduct⟩
          le := hu.le
          crew := ⟨p, hp, hcrew⟩
          unused := hu.unused_next h hs rfl }

end Engine

end LoadBench
