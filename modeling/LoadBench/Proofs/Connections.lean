import LoadBench.Proofs.ClosedPool
import LoadBench.Proofs.EventLog

/-!
Who has which connection. A connection is opened for a worker, for the direct phases of a driver,
or for somebody outside, and only whoever has it closes it. So the open connections are those that
somebody has, and each has one owner.

Connections are numbered as they are opened, so a new one is none of those there were before.
-/

namespace LoadBench

/-- The connections of the workers that have not ended. -/
def WorkerPool.conns (p : WorkerPool) : Multiset Nat :=
  total (fun w => if w.activity.hasEnded then 0 else {w.conn}) p.workers

/-- Whether a call is at a point of a phase at which it dials for its driver, or comes to it. -/
def Progress.dials : Progress → Bool
  | .entering _ _ .undialed _ _
  | .running { point := .connecting, .. } _ _ | .running { point := .dialing, .. } _ _ => true
  | _ => false

namespace WorkerPool

variable {p q : WorkerPool} {pools : Array WorkerPool} {i k : Nat} {w : Worker}

theorem conns_congr (h : q.workers = p.workers) : q.conns = p.conns := by
  unfold conns
  rw [h]

theorem conns_setActivity (hw : p.workers[k]? = some w) (hq : q.workers = p.workers)
    (a : Activity) : (q.setActivity k a).conns + (if w.activity.hasEnded then 0 else {w.conn}) =
      p.conns + if a.hasEnded then 0 else {w.conn} := by
  simp only [conns, setActivity, hq]
  exact total_modify
    (fun w : Worker => if w.activity.hasEnded then (0 : Multiset Nat) else {w.conn}) _ hw

theorem conns_spawn (p : WorkerPool) (conn : Nat) : (p.spawn conn).conns = p.conns + {conn} :=
  total_push _ _ _

theorem total_conns_set (hp : pools[i]? = some p) (hq : q.conns = p.conns) :
    total conns (pools.set! i q) = total conns pools := by
  have hset := total_set conns q hp
  rw [hq] at hset
  exact add_right_cancel hset

theorem total_conns_modify {f : WorkerPool → WorkerPool} (hf : ∀ p, (f p).workers = p.workers)
    (pools : Array WorkerPool) (i : Nat) : total conns (pools.modify i f) = total conns pools :=
  total_modify_eq conns pools i f fun p _ => conns_congr (hf p)

theorem total_conns_spawn (hp : pools[i]? = some p) (conn : Nat) :
    total conns ((pools.modify i fun p => { p with dialed := p.dialed + 1 }).modify i
      (·.spawn conn)) = total conns pools + {conn} := by
  rw [modify_modify_eq_set _ _ hp]
  have hset : total conns (pools.set! i ({ p with dialed := p.dialed + 1 }.spawn conn)) + p.conns =
      total conns pools + (p.conns + {conn}) := by
    rw [← conns_spawn]
    exact total_set conns _ hp
  rw [add_comm p.conns, ← add_assoc] at hset
  exact add_right_cancel hset

end WorkerPool

namespace Engine

/-- The connection that the driver has for its direct phases. -/
def slot (e : Engine) : Option Nat := e.driver.bind (·.direct)

/-- The connections that somebody has. -/
def owned (e : Engine) : Multiset Nat :=
  total WorkerPool.conns e.pools + (e.slot.toList : Multiset Nat) + (e.outside : Multiset Nat)

/-- Whether a driver that dials for its direct phases has no connection for them yet. -/
def Undialed (e : Engine) : Prop :=
  e.progress.dials = true → e.slot = none

/-- What a step does to connections: it opens the next one for somebody, or it closes some of
somebody's. -/
inductive Handling (e next : Engine) : Prop
  | opens (opened : next.opened = e.opened ++ [e.connections])
      (connections : next.connections = e.connections + 1)
      (owned : next.owned = e.owned + {e.connections})
  | closes (conns : List Nat) (opened : next.opened = e.opened.diff conns)
      (connections : next.connections = e.connections)
      (owned : e.owned = next.owned + (conns : Multiset Nat))

/-- Every open connection has one owner, and connections are numbered. -/
structure Owned (e : Engine) : Prop where
  opened : (e.opened : Multiset Nat) = e.owned
  once : e.opened.Nodup
  dialed : ∀ conn ∈ e.opened, conn < e.connections
  undialed : e.Undialed

variable {b : Backend} {e next : Engine} {label : Label} {i k : Nat} {p : WorkerPool} {w : Worker}
  {d : Driver}

theorem Handling.same (ho : next.opened = e.opened) (hc : next.connections = e.connections)
    (hn : next.owned = e.owned) : Handling e next := by
  apply Handling.closes []
  · exact ho
  · exact hc
  · rw [hn]
    exact (add_zero _).symm

theorem owned_spawn {conn : Nat}
    (hconns : total WorkerPool.conns next.pools = total WorkerPool.conns e.pools + {conn})
    (hslot : next.slot = e.slot) (houtside : next.outside = e.outside) :
    next.owned = e.owned + {conn} := by
  unfold owned
  rw [hconns, hslot, houtside, add_right_comm _ ({conn} : Multiset Nat),
    add_right_comm _ ({conn} : Multiset Nat)]

theorem owned_slot {conn : Nat}
    (hconns : total WorkerPool.conns next.pools = total WorkerPool.conns e.pools)
    (hnone : e.slot = none) (hslot : next.slot = some conn) (houtside : next.outside = e.outside) :
    next.owned = e.owned + {conn} := by
  unfold owned
  rw [hconns, hslot, hnone, houtside, Option.toList_none, Multiset.coe_nil, add_zero]
  exact add_right_comm _ _ _

theorem owned_outside {conn : Nat}
    (hconns : total WorkerPool.conns next.pools = total WorkerPool.conns e.pools)
    (hslot : next.slot = e.slot) (houtside : next.outside = e.outside ++ [conn]) :
    next.owned = e.owned + {conn} := by
  unfold owned
  rw [hconns, hslot, houtside, ← Multiset.coe_add, ← add_assoc]
  rfl

/-- A step that is no concern of any connection and executes nothing. -/
structure Unconcerned (e next : Engine) : Prop where
  opened : next.opened = e.opened
  connections : next.connections = e.connections
  conns : total WorkerPool.conns next.pools = total WorkerPool.conns e.pools
  slot : next.slot = e.slot
  outside : next.outside = e.outside
  executions : next.executions = e.executions

theorem Unconcerned.owned (h : Unconcerned e next) : next.owned = e.owned := by
  unfold Engine.owned
  rw [h.conns, h.slot, h.outside]

theorem Unconcerned.handling (h : Unconcerned e next) : Handling e next :=
  .same h.opened h.connections h.owned

theorem Handling.frame {mid : Engine} (h : Handling e mid) (h' : Unconcerned mid next) :
    Handling e next := by
  cases h with
  | opens opened connections owned =>
      exact .opens (h'.opened.trans opened) (h'.connections.trans connections)
        (h'.owned.trans owned)
  | closes conns opened connections owned =>
      refine .closes conns (h'.opened.trans opened) (h'.connections.trans connections) ?_
      rw [h'.owned]
      exact owned

theorem Unconcerned.trans {mid : Engine} (h : Unconcerned e mid) (h' : Unconcerned mid next) :
    Unconcerned e next where
  opened := h'.opened.trans h.opened
  connections := h'.connections.trans h.connections
  conns := h'.conns.trans h.conns
  slot := h'.slot.trans h.slot
  outside := h'.outside.trans h.outside
  executions := h'.executions.trans h.executions

section Workers

/-- A worker that is not about to leave keeps its connection. -/
theorem WorkerMove.conns (h : WorkerMove b e i k p w next) (hp : e.pools[i]? = some p)
    (hw : p.workers[k]? = some w) (hne : ∀ panicked, w.activity ≠ .leaving panicked) :
    total WorkerPool.conns next.pools = total WorkerPool.conns e.pools := by
  have hput {q : WorkerPool} {a a' : Activity}
      (hpools : next.pools = e.pools.set! i (q.setActivity k a')) (hq : q.workers = p.workers)
      (ha : w.activity = a) (hold : a.hasEnded = false) (hnew : a'.hasEnded = false) :
      total WorkerPool.conns next.pools = total WorkerPool.conns e.pools := by
    rw [hpools]
    apply WorkerPool.total_conns_set hp
    have hset := WorkerPool.conns_setActivity hw hq a'
    rw [ha, hold, hnew] at hset
    exact add_right_cancel hset
  cases h with
  | asks ha => exact hput rfl rfl ha rfl (by split <;> rfl)
  | takesTurn ha hr => exact hput rfl rfl ha rfl rfl
  | takes ha hq => exact hput rfl rfl ha rfl rfl
  | ends ha hq => exact hput rfl rfl ha rfl rfl
  | begins ha hc => exact hput rfl rfl ha rfl rfl
  | collapses ha hc => exact hput rfl rfl ha rfl rfl
  | stalls ha => exact hput rfl rfl ha rfl rfl
  | finishes ha =>
      cases hact : w.activity with
      | executing job conduct => exact hput rfl rfl hact rfl rfl
      | stalled job fault => exact hput rfl rfl hact rfl rfl
      | _ =>
          rw [hact] at ha
          cases ha
  | counts ha | tallies ha | countsFailure ha => exact hput rfl rfl ha rfl rfl
  | completes ha hb hl => exact hput rfl rfl ha rfl rfl
  | misuses ha hl => exact hput rfl rfl ha rfl rfl
  | leaves ha => exact absurd ha (hne _)

theorem workerStep_connections (hp : e.pools[i]? = some p) (hw : p.workers[k]? = some w)
    (hne : ∀ panicked, w.activity ≠ .leaving panicked) (hs : e.workerStep b i k = some next) :
    next.opened = e.opened ∧ next.connections = e.connections ∧ next.outside = e.outside ∧
      next.dialAttempts = e.dialAttempts := by
  simp only [workerStep, hp, hw, Option.bind_eq_bind, Option.bind_some] at hs
  cases ha : w.activity with
  | idle =>
      rw [ha] at hs
      cases hs
      exact ⟨rfl, rfl, rfl, rfl⟩
  | queued =>
      simp only [ha, Option.ite_none_right_eq_some, Option.some.injEq] at hs
      obtain ⟨_, rfl⟩ := hs
      exact ⟨rfl, rfl, rfl, rfl⟩
  | receiving =>
      simp only [ha, receiveJob] at hs
      split at hs
      · cases hs
        exact ⟨rfl, rfl, rfl, rfl⟩
      · cases hs
        exact ⟨rfl, rfl, rfl, rfl⟩
      · cases hs
  | holding job =>
      simp only [ha, beginJob, Option.some.injEq] at hs
      split at hs
      · cases hs
        exact ⟨rfl, rfl, rfl, rfl⟩
      · cases hs
        exact ⟨rfl, rfl, rfl, rfl⟩
  | executing job conduct =>
      simp only [ha, proceedJob, Option.some.injEq] at hs
      split at hs
      · cases hs
        exact ⟨rfl, rfl, rfl, rfl⟩
      · cases hs
        exact ⟨rfl, rfl, rfl, rfl⟩
      · cases hs
        exact ⟨rfl, rfl, rfl, rfl⟩
      · cases hs
        exact ⟨rfl, rfl, rfl, rfl⟩
      · split at hs
        · cases hs
          exact ⟨rfl, rfl, rfl, rfl⟩
        · cases hs
          exact ⟨rfl, rfl, rfl, rfl⟩
  | stalled job fault =>
      simp only [ha, Option.ite_none_right_eq_some, Option.some.injEq] at hs
      obtain ⟨_, rfl⟩ := hs
      exact ⟨rfl, rfl, rfl, rfl⟩
  | finished job failed =>
      rw [ha] at hs
      cases failed <;> cases hs <;> exact ⟨rfl, rfl, rfl, rfl⟩
  | failing job =>
      rw [ha] at hs
      cases hs
      exact ⟨rfl, rfl, rfl, rfl⟩
  | recorded job =>
      simp only [ha, completeJob, Option.some.injEq] at hs
      split at hs
      · next e' hl =>
          obtain ⟨batch, left, hb, hlatch, rfl⟩ := countDown?_eq_some hl
          cases hs
          exact ⟨rfl, rfl, rfl, rfl⟩
      · cases hs
        exact ⟨rfl, rfl, rfl, rfl⟩
  | leaving panicked => exact absurd ha (hne panicked)
  | ended panicked =>
      rw [ha] at hs
      cases hs

theorem conns_leave (hp : e.pools[i]? = some p) (hw : p.workers[k]? = some w) {panicked : Bool}
    (ha : w.activity = .leaving panicked) :
    total WorkerPool.conns e.pools =
      total WorkerPool.conns (e.leave b i p k w panicked).pools + {w.conn} := by
  have hset := WorkerPool.conns_setActivity (q := p.dropReceiver) hw rfl
    (.ended (panicked || (b.closePanic w.conn).isSome))
  have htotal := total_set WorkerPool.conns (p.dropReceiver.setActivity k
    (.ended (panicked || (b.closePanic w.conn).isSome))) hp
  rw [ha] at hset
  change _ + {w.conn} = p.conns + 0 at hset
  rw [add_zero] at hset
  rw [← hset, ← add_assoc, add_right_comm] at htotal
  exact (add_right_cancel htotal).symm

/-- A worker opens no connection, and it touches none that is kept outside. -/
theorem worker_frame (hs : e.step b (.act (.worker i k)) = some next) :
    next.connections = e.connections ∧ next.outside = e.outside ∧
      next.dialAttempts = e.dialAttempts := by
  obtain ⟨p, w, hp, hw, _⟩ := workerStep_move hs
  by_cases hleaving : ∃ panicked, w.activity = .leaving panicked
  · obtain ⟨panicked, ha⟩ := hleaving
    rw [step_of_leaving hp hw ha] at hs
    cases hs
    exact ⟨rfl, rfl, rfl⟩
  · exact (workerStep_connections hp hw (fun panicked ha => hleaving ⟨panicked, ha⟩) hs).2

theorem worker_handling (hs : e.step b (.act (.worker i k)) = some next) : Handling e next := by
  obtain ⟨p, w, hp, hw, hm⟩ := workerStep_move hs
  by_cases hleaving : ∃ panicked, w.activity = .leaving panicked
  · obtain ⟨panicked, ha⟩ := hleaving
    rw [step_of_leaving hp hw ha] at hs
    cases hs
    apply Handling.closes [w.conn]
    · exact (List.diff_cons e.opened [] w.conn).symm
    · rfl
    · unfold owned
      rw [conns_leave (b := b) hp hw ha, add_right_comm _ ({w.conn} : Multiset Nat),
        add_right_comm _ ({w.conn} : Multiset Nat)]
      rfl
  · have hne (panicked : Bool) : w.activity ≠ .leaving panicked := fun ha => hleaving ⟨panicked, ha⟩
    obtain ⟨hopened, hconnections, houtside, _⟩ := workerStep_connections hp hw hne hs
    have hconns : total WorkerPool.conns next.pools = total WorkerPool.conns e.pools :=
      hm.conns hp hw hne
    have hslot : next.slot = e.slot := congrArg (Option.bind · Driver.direct) hm.driver
    apply Handling.same hopened hconnections
    unfold owned
    rw [hconns, hslot, houtside]

end Workers

section Caller

theorem unconcerned_finish (e : Engine) (answer : Answer) : Unconcerned e (e.finish answer) :=
  ⟨rfl, rfl, rfl, rfl, rfl, rfl⟩

/-- What the caller does to the queue of a pool is no concern of the workers' connections. -/
theorem unconcerned_modify (e : Engine) (i : Nat) {f : WorkerPool → WorkerPool}
    (hf : ∀ p, (f p).workers = p.workers) : Unconcerned e { e with pools := e.pools.modify i f } :=
  ⟨rfl, rfl, WorkerPool.total_conns_modify hf e.pools i, rfl, rfl, rfl⟩

theorem closeDirect_handling (b : Backend) (e : Engine) (d : Driver) :
    (e.closeDirect b d).2.opened = e.opened.diff d.direct.toList ∧
      (e.closeDirect b d).2.connections = e.connections ∧
      total WorkerPool.conns (e.closeDirect b d).2.pools = total WorkerPool.conns e.pools ∧
      (e.closeDirect b d).2.outside = e.outside ∧
      (e.closeDirect b d).2.executions = e.executions := by
  unfold closeDirect
  cases hdirect : d.direct with
  | none => exact ⟨rfl, rfl, rfl, rfl, rfl⟩
  | some conn => exact ⟨(List.diff_cons e.opened [] conn).symm, rfl, rfl, rfl, rfl⟩

theorem slot_of_none (h : e.driver = none) : e.slot = none := by
  unfold slot
  rw [h]
  rfl

/-- A driver that is let go closes its own connection. -/
theorem Handling.lets (hd : e.driver = some d)
    (hopened : next.opened = e.opened.diff d.direct.toList)
    (hconnections : next.connections = e.connections)
    (hconns : total WorkerPool.conns next.pools = total WorkerPool.conns e.pools)
    (houtside : next.outside = e.outside) (hslot : next.slot = none) : Handling e next := by
  apply Handling.closes d.direct.toList hopened hconnections
  unfold owned
  rw [hconns, houtside, hslot, show e.slot = d.direct from congrArg (Option.bind · _) hd]
  simp only [Option.toList_none, Multiset.coe_nil, add_zero]
  exact add_right_comm _ _ _

/-- What a step of the caller does to connections, after which a driver that dials has none. What
it executes, it executes on the driver's. -/
structure Handles (e next : Engine) : Prop where
  handling : Handling e next
  undialed : next.Undialed
  executions : ∀ x ∈ next.executions, x ∈ e.executions ∨ e.slot = some x.conn

theorem undialed_of_progress (h : next.progress.dials = false) : next.Undialed := by
  intro hdials
  rw [h] at hdials
  cases hdials

/-- A step that executes nothing and after which the driver does not dial. -/
theorem Handling.handles (h : Handling e next) (hp : next.progress.dials = false)
    (hx : next.executions = e.executions) : Handles e next where
  handling := h
  undialed := undialed_of_progress hp
  executions _ hmem := .inl (hx ▸ hmem)

theorem Unconcerned.handles (h : Unconcerned e next) (hp : next.progress.dials = false) :
    Handles e next := h.handling.handles hp h.executions

/-- The same with what the caller is told and how its call goes on. -/
theorem Unconcerned.goes (h : Unconcerned e next) {progress : Progress}
    (hp : progress.dials = false) (notices : Array Notice) :
    Handles e { next with progress, notices } := by
  apply Unconcerned.handles
  · exact h.trans ⟨rfl, rfl, rfl, rfl, rfl, rfl⟩
  · exact hp

/-- What closing the connections that are kept outside leaves alone. -/
theorem closeOutside_eq (b : Backend) (e : Engine) : ∃ (answer : Answer) (after : Engine),
    e.closeOutside b = { after with outside := [] }.finish answer ∧
      after.opened = e.opened.diff e.outside ∧ after.connections = e.connections ∧
      after.pools = e.pools ∧ after.driver = e.driver ∧ after.executions = e.executions := by
  have hfold (conns : List Nat) (message : Option String) (e : Engine) :
      ∃ message' after, conns.foldl
          (fun r conn => (r.1.or (closeHeld b r.2 conn).1, (closeHeld b r.2 conn).2))
          (message, e) = (message', after) ∧ after.opened = e.opened.diff conns ∧
        after.connections = e.connections ∧ after.pools = e.pools ∧ after.driver = e.driver ∧
        after.executions = e.executions := by
    induction conns generalizing message e with
    | nil => exact ⟨message, e, rfl, rfl, rfl, rfl, rfl, rfl⟩
    | cons conn conns ih =>
        obtain ⟨message', after, hfold, hopened, hrest⟩ := ih (message.or (b.closePanic conn))
          (e.closeConnection conn)
        refine ⟨message', after, hfold, ?_, hrest⟩
        rw [hopened, List.diff_cons]
        rfl
  obtain ⟨message, after, hfold, hrest⟩ := hfold e.outside none e
  refine ⟨unlessPanicked message .ok, after, ?_, hrest⟩
  unfold closeOutside
  rw [hfold]

/-- Somebody outside closes all connections that are kept there. -/
theorem closeOutside_handles : Handles e (e.closeOutside b) := by
  obtain ⟨answer, after, hclose, hopened, hconnections, hpools, hdriver, hexecutions⟩ :=
    closeOutside_eq b e
  rw [hclose]
  apply Handling.handles
  · refine Handling.closes e.outside hopened hconnections ?_
    unfold owned
    change _ = total WorkerPool.conns after.pools + after.slot.toList + 0 + _
    rw [hpools, show after.slot = e.slot from congrArg (Option.bind · _) hdriver, add_zero]
  · rfl
  · exact hexecutions

theorem openPool_unconcerned (workers capacity : Nat) (split : Bool) :
    Unconcerned e (e.openPool workers capacity split) := by
  refine ⟨rfl, rfl, ?_, rfl, rfl, ?_⟩
  · exact (total_push _ _ _).trans (add_zero _)
  · unfold openPool
    rfl

theorem beginShutdown_handles (hd : e.driver = some d) : Handles e (e.beginShutdown b d) := by
  obtain ⟨hopened, hconnections, hconns, houtside, hexecutions⟩ :=
    closeDirect_handling b { e with driver := none } d
  have hdriver : (closeDirect b { e with driver := none } d).2.driver = none := by
    unfold closeDirect
    split <;> rfl
  unfold beginShutdown
  simp only
  split
  all_goals
    refine Handling.handles ?_ rfl hexecutions
    refine Handling.lets hd hopened hconnections ?_ houtside (slot_of_none hdriver)
    exact (WorkerPool.total_conns_modify (f := .close) (fun _ => rfl) _ _).trans hconns

theorem dropDriver_handles (hd : e.driver = some d) (answer : Answer) :
    Handles e (({ e with driver := none }.dropDriver b d).2.finish answer) := by
  obtain ⟨hopened, hconnections, hconns, houtside, hexecutions⟩ :=
    closeDirect_handling b { e with driver := none, pools := e.pools.modify d.pool .close } d
  have hdriver : ({ e with driver := none }.dropDriver b d).2.driver = none := by
    unfold dropDriver closeDirect
    split <;> rfl
  refine Handling.handles ?_ rfl hexecutions
  refine Handling.lets hd hopened hconnections ?_ houtside (slot_of_none hdriver)
  exact hconns.trans (WorkerPool.total_conns_modify (f := .close) (fun _ => rfl) _ _)

theorem begin_handles (request : Request) : Handles e (e.begin b request) := by
  have hfinish (answer : Answer) : Handles e (e.finish answer) :=
    (unconcerned_finish e answer).handles rfl
  have hprogress {progress : Progress} (h : progress.dials = false) :
      Handles e { e with progress } := Unconcerned.handles ⟨rfl, rfl, rfl, rfl, rfl, rfl⟩ h
  cases request with
  | start workers capacity split =>
      simp only [begin, beginStart]
      split
      · exact hfinish _
      · split
        · exact hfinish _
        · split
          · exact hfinish _
          · split
            · exact hfinish _
            · exact (openPool_unconcerned workers capacity split).handles rfl
  | plan phases =>
      simp only [begin]
      split
      · exact hprogress rfl
      · exact hfinish _
  | submit command latch times =>
      simp only [begin]
      split
      · exact hfinish _
      · split
        · exact hprogress rfl
        · exact hfinish _
  | watch latch =>
      simp only [begin]
      split
      · exact hprogress rfl
      · exact hfinish _
  | acquire =>
      simp only [begin]
      split
      · exact hprogress rfl
      · exact hfinish _
  | shutdown =>
      simp only [begin]
      split
      · next hd => exact beginShutdown_handles hd
      · exact hfinish _
  | drop =>
      simp only [begin]
      split
      · next hd => exact dropDriver_handles hd _
      · exact hfinish _
  | closeOutside => exact closeOutside_handles

/-- A dial opens the next connection, or no connection is concerned. -/
theorem DialMove.opens {dialed : Dialed} (h : DialMove e dialed next) :
    (dialed = .connected e.connections ∧ next.opened = e.opened ++ [e.connections] ∧
        next.connections = e.connections + 1 ∧ next.pools = e.pools ∧ next.slot = e.slot ∧
        next.outside = e.outside ∧ next.executions = e.executions) ∨
      (∀ conn, dialed ≠ .connected conn) ∧ Unconcerned e next := by
  cases h with
  | connects attempts attempt gate => exact .inl ⟨rfl, rfl, rfl, rfl, rfl, rfl, rfl⟩
  | fails attempts attempt hd =>
      refine .inr ⟨?_, rfl, rfl, rfl, rfl, rfl, rfl⟩
      rintro conn rfl
      rcases hd with ⟨fault, hd⟩ | ⟨message, hd⟩ <;> cases hd
  | parks attempts gate => exact .inr ⟨nofun, rfl, rfl, rfl, rfl, rfl, rfl⟩

theorem completeStart_handles {pool : Nat} {split : Bool} (hp : e.pools[pool]? = some p) :
    Handles e (e.completeStart b pool p split) := by
  have hconns : total WorkerPool.conns (e.pools.set! pool p.dropReceiver) =
      total WorkerPool.conns e.pools :=
    WorkerPool.total_conns_set hp (WorkerPool.conns_congr rfl)
  unfold completeStart
  simp only
  split
  · next d hd =>
    obtain ⟨hopened, hconnections, hconns', houtside, hexecutions⟩ := closeDirect_handling b
      { ((e.setPool pool p.dropReceiver).tell (.started p.workers.size p.queue.capacity)) with
        pools := (e.pools.set! pool p.dropReceiver).modify d.pool .close } d
    refine Handling.handles ?_ rfl hexecutions
    refine Handling.lets hd hopened hconnections (hconns'.trans ?_) houtside rfl
    exact (WorkerPool.total_conns_modify (f := .close) (fun _ => rfl) _ _).trans hconns
  · next hd =>
    apply Unconcerned.handles
    · exact ⟨rfl, rfl, hconns, (slot_of_none hd).symm, rfl, rfl⟩
    · rfl

theorem startStep_handles {pool workers : Nat} {split stalled : Bool}
    (hs : e.startStep b pool workers split stalled = some next) : Handles e next := by
  simp only [startStep, Option.bind_eq_bind, Option.bind_eq_some_iff] at hs
  obtain ⟨p, hp, hs⟩ := hs
  split at hs
  · cases hs
    exact completeStart_handles hp
  · simp only [Option.bind_eq_some_iff] at hs
    obtain ⟨⟨dialed, e'⟩, hdial, hs⟩ := hs
    rcases (dialStep_cases hdial).opens with
      ⟨rfl, hopened, hconnections, hpools, hslot, houtside, hexecutions⟩ | ⟨hne, hunconcerned⟩
    · cases hs
      refine Handling.handles (.opens hopened hconnections ?_) rfl hexecutions
      apply owned_spawn
      · rw [← hpools] at hp ⊢
        exact WorkerPool.total_conns_spawn hp _
      · exact hslot
      · exact houtside
    · have habandons : Unconcerned e (e'.abandonPool pool) := by
        apply hunconcerned.trans
        exact unconcerned_modify e' pool (f := fun p => p.close.dropReceiver) fun _ => rfl
      cases dialed with
      | connected conn => exact absurd rfl (hne conn)
      | parked =>
          cases hs
          exact hunconcerned.goes rfl _
      | failed fault | panicked message =>
          cases hs
          exact habandons.goes rfl _

theorem acquireStep_handles {stalled : Bool} (hs : e.acquireStep b d stalled = some next) :
    Handles e next := by
  simp only [acquireStep, Option.bind_eq_bind, Option.bind_eq_some_iff] at hs
  obtain ⟨⟨dialed, e'⟩, hdial, hs⟩ := hs
  rcases (dialStep_cases hdial).opens with
    ⟨rfl, hopened, hconnections, hpools, hslot, houtside, hexecutions⟩ | ⟨hne, hunconcerned⟩
  · cases hs
    refine Handling.handles (.opens hopened hconnections ?_) rfl hexecutions
    apply owned_outside
    · rw [← hpools]
      exact WorkerPool.total_conns_modify (f := fun p => { p with dialed := p.dialed + 1 })
        (fun _ => rfl) _ _
    · exact hslot
    · exact congrArg (· ++ [e.connections]) houtside
  · cases dialed with
    | connected conn => exact absurd rfl (hne conn)
    | parked | failed fault | panicked message =>
        cases hs
        exact hunconcerned.goes rfl _

theorem putQueue_unconcerned (pool : Nat) (queue : JobQueue Job Unit Nat) :
    Unconcerned e (e.putQueue pool queue) :=
  unconcerned_modify e pool fun _ => rfl

theorem submitStep_handles {s : Submission} (hr : e.progress = .submitting s)
    (hs : e.submitStep d s = some next) : Handles e next := by
  have hput (queue : JobQueue Job Unit Nat) :
      total WorkerPool.conns (e.pools.modify d.pool fun p => { p with queue }) =
        total WorkerPool.conns e.pools :=
    WorkerPool.total_conns_modify (f := fun p => { p with queue }) (fun _ => rfl) _ _
  simp only [submitStep, Option.bind_eq_bind, Option.bind_eq_some_iff] at hs
  obtain ⟨p, hp, hs⟩ := hs
  split at hs
  · split at hs
    · cases hs
    · cases hs
      split
      · exact Unconcerned.handles ⟨rfl, rfl, hput _, rfl, rfl, rfl⟩ rfl
      · exact Unconcerned.handles ⟨rfl, rfl, hput _, rfl, rfl, rfl⟩ (congrArg Progress.dials hr)
      · exact Unconcerned.handles ⟨rfl, rfl, hput _, rfl, rfl, rfl⟩ rfl
  · split at hs
    · cases hs
      exact (unconcerned_finish e _).handles rfl
    · cases hs
      split
      · exact Unconcerned.handles ⟨rfl, rfl, hput _, rfl, rfl, rfl⟩ rfl
      · exact Unconcerned.handles ⟨rfl, rfl, hput _, rfl, rfl, rfl⟩ rfl
      · exact Unconcerned.handles ⟨rfl, rfl, hput _, rfl, rfl, rfl⟩ rfl

theorem slot_of_driver (hd : e.driver = some d) : e.slot = d.direct := by
  unfold slot
  rw [hd]
  rfl

theorem beginPhase_handles {phase : Phase} {todo : List Phase} {reports : List PhaseCount}
    (hd : e.driver = some d) : Handles e (e.beginPhase d phase todo reports) := by
  unfold beginPhase
  simp only
  split
  · exact Unconcerned.handles ⟨rfl, rfl, rfl, rfl, rfl, rfl⟩ rfl
  · split
    · exact Unconcerned.handles ⟨rfl, rfl, rfl, rfl, rfl, rfl⟩ rfl
    · next hdirect =>
      refine ⟨.same rfl rfl rfl, fun _ => ?_, fun _ => .inl⟩
      exact (slot_of_driver hd).trans hdirect

section Phases

variable {run : PhaseRun} {todo : List Phase} {reports : List PhaseCount} {turn : Turn}
  {phase : Phase} {point : Point}

/-- What a step of a phase does to connections, after which a driver that is going to dial has
none. -/
structure Takes (e : Engine) (turn : Turn) (next : Engine) : Prop where
  handling : Handling e next
  undialed : turn = .to .connecting ∨ turn = .to .dialing → next.slot = none
  executions : ∀ x ∈ next.executions, x ∈ e.executions ∨ e.slot = some x.conn

theorem Unconcerned.takes (h : Unconcerned e next)
    (hturn : turn ≠ .to .connecting ∧ turn ≠ .to .dialing) : Takes e turn next where
  handling := h.handling
  undialed hto := absurd hto (not_or.mpr hturn)
  executions _ hmem := .inl (h.executions ▸ hmem)

/-- How a call goes on after a step of a phase is no concern of connections. -/
theorem Takes.goOn (h : Takes e turn next) :
    Handles e (next.goOn run todo reports turn) := by
  have hexecutions (x : Execution)
      (hx : x ∈ (next.goOn run todo reports turn).executions) :
      x ∈ e.executions ∨ e.slot = some x.conn := by
    rw [executions_goOn] at hx
    exact h.executions x hx
  refine ⟨?_, ?_, hexecutions⟩
  · apply h.handling.frame
    cases turn <;> exact ⟨rfl, rfl, rfl, rfl, rfl, rfl⟩
  · cases turn with
    | «to» point =>
        intro hdials
        cases point with
        | connecting => exact h.undialed (.inl rfl)
        | dialing => exact h.undialed (.inr rfl)
        | _ => cases hdials
    | _ => exact undialed_of_progress rfl

theorem PooledMove.takes (h : PooledMove e d phase point turn next) : Takes e turn next := by
  cases h with
  | accepts hpoint hp hq | parks hp hq => exact (putQueue_unconcerned _ _).takes ⟨nofun, nofun⟩
  | drops hpoint hp hq =>
      apply Unconcerned.takes
      · exact (putQueue_unconcerned _ _).trans ⟨rfl, rfl, rfl, rfl, rfl, rfl⟩
      · exact ⟨nofun, nofun⟩
  | _ => exact Unconcerned.takes ⟨rfl, rfl, rfl, rfl, rfl, rfl⟩ ⟨nofun, nofun⟩

/-- A phase that dials gets a connection for a driver that has none. -/
theorem DialMove.takes {dialed : Dialed} {mid : Engine} (hdial : DialMove e dialed mid)
    (hslot : e.slot = none) (ht : mid.directDialed d dialed = (turn, next)) :
    Takes e turn next := by
  rcases hdial.opens with
    ⟨rfl, hopened, hconnections, hpools, _, houtside, hexecutions⟩ | ⟨hne, hunconcerned⟩
  · cases ht
    refine ⟨.opens hopened hconnections ?_, nofun, fun _ hmem => .inl (hexecutions ▸ hmem)⟩
    apply owned_slot
    · rw [← hpools]
      exact WorkerPool.total_conns_modify (f := fun p => { p with dialed := p.dialed + 1 })
        (fun _ => rfl) _ _
    · exact hslot
    · rfl
    · exact houtside
  · cases dialed with
    | connected conn => exact absurd rfl (hne conn)
    | parked =>
        cases ht
        exact ⟨hunconcerned.handling, fun _ => hunconcerned.slot.trans hslot,
          fun _ hmem => .inl (hunconcerned.executions ▸ hmem)⟩
    | failed fault | panicked message =>
        cases ht
        exact hunconcerned.takes ⟨nofun, nofun⟩

theorem DirectMove.takes (h : DirectMove b e d phase point turn next) (hd : e.driver = some d)
    (hslot : point = .connecting ∨ point = .dialing → e.slot = none) : Takes e turn next := by
  cases h with
  | dials hp hdial ht => exact hdial.takes (hslot hp) ht
  | @begins run index conn command _ hdirect ht =>
      have hhandling : Handling e (e.beginExecution b conn command (.direct run index)).2 :=
        .same rfl rfl rfl
      refine ⟨hhandling, ?_, ?_⟩
      · rintro (rfl | rfl) <;> rcases ht with ⟨conduct, ht⟩ | ⟨message, ht⟩ <;> cases ht
      · intro x hmem
        rcases Array.mem_push.mp hmem with hold | rfl
        · exact .inl hold
        · exact .inr ((slot_of_driver hd).trans hdirect)
  | finishes fault gate hp =>
      apply Unconcerned.takes
      · cases fault with
        | none => exact ⟨rfl, rfl, rfl, rfl, rfl, rfl⟩
        | some fault => exact ⟨rfl, rfl, rfl, rfl, rfl, rfl⟩
      · exact ⟨nofun, nofun⟩
  | _ => exact Unconcerned.takes ⟨rfl, rfl, rfl, rfl, rfl, rfl⟩ ⟨nofun, nofun⟩

theorem phase_handles (hundialed : e.Undialed) (hd : e.driver = some d)
    (hr : e.progress = .running run todo reports)
    (hs : e.phaseTurn b d run = some (turn, next)) :
    Handles e (next.goOn run todo reports turn) := by
  apply Takes.goOn
  cases hm : run.phase.mode with
  | pooled =>
      simp only [phaseTurn, hm] at hs
      exact (pooledStep_cases hs).takes
  | direct =>
      simp only [phaseTurn, hm] at hs
      apply (directStep_cases hs).takes hd
      intro hpoint
      apply hundialed
      rw [hr]
      obtain ⟨phase, before, point⟩ := run
      rcases hpoint with rfl | rfl
      · rfl
      · rfl

end Phases

theorem callerStep_handles (hundialed : e.Undialed) (hs : e.callerStep b = some next) :
    Handles e next := by
  cases callerStep_cases hs with
  | starts hr hs => exact startStep_handles hs
  | reports hr hn | watches hr _ hn =>
      rw [hn]
      exact (unconcerned_finish e _).handles rfl
  | begins hd hr hn =>
      rw [hn]
      exact beginPhase_handles hd
  | @enters _ phase executed entry todo reports hd hr hn =>
      rw [hn]
      refine ⟨.same rfl rfl rfl, fun hdials => ?_, fun _ => .inl⟩
      apply hundialed
      rw [hr]
      cases entry with
      | undialed => rfl
      | _ => cases hdials
  | leaves hd hr hn =>
      rw [hn]
      exact Unconcerned.handles ⟨rfl, rfl, rfl, rfl, rfl, rfl⟩ rfl
  | completes hd hr hn =>
      rw [hn]
      unfold completePhase
      simp only
      split <;> exact Unconcerned.handles ⟨rfl, rfl, rfl, rfl, rfl, rfl⟩ rfl
  | runs hd hr hs =>
      rw [phaseStep_eq, Option.map_eq_some_iff] at hs
      obtain ⟨⟨turn, mid⟩, hturn, rfl⟩ := hs
      exact phase_handles hundialed hd hr hturn
  | submits hd hr hs => exact submitStep_handles hr hs
  | acquires hd hr hs => exact acquireStep_handles hs
  | joins hr _ _ hn =>
      rw [hn]
      exact Unconcerned.handles ⟨rfl, rfl, rfl, rfl, rfl, rfl⟩ rfl

theorem withdrawJob_unconcerned (job : Job) : Unconcerned e (e.withdrawJob job) := by
  unfold withdrawJob
  simp only
  split
  · next d hd =>
    have hunconcerned := unconcerned_modify e d.pool
      (f := fun p => { p with queue := p.queue.withdrawOffer () }) fun _ => rfl
    exact hunconcerned.trans ⟨rfl, rfl, rfl, rfl, rfl, rfl⟩
  · exact ⟨rfl, rfl, rfl, rfl, rfl, rfl⟩

theorem cancelPoint_unconcerned {point : Point} (hs : e.cancelPoint point = some next) :
    Unconcerned e next := by
  cases point with
  | offering latch index job =>
      cases hs
      exact ⟨rfl, rfl, rfl, rfl, rfl, rfl⟩
  | waiting latch index job =>
      cases hs
      exact withdrawJob_unconcerned job
  | awaiting latch | dialing | stalled run index fault =>
      cases hs
      exact ⟨rfl, rfl, rfl, rfl, rfl, rfl⟩
  | _ => cases hs

theorem cancel_handles (hs : e.cancel = some next) : Handles e next := by
  have hfinish (mid : Engine) (h : Unconcerned e mid) (answer : Answer) :
      Handles e (mid.finish answer) := (h.trans (unconcerned_finish mid answer)).handles rfl
  cases hr : e.progress with
  | running run todo reports =>
      simp only [cancel, hr, Option.map_eq_some_iff] at hs
      obtain ⟨mid, hs, rfl⟩ := hs
      exact hfinish mid (cancelPoint_unconcerned hs) _
  | submitting s =>
      simp only [cancel, hr, Option.some.injEq] at hs
      cases hs
      apply hfinish
      split
      · exact withdrawJob_unconcerned _
      · exact ⟨rfl, rfl, rfl, rfl, rfl, rfl⟩
  | starting pool workers split stalled =>
      cases stalled with
      | false => simp [cancel, hr] at hs
      | true =>
          simp only [cancel, hr, Option.some.injEq] at hs
          cases hs
          have hleaves : Unconcerned e e.leaveGate := ⟨rfl, rfl, rfl, rfl, rfl, rfl⟩
          apply hfinish (e.leaveGate.abandonPool pool)
          apply hleaves.trans
          exact unconcerned_modify e.leaveGate pool (f := fun p => p.close.dropReceiver)
            fun _ => rfl
  | acquiring stalled =>
      cases stalled with
      | false => simp [cancel, hr] at hs
      | true =>
          simp only [cancel, hr, Option.some.injEq] at hs
          cases hs
          exact hfinish e.leaveGate ⟨rfl, rfl, rfl, rfl, rfl, rfl⟩ _
  | watching latch | joining pool =>
      simp only [cancel, hr, Option.some.injEq] at hs
      cases hs
      exact hfinish e ⟨rfl, rfl, rfl, rfl, rfl, rfl⟩ _
  | _ => simp [cancel, hr] at hs

/-- What a step of the caller's does to connections. -/
theorem step_handles (hundialed : e.Undialed) (hs : e.step b label = some next)
    (hl : label.ofCaller = true) : Handles e next := by
  cases label with
  | act actor =>
      cases actor with
      | caller => exact callerStep_handles hundialed hs
      | worker i k => cases hl
  | call request =>
      simp only [step, Option.ite_none_right_eq_some, Option.some.injEq] at hs
      obtain ⟨_, rfl⟩ := hs
      exact begin_handles request
  | cancel => exact cancel_handles hs
  | release permits | newLatch jobs => cases hl

end Caller

section Reachable

theorem step_handling (hundialed : e.Undialed) (hs : e.step b label = some next) :
    Handling e next ∧ next.Undialed := by
  cases hl : label.ofCaller with
  | true =>
      have hhandles := step_handles hundialed hs hl
      exact ⟨hhandles.handling, hhandles.undialed⟩
  | false =>
      constructor
      · cases label with
        | act actor =>
            cases actor with
            | caller => cases hl
            | worker i k => exact worker_handling hs
        | call request | cancel => cases hl
        | release permits | newLatch jobs =>
            cases hs
            exact .same rfl rfl rfl
      · obtain ⟨hprogress, _, hdriver⟩ := step_of_others hs hl
        unfold Undialed slot
        rw [hprogress, hdriver]
        exact hundialed

theorem Handling.le (h : Handling e next) : e.connections ≤ next.connections := by
  cases h with
  | opens opened connections owned => omega
  | closes conns opened connections owned => omega

/-- A connection that is open after a step was open before, or it is a new one. -/
theorem Handling.opened (h : Handling e next) {conn : Nat} (hc : conn ∈ next.opened) :
    conn ∈ e.opened ∨ conn = e.connections ∧ next.connections = e.connections + 1 := by
  cases h with
  | opens opened connections owned =>
      rw [opened] at hc
      rcases List.mem_append.mp hc with hold | hnew
      · exact .inl hold
      · exact .inr ⟨List.mem_singleton.mp hnew, connections⟩
  | closes conns opened connections owned =>
      rw [opened] at hc
      exact .inl ((List.diff_subset e.opened conns) hc)

theorem Owned.step (h : Owned e) (hs : e.step b label = some next) : Owned next := by
  obtain ⟨hhandling, hundialed⟩ := step_handling h.undialed hs
  have hdialed (conn : Nat) (hc : conn ∈ next.opened) : conn < next.connections := by
    have hle := hhandling.le
    rcases hhandling.opened hc with hold | ⟨rfl, hnext⟩
    · have hlt := h.dialed conn hold
      omega
    · omega
  cases hhandling with
  | opens opened connections owned =>
      refine ⟨?_, ?_, hdialed, hundialed⟩
      · rw [opened, owned, ← h.opened]
        rfl
      · rw [opened, List.nodup_append]
        refine ⟨h.once, List.nodup_singleton _, ?_⟩
        intro conn hc conn' hc'
        have hlt := h.dialed conn hc
        rw [List.mem_singleton.mp hc']
        omega
  | closes conns opened connections owned =>
      refine ⟨?_, ?_, hdialed, hundialed⟩
      · rw [opened, ← Multiset.coe_sub, h.opened, owned]
        exact add_tsub_cancel_right _ _
      · rw [opened]
        exact h.once.diff

theorem owned_of_reachable (h : Reachable b e) : Owned e := by
  induction h with
  | start => exact ⟨rfl, List.nodup_nil, nofun, fun _ => rfl⟩
  | step label _ hs ih => exact ih.step hs

end Reachable

end Engine

end LoadBench
