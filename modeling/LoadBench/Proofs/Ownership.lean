import LoadBench.Proofs.InPhase

/-!
The owner of a connection. An open connection has exactly one: a worker that has not ended, the
driver for its direct phases, or somebody outside. A connection never changes hands, since only a
new one is ever given to anybody.

An owner executes one command at a time on its connection, and somebody outside executes nothing. So
no connection is used twice at a time, and no more executions are in flight than there are live
workers, and one of a direct phase.
-/

namespace LoadBench

/-- Who may have a connection. Somebody outside has it at a place among those kept there. -/
inductive Owner where
  | worker (pool number : Nat)
  | direct
  | outside (place : Nat)
deriving DecidableEq, Repr

/-- Whether a call executes a command of a direct phase, which may wait for a permit. -/
def Progress.executes : Progress → Bool
  | .running { point := .executing _ _ _, .. } _ _ => true
  | .running { point := .stalled _ _ _, .. } _ _ => true
  | _ => false

section Total

variable {α β : Type} {worth worth' : α → Multiset β} {xs : Array α}

theorem mem_total {y : β} :
    y ∈ total worth xs ↔ ∃ (i : Nat) (x : α), xs[i]? = some x ∧ y ∈ worth x := by
  have hlist (l : List α) : y ∈ (l.map worth).sum ↔ ∃ x ∈ l, y ∈ worth x := by
    induction l with
    | nil => simp
    | cons x l ih => simp [ih]
  rw [total, hlist]
  constructor
  · rintro ⟨x, hx, hy⟩
    obtain ⟨i, hi⟩ := Array.mem_iff_getElem?.mp (Array.mem_toList_iff.mp hx)
    exact ⟨i, x, hi, hy⟩
  · rintro ⟨i, x, hi, hy⟩
    exact ⟨x, Array.mem_toList_iff.mpr (Array.mem_of_getElem? hi), hy⟩

theorem total_le_total (h : ∀ x, worth x ≤ worth' x) : total worth xs ≤ total worth' xs :=
  List.sum_le_sum fun x _ => h x

theorem card_total : (total worth xs).card = total (fun x => (worth x).card) xs := by
  rw [total, total]
  induction xs.toList with
  | nil => rfl
  | cons x l ih => simp only [List.map_cons, List.sum_cons, Multiset.card_add, ih]

end Total

namespace WorkerPool

/-- The connections on which the workers of a pool have an execution in flight. -/
def busy (p : WorkerPool) : Multiset Nat :=
  total (fun w => if w.activity.inFlight then {w.conn} else 0) p.workers

theorem busy_le_conns (p : WorkerPool) : p.busy ≤ p.conns := by
  refine total_le_total fun w => ?_
  cases ha : w.activity <;> simp [Activity.inFlight, Activity.hasEnded]

theorem card_busy (p : WorkerPool) : p.busy.card = p.inFlight := by
  rw [busy, card_total, inFlight, ← Array.countP_toList, total]
  induction p.workers.toList with
  | nil => rfl
  | cons w workers ih =>
      rw [List.map_cons, List.sum_cons, ih, List.countP_cons, Nat.add_comm]
      cases w.activity.inFlight <;> rfl

end WorkerPool

namespace Engine

/-- Whether somebody has a connection. A worker has its own until it has ended. -/
def Owns (e : Engine) (conn : Nat) : Owner → Prop
  | .worker i k => ∃ w, e.worker? i k = some w ∧ w.conn = conn ∧ w.activity.hasEnded = false
  | .direct => e.slot = some conn
  | .outside place => e.outside[place]? = some conn

/-- The connections on which an execution is in flight. -/
def busy (e : Engine) : Multiset Nat :=
  total WorkerPool.busy e.pools + if e.progress.executes then (e.slot.toList : Multiset Nat) else 0

/-- How many workers there are that go on taking jobs. -/
def liveWorkers (e : Engine) : Nat := total WorkerPool.live e.pools

variable {b : Backend} {e next : Engine} {label : Label} {conn : Nat} {owner owner' : Owner}

section Owners

theorem mem_conns : conn ∈ total WorkerPool.conns e.pools ↔ ∃ i k, e.Owns conn (.worker i k) := by
  rw [mem_total]
  constructor
  · rintro ⟨i, p, hp, hconn⟩
    obtain ⟨k, w, hw, hconn⟩ := mem_total.mp hconn
    cases hended : w.activity.hasEnded with
    | true => simp [hended] at hconn
    | false =>
        rw [hended, if_neg Bool.false_ne_true, Multiset.mem_singleton] at hconn
        exact ⟨i, k, w, worker?_eq_some.mpr ⟨p, hp, hw⟩, hconn.symm, hended⟩
  · rintro ⟨i, k, w, hw, rfl, hended⟩
    obtain ⟨p, hp, hw⟩ := worker?_eq_some.mp hw
    refine ⟨i, p, hp, mem_total.mpr ⟨k, w, hw, ?_⟩⟩
    rw [hended, if_neg Bool.false_ne_true, Multiset.mem_singleton]

/-- The connections that somebody has are those that have an owner. -/
theorem mem_owned : conn ∈ e.owned ↔ ∃ owner, e.Owns conn owner := by
  rw [owned, Multiset.mem_add, Multiset.mem_add, mem_conns, Multiset.mem_coe, Multiset.mem_coe,
    Option.mem_toList, List.mem_iff_getElem?]
  constructor
  · rintro ((⟨i, k, hw⟩ | hslot) | ⟨place, hplace⟩)
    · exact ⟨.worker i k, hw⟩
    · exact ⟨.direct, hslot⟩
    · exact ⟨.outside place, hplace⟩
  · rintro ⟨owner, howns⟩
    cases owner with
    | worker i k => exact .inl (.inl ⟨i, k, howns⟩)
    | direct => exact .inl (.inr howns)
    | outside place => exact .inr ⟨place, howns⟩

theorem mem_opened (h : Reachable b e) : conn ∈ e.opened ↔ ∃ owner, e.Owns conn owner := by
  rw [← mem_owned, ← (owned_of_reachable h).opened, Multiset.mem_coe]

/-- Nobody has a connection that somebody else has. -/
theorem owner_unique (h : Reachable b e) (ho : e.Owns conn owner) (ho' : e.Owns conn owner') :
    owner = owner' := by
  have hnodup : e.owned.Nodup := by
    rw [← (owned_of_reachable h).opened]
    exact (owned_of_reachable h).once
  obtain ⟨hinside, hplaces, hapart⟩ := Multiset.nodup_add.mp hnodup
  have houtside {place : Nat} (hplace : e.outside[place]? = some conn)
      (hmem : conn ∈ total WorkerPool.conns e.pools + (e.slot.toList : Multiset Nat)) : False :=
    Multiset.disjoint_left.mp hapart hmem (List.mem_of_getElem? hplace)
  have hworker {i k : Nat} (hw : e.Owns conn (.worker i k)) :
      conn ∈ total WorkerPool.conns e.pools + (e.slot.toList : Multiset Nat) :=
    Multiset.mem_add.mpr (.inl (mem_conns.mpr ⟨i, k, hw⟩))
  have hdirect (hslot : e.Owns conn .direct) :
      conn ∈ total WorkerPool.conns e.pools + (e.slot.toList : Multiset Nat) :=
    Multiset.mem_add.mpr (.inr (Multiset.mem_coe.mpr (Option.mem_toList.mpr hslot)))
  cases owner with
  | worker i k =>
      cases owner' with
      | worker j l =>
          obtain ⟨w, hw, hconn, _⟩ := ho
          obtain ⟨w', hw', hconn', _⟩ := ho'
          obtain ⟨rfl, rfl⟩ := (numbered_of_reachable h).apart i k j l w w' hw hw'
            (hconn.trans hconn'.symm)
          rfl
      | direct =>
          obtain ⟨w, hw, hconn, _⟩ := ho
          exact absurd hconn (conn_ne_slot h hw ho')
      | outside place => exact (houtside ho' (hworker ho)).elim
  | direct =>
      cases owner' with
      | worker j l =>
          obtain ⟨w, hw, hconn, _⟩ := ho'
          exact absurd hconn (conn_ne_slot h hw ho)
      | direct => rfl
      | outside place => exact (houtside ho' (hdirect ho)).elim
  | outside place =>
      cases owner' with
      | worker j l => exact (houtside ho (hworker ho')).elim
      | direct => exact (houtside ho (hdirect ho')).elim
      | outside place' =>
          obtain ⟨hlt, _⟩ := List.getElem?_eq_some_iff.mp ho
          rw [(List.getElem?_inj hlt (Multiset.coe_nodup.mp hplaces)).mp (ho.trans ho'.symm)]

/-- A connection that is open was opened by some dial before. -/
theorem lt_of_owns (h : Reachable b e) (ho : e.Owns conn owner) : conn < e.connections :=
  (owned_of_reachable h).dialed conn ((mem_opened h).mpr ⟨owner, ho⟩)

/-- A driver gets a connection for its direct phases only by a dial. -/
theorem slot_of_step (h : Reachable b e) (hs : e.step b label = some next)
    (hslot : next.slot = some conn) : e.slot = some conn ∨ conn = e.connections := by
  obtain ⟨d, hd, hdirect⟩ := Option.bind_eq_some_iff.mp hslot
  cases step_deals h hs with
  | nothing hundealt =>
      rcases hundealt.driver d hd with hold | ⟨hnone, _⟩
      · exact .inl ((slot_of_driver hold).trans hdirect)
      · rw [hnone] at hdirect
        cases hdirect
  | @connection i who hdealt =>
      have hnext := hdealt.driver.symm.trans hd
      cases who with
      | worker | outside => exact .inl ((slot_of_driver hnext).trans hdirect)
      | direct =>
          obtain ⟨d', _, rfl⟩ := Option.map_eq_some_iff.mp hnext
          exact .inr (Option.some.inj hdirect).symm

/-- Outside, connections are added at the end, until all of them are closed. -/
theorem outside_of_step {place : Nat} (h : Reachable b e) (hs : e.step b label = some next)
    (hplace : next.outside[place]? = some conn) :
    e.outside[place]? = some conn ∨ conn = e.connections := by
  cases step_deals h hs with
  | nothing hundealt =>
      rcases hundealt.outside with hsame | hnone
      · rw [hsame] at hplace
        exact .inl hplace
      · rw [hnone] at hplace
        cases hplace
  | @connection i who hdealt =>
      rw [hdealt.outside] at hplace
      cases who with
      | worker | direct => exact .inl hplace
      | outside =>
          change (e.outside ++ [e.connections])[place]? = some conn at hplace
          rw [List.getElem?_append] at hplace
          split at hplace
          · exact .inl hplace
          · exact .inr (List.mem_singleton.mp (List.mem_of_getElem? hplace))

/-- Whoever has a connection after a step had it before, or it is the next one that was opened. -/
theorem step_owns (h : Reachable b e) (hs : e.step b label = some next)
    (ho : next.Owns conn owner) : e.Owns conn owner ∨ conn = e.connections := by
  cases owner with
  | worker i k =>
      obtain ⟨w', hw', rfl, hended⟩ := ho
      rcases step_conn h hs hw' with ⟨w, hw, hconn⟩ | ⟨_, _, hconn, _⟩
      · obtain ⟨hhandling, _⟩ := step_handling (owned_of_reachable h).undialed hs
        rcases hhandling.opened ((mem_opened_iff (h.step label hs) hw').mpr hended) with
          hopen | ⟨hnew, _⟩
        · rw [← hconn, mem_opened_iff h hw] at hopen
          exact .inl ⟨w, hw, hconn, hopen⟩
        · exact .inr hnew
      · exact .inr hconn
  | direct => exact slot_of_step h hs ho
  | outside place => exact outside_of_step h hs ho

end Owners

section Busy

/-- A phase executes a command only on the driver's connection. -/
theorem slot_of_executes (h : Reachable b e) (hexecutes : e.progress.executes = true) :
    ∃ conn, e.slot = some conn := by
  obtain ⟨phase, before, point, todo, reports, hr, hlatch, hpoint⟩ : ∃ phase before point todo
      reports, e.progress = .running ⟨phase, before, point⟩ todo reports ∧ point.latch? = none ∧
        point ≠ .connecting ∧ point ≠ .dialing := by
    unfold Progress.executes at hexecutes
    split at hexecutes
    · next hr => exact ⟨_, _, _, _, _, hr, rfl, nofun, nofun⟩
    · next hr => exact ⟨_, _, _, _, _, hr, rfl, nofun, nofun⟩
    · cases hexecutes
  have hm := direct_of_point h hr hlatch
  obtain ⟨_, conn, _, _, _, _, hslot⟩ := exists_inHand h hr hm hpoint
  exact ⟨conn, hslot⟩

theorem busy_le_owned : e.busy ≤ e.owned := by
  unfold busy owned
  rw [add_assoc]
  refine add_le_add (total_le_total WorkerPool.busy_le_conns) ?_
  split
  · exact Multiset.le_add_right _ _
  · exact Multiset.zero_le _

/-- No connection is used by two executions at a time. -/
theorem nodup_busy (h : Reachable b e) : e.busy.Nodup := by
  refine Multiset.nodup_of_le busy_le_owned ?_
  rw [← (owned_of_reachable h).opened]
  exact (owned_of_reachable h).once

/-- An execution begins only on a connection on which none is in flight. -/
theorem not_busy_of_begins {x : Execution} (h : Reachable b e) (hx : Begins b e label x) :
    x.conn ∉ e.busy := by
  have hworkers (hmem : x.conn ∈ total WorkerPool.busy e.pools) : ∃ i k w, e.worker? i k = some w ∧
      w.conn = x.conn ∧ w.activity.inFlight = true := by
    obtain ⟨i, p, hp, hbusy⟩ := mem_total.mp hmem
    obtain ⟨k, w, hw, hconn⟩ := mem_total.mp hbusy
    split at hconn
    · next hflight =>
      exact ⟨i, k, w, worker?_eq_some.mpr ⟨p, hp, hw⟩, (Multiset.mem_singleton.mp hconn).symm,
        hflight⟩
    · cases Multiset.notMem_zero _ hconn
  intro hbusy
  rcases Multiset.mem_add.mp hbusy with hmem | hslot
  · obtain ⟨i, k, w, hw, hconn, hflight⟩ := hworkers hmem
    cases hx with
    | @worker i' k' p' w' job hl hp' hw' ha =>
        have hworker := worker?_eq_some.mpr ⟨p', hp', hw'⟩
        obtain ⟨rfl, rfl⟩ := (numbered_of_reachable h).apart i k i' k' w w' hw hworker hconn
        cases hw.symm.trans hworker
        rw [ha] at hflight
        cases hflight
    | direct hl hd hdirect hr hm =>
        exact conn_ne_slot h hw ((slot_of_driver hd).trans hdirect) hconn
  · split at hslot
    · next hexecutes =>
      have hconn : e.slot = some x.conn := Option.mem_toList.mp (Multiset.mem_coe.mp hslot)
      cases hx with
      | worker hl hp hw ha =>
          exact conn_ne_slot h (worker?_eq_some.mpr ⟨_, hp, hw⟩) hconn rfl
      | direct hl hd hdirect hr hm =>
          rw [hr] at hexecutes
          cases hexecutes
    · cases Multiset.notMem_zero _ hslot

theorem inFlight_eq : e.inFlight =
    total WorkerPool.inFlight e.pools + if e.progress.executes then 1 else 0 := by
  rw [inFlight, foldl_add_eq_total, Nat.add_comm]
  unfold Progress.executes
  split <;> simp_all

/-- The executions in flight are told apart by their connections. -/
theorem card_busy (h : Reachable b e) : e.busy.card = e.inFlight := by
  have hworkers : (total WorkerPool.busy e.pools).card = total WorkerPool.inFlight e.pools := by
    rw [card_total]
    exact congrArg (total · e.pools) (funext WorkerPool.card_busy)
  rw [busy, Multiset.card_add, hworkers, inFlight_eq]
  split
  · next hexecutes =>
    obtain ⟨conn, hslot⟩ := slot_of_executes h hexecutes
    rw [hslot]
    rfl
  · rfl

theorem inFlight_le (e : Engine) : e.inFlight ≤ e.liveWorkers + 1 := by
  have hlive : total WorkerPool.inFlight e.pools ≤ e.liveWorkers :=
    List.sum_le_sum fun p _ => inFlight_le_live p
  rw [inFlight_eq]
  split <;> omega

end Busy

end Engine

end LoadBench
