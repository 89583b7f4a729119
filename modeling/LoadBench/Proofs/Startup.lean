import LoadBench.Proofs.Dialing
import LoadBench.Proofs.WindUp

/-!
What a start comes to. It begins only with sizes that can work. It succeeds if and only if all its
dials do, and then it has dialed once for each worker. Otherwise it dials no more after the first
dial that does not succeed and answers what that dial did; the workers that it had started by then
never get a job, and they leave and close their connections.
-/

namespace LoadBench

/-- A backend whose dial of the given number fails. -/
def Backend.refusing (attempt : Nat) : Backend where
  dial k := if k = attempt then .fail (.dial (.told "refused")) else .connect
  execute _ _ _ := .succeed
  closePanic _ := none

/-- Who has which connection in a pool. -/
def WorkerPool.Seats (p : WorkerPool) (k conn : Nat) : Prop :=
  ∃ w, p.workers[k]? = some w ∧ w.conn = conn

theorem PoolStep.seats {v v' : PoolView} {k conn : Nat} (h : PoolStep v v')
    (hs : v.pool.Seats k conn) : v'.pool.Seats k conn := by
  obtain ⟨w, hw, hconn⟩ := hs
  obtain ⟨w', hw', hconn'⟩ := h.extended.2 k w hw
  exact ⟨w', hw', hconn'.trans hconn⟩

namespace Engine

variable {b : Backend} {e mid next : Engine} {label : Label} {labels : List Label} {i k : Nat}
  {p : WorkerPool} {workers capacity made : Nat} {split stalled : Bool} {answer : Answer}

/-- What a start leaves that succeeds: a driver over a pool with a live worker for each connection
that was dialed. -/
structure StartedUp (b : Backend) (e : Engine) (workers capacity : Nat) (mid : Engine) :
    Prop where
  progress : mid.progress = .returned (.started workers capacity)
  dials : ∀ k < workers, (b.dial (e.dialAttempts + k)).refusal? = none
  attempts : mid.dialAttempts = e.dialAttempts + workers
  driver : ∃ tally, mid.driver = some ⟨e.pools.size, tally, none⟩
  crew : ∃ p, mid.pools[e.pools.size]? = some p ∧ p.queue.producing = true ∧
    p.Crew capacity workers e.connections
  opened : ∀ k < workers, e.connections + k ∈ mid.opened

/-- What a start leaves that fails at a dial. -/
structure FellThrough (b : Backend) (e : Engine) (capacity : Nat) (split : Bool) (made : Nat)
    (answer : Answer) (mid : Engine) : Prop where
  givenUp : GivenUp b e capacity split made answer mid
  /-- Nothing is ever counted for it or executed on its connections. -/
  unused : ∀ (labels : List Label) (later : Engine), mid.run b labels = some later →
    (∀ t, e.tallies.size ≤ t → t < e.newTallies split → later.tallyAt t = {}) ∧
      ∀ x ∈ later.executions, x.conn < e.connections ∨ e.connections + made ≤ x.conn
  /-- Its workers end and close their connections, unless one of them is passed over for good. -/
  closes : ∀ s : Schedule b mid, s.Fair e.pools.size → ∃ n, ∀ m, n ≤ m →
    (∃ q, (s.state m).pools[e.pools.size]? = some q ∧ q.allEnded = true) ∧
      ∀ k < made, e.connections + k ∉ (s.state m).opened

/-- What is the case after so many labels of a call to start. -/
structure Starts (b : Backend) (e : Engine) (workers capacity : Nat) (split : Bool)
    (labels : List Label) (mid : Engine) : Prop where
  /-- Unless a dial stalls, the caller has another step to take, and not many are left. -/
  goesOn : mid.progress.isStarting = true →
    (∀ k < workers, b.dial (e.dialAttempts + k) ≠ .stall) →
      labels.countP (·.ofCaller) ≤ workers ∧ ∃ next, mid.step b (.act .caller) = some next
  returns : ∀ answer, mid.progress = .returned answer →
    StartedUp b e workers capacity mid ∨
      ∃ made < workers, FellThrough b e capacity split made answer mid

/-- What a call to start comes to. -/
structure Startup (b : Backend) (e : Engine) (workers capacity : Nat) (split : Bool) : Prop where
  begins : e.step b (.call (.start workers capacity split)) =
    some (e.begin b (.start workers capacity split))
  /-- Nothing is dialed for sizes that cannot work. -/
  rejected : workers = 0 ∨ capacity = 0 →
    e.begin b (.start workers capacity split) =
      e.finish (.fault (if workers = 0 then .noWorkers else .noCapacity))
  accepted : 0 < workers → workers < tooManyWorkers → 0 < capacity →
    capacity ≤ JobQueue.maxCapacity → ∀ (labels : List Label) (mid : Engine),
      (∀ label ∈ labels, label ≠ .cancel) →
        (e.begin b (.start workers capacity split)).runWhile b (·.isStarting) labels = some mid →
          Starts b e workers capacity split labels mid

theorem completeStart_frame (b : Backend) (split : Bool) (hp : mid.pools[i]? = some p)
    (hne : ∀ d, mid.driver = some d → d.pool ≠ i) :
    (mid.completeStart b i p split).pools[i]? = some p.dropReceiver ∧
      (mid.completeStart b i p split).dialAttempts = mid.dialAttempts := by
  unfold completeStart
  simp only
  split
  · next d hd =>
    have hold : ((mid.pools.set! i p.dropReceiver).modify d.pool .close)[i]? =
        some p.dropReceiver := by
      rw [Array.getElem?_modify, if_neg (hne d hd)]
      exact getElem?_set_self hp _
    unfold dropDriver closeDirect
    cases d.direct with
    | none => exact ⟨hold, rfl⟩
    | some conn => exact ⟨hold, rfl⟩
  · exact ⟨getElem?_set_self hp _, rfl⟩

theorem Underway.startedUp (hu : Underway b e workers capacity split workers false mid)
    (h : Reachable b next) (hm : Reachable b mid) (hp : mid.pools[e.pools.size]? = some p)
    (hc : p.Crew capacity workers e.connections)
    (hn : next = mid.completeStart b e.pools.size p split) :
    StartedUp b e workers capacity next := by
  obtain ⟨⟨q, hq, hopen⟩, hne⟩ := (housed_of_reachable hm).opening _ hu.opening
  cases hp.symm.trans hq
  obtain ⟨hpools, hattempts⟩ := completeStart_frame b split hp hne
  rw [← hn] at hpools hattempts
  have hcrew := hc.queue (JobQueue.capacity_dropReceiver p.queue)
  exact {
    progress := by
      rw [hn, ← hc.size, ← hc.slots]
      rfl
    dials := hu.dials
    attempts := by
      rw [hattempts, hu.attempts]
      rfl
    driver := by
      rw [hn]
      exact ⟨_, rfl⟩
    crew := ⟨_, hpools, JobQueue.producing_dropReceiver.trans hopen, hcrew⟩
    opened := by
      intro k hk
      obtain ⟨w, hw⟩ : ∃ w, p.workers[k]? = some w := by
        rw [← hc.size] at hk
        exact ⟨_, Array.getElem?_eq_getElem hk⟩
      obtain ⟨hconn, hlive⟩ := hc.workers k w hw
      rw [← hconn]
      apply (mem_opened_iff h (worker?_eq_some.mpr ⟨_, hpools, hw⟩)).mpr
      cases ha : w.activity with
      | ended panicked =>
          rw [ha] at hlive
          cases hlive
      | _ => rfl }

/-- The counters of a pool that is not started any more stay at zero. -/
theorem Unused.run {first last : Nat} (hu : Unused first last i e) (h : Reachable b e)
    (ho : e.opens i = false) (hr : e.run b labels = some next) : Unused first last i next := by
  induction labels generalizing e with
  | nil =>
      cases hr
      exact hu
  | cons label labels ih =>
      obtain ⟨e', hs, hr⟩ := run_cons.mp hr
      obtain ⟨p, hp, _⟩ := hu.accepted
      refine ih (hu.step h hs ?_) (h.step label hs) (step_opens h hs hp ho) hr
      intro d hd
      rcases step_drives hs hd with
        ⟨d', hd', hpool, _⟩ | ⟨pool, workers, split, q, hprogress, _, hpool, _⟩
      · rw [← hpool]
        exact (hu.driver d' hd').1
      · rintro rfl
        unfold opens at ho
        rw [hprogress, hpool] at ho
        simp [Progress.opening] at ho

theorem GivenUp.seats (hg : GivenUp b e capacity split made answer mid) (hk : k < made) :
    ∃ p, mid.pools[e.pools.size]? = some p ∧ p.Seats k (e.connections + k) := by
  obtain ⟨p, hp, _, hcrew⟩ := hg.crew
  rw [← hcrew.size] at hk
  have hw := Array.getElem?_eq_getElem hk
  exact ⟨p, hp, _, hw, (hcrew.workers k _ hw).1⟩

theorem GivenUp.opens (hg : GivenUp b e capacity split made answer mid) :
    mid.opens e.pools.size = false := by
  unfold Engine.opens
  rw [hg.progress]
  rfl

theorem GivenUp.spent (hg : GivenUp b e capacity split made answer mid) (hm : Reachable b mid) :
    ∃ p, mid.pools[e.pools.size]? = some p ∧ p.Spent := by
  obtain ⟨p, hp, hclosed, _⟩ := hg.crew
  obtain ⟨q, hq, hnone⟩ := hg.unused.accepted
  cases hp.symm.trans hq
  refine ⟨p, hp, hclosed, ?_⟩
  intro job hhas
  have hmem := (traced_of_reachable hm).jobs _ p job hp hhas
  rw [hnone] at hmem
  exact Array.not_mem_empty job hmem

/-- Its connections are never used for anything. -/
theorem GivenUp.unused_forever (hg : GivenUp b e capacity split made answer mid)
    (hm : Reachable b mid) {later : Engine} (hr : mid.run b labels = some later) :
    (∀ t, e.tallies.size ≤ t → t < e.newTallies split → later.tallyAt t = {}) ∧
      ∀ x ∈ later.executions, x.conn < e.connections ∨ e.connections + made ≤ x.conn := by
  have hu := hg.unused.run hm hg.opens hr
  refine ⟨hu.zero, ?_⟩
  intro x hx
  by_contra hours
  obtain ⟨p, hp, hseats⟩ := hg.seats (k := x.conn - e.connections) (by omega)
  obtain ⟨q, hq, w', hw', hconn'⟩ := run_pool (P := (·.Seats _ _)) (fun _ _ h => h.seats) hm hr hp
    hseats
  obtain ⟨q', job, hq', hjob, _⟩ := (rightful_of_reachable (hm.run hr) hx).worker _ _ w'
    (worker?_eq_some.mpr ⟨q, hq, hw'⟩) (by omega)
  obtain ⟨r, hr', hnone⟩ := hu.accepted
  cases hq'.symm.trans hr'
  rw [hnone] at hjob
  exact Array.not_mem_empty job hjob

theorem GivenUp.windsUp (hg : GivenUp b e capacity split made answer mid) (hm : Reachable b mid)
    (s : Schedule b mid) (hf : s.Fair e.pools.size) : ∃ n, ∀ m, n ≤ m →
      (∃ q, (s.state m).pools[e.pools.size]? = some q ∧ q.allEnded = true) ∧
        ∀ k < made, e.connections + k ∉ (s.state m).opened := by
  obtain ⟨p, hp, hspent⟩ := hg.spent hm
  obtain ⟨n, hends⟩ := Schedule.windsUp hf hm hp hg.opens hspent
  refine ⟨n, fun m hle => ?_⟩
  obtain ⟨q, hq, hended⟩ := hends m hle
  refine ⟨⟨q, hq, hended⟩, ?_⟩
  intro k hk hopen
  obtain ⟨r, hr, hseats⟩ := hg.seats hk
  obtain ⟨q', hq', w', hw', hconn'⟩ := s.pool (P := (·.Seats _ _)) (fun _ _ h => h.seats) hm hr
    hseats m
  cases hq.symm.trans hq'
  obtain ⟨panicked, ha⟩ := WorkerPool.ended_of_allEnded hended hw'
  rw [← hconn'] at hopen
  have hlive := (mem_opened_iff (s.reachable hm m) (worker?_eq_some.mpr ⟨q, hq, hw'⟩)).mp hopen
  rw [ha] at hlive
  cases hlive

theorem GivenUp.fellThrough (hg : GivenUp b e capacity split made answer mid)
    (hm : Reachable b mid) : FellThrough b e capacity split made answer mid where
  givenUp := hg
  unused _ _ hr := hg.unused_forever hm hr
  closes s hf := hg.windsUp hm s hf

/-- How far a start has come after so many labels. -/
inductive Proceeds (b : Backend) (e : Engine) (workers capacity : Nat) (split : Bool)
    (made : Nat) (labels : List Label) (mid : Engine) : Prop
  | underway {made' : Nat} {stalled : Bool}
      (hu : Underway b e workers capacity split made' stalled mid)
      (hcount : (∀ k < workers, b.dial (e.dialAttempts + k) ≠ .stall) →
        made' = made + labels.countP (·.ofCaller))
  | startedUp (hs : StartedUp b e workers capacity mid)
  | givenUp {made' : Nat} {answer : Answer} (hm : made' < workers)
      (hg : GivenUp b e capacity split made' answer mid)

/-- One label more: only a step of the caller's counts. -/
theorem Proceeds.cons {made' : Nat} (hp : Proceeds b e workers capacity split made' labels mid)
    (hmade : (∀ k < workers, b.dial (e.dialAttempts + k) ≠ .stall) →
      made' = made + if label.ofCaller then 1 else 0) :
    Proceeds b e workers capacity split made (label :: labels) mid := by
  cases hp with
  | underway hu hcount =>
      apply Proceeds.underway hu
      intro hstall
      have hmade := hmade hstall
      have hcount := hcount hstall
      rw [List.countP_cons]
      omega
  | startedUp hs => exact .startedUp hs
  | givenUp hlt hg => exact .givenUp hlt hg

theorem Underway.run (hu : Underway b e workers capacity split made stalled mid)
    (hm : Reachable b mid) (hc : ∀ label ∈ labels, label ≠ .cancel)
    (hr : mid.runWhile b (·.isStarting) labels = some next) :
    Proceeds b e workers capacity split made labels next := by
  induction labels generalizing made stalled mid with
  | nil =>
      cases hr
      exact .underway hu fun _ => rfl
  | cons label labels ih =>
      simp only [runWhile, Option.ite_none_right_eq_some, Option.bind_eq_some_iff] at hr
      obtain ⟨_, after, hs, hr⟩ := hr
      have hafter := hm.step label hs
      have hrest : ∀ label ∈ labels, label ≠ .cancel := fun l hl => hc l (List.mem_cons_of_mem _ hl)
      rcases step_of_starting hu.progress hs with ⟨hl, _⟩ | ⟨rfl, _⟩ | ⟨rfl, _⟩
      · apply (ih (hu.others hm hs hl) hafter hrest hr).cons
        intro _
        rw [hl]
        rfl
      · cases hu.dials_next hm hs with
        | waits hu' =>
            obtain ⟨hlt, hdial⟩ := hu'.waits rfl
            apply (ih hu' hafter hrest hr).cons
            intro hstall
            exact absurd hdial (hstall made hlt)
        | spawns hu' => exact (ih hu' hafter hrest hr).cons fun _ => rfl
        | completes hdone hnow hp hcrew hnext =>
            subst hdone hnow
            have hstarted := hu.startedUp hafter hm hp hcrew hnext
            obtain rfl := runWhile_of_stopped (by rw [hstarted.progress]; rfl) hr
            exact .startedUp hstarted
        | fails hlt hg =>
            obtain rfl := runWhile_of_stopped (by rw [hg.progress]; rfl) hr
            exact .givenUp hlt hg
      · exact absurd rfl (hc .cancel List.mem_cons_self)

theorem Proceeds.starts (hp : Proceeds b e workers capacity split 0 labels mid)
    (hm : Reachable b mid) : Starts b e workers capacity split labels mid := by
  cases hp with
  | @underway made stalled hu hcount =>
      constructor
      · intro _ hstall
        have hmade := hcount hstall
        have hle := hu.le
        refine ⟨by omega, ?_⟩
        cases stalled with
        | false => exact hu.enabled
        | true =>
            obtain ⟨hlt, hdial⟩ := hu.waits rfl
            exact absurd hdial (hstall made hlt)
      · intro answer hreturned
        rw [hu.progress] at hreturned
        cases hreturned
  | startedUp hs =>
      constructor
      · intro hstarting
        rw [hs.progress] at hstarting
        cases hstarting
      · intro answer _
        exact .inl hs
  | @givenUp made answer hlt hg =>
      constructor
      · intro hstarting
        rw [hg.progress] at hstarting
        cases hstarting
      · intro answer' hreturned
        cases hg.progress.symm.trans hreturned
        exact .inr ⟨made, hlt, hg.fellThrough hm⟩

theorem startup (h : Reachable b e) (hr : e.progress.atRest = true) (workers capacity : Nat)
    (split : Bool) : Startup b e workers capacity split := by
  have hbegins : e.step b (.call (.start workers capacity split)) =
      some (e.begin b (.start workers capacity split)) := by
    simp [step, hr]
  constructor
  · exact hbegins
  · intro hsizes
    simp only [begin, beginStart]
    split
    · rfl
    · next hworkers =>
      rw [if_pos (hsizes.resolve_left hworkers)]
  · intro hworkers hhandles hcapacity hslots labels mid hc hrun
    have hopen : e.begin b (.start workers capacity split) = e.openPool workers capacity split := by
      simp only [begin, beginStart]
      rw [if_neg (by omega), if_neg (by omega), if_neg (by omega), if_neg (by omega)]
    have hreachable := h.step _ hbegins
    have hmid : Reachable b mid :=
      of_runWhile (fun _ _ label h _ hs => h.step label hs) hreachable hrun
    rw [hopen] at hreachable hrun
    have hu := underway_openPool h workers capacity split
    exact (hu.run hreachable hc hrun).starts hmid

/-- The second of two dials is refused, when the first worker waits for a job already. -/
theorem startup_of_refusal : ∃ mid,
    (({} : Engine).begin (.refusing 1) (.start 2 1 false)).runWhile (.refusing 1) (·.isStarting)
        [.act .caller, .act (.worker 0 0), .act .caller] = some mid ∧
      FellThrough (.refusing 1) {} 1 false 1 (.fault (.dial (.told "refused"))) mid := by
  have hruns : ((({} : Engine).begin (.refusing 1) (.start 2 1 false)).runWhile (.refusing 1)
      (·.isStarting) [.act .caller, .act (.worker 0 0), .act .caller]).map (·.progress) =
        some (.returned (.fault (.dial (.told "refused")))) := by rfl
  obtain ⟨mid, hrun, hreturned⟩ := Option.map_eq_some_iff.mp hruns
  refine ⟨mid, hrun, ?_⟩
  have hstarts := (startup .start (by rfl) 2 1 false).accepted (by decide) (by decide) (by decide)
    (by decide) _ mid (by simp) hrun
  rcases hstarts.returns _ hreturned with hstarted | ⟨made, hlt, hfell⟩
  · cases hreturned.symm.trans hstarted.progress
  · have hrefused := hfell.givenUp.refused
    have hmade : made = 1 := by
      by_contra hne
      obtain rfl : made = 0 := by omega
      cases hrefused
    subst hmade
    exact hfell

end Engine

end LoadBench
