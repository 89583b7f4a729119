import LoadBench.Proofs.Places

/-!
The record of events only grows, and a job is counted before it is completed: first its execution,
and then its failure if it failed. A job that was counted was executed, and it was counted as its
execution came out.
-/

namespace LoadBench

/-- Whether an event is on record of a job that was counted or completed. -/
def Event.settlesJob : Event → Bool
  | .tallied (.job _ _) | .counted (.job _ _) _ | .completed _ _ => true
  | _ => false

/-- The execution for which one was added to a counter, if an event says so. -/
def Event.addition? (c : Tally.Counter) : Event → Option Origin
  | .tallied origin => if c = .executed then some origin else none
  | .counted origin true => if c = .failed then some origin else none
  | _ => none

/-- The job for which a worker is about to add to a counter. -/
def Activity.counts? : Tally.Counter → Activity → Option Job
  | .executed, .finished job _ => some job
  | .failed, .failing job => some job
  | _, _ => none

theorem Activity.job?_of_counts? {a : Activity} {c : Tally.Counter} {job : Job}
    (h : a.counts? c = some job) : a.job? = some job := by
  cases c with
  | executed =>
      cases a with
      | finished job' failed => exact h
      | _ => cases h
  | failed =>
      cases a with
      | failing job' => exact h
      | _ => cases h

/-- The event that puts a job on record at a station. -/
def Station.event? (latch index : Nat) : Station → Option Event
  | .finished failed => some (.finished (.job latch index) failed)
  | .tallied => some (.tallied (.job latch index))
  | .counted failed => some (.counted (.job latch index) failed)
  | .completed => some (.completed latch index)
  | .lost => some (.lost latch index)
  | _ => none

theorem Station.keeper_of_event? {s : Station} {latch index : Nat} {event : Event}
    (hs : s.event? latch index = some event) : s.keeper = .events := by
  cases s with
  | finished failed | tallied | counted failed | completed | lost => rfl
  | _ => cases hs

theorem Event.count_entries {s : Station} {latch index : Nat} {event' : Event}
    (hs : s.event? latch index = some event') (event : Event) :
    event.entries.count ⟨s, .job latch index⟩ = if event = event' then 1 else 0 := by
  cases event with
  | finished origin failed | tallied origin | counted origin failed =>
      cases origin <;> cases s <;> cases hs <;>
        simp [entries, Engine.count_singleton_entry, and_comm]
  | _ => cases s <;> cases hs <;> simp [entries, Engine.count_singleton_entry]

/-- Where the ledger has the additions to a counter. -/
def Tally.Counter.station : Tally.Counter → Station
  | .executed => .tallied
  | .failed => .counted true

namespace Engine

variable {b : Backend} {e next : Engine} {latch index : Nat}

/-- The executions for which one was added to a counter, in the order of the additions. -/
def additions (e : Engine) (c : Tally.Counter) : List Origin :=
  e.events.toList.filterMap (Event.addition? c)

/-- The executions that were counted in full, by their outcome. -/
def recorded (e : Engine) (failed : Bool) : List Origin :=
  e.events.toList.filterMap fun
    | .counted origin failed' => if failed' = failed then some origin else none
    | _ => none

/-- The executions that were begun and come out in a given way, by where they come from. -/
def attempted (e : Engine) (failed : Bool) : List Origin :=
  e.executions.toList.filterMap fun x =>
    if x.conduct.outcome? = some failed then some x.origin else none

/-- The executions whose call panicked at once, by where they come from. -/
def collapsed (e : Engine) : List Origin :=
  e.executions.toList.filterMap fun x =>
    if x.conduct.outcome? = none then some x.origin else none

/-- All executions that were begun, by where they come from. -/
def begun (e : Engine) : List Origin := e.executions.toList.map (·.origin)

/-- What can be read off one event only is read off as often as the ledger has the event. -/
theorem count_filterMap_events {s : Station} {event : Event} {f : Event → Option Origin}
    (hs : s.event? latch index = some event)
    (hf : ∀ event', f event' = some (.job latch index) ↔ event' = event) :
    (e.events.toList.filterMap f).count (.job latch index) =
      e.ledger.number (.job latch index) s := by
  rw [number_eq, Station.keeper_of_event? hs, count_filterMap_eq_total, ← total]
  simp only [hf, Event.count_entries hs]

/-- The ledger has an event as often as it is on record. -/
theorem count_events {s : Station} {event : Event} (hs : s.event? latch index = some event) :
    e.events.toList.count event = e.ledger.number (.job latch index) s := by
  rw [number_eq, Station.keeper_of_event? hs]
  simp only [Event.count_entries hs]
  have hcount := count_filterMap_eq_total some e.events.toList event
  simpa [total] using hcount

theorem count_finished (failed : Bool) :
    e.events.toList.count (.finished (.job latch index) failed) =
      e.ledger.number (.job latch index) (.finished failed) :=
  count_events rfl

theorem count_additions (c : Tally.Counter) :
    (e.additions c).count (.job latch index) =
      e.ledger.number (.job latch index) c.station := by
  cases c with
  | executed =>
      refine count_filterMap_events rfl fun event => ?_
      cases event with
      | counted origin failed => cases failed <;> simp [Event.addition?]
      | _ => simp [Event.addition?]
  | failed =>
      refine count_filterMap_events rfl fun event => ?_
      cases event with
      | counted origin failed => cases failed <;> simp [Event.addition?]
      | _ => simp [Event.addition?]

theorem count_recorded (failed : Bool) :
    (e.recorded failed).count (.job latch index) =
      e.ledger.number (.job latch index) (.counted failed) := by
  refine count_filterMap_events rfl fun event => ?_
  cases event <;> simp [and_comm]

theorem count_attempted (failed : Bool) :
    (e.attempted failed).count (.job latch index) =
      e.ledger.number (.job latch index) (.begun failed) := by
  rw [number_eq, attempted, count_filterMap_eq_total, ← total]
  congr 1
  funext x
  obtain ⟨conn, command, origin, conduct⟩ := x
  cases origin with
  | job latch' index' =>
      rcases ho : conduct.outcome? with _ | failed'
      · simp [Execution.entries, ho]
      · simp [Execution.entries, ho, count_singleton_entry]
  | direct run index' => simp [Execution.entries]

theorem count_collapsed :
    e.collapsed.count (.job latch index) = e.ledger.number (.job latch index) .collapsed := by
  rw [number_eq, collapsed, count_filterMap_eq_total, ← total]
  congr 1
  funext x
  obtain ⟨conn, command, origin, conduct⟩ := x
  cases origin with
  | job latch' index' =>
      rcases ho : conduct.outcome? with _ | failed
      · simp [Execution.entries, ho, count_singleton_entry]
      · simp [Execution.entries, ho]
  | direct run index' => simp [Execution.entries]

theorem count_begun : e.begun.count (.job latch index) =
    e.ledger.number (.job latch index) .collapsed +
      (e.ledger.number (.job latch index) (.begun false) +
        e.ledger.number (.job latch index) (.begun true)) := by
  have hbegun : e.begun = e.executions.toList.filterMap fun x => some x.origin := by
    simp [begun, List.filterMap_eq_map']
  simp only [number_eq, Station.keeper]
  rw [hbegun, count_filterMap_eq_total, ← total, ← total_add, ← total_add]
  congr 1
  funext x
  obtain ⟨conn, command, origin, conduct⟩ := x
  cases origin with
  | job latch' index' =>
      rcases ho : conduct.outcome? with _ | _ | _ <;>
        simp [Execution.entries, ho, count_singleton_entry]
  | direct run index' => simp [Execution.entries]

theorem settlesJob_of_addition? {event : Event} {c : Tally.Counter}
    (h : event.addition? c = some (.job latch index)) : event.settlesJob = true := by
  cases event with
  | tallied origin =>
      cases c with
      | executed =>
          cases h
          rfl
      | failed => cases h
  | counted origin failed =>
      cases failed <;> cases c <;> cases h
      rfl
  | _ => cases c <;> cases h

/-- What a worker does that adds something to the record of events. It adds the completion of a job
by completing it, and it counts a job in the counters of its pool, in one of them at a time. -/
structure Reports (e next : Engine) (p : WorkerPool) (w : Worker) (l : List Event) : Prop where
  events : next.events.toList = e.events.toList ++ l
  completed : ∀ latch index, .completed latch index ∈ l → l = [.completed latch index] ∧
    ∃ job, w.activity = .recorded job ∧ job.origin = .job latch index
  counted : ∀ latch index failed, .counted (.job latch index) failed ∈ l →
    l = [.tallied (.job latch index), .counted (.job latch index) failed] ∨
      l = [.counted (.job latch index) failed] ∧
        ∃ job, w.activity = .failing job ∧ job.origin = .job latch index
  adds : ∀ c latch index, some (.job latch index) ∈ l.map (Event.addition? c) →
    next.tallies = e.tallies.modify p.tally (·.add c) ∧
      ∃ job, w.activity.counts? c = some job ∧ job.origin = .job latch index

theorem WorkerMove.reports {i k : Nat} {p : WorkerPool} {w : Worker}
    (h : WorkerMove b e i k p w next) : ∃ l, Reports e next p w l := by
  have hquiet {l : List Event} (hevents : next.events.toList = e.events.toList ++ l)
      (hl : ∀ event ∈ l, event.settlesJob = false) : ∃ l, Reports e next p w l := by
    refine ⟨l, hevents, fun latch index hmem => ?_, fun latch index failed hmem => ?_,
      fun c latch index hmem => ?_⟩
    · cases hl _ hmem
    · cases hl _ hmem
    · obtain ⟨event, hevent, hadds⟩ := List.mem_map.mp hmem
      cases (settlesJob_of_addition? hadds).symm.trans (hl event hevent)
  cases h with
  | begins ha hc | finishes ha | misuses ha hl | leaves ha =>
      exact hquiet Array.toList_push fun event hmem => by
        rw [List.mem_singleton.mp hmem]
        rfl
  | @collapses job ha hc =>
      refine hquiet (l := [.begun job.origin w.conn, .lost job.latch job.index]) ?_ ?_
      · simp [put, setPool, record, beginExecution]
      · simp [Event.settlesJob]
  | @counts job ha =>
      refine ⟨[.tallied job.origin, .counted job.origin false], ?_, ?_, ?_, ?_⟩
      · simp [put, setPool, record, countExecution, count]
      · intro latch index hmem
        simp at hmem
      · intro latch index failed hmem
        obtain ⟨ho, rfl⟩ : .job latch index = job.origin ∧ failed = false := by simpa using hmem
        exact .inl (by rw [ho])
      · intro c latch index hmem
        cases c with
        | executed =>
            have ho : .job latch index = job.origin := by simpa [Event.addition?] using hmem
            exact ⟨rfl, job, by rw [ha]; rfl, ho.symm⟩
        | failed => simp [Event.addition?] at hmem
  | @tallies job ha =>
      refine ⟨[.tallied job.origin], Array.toList_push, ?_, ?_, ?_⟩
      · intro latch index hmem
        cases List.mem_singleton.mp hmem
      · intro latch index failed hmem
        cases List.mem_singleton.mp hmem
      · intro c latch index hmem
        cases c with
        | executed =>
            have ho : .job latch index = job.origin := by simpa [Event.addition?] using hmem
            exact ⟨rfl, job, by rw [ha]; rfl, ho.symm⟩
        | failed => simp [Event.addition?] at hmem
  | @countsFailure job ha =>
      refine ⟨[.counted job.origin true], Array.toList_push, ?_, ?_, ?_⟩
      · intro latch index hmem
        cases List.mem_singleton.mp hmem
      · intro latch index failed hmem
        obtain ⟨ho, rfl⟩ := Event.counted.inj (List.mem_singleton.mp hmem)
        exact .inr ⟨by rw [ho], job, ha, ho.symm⟩
      · intro c latch index hmem
        cases c with
        | executed => simp [Event.addition?] at hmem
        | failed =>
            have ho : .job latch index = job.origin := by simpa [Event.addition?] using hmem
            exact ⟨rfl, job, by rw [ha]; rfl, ho.symm⟩
  | @completes job batch left ha hb hl =>
      refine ⟨[.completed job.latch job.index], Array.toList_push, ?_, ?_, ?_⟩
      · intro latch index hmem
        cases List.mem_singleton.mp hmem
        exact ⟨rfl, job, ha, rfl⟩
      · intro latch index failed hmem
        cases List.mem_singleton.mp hmem
      · intro c latch index hmem
        simp [Event.addition?] at hmem
  | _ => exact hquiet (List.append_nil _).symm (List.forall_mem_nil _)

/-- A caller's step counts and completes no job. -/
theorem CallerMove.events (h : CallerMove e next) :
    ∃ l, next.events.toList = e.events.toList ++ l ∧ ∀ event ∈ l, event.settlesJob = false := by
  have hnote (events : List Event) (he : ∀ event ∈ events, event.ofJob = false)
      (hevents : next.events = (e.note events).events) :
      ∃ l, next.events.toList = e.events.toList ++ l ∧ ∀ event ∈ l, event.settlesJob = false := by
    refine ⟨events, by simp [hevents, note], fun event hmem => ?_⟩
    have hof := he event hmem
    cases event with
    | tallied origin | counted origin failed =>
        cases origin with
        | job latch index => cases hof
        | direct number index => rfl
    | completed latch index => cases hof
    | _ => rfl
  have hone {event : Event} (hevents : next.events = e.events.push event)
      (hs : event.settlesJob = false) :
      ∃ l, next.events.toList = e.events.toList ++ l ∧ ∀ event ∈ l, event.settlesJob = false := by
    refine ⟨[event], by rw [hevents, Array.toList_push], fun event' hmem => ?_⟩
    rw [List.mem_singleton.mp hmem]
    exact hs
  cases h with
  | quiet h =>
      obtain ⟨events, hevents, he⟩ := h.events
      exact hnote events he hevents
  | spawns hr hp he conn => exact hnote _ he rfl
  | abandons hr he answer => exact hnote _ he rfl
  | starts hr hp hw he answer => exact hnote _ he rfl
  | closes hd hr he hp => exact hnote _ he rfl
  | @countsDirect d phase before number index todo reports hd hr =>
      exact hnote [.tallied (.direct number index), .counted (.direct number index) false]
        (by simp [Event.ofJob]) rfl
  | talliesDirect hd hr | countsDirectFailure hd hr | generates hr hm hi hg
  | drops hd hp hh hq answer | forgets hh answer | withdraws hh answer
  | submitsDropped hd hp hr hw hl hq answer => exact hone rfl rfl
  | _ => exact ⟨[], (List.append_nil _).symm, List.forall_mem_nil _⟩

/-- A step adds to the record. What it says of jobs that were counted or completed a worker said. -/
theorem step_reports {label : Label} (hs : e.step b label = some next) :
    ∃ l, next.events.toList = e.events.toList ++ l ∧ ((∀ event ∈ l, event.settlesJob = false) ∨
      ∃ (i k : Nat) (p : WorkerPool) (w : Worker), label = .act (.worker i k) ∧
        e.pools[i]? = some p ∧ p.workers[k]? = some w ∧ Reports e next p w l) := by
  have hm := step_move hs
  change ∃ l, next.bare.events.toList = e.bare.events.toList ++ l ∧ _
  have hof {i k : Nat} {p : WorkerPool} {w : Worker} (h : WorkerMove b e.bare i k p w next.bare) :
      ∃ l, Reports e next p w l := by
    obtain ⟨l, hl⟩ := h.reports
    exact ⟨l, hl.events, hl.completed, hl.counted, hl.adds⟩
  generalize hnext : next.bare = after at hm ⊢
  cases hm with
  | stay permits => exact ⟨[], (List.append_nil _).symm, .inl nofun⟩
  | latch size => exact ⟨[], (List.append_nil _).symm, .inl nofun⟩
  | worker hp hw h =>
      subst hnext
      obtain ⟨l, hl⟩ := hof h
      exact ⟨l, hl.events, .inr ⟨_, _, _, _, rfl, hp, hw, hl⟩⟩
  | caller _ h =>
      obtain ⟨l, hl, hquiet⟩ := h.events
      exact ⟨l, hl, .inl hquiet⟩

theorem mem_completed : .job latch index ∈ e.completed ↔
    .completed latch index ∈ e.events.toList := by
  simp only [completed, List.mem_filterMap]
  constructor
  · rintro ⟨event, hmem, hevent⟩
    cases event <;> simp_all
  · exact fun hmem => ⟨_, hmem, rfl⟩

theorem mem_recorded {o : Origin} {failed : Bool} :
    o ∈ e.recorded failed ↔ .counted o failed ∈ e.events.toList := by
  simp only [recorded, List.mem_filterMap]
  constructor
  · rintro ⟨event, hmem, hevent⟩
    cases event <;> simp_all
  · exact fun hmem => ⟨_, hmem, by simp⟩

theorem mem_tallied {o : Origin} :
    o ∈ e.additions .executed ↔ .tallied o ∈ e.events.toList := by
  simp only [additions, List.mem_filterMap]
  constructor
  · rintro ⟨event, hmem, hevent⟩
    cases event with
    | tallied origin =>
        cases hevent
        exact hmem
    | counted origin failed => cases failed <;> cases hevent
    | _ => cases hevent
  · exact fun hmem => ⟨_, hmem, rfl⟩

theorem mem_additions {o : Origin} {c : Tally.Counter} :
    o ∈ e.additions c ↔ some o ∈ e.events.toList.map (Event.addition? c) := by
  simp only [additions, List.mem_filterMap, List.mem_map]

theorem mem_collapsed {o : Origin} :
    o ∈ e.collapsed ↔ ∃ x ∈ e.executions, x.origin = o ∧ x.conduct.outcome? = none := by
  simp only [collapsed, List.mem_filterMap, Array.mem_toList_iff]
  constructor
  · rintro ⟨x, hx, ho⟩
    split at ho
    · next hout => exact ⟨x, hx, Option.some.inj ho, hout⟩
    · cases ho
  · rintro ⟨x, hx, rfl, hout⟩
    exact ⟨x, hx, by rw [if_pos hout]⟩

/-- A job that was counted in full had its execution counted before. -/
theorem tallied_of_recorded (h : Reachable b e) {failed : Bool}
    (hr : .job latch index ∈ e.recorded failed) :
    [.tallied (.job latch index), .counted (.job latch index) failed].Sublist e.events.toList := by
  rw [mem_recorded] at hr
  induction h with
  | start => cases hr
  | @step e next label h hs ih =>
      obtain ⟨l, hl, hreports⟩ := step_reports hs
      rw [hl] at hr ⊢
      rcases List.mem_append.mp hr with hold | hnew
      · exact (ih hold).trans (List.sublist_append_left _ _)
      · rcases hreports with hquiet | ⟨i, k, p, w, _, hp, hw, hreports⟩
        · cases hquiet _ hnew
        rcases hreports.counted latch index failed hnew with rfl | ⟨rfl, job, ha, ho⟩
        · exact List.sublist_append_right _ _
        · have htallied := ((sound_of_reachable h).flow (.job latch index)).tallied
          have hfailing := number_pos_of_hands (s := .failing) rfl hp hw (by rw [ha]; rfl)
          rw [ho] at hfailing
          have hmem : .job latch index ∈ e.additions .executed :=
            List.count_pos_iff.mp (by rw [count_additions]; exact htallied ▸ by omega)
          exact (List.singleton_sublist.mpr (mem_tallied.mp hmem)).append (.refl _)

/-- A job that was completed was counted before. -/
theorem counted_of_completed (h : Reachable b e) (hc : .job latch index ∈ e.completed) :
    ∃ failed, [.tallied (.job latch index), .counted (.job latch index) failed,
      .completed latch index].Sublist e.events.toList := by
  rw [mem_completed] at hc
  induction h with
  | start => cases hc
  | @step e next label h hs ih =>
      obtain ⟨l, hl, hreports⟩ := step_reports hs
      rw [hl] at hc ⊢
      rcases List.mem_append.mp hc with hold | hnew
      · obtain ⟨failed, hsublist⟩ := ih hold
        exact ⟨failed, hsublist.trans (List.sublist_append_left _ _)⟩
      · rcases hreports with hquiet | ⟨i, k, p, w, _, hp, hw, hreports⟩
        · cases hquiet _ hnew
        obtain ⟨rfl, job, ha, ho⟩ := hreports.completed latch index hnew
        have hflow := (sound_of_reachable h).flow (.job latch index)
        have hcount := hflow.counted
        have hrecording := number_pos_of_hands (s := .recording) rfl hp hw (by rw [ha]; rfl)
        rw [ho] at hrecording
        have hcounted : ∃ failed, .job latch index ∈ e.recorded failed := by
          by_cases hfalse : 0 < e.ledger.number (.job latch index) (.counted false)
          · exact ⟨false, List.count_pos_iff.mp (by rw [count_recorded]; exact hfalse)⟩
          · exact ⟨true, List.count_pos_iff.mp (by rw [count_recorded]; omega)⟩
        obtain ⟨failed, hmem⟩ := hcounted
        exact ⟨failed, (tallied_of_recorded h hmem).append (.refl _)⟩

/-- A job was counted as its execution came out. -/
theorem attempted_of_recorded (h : Reachable b e) {failed : Bool}
    (hr : .job latch index ∈ e.recorded failed) :
    ∃ x ∈ e.executions, x.origin = .job latch index ∧ x.conduct.outcome? = some failed := by
  have hflow := (sound_of_reachable h).flow (.job latch index)
  have hbegun := hflow.begun failed
  have hfinished := hflow.counted_le_finished failed
  have hpos := List.count_pos_iff.mpr hr
  rw [count_recorded] at hpos
  have hmem : .job latch index ∈ e.attempted failed :=
    List.count_pos_iff.mp (by rw [count_attempted]; omega)
  obtain ⟨x, hx, ho⟩ := List.mem_filterMap.mp hmem
  split at ho
  · next hout =>
      exact ⟨x, Array.mem_toList_iff.mp hx, Option.some.inj ho, hout⟩
  · cases ho

end Engine

end LoadBench
