import LoadBench.Proofs.LatchCounts
import LoadBench.Proofs.QueueRun

/-!
How a queue ends. It is closed from either side, by whoever has the producers' side or by the loss
of the last receiver, and stays closed. An offer that is made then is turned away at once and
leaves the queue as it was.

Once the producers' side is closed, the calls for an item return with what is left, in order, and
then with nothing. None of them is left waiting: as long as one runs, one of them can go on, and
each goes on at most twice, when it is given its turn and when it returns.
-/

namespace LoadBench

namespace JobQueue

variable {α π κ : Type} {q : JobQueue α π κ} {p : π} {a : α} {c : κ} {capacity : Nat}

theorem offer_of_closed (h : q.isClosed = true) (p : π) (a : α) : q.offer p a = (.refused, q) := by
  rcases Bool.or_eq_true_iff.mp h with hp | hc
  · have hproducing : q.producing = false := by simpa using hp
    simp [offer, hproducing]
  · simp [offer, FairSemaphore.request, hc]

theorem offer_of_open (h : q.isClosed = false) (p : π) (a : α) : (q.offer p a).1 ≠ .refused := by
  intro hrefused
  rcases hq : q.offer p a with ⟨answer, q'⟩
  rw [hq] at hrefused
  obtain rfl : answer = .refused := hrefused
  obtain ⟨hclosed, _⟩ := offer_refused hq
  rcases hclosed with hp | hc
  · simp [isClosed, hp] at h
  · simp [isClosed, hc] at h

theorem producing_withdrawAsk [DecidableEq κ] : (q.withdrawAsk c).producing = q.producing := by
  simp only [withdrawAsk]
  split <;> rfl

/-- The producers' side sees that the queue is closed, from whichever side it was. -/
theorem Steady.isClosed_iff (h : q.Steady capacity) :
    q.isClosed = true ↔ q.producing = false ∨ q.receivers = 0 := by
  rw [isClosed, Bool.or_eq_true, h.handles, Bool.not_eq_true']

/-- How often the calls that the queue knows can still go on, if no item is missing: a call in line
when it is given its turn and when it returns, and the one that has its turn when it returns. -/
def turnsLeft (q : JobQueue α π κ) : Nat := 2 * q.turn.line.length + q.receiving.toList.length

theorem turnsLeft_le : q.turnsLeft ≤ 2 * q.callers.length := by
  simp only [turnsLeft, callers, List.length_append]
  omega

end JobQueue

namespace JobQueue.Calls

variable {α : Type} {s next t : Calls α} {label : Label α} {labels later : List (Label α)}
  {capacity : Nat}

/-! ## Closing -/

theorem Move.producing (h : Move s label next) :
    next.queue.producing = false ↔ s.queue.producing = false ∨ label = .close := by
  -- All but the closing leave the producers' side as it is.
  have hsame {label : Label α} {queue : JobQueue (Nat × α) Nat Nat}
      (hl : label ≠ .close) (hq : queue.producing = s.queue.producing) :
      queue.producing = false ↔ s.queue.producing = false ∨ label = .close := by
    rw [hq]
    exact (or_iff_left hl).symm
  cases h with
  | offered a =>
      obtain ⟨_, _, _, hq⟩ := offer_frame (q := s.queue) (p := s.offers.size)
        (a := (s.offers.size, a))
      exact hsame nofun (by rw [hq])
  | @resumed k a _ _ =>
      obtain ⟨_, _, _, hq⟩ := reoffer_frame (q := s.queue) (p := k) (a := (k, a))
      exact hsame nofun (by rw [hq])
  | withdrawn _ => exact hsame nofun rfl
  | asked _ => exact hsame nofun producing_ask
  | turned _ _ => exact hsame nofun producing_takeTurn
  | delivered _ _ _ => exact hsame nofun producing_receive
  | ended _ _ _ => exact hsame nofun producing_receive
  | forsaken _ => exact hsame nofun producing_withdrawAsk
  | cloned _ => exact hsame nofun rfl
  | dropped _ => exact hsame nofun producing_dropReceiver
  | closed => exact iff_of_true rfl (.inr rfl)

theorem producing_of_run (hr : s.run labels = some t) :
    t.queue.producing = false ↔ s.queue.producing = false ∨ .close ∈ labels := by
  induction labels generalizing s with
  | nil =>
      cases hr
      exact (or_iff_left List.not_mem_nil).symm
  | cons label labels ih =>
      obtain ⟨next, hs, hr⟩ := run_cons.mp hr
      rw [ih hr, (step_move hs).producing, List.mem_cons, or_assoc]
      exact or_congr_right (or_congr_left eq_comm)

theorem gone_of_run (h : Reachable capacity s) (hgone : s.queue.receivers = 0)
    (hr : s.run labels = some t) : t.queue.receivers = 0 := by
  induction labels generalizing s with
  | nil =>
      cases hr
      exact hgone
  | cons label labels ih =>
      obtain ⟨next, hs, hr⟩ := run_cons.mp hr
      have hnext := (step_move hs).afterwards (Sound.of_reachable h).queue hgone
      exact ih (h.step label hs) hnext.1 hr

theorem closed_of_run (h : Reachable capacity s) (hc : s.queue.isClosed = true)
    (hr : s.run labels = some t) : t.queue.isClosed = true := by
  rw [(Sound.of_reachable (h.run hr)).queue.isClosed_iff]
  rcases (Sound.of_reachable h).queue.isClosed_iff.mp hc with hp | hgone
  · exact .inl ((producing_of_run hr).mpr (.inl hp))
  · exact .inr (gone_of_run h hgone hr)

/-! ## Who still runs -/

/-- An offer waits on only if it is parked. -/
theorem Offer.parked_of_running {admission : Admission} {a b : α}
    (h : Offer.ofAdmission a admission = .running b) : admission = .parked := by
  cases admission with
  | taken | refused => cases h
  | parked => rfl

theorem Offer.refused_of_ofAdmission {admission : Admission} {a b : α}
    (h : Offer.ofAdmission a admission = .refused b) : admission = .refused := by
  cases admission with
  | taken | parked => cases h
  | refused => rfl

theorem Move.running_offer (h : Move s label next) {k : Nat} {a : α}
    (hk : next.offers[k]? = some (.running a)) :
    s.offers[k]? = some (.running a) ∨ s.queue.isClosed = false := by
  cases h with
  | offered b =>
      cases hc : s.queue.isClosed with
      | false => exact .inr rfl
      | true =>
          rw [offer_of_closed hc, Array.getElem?_push] at hk
          split at hk
          · cases hk
          · exact .inl hk
  | @resumed j b _ hr =>
      rcases getElem?_set_cases hk with ⟨_, hnew⟩ | ⟨_, hold⟩
      · have hparked := Offer.parked_of_running hnew.symm
        exact absurd hparked (reoffer_ne_parked hr (j, b))
      · exact .inl hold
  | withdrawn _ =>
      rcases getElem?_set_cases hk with ⟨_, hnew⟩ | ⟨_, hold⟩
      · cases hnew
      · exact .inl hold
  | _ => exact .inl hk

theorem Move.running_ask (h : Move s label next) {k : Nat}
    (hk : next.asks[k]? = some .running) :
    s.asks[k]? = some .running ∨ s.queue.receivers ≠ 0 := by
  cases h with
  | asked hr => exact .inr hr
  | delivered _ _ _ | ended _ _ _ | forsaken _ =>
      rcases getElem?_set_cases hk with ⟨_, hnew⟩ | ⟨_, hold⟩
      · cases hnew
      · exact .inl hold
  | _ => exact .inl hk

theorem not_running_of_close (hs : s.step .close = some next) (k : Nat) (a : α) :
    s.offers[k]? ≠ some (.running a) := by
  intro hk
  simp only [step] at hs
  split at hs
  · cases hs
  · next hnone =>
      apply hnone
      exact List.any_eq_true.mpr ⟨_, Array.mem_toList_iff.mpr (Array.mem_of_getElem? hk), rfl⟩

theorem not_running_of_last (hs : s.step .dropReceiver = some next)
    (hgone : next.queue.receivers = 0) (k : Nat) : s.asks[k]? ≠ some .running := by
  intro hk
  have hany : s.asks.toList.any Ask.isRunning = true :=
    List.any_eq_true.mpr ⟨_, Array.mem_toList_iff.mpr (Array.mem_of_getElem? hk), rfl⟩
  simp only [step, hany, and_true] at hs
  split at hs
  · cases hs
  · next hne =>
      cases hs
      rw [not_or] at hne
      rcases hn : s.queue.receivers with _ | _ | n
      · exact hne.1 hn
      · exact hne.2 hn
      · simp only [JobQueue.dropReceiver, hn] at hgone
        cases hgone

/-- No offer waits once the producers' side is closed, and no call for an item once the last handle
is gone. -/
structure Deserted (s : Calls α) : Prop where
  offers : s.queue.producing = false → ∀ (k : Nat) (a : α), s.offers[k]? ≠ some (.running a)
  asks : s.queue.receivers = 0 → ∀ k : Nat, s.asks[k]? ≠ some .running

theorem Deserted.step (hd : s.Deserted) (hs : s.step label = some next) : next.Deserted := by
  have hmove := step_move hs
  constructor
  · intro hp k a hk
    rcases hmove.producing.mp hp with hbefore | rfl
    · rcases hmove.running_offer hk with hold | hopen
      · exact hd.offers hbefore k a hold
      · simp [isClosed, hbefore] at hopen
    · cases hmove with
      | closed => exact not_running_of_close hs k a hk
  · intro hgone k hk
    by_cases hbefore : s.queue.receivers = 0
    · rcases hmove.running_ask hk with hold | hne
      · exact hd.asks hbefore k hold
      · exact hne hbefore
    · cases hmove with
      | dropped _ => exact not_running_of_last hs hgone k hk
      | offered a =>
          obtain ⟨_, _, _, hq⟩ := offer_frame (q := s.queue) (p := s.offers.size)
            (a := (s.offers.size, a))
          rw [hq] at hgone
          exact hbefore hgone
      | @resumed j a _ _ =>
          obtain ⟨_, _, _, hq⟩ := reoffer_frame (q := s.queue) (p := j) (a := (j, a))
          rw [hq] at hgone
          exact hbefore hgone
      | asked _ => exact hbefore (receivers_ask.symm.trans hgone)
      | turned _ _ => exact hbefore (receivers_takeTurn.symm.trans hgone)
      | delivered _ _ _ | ended _ _ _ =>
          obtain ⟨_, _, _, _, _, hq⟩ := receive_frame (q := s.queue)
          rw [hq] at hgone
          exact hbefore hgone
      | forsaken _ => exact hbefore (receivers_withdrawAsk.symm.trans hgone)
      | cloned _ => cases hgone
      | withdrawn _ | closed => exact hbefore hgone

theorem Deserted.of_reachable (h : Reachable capacity s) : s.Deserted := by
  induction h with
  | start => exact ⟨nofun, nofun⟩
  | step label _ hs ih => exact ih.step hs

/-! ## What is left is drained -/

theorem Move.returned (h : Move s label next) {r : Option (Nat × α)}
    (hret : next.returned? label = some r) : ∃ k : Nat, s.asks[k]? = some .running := by
  cases h with
  | delivered hk _ _ => exact ⟨_, hk⟩
  | ended hk _ _ => exact ⟨_, hk⟩
  | _ => cases hret

theorem returns_of_gone (h : Reachable capacity s) (hgone : s.queue.receivers = 0)
    (later : List (Label α)) : s.returns later = [] := by
  induction later generalizing s with
  | nil => rfl
  | cons label later ih =>
      cases hs : s.step label with
      | none => simp only [returns, hs]
      | some next =>
          have hmove := step_move hs
          have hnone : next.returned? label = none := by
            rw [Option.eq_none_iff_forall_ne_some]
            intro r hret
            obtain ⟨k, hk⟩ := hmove.returned hret
            exact (Deserted.of_reachable h).asks hgone k hk
          have hnext := hmove.afterwards (Sound.of_reachable h).queue hgone
          rw [returns_cons hs, hnone, ih (h.step label hs) hnext.1]
          rfl

/-- After the producers' side has been closed, calls return with the items of the buffer one after
the other, and with none once these are used up. -/
theorem returns_of_closed (h : Reachable capacity s) (hp : s.queue.producing = false) {i : Nat}
    {r : Option (Nat × α)} (hi : (s.returns later)[i]? = some r) : r = s.queue.buffer[i]? := by
  induction later generalizing s i with
  | nil => cases hi
  | cons label later ih =>
      cases hs : s.step label with
      | none =>
          simp only [returns, hs] at hi
          cases hi
      | some next =>
          have hmove := step_move hs
          have hrest {j : Nat} (hj : (next.returns later)[j]? = some r) :
              r = next.queue.buffer[j]? :=
            ih (h.step label hs) (hmove.producing.mpr (.inl hp)) hj
          rw [returns_cons hs] at hi
          cases hmove.outcome with
          | hands item hret hbuffer =>
              rw [hret] at hi
              rw [hbuffer]
              cases i with
              | zero => exact (Option.some.inj hi).symm
              | succ i => exact hrest hi
          | ends hret hbuffer hnext =>
              rw [hret] at hi
              rw [hbuffer]
              cases i with
              | zero => exact (Option.some.inj hi).symm
              | succ i =>
                  have hnone := hrest hi
                  rw [hnext] at hnone
                  exact hnone
          | same hret hbuffer =>
              rw [hret] at hi
              rw [← hbuffer]
              exact hrest hi
          | offers hret hoffer =>
              rw [hret] at hi
              cases hmove with
              | offered a =>
                  have hclosed : s.queue.isClosed = true := by simp [isClosed, hp]
                  have hbuffer := hrest hi
                  rw [offer_of_closed hclosed] at hbuffer
                  exact hbuffer
              | resumed hk _ => exact absurd hk ((Deserted.of_reachable h).offers hp _ _)
              | _ => rcases hoffer with ⟨_, hl⟩ | ⟨_, hl⟩ <;> cases hl
          | discards hret hdrop hgone =>
              rw [hret, returns_of_gone (h.step label hs) hgone] at hi
              cases hi

/-! ## Nobody is left waiting -/

/-- Whether a call for an item goes on by an operation, to its turn or to its end. -/
def Label.ofTurn : Label α → Bool
  | .takeTurn _ | .receive _ => true
  | _ => false

theorem Move.turnsLeft (h : Move s label next) (hs : s.queue.Steady capacity)
    (hl : label.ofTurn = true) : next.queue.turnsLeft + 1 = s.queue.turnsLeft := by
  have hreturned {k : Nat} (hr : s.queue.receiving = some k) (hn : s.queue.receive.1 ≠ .nothing) :
      s.queue.receive.2.turnsLeft + 1 = s.queue.turnsLeft := by
    have hleft : s.queue.receive.2.turn = s.queue.turn.release ∧
        s.queue.receive.2.receiving = none := by
      revert hn
      simp only [JobQueue.receive]
      split
      · exact fun _ => ⟨rfl, rfl⟩
      · split
        · exact fun hn => absurd rfl hn
        · exact fun _ => ⟨rfl, rfl⟩
    rw [JobQueue.turnsLeft, JobQueue.turnsLeft, hleft.1, hleft.2, hr, FairSemaphore.line_release]
    rfl
  cases h with
  | @turned k _ hr =>
      obtain ⟨hg, htake⟩ := takeTurn_of_ready hs.opened hr
      have hlength := List.length_erase_of_mem hg
      have hpos := List.length_pos_of_mem hg
      have hpermit := hs.permit
      rw [htake]
      simp only [JobQueue.turnsLeft, FairSemaphore.line, List.length_append, Option.toList_some,
        List.length_singleton]
      omega
  | delivered _ hr hitem => exact hreturned hr (by simp [hitem])
  | ended _ hr hended => exact hreturned hr (by simp [hended])
  | _ => cases hl

theorem length_le_turnsLeft (hs : s.queue.Steady capacity)
    (hl : ∀ label ∈ labels, label.ofTurn = true) (hr : s.run labels = some t) :
    labels.length ≤ s.queue.turnsLeft := by
  induction labels generalizing s with
  | nil => exact Nat.zero_le _
  | cons label labels ih =>
      obtain ⟨next, hstep, hr⟩ := run_cons.mp hr
      have hmove := step_move hstep
      have hone := hmove.turnsLeft hs (hl label List.mem_cons_self)
      have hrest := ih (hmove.steady hs) (fun l h => hl l (List.mem_cons_of_mem label h)) hr
      rw [List.length_cons]
      omega

/-- The queue knows no more calls than were ever made. -/
theorem Asked.length_callers {q : JobQueue (Nat × α) Nat Nat} {asks : Array (Ask (Nat × α))}
    (h : Asked q asks) : q.callers.length ≤ asks.size := by
  have hsubset : q.callers ⊆ List.range asks.size := by
    intro k hk
    obtain ⟨hlt, _⟩ := Array.getElem?_eq_some_iff.mp ((h.running k).mp hk)
    exact List.mem_range.mpr hlt
  have hlength := (h.once.subperm hsubset).length_le
  rwa [List.length_range] at hlength

/-- A call for an item that has returned, with an item or without. -/
def Answered (c : Ask (Nat × α)) : Prop := c = .ended ∨ ∃ item, c = .delivered item

theorem answered_of_run (hl : ∀ label ∈ labels, label.ofTurn = true) (hr : s.run labels = some t)
    {k : Nat} {c : Ask (Nat × α)} (hk : s.asks[k]? = some c) (hc : c = .running ∨ Answered c) :
    ∃ c', t.asks[k]? = some c' ∧ (c' = .running ∨ Answered c') := by
  induction labels generalizing s c with
  | nil =>
      cases hr
      exact ⟨c, hk, hc⟩
  | cons label labels ih =>
      obtain ⟨next, hs, hr⟩ := run_cons.mp hr
      have hlabel := hl label List.mem_cons_self
      have hrest {c : Ask (Nat × α)} :=
        ih (c := c) (fun l h => hl l (List.mem_cons_of_mem label h)) hr
      -- One call returns, and the others are as they were.
      have hset {j : Nat} {queue : JobQueue (Nat × α) Nat Nat} {d : Ask (Nat × α)}
          (hj : s.asks[j]? = some .running) (hd : Answered d)
          (hnext : next = { s with queue, asks := s.asks.set! j d }) :
          ∃ c', t.asks[k]? = some c' ∧ (c' = .running ∨ Answered c') := by
        subst hnext
        by_cases hjk : j = k
        · subst hjk
          exact hrest (getElem?_set_self hj d) (.inr hd)
        · exact hrest ((getElem?_set_ne hjk d).trans hk) hc
      cases step_move hs with
      | turned _ _ => exact hrest hk hc
      | delivered hj _ _ => exact hset hj (.inr ⟨_, rfl⟩) rfl
      | ended hj _ _ => exact hset hj (.inl rfl) rfl
      | _ => cases hlabel

/-- Once the producers' side is closed, no call for an item waits that cannot go on. -/
theorem not_running_of_stuck (h : Reachable capacity s) (hp : s.queue.producing = false)
    (hn : ∀ label : Label α, label.ofTurn = true → s.step label = none) (k : Nat) :
    s.asks[k]? ≠ some .running := by
  intro hk
  have hsettled : s.Settled := by
    intro j
    refine ⟨?_, hn _ rfl, hn _ rfl⟩
    simp only [step]
    split
    · next a hj => exact absurd hj ((Deserted.of_reachable h).offers hp j a)
    · rfl
  have hopen := (hsettled.ask (asked_of_reachable h) (Sound.of_reachable h).queue hk).2
  rw [hp] at hopen
  cases hopen

/-! ## The end of a queue -/

theorem refused_of_resume {k : Nat} {a : α} (hs : s.step (.resume k) = some next)
    (hk : next.offers[k]? = some (.refused a)) :
    (∃ slots, next.queue = { s.queue with slots } ∧
      slots.free + slots.granted.length =
        s.queue.slots.free + s.queue.slots.granted.length) ∧
      (k ∉ s.queue.slots.granted → next.queue.length = s.queue.length) := by
  cases step_move hs with
  | @resumed _ b hj hr =>
      have hrefused : (s.queue.reoffer k (k, b)).1 = .refused := by
        rw [getElem?_set_self hj] at hk
        exact Offer.refused_of_ofAdmission (Option.some.inj hk)
      have hreoffer : s.queue.reoffer k (k, b) = (.refused, (s.queue.reoffer k (k, b)).2) :=
        Prod.ext hrefused rfl
      obtain ⟨hc, hq⟩ := reoffer_refused hreoffer
      constructor
      · exact ⟨_, hq, FairSemaphore.permits_resume_of_closed hc⟩
      · intro hout
        change (s.queue.reoffer k (k, b)).2.length = s.queue.length
        rw [hq]
        simp [JobQueue.length, FairSemaphore.resume, hout, hc]

/-- What becomes of a queue, of its items and of the calls at it when it is closed. -/
structure Ending (s : Calls α) : Prop where
  /-- The queue is closed if an offer made now is turned away, and does not wait either. -/
  refuses : ∀ a, s.queue.isClosed = true ↔
    ∃ next, s.step (.offer a) = some next ∧ next.offers[s.offers.size]? = some (.refused a)
  /-- Such an offer leaves nothing but its own end. -/
  unchanged : ∀ a, s.queue.isClosed = true →
    s.step (.offer a) = some { s with offers := s.offers.push (.refused a) }
  /-- An offer that waited and is turned away gives back a slot that it was granted, and changes
  nothing otherwise. -/
  turnedAway : ∀ k a next, s.step (.resume k) = some next →
    next.offers[k]? = some (.refused a) →
      (∃ slots, next.queue = { s.queue with slots } ∧
        slots.free + slots.granted.length =
          s.queue.slots.free + s.queue.slots.granted.length) ∧
        (k ∉ s.queue.slots.granted → next.queue.length = s.queue.length)
  /-- What it brought is never accepted. -/
  lost : ∀ (k : Nat) (a : α), s.offers[k]? = some (.refused a) → ∀ later t, s.run later = some t →
    ∀ b, (k, b) ∉ t.queue.accepted
  stays : s.queue.isClosed = true → ∀ later t, s.run later = some t → t.queue.isClosed = true
  /-- Whatever happens after the producers' side was closed, the first calls that return have the
  items of the buffer, in their order, and all further calls have none. -/
  drains : s.queue.producing = false → ∀ (later : List (Label α)) (i : Nat) (r : Option (Nat × α)),
    (s.returns later)[i]? = some r → r = s.queue.buffer[i]?
  /-- However the calls go on that wait then, they go on to their ends. -/
  wakes : s.queue.producing = false → ∀ labels t, (∀ label ∈ labels, label.ofTurn = true) →
    s.run labels = some t → labels.length ≤ 2 * s.asks.size ∧
      ((∀ label, label.ofTurn = true → t.step label = none) → ∀ k : Nat,
        s.asks[k]? = some .running → ∃ c, t.asks[k]? = some c ∧ Answered c)

theorem Ending.of_reachable (h : Reachable capacity s) : s.Ending := by
  have hsound := Sound.of_reachable h
  have hrefused (a : α) (hc : s.queue.isClosed = true) :
      s.step (.offer a) = some { s with offers := s.offers.push (.refused a) } := by
    simp only [step, offer_of_closed hc]
    rfl
  refine ⟨?_, hrefused, fun k a next => refused_of_resume, ?_,
    fun hc later t => closed_of_run h hc, fun hp later i r => returns_of_closed h hp, ?_⟩
  · intro a
    constructor
    · intro hc
      exact ⟨_, hrefused a hc, Array.getElem?_push_size⟩
    · rintro ⟨next, hs, hk⟩
      by_contra hopen
      have hanswer := offer_of_open (Bool.not_eq_true _ ▸ hopen) s.offers.size (s.offers.size, a)
      cases step_move hs with
      | offered _ =>
          rw [Array.getElem?_push_size] at hk
          exact hanswer (Offer.refused_of_ofAdmission (Option.some.inj hk))
  · intro k a hk later t hr b hb
    have hstays : t.offers[k]? = some (.refused a) := by
      clear hb hsound hrefused
      induction later generalizing s with
      | nil =>
          cases hr
          exact hk
      | cons label later ih =>
          obtain ⟨next, hs, hr⟩ := run_cons.mp hr
          exact ih (h.step label hs) ((step_move hs).settled.1 k _ hk rfl) hr
    have haccepted := ((Sound.of_reachable (h.run hr)).offers.accepted k b).mp hb
    rw [hstays] at haccepted
    cases haccepted
  · intro hp labels t hl hr
    constructor
    · calc labels.length
        _ ≤ s.queue.turnsLeft := length_le_turnsLeft hsound.queue hl hr
        _ ≤ 2 * s.queue.callers.length := turnsLeft_le
        _ ≤ 2 * s.asks.size := Nat.mul_le_mul_left 2 (asked_of_reachable h).length_callers
    · intro hn k hk
      have hpt := (producing_of_run hr).mpr (.inl hp)
      obtain ⟨c, hc, rfl | hanswered⟩ := answered_of_run hl hr hk (.inl rfl)
      · exact absurd hc (not_running_of_stuck (h.run hr) hpt hn k)
      · exact ⟨c, hc, hanswered⟩

end JobQueue.Calls

end LoadBench
