import LoadBench.Proofs.Fits
import LoadBench.Proofs.Ledger

/-!
The ledger of an engine. It enters each job where the engine has it: in the caller's hand, in the
buffer of a queue, in the hands of a worker, and on each record that is kept. Every step of the
engine is some moves of this ledger, so its books are in order in every state that a run can reach.
-/

namespace LoadBench

/-- Jobs that stand at the same station. -/
def Job.entriesAt (s : Station) (jobs : List Job) : Multiset Entry :=
  (jobs.map fun job => ⟨s, job.origin⟩ : List Entry)

/-- Where a worker has its job. -/
def Activity.station? : Activity → Option (Job × Station)
  | .holding job => some (job, .holding)
  | .executing job conduct => some (job, .running (conduct.outcome?.getD true))
  | .stalled job fault => some (job, .running fault.isSome)
  | .finished job failed => some (job, .finishing failed)
  | .failing job => some (job, .failing)
  | .recorded job => some (job, .recording)
  | _ => none

def Activity.entries (a : Activity) : Multiset Entry :=
  match a.station? with
  | some (job, s) => {⟨s, job.origin⟩}
  | none => 0

def Progress.entries (progress : Progress) : Multiset Entry :=
  match progress.hand with
  | some (job, _) => {⟨.offered, job.origin⟩}
  | none => 0

/-- What is on record of the beginning of a job's execution. -/
def Execution.entries (x : Execution) : Multiset Entry :=
  match x.origin, x.conduct.outcome? with
  | .job _ _, some failed => {⟨.begun failed, x.origin⟩}
  | .job _ _, none => {⟨.collapsed, x.origin⟩}
  | .direct _ _, _ => 0

def Event.entries : Event → Multiset Entry
  | .finished (.job latch index) failed => {⟨.finished failed, .job latch index⟩}
  | .tallied (.job latch index) => {⟨.tallied, .job latch index⟩}
  | .counted (.job latch index) failed => {⟨.counted failed, .job latch index⟩}
  | .completed latch index => {⟨.completed, .job latch index⟩}
  | .lost latch index => {⟨.lost, .job latch index⟩}
  | _ => 0

def JobQueue.entries {π κ : Type} (q : JobQueue Job π κ) : Multiset Entry :=
  Job.entriesAt .discarded q.discarded.toList + Job.entriesAt .accepted q.accepted.toList +
    Job.entriesAt .queued q.buffer + Job.entriesAt .delivered q.delivered.toList

def WorkerPool.entries (p : WorkerPool) : Multiset Entry :=
  p.queue.entries + total (fun w => w.activity.entries) p.workers

namespace Engine

/-- All entries of an engine. -/
def entries (e : Engine) : Multiset Entry :=
  e.progress.entries + total WorkerPool.entries e.pools + total Execution.entries e.executions +
    total Event.entries e.events

/-- The ledger of an engine. -/
def ledger (e : Engine) : Ledger := ⟨e.batches, e.entries⟩

end Engine

namespace Ledger.Exchange

variable {before after before' after' : Multiset Entry} {o : Origin}
  {out into out' into' : List Station}

theorem refl (entries : Multiset Entry) (o : Origin) : Exchange entries entries o [] [] := rfl

theorem of_eq (h : after = before) : Exchange before after o [] [] := by
  subst h
  exact refl _ o

/-- What happens to two parts of a bag happens to the bag. -/
theorem add (h : Exchange before after o out into) (h' : Exchange before' after' o out' into') :
    Exchange (before + before') (after + after') o (out ++ out') (into ++ into') := by
  have hsplit (l l' : List Station) :
      entriesOf o (l ++ l') = entriesOf o l + entriesOf o l' := by
    simp [entriesOf]
  simp only [Exchange] at h h' ⊢
  rw [hsplit, hsplit, add_add_add_comm, h, h', add_add_add_comm]

/-- What enters a bag after something else did. -/
theorem then_into (h : Exchange before after o [] into) (h' : Exchange after after' o [] into') :
    Exchange before after' o [] (into ++ into') := by
  have hsplit : entriesOf o (into ++ into') = entriesOf o into + entriesOf o into' := by
    simp [entriesOf]
  have hnil (entries : Multiset Entry) : entries + entriesOf o [] = entries := add_zero entries
  simp only [Exchange, hnil] at h h' ⊢
  rw [h', h, hsplit, add_assoc]

/-- Exchanging one part of a bag is exchanging what the part stands for. -/
theorem part {part part' : Multiset Entry} (h : after + part = before + part')
    (hx : Exchange part part' o out into) : Exchange before after o out into := by
  simp only [Exchange] at hx ⊢
  have hboth : after + entriesOf o out + part = before + entriesOf o into + part := by
    rw [add_right_comm, h, add_assoc, hx, add_assoc, add_comm part]
  exact add_right_cancel hboth

end Ledger.Exchange

namespace Engine

open Ledger (Exchange)

variable {b : Backend} {e next : Engine}

/-- An exchange at the queue and one in the hands of a worker are one in the pools. -/
theorem exchange_put {i k : Nat} {p : WorkerPool} {w : Worker} {q : JobQueue Job Unit Nat}
    {a : Activity} {o : Origin} {o₁ o₂ i₁ i₂ : List Station} (hp : e.pools[i]? = some p)
    (hw : p.workers[k]? = some w) (hq : Exchange p.queue.entries q.entries o o₁ i₁)
    (ha : Exchange w.activity.entries a.entries o o₂ i₂) :
    Exchange (total WorkerPool.entries e.pools)
      (total WorkerPool.entries (e.put i { p with queue := q } k a).pools) o
      (o₁ ++ o₂) (i₁ ++ i₂) := by
  have hworkers : Exchange (total (fun w => w.activity.entries) p.workers)
      (total (fun w => w.activity.entries)
        (p.workers.modify k fun w => { w with activity := a })) o o₂ i₂ :=
    .part (total_modify (fun w => w.activity.entries) (fun w => { w with activity := a }) hw) ha
  have hpool : Exchange p.entries ({ p with queue := q }.setActivity k a).entries o
      (o₁ ++ o₂) (i₁ ++ i₂) := hq.add hworkers
  exact .part (total_set WorkerPool.entries ({ p with queue := q }.setActivity k a) hp) hpool

theorem entries_eq_of_items {π κ : Type} {q q' : JobQueue Job π κ} (h : q'.items = q.items) :
    q'.entries = q.entries := by
  simp only [JobQueue.items, Prod.mk.injEq] at h
  obtain ⟨hb, ha, hd, hx⟩ := h
  simp only [JobQueue.entries, hb, ha, hd, hx]

theorem exchange_record {o : Origin} {into : List Station} (event : Event)
    (h : event.entries = Ledger.entriesOf o into) :
    Exchange (total Event.entries e.events) (total Event.entries (e.record event).events) o []
      into := by
  simp only [record, total_push, h]
  exact add_zero _

/-- An exchange in each part of an engine is one in the engine. -/
theorem exchange {o : Origin} {o₁ o₂ o₃ o₄ i₁ i₂ i₃ i₄ : List Station}
    (hprogress : Exchange e.progress.entries next.progress.entries o o₁ i₁)
    (hpools : Exchange (total WorkerPool.entries e.pools) (total WorkerPool.entries next.pools)
      o o₂ i₂)
    (hexecutions : Exchange (total Execution.entries e.executions)
      (total Execution.entries next.executions) o o₃ i₃)
    (hevents : Exchange (total Event.entries e.events) (total Event.entries next.events) o o₄ i₄) :
    Exchange e.entries next.entries o (o₁ ++ o₂ ++ o₃ ++ o₄) (i₁ ++ i₂ ++ i₃ ++ i₄) :=
  ((hprogress.add hpools).add hexecutions).add hevents

/-- A step that keeps the latches and takes a job along a passage. -/
theorem ledger_pass {job : Job} {out into o₁ o₂ o₃ o₄ i₁ i₂ i₃ i₄ : List Station}
    (h : Passage out into) (hr : Station.recording ∉ out) (hb : next.batches = e.batches)
    (hprogress : Exchange e.progress.entries next.progress.entries job.origin o₁ i₁)
    (hpools : Exchange (total WorkerPool.entries e.pools) (total WorkerPool.entries next.pools)
      job.origin o₂ i₂)
    (hexecutions : Exchange (total Execution.entries e.executions)
      (total Execution.entries next.executions) job.origin o₃ i₃)
    (hevents : Exchange (total Event.entries e.events) (total Event.entries next.events)
      job.origin o₄ i₄)
    (hout : o₁ ++ o₂ ++ o₃ ++ o₄ = out) (hinto : i₁ ++ i₂ ++ i₃ ++ i₄ = into) :
    Relation.ReflTransGen Ledger.Move e.ledger next.ledger := by
  rw [show next.ledger = { e.ledger with entries := next.entries } by rw [ledger, ledger, hb]]
  have hx := exchange hprogress hpools hexecutions hevents
  rw [hout, hinto] at hx
  exact .single (.pass h hr next.entries hx)

/-- A step that moves no job. -/
theorem ledger_same (hb : next.batches = e.batches)
    (hprogress : next.progress.entries = e.progress.entries)
    (hpools : total WorkerPool.entries next.pools = total WorkerPool.entries e.pools)
    (hexecutions : total Execution.entries next.executions = total Execution.entries e.executions)
    (hevents : total Event.entries next.events = total Event.entries e.events) :
    Relation.ReflTransGen Ledger.Move e.ledger next.ledger := by
  have hsame : next.ledger = e.ledger := by
    simp only [ledger, entries, hb, hprogress, hpools, hexecutions, hevents]
  rw [hsame]

/-- A worker's step that moves no job. -/
theorem pools_put_eq {i k : Nat} {p : WorkerPool} {w : Worker} {q : JobQueue Job Unit Nat}
    {a : Activity} (hp : e.pools[i]? = some p) (hw : p.workers[k]? = some w)
    (hq : q.items = p.queue.items) (ha : a.entries = w.activity.entries) :
    total WorkerPool.entries (e.put i { p with queue := q } k a).pools =
      total WorkerPool.entries e.pools := by
  have hx := exchange_put hp hw (.of_eq (o := .job 0 0) (entries_eq_of_items hq)) (.of_eq ha)
  exact add_right_cancel hx

theorem entriesAt_append (s : Station) (jobs jobs' : List Job) :
    Job.entriesAt s (jobs ++ jobs') = Job.entriesAt s jobs + Job.entriesAt s jobs' := by
  simp [Job.entriesAt]

theorem exchange_append (s : Station) (jobs : List Job) (job : Job) :
    Exchange (Job.entriesAt s jobs) (Job.entriesAt s (jobs ++ [job])) job.origin [] [s] := by
  simp only [Exchange, Job.entriesAt, Ledger.entriesOf, List.map_append, List.map_cons,
    List.map_nil]
  exact add_zero _

theorem exchange_cons (s : Station) (jobs : List Job) (job : Job) :
    Exchange (Job.entriesAt s (job :: jobs)) (Job.entriesAt s jobs) job.origin [s] [] := by
  change Job.entriesAt s jobs + {⟨s, job.origin⟩} = {⟨s, job.origin⟩} + Job.entriesAt s jobs + 0
  rw [add_comm, add_zero]

/-- An accepted job is on record and in the buffer. -/
theorem exchange_push {π κ : Type} (q : JobQueue Job π κ) (job : Job) :
    Exchange q.entries (q.push job).entries job.origin [] [.accepted, .queued] := by
  have haccepted := exchange_append .accepted q.accepted.toList job
  rw [← Array.toList_push] at haccepted
  exact (((Exchange.refl _ _).add haccepted).add (exchange_append .queued q.buffer job)).add
    (.refl _ _)

/-- A job that is taken from the buffer is on record as delivered. -/
theorem exchange_receive {q q' : JobQueue Job Unit Nat} {job : Job}
    (h : q.receive = (.item job, q')) :
    Exchange q.entries q'.entries job.origin [.queued] [.delivered] := by
  obtain ⟨rest, hb, rfl⟩ := JobQueue.receive_item h
  have hdelivered := exchange_append .delivered q.delivered.toList job
  rw [← Array.toList_push] at hdelivered
  have hqueued := exchange_cons .queued rest job
  rw [← hb] at hqueued
  exact (((Exchange.refl _ _).add (.refl _ _)).add hqueued).add hdelivered

/-- A worker has a job at another station. -/
theorem exchange_move {a a' : Activity} {job : Job} {s s' : Station}
    (ha : a.station? = some (job, s)) (ha' : a'.station? = some (job, s')) :
    Exchange a.entries a'.entries job.origin [s] [s'] := by
  simp only [Activity.entries, ha, ha']
  exact add_comm _ _

/-- A worker takes a job in its hands. -/
theorem exchange_hold {a a' : Activity} {job : Job} {s : Station} (ha : a.station? = none)
    (ha' : a'.station? = some (job, s)) : Exchange a.entries a'.entries job.origin [] [s] := by
  simp only [Activity.entries, ha, ha']
  exact add_comm _ _

/-- A worker lets a job go. -/
theorem exchange_let {a a' : Activity} {job : Job} {s : Station}
    (ha : a.station? = some (job, s)) (ha' : a'.station? = none) :
    Exchange a.entries a'.entries job.origin [s] [] := by
  simp only [Activity.entries, ha, ha']
  exact add_comm _ _

/-- A worker's step that takes the job in its hands along a passage. -/
theorem ledger_hands {i k : Nat} {p : WorkerPool} {w : Worker} {a : Activity} {job : Job}
    {out into o₂ i₂ i₃ i₄ : List Station} (hp : e.pools[i]? = some p)
    (hw : p.workers[k]? = some w) (h : Passage out into) (hr : Station.recording ∉ out)
    (hb : next.batches = e.batches) (hprogress : next.progress = e.progress)
    (hpools : next.pools = (e.put i p k a).pools)
    (ha : Exchange w.activity.entries a.entries job.origin o₂ i₂)
    (hexecutions : Exchange (total Execution.entries e.executions)
      (total Execution.entries next.executions) job.origin [] i₃)
    (hevents : Exchange (total Event.entries e.events) (total Event.entries next.events)
      job.origin [] i₄)
    (hout : o₂ = out) (hinto : i₂ ++ i₃ ++ i₄ = into) :
    Relation.ReflTransGen Ledger.Move e.ledger next.ledger := by
  have hput := exchange_put hp hw (.refl p.queue.entries job.origin) ha
  rw [← hpools] at hput
  refine ledger_pass h hr hb (.of_eq (by rw [hprogress])) hput hexecutions hevents ?_ ?_
  · simpa using hout
  · simpa using hinto

theorem exchange_execution {o : Origin} {into : List Station} (conn : Nat) (command : Command)
    (h : Execution.entries ⟨conn, command, o, b.execute e.executions conn command⟩ =
      Ledger.entriesOf o into) :
    Exchange (total Execution.entries e.executions)
      (total Execution.entries (e.beginExecution b conn command o).2.executions) o [] into := by
  simp only [beginExecution, record, total_push, h]
  exact add_zero _

/-- A job completes, or the worker that would complete it finds its latch released. -/
theorem exchange_end {i k : Nat} {p : WorkerPool} {w : Worker} {a : Activity} {job : Job}
    {s : Station} {event : Event} (hp : e.pools[i]? = some p) (hw : p.workers[k]? = some w)
    (ha : w.activity = .recorded job) (ha' : a.station? = none)
    (hevent : event.entries = Ledger.entriesOf job.origin [s])
    (hprogress : next.progress = e.progress) (hpools : next.pools = (e.put i p k a).pools)
    (hexecutions : next.executions = e.executions)
    (hevents : next.events = (e.record event).events) :
    Exchange e.entries next.entries job.origin [.recording] [s] := by
  have hput := exchange_put hp hw (.refl p.queue.entries job.origin)
    (exchange_let (s := .recording) (by rw [ha]; rfl) ha')
  rw [← hpools] at hput
  have hrecord := exchange_record (e := e) event hevent
  rw [← hevents] at hrecord
  exact exchange (.of_eq (by rw [hprogress])) hput (.of_eq (by rw [hexecutions])) hrecord

/-- Jobs that are discarded one after the other. -/
theorem discards (L : Ledger) (jobs : List Job) (rest : Multiset Entry)
    (h : L.entries = rest + Job.entriesAt .queued jobs) :
    Relation.ReflTransGen Ledger.Move L ⟨L.batches, rest + Job.entriesAt .discarded jobs⟩ := by
  induction jobs generalizing L rest with
  | nil =>
      obtain ⟨batches, entries⟩ := L
      change entries = rest + Job.entriesAt .queued [] at h
      subst h
      exact .refl
  | cons job jobs ih =>
      have hdiscarded : Exchange rest (rest + {⟨.discarded, job.origin⟩}) job.origin []
          [.discarded] := add_zero _
      have hx : Exchange L.entries (rest + {⟨.discarded, job.origin⟩} + Job.entriesAt .queued jobs)
          job.origin [.queued] [.discarded] := by
        rw [h]
        exact hdiscarded.add (exchange_cons .queued jobs job)
      have hfirst : Ledger.Move L
          ⟨L.batches, rest + {⟨.discarded, job.origin⟩} + Job.entriesAt .queued jobs⟩ :=
        .pass .discard (by simp) _ hx
      have hrest := ih ⟨L.batches, rest + {⟨.discarded, job.origin⟩} + Job.entriesAt .queued jobs⟩
        (rest + {⟨.discarded, job.origin⟩}) rfl
      rw [add_assoc rest _ (Job.entriesAt .discarded jobs)] at hrest
      exact .head hfirst hrest

theorem count_entriesAt_of_ne {s : Station} {x : Entry} (h : x.station ≠ s) (jobs : List Job) :
    (Job.entriesAt s jobs).count x = 0 := by
  rw [Job.entriesAt, Multiset.coe_count, List.count_eq_zero]
  rintro hmem
  obtain ⟨job, _, rfl⟩ := List.mem_map.mp hmem
  exact h rfl

/-- A step that keeps the latches and discards the jobs of a buffer. -/
theorem ledger_discards (jobs : List Job) (hb : next.batches = e.batches)
    (hprogress : next.progress.entries = e.progress.entries)
    (hpools : total WorkerPool.entries next.pools + Job.entriesAt .queued jobs =
      total WorkerPool.entries e.pools + Job.entriesAt .discarded jobs)
    (hexecutions : total Execution.entries next.executions = total Execution.entries e.executions)
    (hevents : total Event.entries next.events = total Event.entries e.events) :
    Relation.ReflTransGen Ledger.Move e.ledger next.ledger := by
  have hx : next.entries + Job.entriesAt .queued jobs =
      e.entries + Job.entriesAt .discarded jobs := by
    have hall := congrArg (e.progress.entries + · + total Execution.entries e.executions +
      total Event.entries e.events) hpools
    simp only [entries, hprogress, hexecutions, hevents]
    convert hall using 1 <;> abel
  have hle : Job.entriesAt .queued jobs ≤ e.entries := by
    rw [Multiset.le_iff_count]
    intro x
    have hcount := congrArg (Multiset.count x) hx
    rw [Multiset.count_add, Multiset.count_add] at hcount
    by_cases hs : x.station = .queued
    · rw [count_entriesAt_of_ne (s := .discarded) (by simp [hs])] at hcount
      omega
    · rw [count_entriesAt_of_ne hs]
      exact Nat.zero_le _
  obtain ⟨rest, hrest⟩ := Multiset.le_iff_exists_add.mp hle
  rw [add_comm] at hrest
  have hnext : next.entries = rest + Job.entriesAt .discarded jobs := by
    apply add_right_cancel (b := Job.entriesAt .queued jobs)
    rw [hx, hrest, add_right_comm]
  have h := discards e.ledger jobs rest hrest
  rw [← hnext] at h
  rw [show next.ledger = ⟨e.batches, next.entries⟩ by rw [ledger, hb]]
  exact h

theorem total_setActivity {k : Nat} {p : WorkerPool} {w : Worker} {a : Activity}
    (hw : p.workers[k]? = some w) (ha : a.entries = w.activity.entries) :
    total (fun w => w.activity.entries) (p.setActivity k a).workers =
      total (fun w => w.activity.entries) p.workers := by
  apply total_modify_eq
  intro w' hw'
  rw [hw] at hw'
  cases hw'
  exact ha

theorem entries_of_not_ofJob {event : Event} (h : event.ofJob = false) : event.entries = 0 := by
  cases event with
  | finished origin failed | tallied origin | counted origin failed | begun origin conn
  | generated origin =>
      cases origin <;> first | rfl | cases h
  | completed latch index | lost latch index => cases h
  | _ => rfl

theorem total_note (events : List Event) (h : ∀ event ∈ events, event.ofJob = false) :
    total Event.entries (e.note events).events = total Event.entries e.events := by
  have hzero : (events.map Event.entries).sum = 0 := by
    apply List.sum_eq_zero
    intro x hx
    obtain ⟨event, hmem, rfl⟩ := List.mem_map.mp hx
    exact entries_of_not_ofJob (h event hmem)
  simp only [note, total, Array.toList_append, List.map_append, List.sum_append, hzero, add_zero]

/-- Pools in which a handle to one queue is dropped, and with the last one its jobs. -/
theorem total_dropReceiver {pools : Array WorkerPool} {i : Nat} {p : WorkerPool}
    (hp : pools[i]? = some p) (p' : WorkerPool) (hq : p'.queue.items = p.dropReceiver.queue.items)
    (hw : total (fun w => w.activity.entries) p'.workers =
      total (fun w => w.activity.entries) p.workers) :
    ∃ jobs, total WorkerPool.entries (pools.set! i p') + Job.entriesAt .queued jobs =
      total WorkerPool.entries pools + Job.entriesAt .discarded jobs := by
  have hset := total_set WorkerPool.entries p' hp
  rcases JobQueue.items_dropReceiver (q := p.queue) with hsame | hdrop
  · refine ⟨[], ?_⟩
    have hentries : p'.entries = p.entries := by
      rw [WorkerPool.entries, WorkerPool.entries, hw, entries_eq_of_items (hq.trans hsame)]
    rw [hentries] at hset
    rw [add_right_cancel hset]
    rfl
  · refine ⟨p.queue.buffer, ?_⟩
    have hitems := hq.trans hdrop
    simp only [JobQueue.items, Prod.mk.injEq] at hitems
    obtain ⟨hbuffer, haccepted, hdelivered, hdiscarded⟩ := hitems
    have hentries : p'.entries + Job.entriesAt .queued p.queue.buffer =
        p.entries + Job.entriesAt .discarded p.queue.buffer := by
      simp only [WorkerPool.entries, JobQueue.entries, hbuffer, haccepted, hdelivered, hdiscarded,
        hw, Array.toList_append, entriesAt_append]
      change _ + _ + _ + 0 + _ + _ + _ = _
      abel
    apply add_right_cancel (b := p.entries)
    rw [add_right_comm, hset, add_assoc, hentries, ← add_assoc, add_right_comm]

theorem WorkerMove.ledger {i k : Nat} {p : WorkerPool} {w : Worker}
    (hp : e.pools[i]? = some p) (hw : p.workers[k]? = some w) (h : WorkerMove b e i k p w next) :
    Relation.ReflTransGen Ledger.Move e.ledger next.ledger := by
  cases h with
  | asks ha =>
      refine ledger_same rfl rfl (pools_put_eq hp hw JobQueue.items_ask ?_) rfl rfl
      rw [ha]
      split <;> rfl
  | takesTurn ha hr =>
      exact ledger_same rfl rfl (pools_put_eq hp hw JobQueue.items_takeTurn (by rw [ha]; rfl)) rfl
        rfl
  | @takes job queue ha hq =>
      have hhand : Exchange w.activity.entries (Activity.holding job).entries job.origin []
          [.holding] := exchange_hold (by rw [ha]; rfl) rfl
      exact ledger_pass .take (by simp) rfl (.refl _ _)
        (exchange_put hp hw (exchange_receive hq) hhand) (.refl _ _) (.refl _ _) rfl rfl
  | ends ha hq =>
      obtain ⟨_, _, rfl⟩ := JobQueue.receive_ended hq
      exact ledger_same rfl rfl (pools_put_eq hp hw JobQueue.items_endTurn (by rw [ha]; rfl)) rfl
        rfl
  | @begins job failed ha hc =>
      have hbegun : Exchange (total Execution.entries e.executions)
          (total Execution.entries (e.beginExecution b w.conn job.command job.origin).2.executions)
          job.origin [] [.begun failed] := by
        apply exchange_execution
        simp only [Execution.entries, Job.origin, hc]
        rfl
      have hrunning : (Activity.executing job
          (b.execute e.executions w.conn job.command)).station? = some (job, .running failed) := by
        simp [Activity.station?, hc]
      exact ledger_hands hp hw (.begin failed) (by simp) rfl rfl rfl
        (exchange_move (by rw [ha]; rfl) hrunning) hbegun (exchange_record _ rfl) rfl rfl
  | @collapses job ha hc =>
      have hcollapsed : Exchange (total Execution.entries e.executions)
          (total Execution.entries (e.beginExecution b w.conn job.command job.origin).2.executions)
          job.origin [] [.collapsed] := by
        apply exchange_execution
        simp only [Execution.entries, Job.origin, hc]
        rfl
      have hlost : Exchange (total Event.entries e.events) (total Event.entries
          ((e.record (.begun job.origin w.conn)).record (.lost job.latch job.index)).events)
          job.origin [] [.lost] := by
        have hbegun : Event.entries (.begun job.origin w.conn) = 0 := rfl
        simp only [record, total_push, hbegun, add_zero]
        exact add_zero _
      exact ledger_hands hp hw .collapse (by simp) rfl rfl rfl
        (exchange_let (by rw [ha]; rfl) rfl) hcollapsed hlost rfl rfl
  | @stalls job fault ha =>
      exact ledger_same rfl rfl (pools_put_eq hp hw rfl (by rw [ha]; rfl)) rfl rfl
  | @finishes job failed ha =>
      have hstation : w.activity.station? = some (job, .running failed) := by
        cases hact : w.activity <;> simp_all [Activity.outcome?, Activity.station?]
      exact ledger_hands hp hw (.finish failed) (by simp) rfl rfl rfl
        (exchange_move hstation rfl) (.refl _ _) (exchange_record _ rfl) rfl rfl
  | @counts job ha =>
      have htallied : Exchange (total Event.entries e.events)
          (total Event.entries (e.countExecution p.tally job.origin).events) job.origin []
          [.tallied] := exchange_record (.tallied job.origin) rfl
      have hcounted : Exchange (total Event.entries (e.countExecution p.tally job.origin).events)
          (total Event.entries ((e.countExecution p.tally job.origin).record
            (.counted job.origin false)).events) job.origin [] [.counted false] :=
        exchange_record (.counted job.origin false) rfl
      exact ledger_hands hp hw .count (by simp) rfl rfl rfl (exchange_move (by rw [ha]; rfl) rfl)
        (.refl _ _) (htallied.then_into hcounted) rfl rfl
  | tallies ha =>
      exact ledger_hands hp hw .tally (by simp) rfl rfl rfl (exchange_move (by rw [ha]; rfl) rfl)
        (.refl _ _) (exchange_record _ rfl) rfl rfl
  | countsFailure ha =>
      exact ledger_hands hp hw .countFailure (by simp) rfl rfl rfl
        (exchange_move (by rw [ha]; rfl) rfl) (.refl _ _) (exchange_record _ rfl) rfl rfl
  | @completes job batch left ha hb hl =>
      exact .single (.complete hb hl _ (exchange_end hp hw ha rfl rfl rfl rfl rfl rfl))
  | misuses ha hl =>
      exact .single (.misuse hl _ (exchange_end hp hw ha rfl rfl rfl rfl rfl rfl))
  | @leaves panicked panicked' ha =>
      have hidle := total_setActivity hw (a := .ended panicked') (by rw [ha]; rfl)
      obtain ⟨jobs, hpools⟩ := total_dropReceiver hp (p.dropReceiver.setActivity k _) rfl hidle
      have hclosed : ∀ event ∈ [Event.closed w.conn], event.ofJob = false := by simp [Event.ofJob]
      exact ledger_discards jobs rfl rfl hpools rfl (total_note (e := e) _ hclosed)

/-- The caller lets a job go from its hand. -/
theorem exchange_hand {progress progress' : Progress} {job : Job} {waits : Bool}
    (hh : progress.hand = some (job, waits)) (hh' : progress'.hand = none) :
    Exchange progress.entries progress'.entries job.origin [.offered] [] := by
  simp only [Progress.entries, hh, hh']
  exact add_comm _ _

theorem entries_of_hand_none {progress : Progress} (h : progress.hand = none) :
    progress.entries = 0 := by
  simp only [Progress.entries, h]

/-- A pool that is another one now, with the same jobs. -/
theorem total_modify_items (pools : Array WorkerPool) (i : Nat) (f : WorkerPool → WorkerPool)
    (hitems : ∀ p, (f p).queue.items = p.queue.items) (hworkers : ∀ p, (f p).workers = p.workers) :
    total WorkerPool.entries (pools.modify i f) = total WorkerPool.entries pools := by
  apply total_modify_eq
  intro p _
  rw [WorkerPool.entries, WorkerPool.entries, hworkers, entries_eq_of_items (hitems p)]

theorem total_closeDriven (pools : Array WorkerPool) (d : Option Driver) :
    total WorkerPool.entries (closeDriven pools d) = total WorkerPool.entries pools := by
  cases d with
  | none => rfl
  | some d => exact total_modify_items _ _ _ (fun _ => rfl) (fun _ => rfl)

theorem total_withdrawDriven (pools : Array WorkerPool) (d : Option Driver) :
    total WorkerPool.entries (withdrawDriven pools d) = total WorkerPool.entries pools := by
  cases d with
  | none => rfl
  | some d => exact total_modify_items _ _ _ (fun _ => rfl) (fun _ => rfl)

theorem Quiet.ledger (h : Quiet e next) :
    Relation.ReflTransGen Ledger.Move e.ledger next.ledger := by
  refine ledger_same h.batches ?_ ?_ ?_ ?_
  · rw [entries_of_hand_none h.hand, entries_of_hand_none (Progress.hand_of_plain h.after)]
  · rcases h.pools with hsame | ⟨pool, hdialed⟩
    · rw [hsame]
    · rw [hdialed]
      exact total_modify_items _ _ _ (fun _ => rfl) (fun _ => rfl)
  · rcases h.executions with hsame | ⟨x, run, index, hpush, hx⟩
    · rw [hsame]
    · have hzero : x.entries = 0 := by
        simp only [Execution.entries, hx]
      rw [hpush, total_push, hzero, add_zero]
  · obtain ⟨events, hevents, hnot⟩ := h.events
    rw [hevents]
    exact total_note _ hnot

theorem entries_at_rest {progress : Progress} (h : progress.atRest = true) :
    progress.entries = 0 :=
  entries_of_hand_none (Progress.hand_at_rest h).1

/-- Pools in which one queue is another one now, with the same jobs. -/
theorem total_set_items {pools : Array WorkerPool} {i : Nat} {p p' : WorkerPool}
    (hp : pools[i]? = some p) (hitems : p'.queue.items = p.queue.items)
    (hworkers : total (fun w => w.activity.entries) p'.workers =
      total (fun w => w.activity.entries) p.workers) :
    total WorkerPool.entries (pools.set! i p') = total WorkerPool.entries pools := by
  have hset := total_set WorkerPool.entries p' hp
  have hentries : p'.entries = p.entries := by
    rw [WorkerPool.entries, WorkerPool.entries, hworkers, entries_eq_of_items hitems]
  rw [hentries] at hset
  exact add_right_cancel hset

/-- Pools in which a job is accepted by one queue. -/
theorem exchange_accept {i : Nat} {p : WorkerPool} {job : Job} {waits : Bool}
    {queue : JobQueue Job Unit Nat} (hp : e.pools[i]? = some p)
    (hq : p.queue.enter waits job = (.taken, queue)) :
    Exchange (total WorkerPool.entries e.pools)
      (total WorkerPool.entries (e.setPool i { p with queue }).pools) job.origin []
      [.accepted, .queued] := by
  obtain ⟨slots, rfl⟩ := JobQueue.items_enter_taken hq
  have hpush : Exchange p.queue.entries ({ p.queue with slots }.push job).entries job.origin []
      [.accepted, .queued] := exchange_push { p.queue with slots } job
  have hpool : Exchange p.entries
      { p with queue := { p.queue with slots }.push job }.entries job.origin []
      [.accepted, .queued] := hpush.add (.refl _ _)
  exact .part (total_set WorkerPool.entries _ hp) hpool

/-- A step that makes a latch and moves no job. -/
theorem ledger_latch {size : Nat} {owned : Bool}
    (hb : next.batches = e.batches.push { latch := ⟨size⟩, size, owned })
    (hx : next.entries = e.entries) :
    Relation.ReflTransGen Ledger.Move e.ledger next.ledger := by
  rw [Engine.ledger, Engine.ledger, hb, hx]
  exact .single (.latch e.ledger size owned)

/-- A step that makes a job, which stays in the caller's hand. -/
theorem ledger_make {latch : Nat} {batch : Batch} {job : Job}
    (hb : e.batches[latch]? = some batch) (hj : job.origin = .job latch batch.jobs)
    (hn : next.batches = e.batches.set! latch { batch with jobs := batch.jobs + 1 })
    (hh : e.progress.hand = none) {waits : Bool} (hh' : next.progress.hand = some (job, waits))
    (hpools : total WorkerPool.entries next.pools = total WorkerPool.entries e.pools)
    (hexecutions : next.executions = e.executions)
    (hevents : total Event.entries next.events = total Event.entries e.events) :
    Relation.ReflTransGen Ledger.Move e.ledger next.ledger := by
  have hprogress : Exchange e.progress.entries next.progress.entries job.origin [] [.offered] := by
    simp only [Progress.entries, hh, hh']
    exact (add_zero _).trans (zero_add _).symm
  have hx := exchange hprogress (.of_eq hpools) (.of_eq (by rw [hexecutions])) (.of_eq hevents)
  rw [hj] at hx
  rw [Engine.ledger, Engine.ledger, hn]
  exact .single (.make (L := e.ledger) hb next.entries hx)

/-- A step that makes a job, which goes on at once. -/
theorem ledger_make_pass {latch : Nat} {batch : Batch} {job : Job} {i₂ i₄ : List Station}
    (h : Passage [.offered] (i₂ ++ i₄)) (hb : e.batches[latch]? = some batch)
    (hj : job.origin = .job latch batch.jobs)
    (hn : next.batches = e.batches.set! latch { batch with jobs := batch.jobs + 1 })
    (hh : e.progress.hand = none) (hh' : next.progress.hand = none)
    (hpools : Exchange (total WorkerPool.entries e.pools) (total WorkerPool.entries next.pools)
      job.origin [] i₂)
    (hexecutions : next.executions = e.executions)
    (hevents : Exchange (total Event.entries e.events) (total Event.entries next.events)
      job.origin [] i₄) :
    Relation.ReflTransGen Ledger.Move e.ledger next.ledger := by
  have hprogress : next.progress.entries = e.progress.entries := by
    rw [entries_of_hand_none hh, entries_of_hand_none hh']
  have hx := exchange (.of_eq hprogress) hpools (.of_eq (by rw [hexecutions])) hevents
  simp only [List.nil_append, List.append_nil] at hx
  rw [hj] at hx
  have hmade : Exchange e.entries (e.entries + {⟨.offered, .job latch batch.jobs⟩})
      (.job latch batch.jobs) [] [.offered] := add_zero _
  have hgone : Exchange (e.entries + {⟨.offered, .job latch batch.jobs⟩}) next.entries
      (.job latch batch.jobs) [.offered] (i₂ ++ i₄) := by
    change next.entries + {_} = e.entries + {_} + _
    rw [show next.entries = _ from (add_zero _).symm.trans hx, add_right_comm]
  refine .head (.make (L := e.ledger) hb _ hmade) ?_
  rw [show next.ledger = ⟨_, next.entries⟩ by rw [Engine.ledger, hn]]
  exact .single (.pass h (by simp) next.entries hgone)

/-- A caller's step that lets its job go for good. -/
theorem ledger_lost {job : Job} {waits : Bool} (hh : e.progress.hand = some (job, waits))
    (hh' : next.progress.hand = none) (hb : next.batches = e.batches)
    (hpools : total WorkerPool.entries next.pools = total WorkerPool.entries e.pools)
    (hexecutions : next.executions = e.executions)
    (hevents : next.events = (e.record (.lost job.latch job.index)).events) :
    Relation.ReflTransGen Ledger.Move e.ledger next.ledger := by
  have hentries : Event.entries (.lost job.latch job.index) =
      Ledger.entriesOf job.origin [.lost] := rfl
  have hlost := exchange_record (e := e) _ hentries
  rw [← hevents] at hlost
  exact ledger_pass .drop (by simp) hb (exchange_hand hh hh') (.of_eq hpools)
    (.of_eq (by rw [hexecutions])) hlost rfl rfl

/-- Somebody outside makes a job for a latch. -/
theorem Fitting.submission (hf : e.Fitting) {s : Submission} (hr : e.progress = .submitting s) :
    ∃ batch, e.batches[s.latch]? = some batch ∧
      (e.newJob s.latch s.command).1.origin = .job s.latch batch.jobs ∧
      (e.newJob s.latch s.command).2.batches =
        e.batches.set! s.latch { batch with jobs := batch.jobs + 1 } := by
  have hfits := hf.progress
  rw [hr] at hfits
  obtain ⟨batch, hb, _, _⟩ := hfits
  obtain ⟨hjob, hbatches⟩ := newJob_of_getElem? hb s.command
  exact ⟨batch, hb, by rw [hjob]; rfl, hbatches⟩

theorem CallerMove.ledger (h : CallerMove e next) (hf : e.Fitting) :
    Relation.ReflTransGen Ledger.Move e.ledger next.ledger := by
  cases h with
  | quiet h => exact h.ledger
  | undertakes hr hl command left =>
      exact ledger_same rfl (entries_at_rest hr).symm rfl rfl rfl
  | @opens workers capacity hr hw hc split =>
      refine ledger_same rfl (entries_at_rest hr).symm ?_ rfl rfl
      simp only [openPool, total_push]
      exact add_zero _
  | @spawns pool workers split stalled p events hr hp he conn =>
      refine ledger_same rfl (by rw [hr]; rfl) (total_set_items hp rfl ?_) rfl (total_note _ he)
      simp only [WorkerPool.spawn, total_push]
      exact add_zero _
  | @abandons pool workers split stalled events hr he answer =>
      rcases hp : e.pools[pool]? with _ | p
      · refine ledger_same rfl (by rw [hr]; rfl) (total_modify_eq _ _ _ _ ?_) rfl (total_note _ he)
        intro p hp'
        rw [show (e.note events).pools[pool]? = none from hp] at hp'
        cases hp'
      · obtain ⟨jobs, hpools⟩ := total_dropReceiver hp p.close.dropReceiver
          JobQueue.items_dropReceiver_close rfl
        refine ledger_discards jobs rfl (by rw [hr]; rfl) ?_ rfl (total_note _ he)
        change total WorkerPool.entries (e.pools.modify pool _) + _ = _
        rw [modify_eq_set _ hp]
        exact hpools
  | @starts pool workers split p events hr hp hw he answer =>
      obtain ⟨jobs, hpools⟩ := total_dropReceiver hp p.dropReceiver rfl rfl
      refine ledger_discards jobs rfl (by rw [hr]; rfl) ?_ rfl (total_note _ he)
      change total WorkerPool.entries (closeDriven _ _) + _ = _
      rw [total_closeDriven]
      exact hpools
  | @closes d progress events hd hr he hp =>
      refine ledger_same rfl ?_ (total_closeDriven _ _) rfl (total_note _ he)
      rw [entries_at_rest hr]
      rcases hp with ⟨answer, rfl⟩ | rfl <;> rfl
  | @countsDirect d phase before number index todo reports hd hr =>
      exact ledger_same rfl (by rw [hr]; rfl) rfl rfl (total_note
        [.tallied (.direct number index), .counted (.direct number index) false]
        (by simp [Event.ofJob]))
  | @talliesDirect d phase before number index todo reports hd hr =>
      exact ledger_same rfl (by rw [hr]; rfl) rfl rfl
        (total_note [.tallied (.direct number index)] (by simp [Event.ofJob]))
  | @countsDirectFailure d phase before number index todo reports hd hr =>
      exact ledger_same rfl (by rw [hr]; rfl) rfl rfl
        (total_note [.counted (.direct number index) true] (by simp [Event.ofJob]))
  | @beginsPhase d phase todo reports hd hr hm =>
      refine ledger_latch rfl ?_
      simp only [entries, hr]
      rfl
  | entersPhase hd hr =>
      refine ledger_same rfl ?_ rfl rfl rfl
      rw [entries_of_hand_none Progress.hand_of_entry, hr]
      rfl
  | @generates phase before latch index todo reports command hr hm hi hg =>
      have hfits := hf.progress
      rw [hr] at hfits
      obtain ⟨_, batch, hb, _⟩ := hfits
      obtain ⟨hjob, hbatches⟩ := newJob_of_getElem? hb command
      have horigin : (e.newJob latch command).1.origin = .job latch batch.jobs := by rw [hjob]; rfl
      refine ledger_make hb horigin hbatches (by rw [hr]; rfl) rfl rfl rfl ?_
      simp only [record, total_push]
      exact add_zero _
  | awaits hr hm hi => exact ledger_same rfl (by rw [hr]; rfl) rfl rfl rfl
  | returns hr hm hl => exact ledger_same rfl (by rw [hr]; rfl) rfl rfl rfl
  | accepts hd hp hh hq =>
      exact ledger_pass .accept (by simp) rfl (exchange_hand hh (Progress.hand_accepted hh))
        (exchange_accept hp hq) (.refl _ _) (.refl _ _) rfl rfl
  | @parks d p job queue hd hp hh hq =>
      obtain ⟨_, _, _, rfl⟩ := JobQueue.offer_parked hq
      refine ledger_same rfl ?_ (total_set_items hp rfl rfl) rfl rfl
      simp only [Progress.entries, hh, Progress.hand_parked hh]
  | drops hd hp hh hq answer =>
      have hitems := JobQueue.items_enter_refused hq
      exact ledger_lost hh rfl rfl (total_set_items hp hitems rfl) rfl rfl
  | forgets hh answer => exact ledger_lost hh rfl rfl rfl rfl rfl
  | withdraws hh answer => exact ledger_lost hh rfl rfl (total_withdrawDriven _ _) rfl rfl
  | @submits d p s left queue hd hp hr hw hl hq =>
      obtain ⟨batch, hb, hjob, hbatches⟩ := hf.submission hr
      have hh := Progress.hand_of_submitting hr hw
      have henter : p.queue.enter false (e.newJob s.latch s.command).1 = (.taken, queue) := hq
      exact ledger_make_pass .accept hb hjob hbatches hh (Progress.hand_of_submitting rfl hw)
        (exchange_accept hp henter) rfl (.refl _ _)
  | @submitsParked d p s left queue hd hp hr hw hl hq =>
      obtain ⟨batch, hb, hjob, hbatches⟩ := hf.submission hr
      have hh := Progress.hand_of_submitting hr hw
      obtain ⟨_, _, _, rfl⟩ := JobQueue.offer_parked hq
      exact ledger_make hb hjob hbatches hh rfl (total_set_items hp rfl rfl) rfl rfl
  | @submitsDropped d p s left queue hd hp hr hw hl hq answer =>
      obtain ⟨batch, hb, hjob, hbatches⟩ := hf.submission hr
      have hh := Progress.hand_of_submitting hr hw
      obtain ⟨_, rfl⟩ := JobQueue.offer_refused hq
      have hentries : Event.entries (.lost s.latch (e.newJob s.latch s.command).1.index) =
          Ledger.entriesOf (e.newJob s.latch s.command).1.origin [.lost] := rfl
      exact ledger_make_pass .drop hb hjob hbatches hh rfl (.of_eq (total_set_items hp rfl rfl)) rfl
        (exchange_record _ hentries)

theorem Move.ledger {label : Label} (h : Move b e label next) (hf : e.Fitting) :
    Relation.ReflTransGen Ledger.Move e.ledger next.ledger := by
  cases h with
  | stay permits => exact .refl
  | latch size => exact .single (.latch e.ledger size false)
  | worker hp hw h => exact h.ledger hp hw
  | caller _ h => exact h.ledger hf

/-- The books of an engine are in order in every state that a run can reach. -/
theorem sound_of_reachable (h : Reachable b e) : e.ledger.Sound := by
  induction h with
  | start => exact Ledger.sound_empty
  | @step e next label h hs ih =>
      have hmoves := (step_move hs).ledger (e := e.bare) (fitting_of_reachable h).bare
      exact Ledger.Sound.of_moves ih hmoves

/-- No job is accepted more than once. -/
theorem number_accepted_le_one (h : Reachable b e) (o : Origin) :
    e.ledger.number o .accepted ≤ 1 := by
  have hoffered := ((sound_of_reachable h).flow o).offered
  have hmade := Ledger.made_le_one e.ledger o
  omega

end Engine

end LoadBench
