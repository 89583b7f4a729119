/-!
The stations of a job. Every job passes through the same ones: the caller's hand, the queue, a
worker's hand at each point of the worker's loop. Beside the station where a job is now, there is
what is on record of it for good: that it was accepted, delivered, begun, finished, counted,
completed, discarded or lost.

A passage takes a job from one station to the next and may write a record. How often a job stands
at each station is tied to how often each record was written by equations that every passage
keeps. Nothing here knows of queues, workers or schedules.
-/

namespace LoadBench

/-- Where a job stands, or what is on record of it. -/
inductive Station where
  | offered
  | queued
  | holding
  | running (failed : Bool)
  | finishing (failed : Bool)
  /-- Its execution is counted, and the failure of it is not yet. -/
  | failing
  | recording
  /-- On record: the queue accepted it. -/
  | accepted
  /-- On record: a worker took it from the queue. -/
  | delivered
  /-- On record: its execution began, and this is how it comes out. -/
  | begun (failed : Bool)
  /-- On record: the call that was to begin its execution panicked. -/
  | collapsed
  /-- On record: its execution finished. -/
  | finished (failed : Bool)
  /-- On record: its execution was counted. -/
  | tallied
  /-- On record: it was counted in full. -/
  | counted (failed : Bool)
  | completed
  | discarded
  | lost
deriving DecidableEq

/-- The ways on. A job leaves the stations of the first list and enters those of the second. -/
inductive Passage : List Station → List Station → Prop
  | accept : Passage [.offered] [.accepted, .queued]
  | drop : Passage [.offered] [.lost]
  | discard : Passage [.queued] [.discarded]
  | take : Passage [.queued] [.delivered, .holding]
  | collapse : Passage [.holding] [.collapsed, .lost]
  | begin (failed : Bool) : Passage [.holding] [.running failed, .begun failed]
  | finish (failed : Bool) : Passage [.running failed] [.finishing failed, .finished failed]
  | count : Passage [.finishing false] [.recording, .tallied, .counted false]
  | tally : Passage [.finishing true] [.failing, .tallied]
  | countFailure : Passage [.failing] [.recording, .counted true]
  | complete : Passage [.recording] [.completed]
  | misuse : Passage [.recording] [.lost]

/-- How often one job is in the hands of workers, given how often it stands at each station. -/
def inHands (n : Station → Nat) : Nat :=
  n .holding + (n (.running false) + n (.running true)) +
    (n (.finishing false) + n (.finishing true)) + n .failing + n .recording

/-- The equations between the stations of one job. -/
structure Flow (made : Nat) (n : Station → Nat) : Prop where
  /-- What was made is in one place. -/
  placed : made = n .offered + n .queued + inHands n + n .completed + n .discarded + n .lost
  offered : n .offered + n .accepted ≤ made
  accepted : n .accepted = n .queued + n .discarded + n .delivered
  delivered : n .delivered = n .holding + n .collapsed + (n (.begun false) + n (.begun true))
  begun : ∀ failed, n (.begun failed) = n (.running failed) + n (.finished failed)
  finished : n (.finished false) = n (.finishing false) + n (.counted false)
  failed : n (.finished true) = n (.finishing true) + n .failing + n (.counted true)
  tallied : n .tallied = n .failing + (n (.counted false) + n (.counted true))
  counted : n .recording + n .completed ≤ n (.counted false) + n (.counted true)

/-- A job that a worker took is in the hands of a worker, it completed, or its call panicked. The
one passage that breaks this is the one on which a latch is misused. -/
def Kept (n : Station → Nat) : Prop := n .delivered ≤ n .collapsed + inHands n + n .completed

namespace Flow

theorem zero : Flow 0 fun _ => 0 where
  placed := rfl
  offered := Nat.le_refl _
  accepted := rfl
  delivered := rfl
  begun _ := rfl
  finished := rfl
  failed := rfl
  tallied := rfl
  counted := Nat.le_refl _

variable {made : Nat} {n n' : Station → Nat}

/-- Whether a list of stations has one where a worker holds the job. -/
private def hands (stations : List Station) : Nat := inHands fun s => stations.count s

private theorem inHands_pass {out into : List Station}
    (hn : ∀ s, n' s + out.count s = n s + into.count s) :
    inHands n' + hands out = inHands n + hands into := by
  have h1 := hn .holding
  have h2 := hn (.running false)
  have h3 := hn (.running true)
  have h4 := hn (.finishing false)
  have h5 := hn (.finishing true)
  have h6 := hn .failing
  have h7 := hn .recording
  simp only [hands, inHands]
  omega

/-- A passage keeps the equations. Each of them only reads a few stations. -/
theorem pass {out into : List Station} (h : Passage out into)
    (hn : ∀ s, n' s + out.count s = n s + into.count s) (hf : Flow made n) : Flow made n' where
  placed := by
    have hold := hf.placed
    have h1 := hn .offered
    have h2 := hn .queued
    have h3 := hn .completed
    have h4 := hn .discarded
    have h5 := hn .lost
    have h6 := inHands_pass hn
    clear hn hf
    generalize inHands n = before, inHands n' = after at *
    rcases h with _ | _ | _ | _ | _ | (_ | _) | (_ | _) | _ | _ | _ | _ | _ <;>
      simp [hands, inHands] at * <;> omega
  offered := by
    have hold := hf.offered
    have h1 := hn .offered
    have h2 := hn .accepted
    clear hn hf
    rcases h with _ | _ | _ | _ | _ | failed | failed | _ | _ | _ | _ | _ <;> simp at * <;> omega
  accepted := by
    have hold := hf.accepted
    have h1 := hn .accepted
    have h2 := hn .queued
    have h3 := hn .discarded
    have h4 := hn .delivered
    clear hn hf
    rcases h with _ | _ | _ | _ | _ | failed | failed | _ | _ | _ | _ | _ <;> simp at * <;> omega
  delivered := by
    have hold := hf.delivered
    have h1 := hn .delivered
    have h2 := hn .holding
    have h3 := hn .collapsed
    have h4 := hn (.begun false)
    have h5 := hn (.begun true)
    clear hn hf
    rcases h with _ | _ | _ | _ | _ | (_ | _) | failed | _ | _ | _ | _ | _ <;>
      simp at * <;> omega
  begun failed := by
    have hold := hf.begun failed
    have h1 := hn (.begun failed)
    have h2 := hn (.running failed)
    have h3 := hn (.finished failed)
    clear hn hf
    rcases h with _ | _ | _ | _ | _ | (_ | _) | (_ | _) | _ | _ | _ | _ | _ <;> cases failed <;>
      simp at * <;> omega
  finished := by
    have hold := hf.finished
    have h1 := hn (.finished false)
    have h2 := hn (.finishing false)
    have h3 := hn (.counted false)
    clear hn hf
    rcases h with _ | _ | _ | _ | _ | _ | (_ | _) | _ | _ | _ | _ | _ <;> simp at * <;> omega
  failed := by
    have hold := hf.failed
    have h1 := hn (.finished true)
    have h2 := hn (.finishing true)
    have h3 := hn .failing
    have h4 := hn (.counted true)
    clear hn hf
    rcases h with _ | _ | _ | _ | _ | _ | (_ | _) | _ | _ | _ | _ | _ <;> simp at * <;> omega
  tallied := by
    have hold := hf.tallied
    have h1 := hn .tallied
    have h2 := hn .failing
    have h3 := hn (.counted false)
    have h4 := hn (.counted true)
    clear hn hf
    rcases h with _ | _ | _ | _ | _ | failed | failed | _ | _ | _ | _ | _ <;> simp at * <;> omega
  counted := by
    have hold := hf.counted
    have h1 := hn .recording
    have h2 := hn .completed
    have h3 := hn (.counted false)
    have h4 := hn (.counted true)
    clear hn hf
    rcases h with _ | _ | _ | _ | _ | failed | failed | _ | _ | _ | _ | _ <;>
      simp at * <;> omega

theorem kept_pass {out into : List Station} (h : Passage out into)
    (hm : ¬ (out = [.recording] ∧ into = [.lost]))
    (hn : ∀ s, n' s + out.count s = n s + into.count s) (hk : Kept n) : Kept n' := by
  have h1 := hn .delivered
  have h2 := hn .collapsed
  have h3 := hn .completed
  have h4 := inHands_pass hn
  clear hn
  simp only [Kept] at hk ⊢
  generalize inHands n = before, inHands n' = after at *
  rcases h with _ | _ | _ | _ | _ | (_ | _) | (_ | _) | _ | _ | _ | _ | _
  all_goals first
    | exact absurd ⟨rfl, rfl⟩ hm
    | simp [hands, inHands] at *; omega

/-- A job that was not made stands nowhere, and nothing of it is on record. -/
theorem eq_zero (hf : Flow 0 n) (s : Station) : n s = 0 := by
  have hplaced := hf.placed
  have hoffered := hf.offered
  have haccepted := hf.accepted
  have hdelivered := hf.delivered
  simp only [inHands] at hplaced
  have hbegun (failed : Bool) : n (.begun failed) = 0 := by
    cases failed <;> omega
  have hfinished (failed : Bool) : n (.finished failed) = 0 := by
    have := hf.begun failed
    have := hbegun failed
    omega
  have hcounted (failed : Bool) : n (.counted failed) = 0 := by
    cases failed with
    | false =>
        have := hf.finished
        have := hfinished false
        omega
    | true =>
        have := hf.failed
        have := hfinished true
        omega
  cases s with
  | running failed | finishing failed => cases failed <;> omega
  | begun failed => exact hbegun failed
  | finished failed => exact hfinished failed
  | tallied =>
      have := hf.tallied
      have := hcounted false
      have := hcounted true
      omega
  | counted failed => exact hcounted failed
  | _ => omega

/-- What was counted in full was counted as its execution came out. -/
theorem counted_le_finished (hf : Flow made n) (failed : Bool) :
    n (.counted failed) ≤ n (.finished failed) := by
  have hfinished := hf.finished
  have hfailed := hf.failed
  cases failed <;> omega

/-- What was counted in full was counted. -/
theorem counted_le_tallied (hf : Flow made n) (failed : Bool) :
    n (.counted failed) ≤ n .tallied := by
  have htallied := hf.tallied
  cases failed <;> omega

/-- What was counted was accepted by the queue. -/
theorem tallied_le_accepted (hf : Flow made n) : n .tallied ≤ n .accepted := by
  have haccepted := hf.accepted
  have hdelivered := hf.delivered
  have hbegun := hf.begun false
  have hbegun' := hf.begun true
  have hfinished := hf.finished
  have hfailed := hf.failed
  have htallied := hf.tallied
  omega

theorem kept_of_unmade (hf : Flow 0 n) : Kept n := by
  simp only [Kept, hf.eq_zero]
  exact Nat.zero_le _

/-- A worker has a job, completed it or was lost on it at most as often as it took it. -/
theorem le_delivered (hf : Flow made n) :
    n .collapsed + inHands n + n .completed ≤ n .delivered := by
  have hdelivered := hf.delivered
  have hbegun := hf.begun
  have hfinished := hf.finished
  have hfailed := hf.failed
  have hcounted := hf.counted
  have h1 := hbegun false
  have h2 := hbegun true
  simp only [inHands]
  omega

/-- A job that is made stands in the caller's hand. -/
theorem make (hn : ∀ s, n' s = n s + [Station.offered].count s) (hf : Flow made n) :
    Flow (made + 1) n' where
  placed := by
    have hold := hf.placed
    simp only [inHands, hn] at *
    simp
    omega
  offered := by
    have hold := hf.offered
    rw [hn, hn]
    simp
    omega
  accepted := by simpa [hn] using hf.accepted
  delivered := by simpa [hn] using hf.delivered
  begun failed := by simpa [hn] using hf.begun failed
  finished := by simpa [hn] using hf.finished
  failed := by simpa [hn] using hf.failed
  tallied := by simpa [hn] using hf.tallied
  counted := by simpa [hn] using hf.counted

theorem kept_make (hn : ∀ s, n' s = n s + [Station.offered].count s) (hk : Kept n) : Kept n' := by
  simpa [Kept, hn, inHands] using hk

end Flow

end LoadBench
