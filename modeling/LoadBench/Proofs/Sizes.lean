import LoadBench.Proofs.AddressForm
import LoadBench.Proofs.Startup

/-!
What the check of the settings is worth to a start. It turns away sizes of zero, as the engine does,
and then a start is refused for no other size. But a queue has room for only so many jobs and there
can be handles for only so many workers, and sizes above these bounds pass the check: a start with
such sizes panics before it dials. Within the bounds it never does unless a dial panics.
-/

namespace LoadBench

/-- The sizes that a pool and its queue can have. -/
def Settings.Possible (s : Settings) : Prop :=
  s.queueCapacity ≤ JobQueue.maxCapacity ∧ s.numWorkers < Engine.tooManyWorkers

instance (s : Settings) : Decidable s.Possible := inferInstanceAs (Decidable (_ ∧ _))

theorem Settings.pos_of_ofArguments {a : Arguments} {s : Settings}
    (h : Settings.ofArguments a = .ok s) : 0 < s.numWorkers ∧ 0 < s.queueCapacity := by
  obtain ⟨hworkers, hcapacity, _, _, rfl⟩ := Settings.ofArguments_eq_ok.mp h
  exact ⟨Nat.pos_of_ne_zero hworkers, Nat.pos_of_ne_zero hcapacity⟩

/-- What a call to start is that does not panic: it is going on, it has started, or it has told why
it has not. -/
def Progress.StartsOrAnswers (progress : Progress) (workers capacity : Nat) : Prop :=
  progress.isStarting = true ∨ progress = .returned (.started workers capacity) ∨
    ∃ fault, progress = .returned (.fault fault)

namespace Engine

variable {b : Backend} {e mid : Engine} {workers capacity : Nat} {split : Bool}
  {labels : List Label} {made : Nat}

theorem begin_start_of_possible (hworkers : 0 < workers) (hcapacity : 0 < capacity)
    (hslots : capacity ≤ JobQueue.maxCapacity) (hhandles : workers < tooManyWorkers) :
    e.begin b (.start workers capacity split) = e.openPool workers capacity split := by
  simp only [begin, beginStart]
  rw [if_neg (by omega), if_neg (by omega), if_neg (by omega), if_neg (by omega)]

/-- Sizes that are too great are noticed before anything is done, the size of the queue first. -/
theorem begin_start_of_impossible (hworkers : 0 < workers) (hcapacity : 0 < capacity)
    (h : ¬(capacity ≤ JobQueue.maxCapacity ∧ workers < tooManyWorkers)) :
    e.begin b (.start workers capacity split) = e.finish (.panic
      (if JobQueue.maxCapacity < capacity then JobQueue.capacityExceeded
        else tooManyWorkersMessage)) := by
  simp only [begin, beginStart]
  rw [if_neg (by omega), if_neg (by omega)]
  split
  · rfl
  · rw [if_pos (by omega)]

theorem Proceeds.startsOrAnswers (hp : Proceeds b e workers capacity split made labels mid)
    (hd : ∀ k message, b.dial k ≠ .panic message) :
    mid.progress.StartsOrAnswers workers capacity := by
  cases hp with
  | underway hu _ =>
      left
      rw [hu.progress]
      rfl
  | startedUp hs => exact .inr (.inl hs.progress)
  | givenUp _ hg =>
      obtain ⟨fault, _, rfl⟩ := DialConduct.fails_of_refusal hg.refused (hd _)
      exact .inr (.inr ⟨fault, hg.progress⟩)

/-- The call to start with some settings, made in some state. -/
structure CheckedStart (b : Backend) (e : Engine) (s : Settings) : Prop where
  begins : e.step b (.call (.start s.numWorkers s.queueCapacity false)) =
    some (e.begin b (.start s.numWorkers s.queueCapacity false))
  /-- It never panics if and only if the sizes are possible. -/
  safe : (∀ (labels : List Label) (mid : Engine) (message : String),
    (∀ label ∈ labels, label ≠ .cancel) →
      (e.begin b (.start s.numWorkers s.queueCapacity false)).runWhile b (·.isStarting) labels =
        some mid → mid.progress ≠ .returned (.panic message)) ↔ s.Possible
  /-- If they are, it goes on as long as no dial waits for good, it takes no more than a step for
  each worker and one more, and it answers that it has started or why not. -/
  returns : s.Possible → ∀ (labels : List Label) (mid : Engine),
    (∀ label ∈ labels, label ≠ .cancel) →
      (e.begin b (.start s.numWorkers s.queueCapacity false)).runWhile b (·.isStarting) labels =
        some mid →
      mid.progress.StartsOrAnswers s.numWorkers s.queueCapacity ∧
        (mid.progress.isStarting = true →
          (∀ k < s.numWorkers, b.dial (e.dialAttempts + k) ≠ .stall) →
            labels.countP (·.ofCaller) ≤ s.numWorkers ∧
              ∃ next, mid.step b (.act .caller) = some next)
  /-- If they are not, it panics at once, and nothing is dialed. -/
  panics : ¬s.Possible → e.begin b (.start s.numWorkers s.queueCapacity false) =
    e.finish (.panic (if JobQueue.maxCapacity < s.queueCapacity then JobQueue.capacityExceeded
      else tooManyWorkersMessage))

/-- Settings that pass the check. The check is sufficient for a start that does not panic only as
far as the sizes are possible. -/
theorem checked_start (h : Reachable b e) (hr : e.progress.atRest = true)
    (hd : ∀ k message, b.dial k ≠ .panic message) {a : Arguments} {s : Settings}
    (hs : Settings.ofArguments a = .ok s) : CheckedStart b e s := by
  obtain ⟨hworkers, hcapacity⟩ := Settings.pos_of_ofArguments hs
  have hbegins : e.step b (.call (.start s.numWorkers s.queueCapacity false)) =
      some (e.begin b (.start s.numWorkers s.queueCapacity false)) := by
    simp [step, hr]
  have hproceeds (hp : s.Possible) (labels : List Label) (mid : Engine)
      (hc : ∀ label ∈ labels, label ≠ .cancel)
      (hrun : (e.begin b (.start s.numWorkers s.queueCapacity false)).runWhile b (·.isStarting)
        labels = some mid) :
      Proceeds b e s.numWorkers s.queueCapacity false 0 labels mid ∧ Reachable b mid := by
    have hreachable := h.step _ hbegins
    have hmid : Reachable b mid :=
      of_runWhile (fun _ _ label h _ hs => h.step label hs) hreachable hrun
    rw [begin_start_of_possible hworkers hcapacity hp.1 hp.2] at hreachable hrun
    have hu := underway_openPool h s.numWorkers s.queueCapacity false
    exact ⟨hu.run hreachable hc hrun, hmid⟩
  have hpanics (hp : ¬s.Possible) : e.begin b (.start s.numWorkers s.queueCapacity false) =
      e.finish (.panic (if JobQueue.maxCapacity < s.queueCapacity then JobQueue.capacityExceeded
        else tooManyWorkersMessage)) := begin_start_of_impossible hworkers hcapacity hp
  constructor
  · exact hbegins
  · constructor
    · intro hsafe
      by_contra hp
      exact hsafe [] _ _ (by simp) rfl (congrArg (·.progress) (hpanics hp))
    · intro hp labels mid message hc hrun hpanic
      have hanswers := (hproceeds hp labels mid hc hrun).1.startsOrAnswers hd
      rw [hpanic] at hanswers
      rcases hanswers with hstarting | hstarted | ⟨fault, hfault⟩
      · cases hstarting
      · cases hstarted
      · cases hfault
  · intro hp labels mid hc hrun
    obtain ⟨hproceeds, hmid⟩ := hproceeds hp labels mid hc hrun
    exact ⟨hproceeds.startsOrAnswers hd, (hproceeds.starts hmid).goesOn⟩
  · exact hpanics

/-- One slot more than a queue can have passes the check, and the start panics. -/
theorem checked_start_of_large_queue :
    ∃ s, Settings.ofArguments ⟨"localhost", 1, 1, 2305843009213693952, [.pooledPut], "", .text⟩ =
        .ok s ∧
      ({} : Engine).begin (.always .succeed) (.start s.numWorkers s.queueCapacity false) =
        ({} : Engine).finish (.panic JobQueue.capacityExceeded) := by
  have hs : Settings.ofArguments
      ⟨"localhost", 1, 1, 2305843009213693952, [.pooledPut], "", .text⟩ =
        .ok ⟨"redis://localhost/", 1, 1, 2305843009213693952, [.pooledPut], "", .text⟩ := by rfl
  have hstart := checked_start (b := .always .succeed) .start rfl (by rintro k message ⟨⟩) hs
  exact ⟨_, hs, hstart.panics (by decide)⟩

end Engine

end LoadBench
