import LoadBench.Proofs.LoneWorker
import LoadBench.Proofs.Swallowing

/-!
A phase as a plain loop: each of its commands is made and attempted before the next one is made. A
direct phase is such a loop as it stands. A pooled phase over a single worker goes through a queue,
a worker and a latch, but the backend cannot tell it from the loop. It is given the same commands in
the same order, so its answers are the same, however much they depend on what it was given before,
and the counts of the report are the same as well.
-/

namespace LoadBench

/-- How an attempt comes out that is answered with a fault, or without one. -/
def Conduct.ofAnswer : Option Fault → Conduct
  | none => .succeed
  | some fault => .fail fault

/-- The fault that an execution comes to, if it comes to any. -/
def Conduct.fault? : Conduct → Option Fault
  | .fail fault => some fault
  | .stall fault => fault
  | _ => none

/-- What was attempted, and what came of it. -/
def Execution.outcome (x : Execution) : Command × Option Fault := (x.command, x.conduct.fault?)

/-- A backend that answers each command, as all the commands that it was given before have it. -/
def Backend.AnswersBy (b : Backend) (answer : List Command → Command → Option Fault) : Prop :=
  ∀ (history : Array Execution) (conn : Nat) (command : Command),
    b.execute history conn command = .ofAnswer (answer (history.toList.map (·.command)) command)

namespace Phase

/-- The attempts of a loop over the next commands of a phase, with a backend that was given some
commands before. The loop breaks off at a command that cannot be made. -/
def loopFrom (phase : Phase) (answer : List Command → Command → Option Fault) :
    Nat → Nat → List Command → List (Command × Option Fault)
  | _, 0, _ => []
  | index, n + 1, given =>
      match phase.generate index with
      | .error _ => []
      | .ok command => (command, answer given command) ::
          phase.loopFrom answer (index + 1) n (given ++ [command])

/-- The attempts of a loop over all commands of a phase. -/
def loop (phase : Phase) (answer : List Command → Command → Option Fault) (given : List Command) :
    List (Command × Option Fault) :=
  phase.loopFrom answer 0 phase.iterations given

/-- Some commands are those of a phase from an index on. -/
def Gives (phase : Phase) (index : Nat) (commands : List Command) : Prop :=
  commands.map Except.ok = (List.range' index commands.length).map phase.generate

variable {phase : Phase} {answer : List Command → Command → Option Fault} {index m n : Nat}
  {given commands : List Command} {command : Command}

theorem gives_cons : phase.Gives index (command :: commands) ↔
    phase.generate index = .ok command ∧ phase.Gives (index + 1) commands := by
  rw [Gives, Gives, List.length_cons, List.range'_succ, List.map_cons, List.map_cons,
    List.cons.injEq]
  exact and_congr_left' eq_comm

/-- What the loop attempts is what the phase gives. -/
theorem map_fst_loopFrom (h : phase.Gives index commands) :
    (phase.loopFrom answer index commands.length given).map Prod.fst = commands := by
  induction commands generalizing index given with
  | nil => rfl
  | cons command commands ih =>
      obtain ⟨hg, hrest⟩ := gives_cons.mp h
      simp only [List.length_cons, loopFrom, hg, List.map_cons, ih hrest]

theorem loopFrom_inMode (mode : Mode) : (phase.inMode mode).loopFrom answer index n given =
    phase.loopFrom answer index n given := by
  induction n generalizing index given with
  | zero => rfl
  | succ n ih =>
      rw [loopFrom, loopFrom]
      simp only [ih]
      rfl

/-- The mode of a phase is nothing to the loop. -/
theorem loop_inMode (mode : Mode) : (phase.inMode mode).loop answer given =
    phase.loop answer given :=
  loopFrom_inMode mode

theorem loopFrom_begins :
    phase.loopFrom answer index m given <+: phase.loopFrom answer index (m + n) given := by
  induction m generalizing index given with
  | zero => exact List.nil_prefix
  | succ m ih =>
      rw [Nat.add_right_comm, loopFrom, loopFrom]
      split
      · exact List.prefix_rfl
      · exact (List.prefix_cons_inj _).mpr ih

/-- A loop gets no further than to a command that cannot be made. -/
theorem loopFrom_of_error {message : String} (hg : phase.generate (index + m) = .error message) :
    phase.loopFrom answer index (m + n) given = phase.loopFrom answer index m given := by
  induction m generalizing index given with
  | zero =>
      cases n with
      | zero => rfl
      | succ n =>
          rw [Nat.add_zero] at hg
          simp only [loopFrom, hg]
  | succ m ih =>
      rw [Nat.add_right_comm, loopFrom, loopFrom]
      split
      · rfl
      · rw [ih]
        rwa [Nat.add_right_comm]

/-- What a backend makes of the commands of a phase is what the loop says. -/
theorem map_outcome_of_answered {b : Backend} (hb : b.AnswersBy answer) {xs : List Execution}
    {history : Array Execution} (h : b.Answered history xs)
    (hgives : phase.Gives index (xs.map (·.command))) : xs.map Execution.outcome =
      phase.loopFrom answer index xs.length (history.toList.map (·.command)) := by
  induction xs generalizing index history with
  | nil => rfl
  | cons x xs ih =>
      obtain ⟨hx, hrest⟩ := h
      obtain ⟨hg, hgives⟩ := gives_cons.mp hgives
      have htail := ih hrest hgives
      rw [Array.toList_push, List.map_append, List.map_singleton] at htail
      have hfault : x.conduct.fault? = answer (history.toList.map (·.command)) x.command := by
        rw [hx, hb]
        cases answer (history.toList.map (·.command)) x.command <;> rfl
      simp only [List.map_cons, List.length_cons, loopFrom, hg]
      rw [htail, Execution.outcome, hfault]

end Phase

namespace Backend.AnswersBy

variable {b : Backend} {answer : List Command → Command → Option Fault}

theorem settles (hb : b.AnswersBy answer) : b.Settles := by
  intro history conn command
  rw [hb]
  cases answer (history.toList.map (·.command)) command <;> rfl

end Backend.AnswersBy

/-- An execution that came to an end with an answer. -/
def Execution.IsAnswered (x : Execution) : Prop := ∃ fault, x.conduct = .ofAnswer fault

theorem Execution.IsAnswered.failed {x : Execution} (h : x.IsAnswered) :
    x.failed = x.outcome.2.isSome := by
  obtain ⟨fault, hx⟩ := h
  rw [Execution.failed, Execution.outcome, hx]
  cases fault <;> rfl

theorem Execution.IsAnswered.outcome? {x : Execution} (h : x.IsAnswered) :
    x.conduct.outcome? = some true ↔ x.outcome.2.isSome = true := by
  obtain ⟨fault, hx⟩ := h
  rw [Execution.outcome, hx]
  cases fault <;> simp [Conduct.ofAnswer, Conduct.outcome?, Conduct.fault?]

namespace Engine

/-- The commands that a backend was given. -/
def given (e : Engine) : List Command := e.executions.toList.map (·.command)

/-- A phase has its report: its attempts are those of the loop, and they are what was counted. -/
structure LoopsThrough (s : Engine) (phase : Phase) (todo : List Phase) (reports : List PhaseCount)
    (trace : List (Command × Option Fault)) (e : Engine) : Prop where
  outcomes : (s.executedSince e).map Execution.outcome = trace
  counts : Counts phase todo reports ⟨phase.iterations, trace.countP (·.2.isSome)⟩ e

/-- A phase that is run like a loop, whoever takes the next step. Its attempts come one after the
other as the loop has them. When it has its report it is through with them, and it does come to
that if all of its commands can be made and the call is not given up. -/
structure RunsAsLoop (b : Backend) (s : Engine) (phase : Phase) (todo : List Phase)
    (reports : List PhaseCount) (trace : List (Command × Option Fault)) : Prop where
  ends : phase.Generates → ComesTo b s (LoopsThrough s phase todo reports trace)
  attempts : ∀ e, During b s e → (s.executedSince e).map Execution.outcome <+: trace
  reported : ∀ e report, During b s e → e.progress = .planning todo (reports ++ [report]) →
    LoopsThrough s phase todo reports trace e

/-- A phase in both modes. Where a command cannot be made the loop breaks off, and so does either
phase: a direct phase has attempted all of the loop by then, and of a pooled phase the rest is
pending. -/
structure Sequential (b : Backend) (s : Engine) (d : Driver) (todo : List Phase)
    (reports : List PhaseCount) (b' : Backend) (s' : Engine) (todo' : List Phase)
    (reports' : List PhaseCount) (phase : Phase) (trace : List (Command × Option Fault)) :
    Prop where
  pooled : RunsAsLoop b s (phase.inMode .pooled) todo reports trace
  direct : RunsAsLoop b' s' (phase.inMode .direct) todo' reports' trace
  leaves : ∀ e message, During b s e → e.progress = .returned (.panic message) →
    ∃ p, e.pools[d.pool]? = some p ∧ (s.executedSince e).map (·.command) ++
      p.pending.map (·.command) = trace.map Prod.fst
  stops : ∀ e message, During b' s' e → e.progress = .returned (.panic message) →
    (s'.executedSince e).map Execution.outcome = trace

variable {b b' : Backend} {e s s' : Engine} {d d' : Driver} {p p' : WorkerPool} {phase : Phase}
  {todo todo' : List Phase} {reports reports' : List PhaseCount} {report : PhaseCount}
  {answer : List Command → Command → Option Fault} {n number : Nat} {message : String}

theorem Heard.isAnswered (h : Heard b s e) (hb : b.AnswersBy answer) :
    ∀ x ∈ s.executedSince e, x.IsAnswered :=
  h.answered.all (P := Execution.IsAnswered) fun history conn command _ =>
    ⟨_, hb history conn command⟩

/-- Attempts of a phase in order are commands that the phase gives. -/
theorem gives_of_attempts {xs : List (Origin × Except String Command)} (commands : List Command)
    (h : xs = (List.range n).map (phase.attempt number))
    (hcommands : xs.map Prod.snd = commands.map Except.ok) :
    commands.length = n ∧ phase.Gives 0 commands := by
  have hlength := congrArg List.length (h ▸ hcommands)
  rw [List.length_map, List.length_map, List.length_range, List.length_map] at hlength
  refine ⟨hlength.symm, ?_⟩
  rw [Phase.Gives, ← hcommands, ← hlength, h, List.map_map, List.range_eq_range']
  rfl

/-- The attempts of a phase in order come out as those of the loop. -/
theorem Heard.outcomes (h : Heard b s e) (hb : b.AnswersBy answer)
    (hattempts : (s.executedSince e).map Execution.attempt =
      (List.range n).map (phase.attempt number)) :
    (s.executedSince e).map Execution.outcome = phase.loopFrom answer 0 n s.given := by
  obtain ⟨hlength, hgives⟩ := gives_of_attempts ((s.executedSince e).map (·.command))
    hattempts (by rw [List.map_map, List.map_map]; rfl)
  rw [Phase.map_outcome_of_answered hb h.answered hgives, ← hlength, List.length_map]
  rfl

theorem Heard.outcomes_begin (h : Heard b s e) (hb : b.AnswersBy answer)
    (hattempts : (s.executedSince e).map Execution.attempt =
      (List.range n).map (phase.attempt number)) (hle : n ≤ phase.iterations) :
    (s.executedSince e).map Execution.outcome <+: phase.loop answer s.given := by
  obtain ⟨m, hm⟩ := Nat.exists_eq_add_of_le hle
  rw [h.outcomes hb hattempts, Phase.loop, hm]
  exact Phase.loopFrom_begins

theorem Phase.loop_of_error {given : List Command} (hlt : n < phase.iterations)
    (hg : phase.generate n = .error message) :
    phase.loop answer given = phase.loopFrom answer 0 n given := by
  obtain ⟨m, hm⟩ := Nat.exists_eq_add_of_lt hlt
  rw [Phase.loop, hm, Nat.add_assoc]
  exact Phase.loopFrom_of_error (by rwa [Nat.zero_add])

/-- If there is only the driver's pool, nobody has a job. -/
theorem Idle.not_stored (h : Idle b s d p phase todo reports) (hpools : s.pools = #[p]) (i : Nat)
    (job : Job) : ¬ s.Stored i job := by
  rintro ⟨q, hq, hhas⟩
  rw [hpools] at hq
  have hmem := Array.mem_of_getElem? hq
  obtain rfl := List.mem_singleton.mp (Array.mem_toList_iff.mpr hmem)
  exact h.not_has job hhas

theorem ComesTo.mono {goal goal' : Engine → Prop} (h : ComesTo b s goal)
    (hgoal : ∀ e, goal e → goal' e) : ComesTo b s goal' :=
  ⟨h.begins, fun e hd hnot => (h.ends e hd hnot).mono hgoal⟩

/-- Nothing was attempted for a latch before it was made. -/
theorem attempted_of_unmade {latch : Nat} (h : Reachable b e) (hl : e.batches.size ≤ latch)
    (failed : Bool) : indicesOn latch (e.attempted failed) = [] := by
  apply indicesOn_eq_nil
  intro index
  rw [count_attempted]
  exact number_of_unmade h hl (.begun failed)

section Attempts

variable (hs : Reachable b s) (hheard : Heard b s e) (hm : phase.mode = .pooled)
  (hattempts : (s.executedSince e).map Execution.attempt =
    (List.range n).map (phase.attempt s.batches.size))

include hm hattempts

theorem origin_of_attempts {x : Execution} (hx : x ∈ s.executedSince e) :
    ∃ index, x.origin = .job s.batches.size index := by
  have hmem := List.mem_map_of_mem hx (f := Execution.attempt)
  rw [hattempts] at hmem
  obtain ⟨index, _, hindex⟩ := List.mem_map.mp hmem
  refine ⟨index, ?_⟩
  rw [← Phase.origin_pooled hm]
  exact (congrArg Prod.fst hindex).symm

include hs hheard

/-- Of attempts in order, the indices are in order. -/
theorem indicesOn_begun : indicesOn s.batches.size e.begun = List.range n := by
  have hsince : (s.executedSince e).map (·.origin) =
      (List.range n).map (Origin.job s.batches.size) := by
    have horigins := congrArg (List.map Prod.fst) hattempts
    rw [List.map_map, List.map_map] at horigins
    refine horigins.trans (List.map_congr_left fun index _ => ?_)
    exact Phase.origin_pooled hm _ index
  rw [begun, hheard.grown, List.map_append, hsince, indicesOn, List.filterMap_append, ← begun,
    ← indicesOn, begun_of_unmade hs (Nat.le_refl _), List.nil_append, List.filterMap_map]
  have hindex : Origin.indexOn s.batches.size ∘ Origin.job s.batches.size = some := by
    funext index
    exact if_pos rfl
  rw [hindex, List.filterMap_some]

/-- The failed attempts on the latch of a phase are those since it began. -/
theorem length_indicesOn_attempted : (indicesOn s.batches.size (e.attempted true)).length =
    (s.executedSince e).countP fun x => x.conduct.outcome? = some true := by
  have hnone := attempted_of_unmade hs (Nat.le_refl s.batches.size) true
  rw [indicesOn, attempted] at hnone
  rw [indicesOn, attempted, hheard.grown, List.filterMap_append, List.filterMap_append, hnone,
    List.nil_append, List.filterMap_filterMap, List.length_filterMap_eq_countP]
  refine List.countP_congr fun x hx => ?_
  obtain ⟨index, ho⟩ := origin_of_attempts hm hattempts hx
  by_cases hfailed : x.conduct.outcome? = some true
  · simp [hfailed, ho, Origin.indexOn]
  · simp [hfailed]

end Attempts

section Pooled

variable (h : Idle b s d p phase todo reports) (hm : phase.mode = .pooled)
  (hb : b.AnswersBy answer) (hone : p.workers.size = 1) (hclear : ∀ i job, ¬ s.Stored i job)

include h hm hb hone hclear

/-- The attempts of a pooled phase over a single worker are in order. -/
theorem Idle.pooled_attempts (hd : During b s e) : ∃ n ≤ phase.iterations,
    (s.executedSince e).map Execution.attempt =
      (List.range n).map (phase.attempt s.batches.size) := by
  obtain ⟨k, hle, ⟨p', _, horder⟩, _⟩ := hd.pipelined h hm hb.settles hone hclear
  have hlength := congrArg List.length horder
  have htake := congrArg (List.take ((s.executedSince e).map Execution.attempt).length) horder
  rw [List.length_append, List.length_map, List.length_map, List.length_map,
    List.length_range] at hlength
  rw [List.take_left, ← List.map_take, List.take_range, List.length_map, Nat.min_eq_left (by omega)]
    at htake
  exact ⟨_, by omega, htake⟩

/-- The report of a pooled phase over a single worker. -/
theorem Idle.pooled_loops (hd : During b s e)
    (hreturned : e.progress = .planning todo (reports ++ [report])) :
    LoopsThrough s phase todo reports (phase.loop answer s.given) e := by
  obtain ⟨hreport, hr⟩ := h.pooled_counts hm hd hreturned
  obtain ⟨n, _, hattempts⟩ := h.pooled_attempts hm hb hone hclear hd
  have hheard := hd.heard h.driver h.planned
  have hbegun := (counted_indices (hd.phaseLatch (h.ready hm)) hr).2.2
  have hall : n = phase.iterations := by
    have hlength := hbegun.length_eq
    rwa [indicesOn_begun h.reachable hheard hm hattempts, List.length_range, List.length_range]
      at hlength
  subst hall
  have houtcomes : (s.executedSince e).map Execution.outcome = phase.loop answer s.given :=
    hheard.outcomes hb hattempts
  have hfailed : (indicesOn s.batches.size (e.attempted true)).length =
      (phase.loop answer s.given).countP (·.2.isSome) := by
    rw [length_indicesOn_attempted h.reachable hheard hm hattempts, ← houtcomes, List.countP_map]
    refine List.countP_congr fun x hx => ?_
    rw [decide_eq_true_iff]
    exact (hheard.isAnswered hb x hx).outcome?
  rw [hfailed] at hreport
  rw [hreport] at hreturned
  exact ⟨houtcomes, hreturned⟩

theorem Idle.pooled_runsAsLoop :
    RunsAsLoop b s phase todo reports (phase.loop answer s.given) where
  ends hg := by
    refine ⟨h.begins, fun e hd hnot => (h.pooled_ends hm hb.settles hg hd hnot).mono ?_⟩
    rintro e ⟨hd, counts, hreturned⟩
    exact h.pooled_loops hm hb hone hclear hd hreturned
  attempts e hd := by
    obtain ⟨n, hle, hattempts⟩ := h.pooled_attempts hm hb hone hclear hd
    exact (hd.heard h.driver h.planned).outcomes_begin hb hattempts hle
  reported _ _ hd hreturned := h.pooled_loops hm hb hone hclear hd hreturned

/-- A pooled phase that breaks off leaves what the loop goes on with pending. -/
theorem Idle.pooled_leaves (hd : During b s e) (hr : e.progress = .returned (.panic message)) :
    ∃ p, e.pools[d.pool]? = some p ∧ (s.executedSince e).map (·.command) ++
      p.pending.map (·.command) = (phase.loop answer s.given).map Prod.fst := by
  obtain ⟨k, _, ⟨p', hp', horder⟩, hstumbled⟩ := hd.pipelined h hm hb.settles hone hclear
  obtain ⟨hlt, hg⟩ := hstumbled message hr
  obtain ⟨hlength, hgives⟩ := gives_of_attempts
    ((s.executedSince e).map (·.command) ++ p'.pending.map (·.command)) horder
    (by simp only [List.map_append, List.map_map]; rfl)
  refine ⟨p', hp', ?_⟩
  rw [Phase.loop_of_error hlt hg, ← hlength, Phase.map_fst_loopFrom hgives]

end Pooled

section Direct

variable {conn : Nat} {done : List Execution}

/-- The attempts of a direct phase up to a command in hand. -/
theorem map_attempt_concat {x : Execution} (hran : ∀ (index : Nat) (x : Execution),
    done[index]? = some x → x.Ran phase number conn index)
    (hx : x.attempt = phase.attempt number done.length) :
    (done ++ [x]).map Execution.attempt =
      (List.range (done.length + 1)).map (phase.attempt number) := by
  rw [List.range_succ, List.map_append, List.map_append, map_attempt_of_ran hran,
    List.map_singleton, List.map_singleton, hx]

/-- The end of a direct phase that has counted all that it has executed. -/
theorem Concludes.through {progress : Progress} {xs : List Execution}
    (h : Concludes phase number conn todo reports done progress xs) (hxs : xs = done) :
    done.length = phase.iterations ∧ progress = .planning todo reports ∨
      done.length < phase.iterations ∧ ∃ message, phase.generate done.length = .error message ∧
        progress = .returned (.panic message) := by
  cases h with
  | completes hall => exact .inl ⟨hall, rfl⟩
  | stumbles hlt hg => exact .inr ⟨hlt, _, hg, rfl⟩
  | panics =>
      rw [List.append_right_eq_self] at hxs
      cases hxs

/-- The attempts of a direct phase are in order. -/
theorem DirectLeg.attempts (h : DirectLeg b s d phase todo reports e)
    (hm : phase.mode = .direct) : ∃ n ≤ phase.iterations,
      ((s.executedSince e).filter Execution.isDirect).map Execution.attempt =
        (List.range n).map (phase.attempt s.directRuns) := by
  have hattempt {index : Nat} {command : Command} (conn : Nat) (conduct : Conduct)
      (hg : phase.generate index = .ok command) :
      Execution.attempt ⟨conn, command, .direct s.directRuns index, conduct⟩ =
        phase.attempt s.directRuns index := by
    rw [Phase.attempt, Phase.origin_direct hm, hg]
    rfl
  cases h with
  | dials stalled hd hr ha hn hw h =>
      rw [h.logs.executed]
      exact ⟨0, Nat.zero_le _, rfl⟩
  | refused hd hr hw ha h =>
      rw [h.logs.executed]
      exact ⟨0, Nat.zero_le _, rfl⟩
  | serves hr hh h =>
      rw [h.stands.logs.executed]
      cases hh with
      | prepares | issues =>
          exact ⟨_, h.within, by rw [List.append_nil, map_attempt_of_ran h.ran]⟩
      | executes hlt hg | stalls hlt hg | finishes hlt hg | counts hlt hg =>
          exact ⟨_, hlt, map_attempt_concat h.ran (hattempt _ _ hg)⟩
  | leaves _ _ _ _ h | reported _ _ _ _ h =>
      rw [h.stands.logs.executed]
      exact ⟨_, h.within, by rw [List.append_nil, map_attempt_of_ran h.ran]⟩
  | stopped _ hh h =>
      rw [h.stands.logs.executed]
      cases hh with
      | stumbles => exact ⟨_, h.within, by rw [List.append_nil, map_attempt_of_ran h.ran]⟩
      | panics hlt hg | givesUp hlt hg =>
          exact ⟨_, hlt, map_attempt_concat h.ran (hattempt _ _ hg)⟩

variable (h : Idle b s d p phase todo reports) (hm : phase.mode = .direct)
  (hclear : ∀ i job, ¬ s.Stored i job)

include h hm hclear

/-- If no pool had a job, nothing but a direct phase executes anything while it is run. -/
theorem Idle.direct_alone (hd : During b s e) :
    (s.executedSince e).filter Execution.isDirect = s.executedSince e := by
  obtain ⟨⟨l, xs, hadds, _, hxs⟩, _⟩ := hd.issuing h.reachable (.refl s) h.reachable h.driver
    h.pool h.shared h.planned hm (fun i job hstored => absurd hstored (hclear i job))
  rw [executedSince_eq hadds.executions, List.filter_eq_self]
  intro x hx
  rcases hxs x hx with hown | ⟨job, ⟨i, _, hstored⟩, _⟩
  · obtain ⟨index, ho⟩ := hown.origin
    rw [Execution.isDirect, ho, Phase.origin_direct hm]
    rfl
  · exact absurd hstored (hclear i job)

variable (hb : b.AnswersBy answer) (hconn : Connects b s d)

include hb hconn

/-- What a direct phase has counted is all that was executed. -/
theorem Idle.direct_concluded (hd : During b s e) (hr : e.progress.isRunning = false) :
    Concluded s d phase todo reports (d.direct.getD s.connections) (s.executedSince e) e := by
  have hanswered := (hd.heard h.driver h.planned).isAnswered hb
  have hsettles (x : Execution) (hx : x ∈ s.executedSince e) : x.conduct.settles = true := by
    obtain ⟨fault, hconduct⟩ := hanswered x hx
    rw [hconduct]
    cases fault <;> rfl
  obtain ⟨done, hconcluded⟩ := (hd.directLeg h.reachable h.driver h.planned hm).concluded hconn
    hsettles h.undisturbed hr
  have hends := hconcluded.ends
  rw [h.direct_alone hm hclear hd] at hends
  suffices hdone : s.executedSince e = done by rwa [hdone]
  generalize e.progress = progress at hends
  generalize s.executedSince e = xs at hends hanswered
  cases hends with
  | completes | stumbles => rfl
  | panics =>
      obtain ⟨fault, hconduct⟩ :=
        hanswered _ (List.mem_append_right _ (List.mem_singleton_self _))
      cases fault <;> cases hconduct

/-- A direct phase at its end: it is through with the loop, or the loop has broken off. -/
theorem Idle.direct_loops (hd : During b s e) (hr : e.progress.isRunning = false) :
    LoopsThrough s phase todo reports (phase.loop answer s.given) e ∨
      (s.executedSince e).map Execution.outcome = phase.loop answer s.given ∧
        ∃ index < phase.iterations, ∃ message, phase.generate index = .error message ∧
          e.progress = .returned (.panic message) := by
  have hheard := hd.heard h.driver h.planned
  have hconcluded := h.direct_concluded hm hclear hb hconn hd hr
  have hattempts := map_attempt_of_ran hconcluded.ran
  have hcounted := hconcluded.counted
  have hfailed : (s.executedSince e).countP Execution.failed =
      ((s.executedSince e).map Execution.outcome).countP (·.2.isSome) := by
    rw [List.countP_map]
    refine List.countP_congr fun x hx => ?_
    rw [(hheard.isAnswered hb x hx).failed]
    exact Iff.rfl
  rcases hconcluded.ends.through (h.direct_alone hm hclear hd) with
    ⟨hall, hprogress⟩ | ⟨hlt, message, hg, hprogress⟩
  · have houtcomes : (s.executedSince e).map Execution.outcome = phase.loop answer s.given := by
      rw [hheard.outcomes hb hattempts, hall]
      rfl
    refine .inl ⟨houtcomes, ?_⟩
    rw [Counts, hprogress, Phase.report, hcounted, hfailed, houtcomes, hall]
  · refine .inr ⟨?_, _, hlt, message, hg, hprogress⟩
    rw [hheard.outcomes hb hattempts, Phase.loop_of_error hlt hg]

theorem Idle.direct_runsAsLoop :
    RunsAsLoop b s phase todo reports (phase.loop answer s.given) where
  ends hg := by
    refine ⟨h.begins, fun e hd _ => (h.direct_ends hm hb.settles hconn hd).mono ?_⟩
    rintro e ⟨hd, hr⟩
    rcases h.direct_loops hm hclear hb hconn hd hr with hloops | ⟨_, index, hlt, _, herror, _⟩
    · exact hloops
    · obtain ⟨command, hcommand⟩ := hg index hlt
      cases hcommand.symm.trans herror
  attempts e hd := by
    obtain ⟨n, hle, hattempts⟩ :=
      (hd.directLeg h.reachable h.driver h.planned hm).attempts hm
    rw [h.direct_alone hm hclear hd] at hattempts
    exact (hd.heard h.driver h.planned).outcomes_begin hb hattempts hle
  reported e report hd hreturned := by
    have hr : e.progress.isRunning = false := by rw [hreturned]; rfl
    rcases h.direct_loops hm hclear hb hconn hd hr with hloops | ⟨_, _, _, _, _, hpanic⟩
    · exact hloops
    · cases hreturned.symm.trans hpanic

/-- A direct phase breaks off where the loop does. -/
theorem Idle.direct_stops_as_loop (hd : During b s e)
    (hreturned : e.progress = .returned (.panic message)) :
    (s.executedSince e).map Execution.outcome = phase.loop answer s.given := by
  have hr : e.progress.isRunning = false := by rw [hreturned]; rfl
  rcases h.direct_loops hm hclear hb hconn hd hr with hloops | ⟨houtcomes, _⟩
  · exact hloops.outcomes
  · exact houtcomes

end Direct

/-- With a backend that answers each command, as all it was given before has it, a pooled phase over
a single worker of an idle pool and a direct phase are the same loop. -/
theorem sequential (hb : b.AnswersBy answer) (hb' : b'.AnswersBy answer)
    (hgiven : s'.given = s.given)
    (hpooled : Idle b s d p (phase.inMode .pooled) todo reports) (hone : p.workers.size = 1)
    (hclear : ∀ i job, ¬ s.Stored i job)
    (hdirect : Idle b' s' d' p' (phase.inMode .direct) todo' reports')
    (hconn : Connects b' s' d') (hclear' : ∀ i job, ¬ s'.Stored i job) :
    Sequential b s d todo reports b' s' todo' reports' phase (phase.loop answer s.given) where
  pooled := by
    have hloop := hpooled.pooled_runsAsLoop rfl hb hone hclear
    rwa [Phase.loop_inMode] at hloop
  direct := by
    have hloop := hdirect.direct_runsAsLoop rfl hclear' hb' hconn
    rwa [Phase.loop_inMode, hgiven] at hloop
  leaves _ _ hd hr := by
    have hleaves := hpooled.pooled_leaves rfl hb hone hclear hd hr
    rwa [Phase.loop_inMode] at hleaves
  stops _ _ hd hr := by
    have hstops := hdirect.direct_stops_as_loop rfl hclear' hb' hconn hd hr
    rwa [Phase.loop_inMode, hgiven] at hstops

/-- The backend that accepts every connection and gives some answers. -/
def answering (answer : List Command → Command → Option Fault) : Backend where
  dial _ := .connect
  execute history _ command := .ofAnswer (answer (history.toList.map (·.command)) command)
  closePanic _ := none

/-- The answer that refuses every second command. -/
def refusesEverySecond (given : List Command) (_ : Command) : Option Fault :=
  if given.length % 2 = 1 then some (.told "refused") else none

/-- Three commands of which a backend refuses the second one: both modes report three commands and
one failure. -/
theorem sequential_of_refusal : ∃ s s',
    Sequential (answering refusesEverySecond) s ⟨0, 0, none⟩ [] [] (answering refusesEverySecond) s'
        [] [] (.pings 3) ((Phase.pings 3).loop refusesEverySecond []) ∧
      ((Phase.pings 3).loop refusesEverySecond []).map Prod.snd =
        [none, some (.told "refused"), none] ∧
      ComesTo (answering refusesEverySecond) s (Counts (.pings 3) [] [] ⟨3, 1⟩) ∧
      ComesTo (answering refusesEverySecond) s'
        (Counts ((Phase.pings 3).inMode .direct) [] [] ⟨3, 1⟩) := by
  obtain ⟨s, p, hpooled, _, hone, hpools, hexecutions⟩ :=
    idle_of_start (answering refusesEverySecond) rfl ((Phase.pings 3).inMode .pooled)
  obtain ⟨s', p', hdirect, hconn, _, hpools', hexecutions'⟩ :=
    idle_of_start (answering refusesEverySecond) rfl ((Phase.pings 3).inMode .direct)
  have hgiven : s.given = [] := by rw [given, hexecutions]; rfl
  have hgiven' : s'.given = s.given := by rw [hgiven, given, hexecutions']; rfl
  have hb : (answering refusesEverySecond).AnswersBy refusesEverySecond := fun _ _ _ => rfl
  have h := sequential hb hb hgiven' hpooled hone (hpooled.not_stored hpools) hdirect hconn
    (hdirect.not_stored hpools')
  rw [hgiven] at h
  have hg : (Phase.pings 3).Generates := fun _ _ => ⟨_, rfl⟩
  exact ⟨s, s', h, rfl, (h.pooled.ends hg).mono fun _ hloops => hloops.counts,
    (h.direct.ends hg).mono fun _ hloops => hloops.counts⟩

end Engine

end LoadBench
