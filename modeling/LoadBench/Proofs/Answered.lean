import LoadBench.Proofs.DirectCommand

/-!
What a backend has made of the commands of a phase. Each execution that is on record since the phase
began came out as the backend says it does after the executions before it, whoever has executed the
command and whatever else went on. So what is known of the backend is known of the record.
-/

namespace LoadBench

/-- Each of some executions came out as a backend answers it after those before it. -/
def Backend.Answered (b : Backend) : Array Execution → List Execution → Prop
  | _, [] => True
  | history, x :: xs => x.conduct = b.execute history x.conn x.command ∧
      b.Answered (history.push x) xs

/-- What a backend answers to an execution on a connection. -/
def Backend.answer (b : Backend) (history : Array Execution) (conn : Nat) (command : Command)
    (origin : Origin) : Execution :=
  ⟨conn, command, origin, b.execute history conn command⟩

theorem Backend.answered_append {b : Backend} {history : Array Execution} {xs ys : List Execution} :
    b.Answered history (xs ++ ys) ↔
      b.Answered history xs ∧ b.Answered (history ++ xs.toArray) ys := by
  induction xs generalizing history with
  | nil => simp [Answered]
  | cons x xs ih =>
      have hpush : history.push x ++ xs.toArray = history ++ (x :: xs).toArray := by
        apply Array.toList_inj.mp
        simp
      rw [List.cons_append, Answered, Answered, ih, hpush, and_assoc]

/-- What a backend does with every command after all else, it has done with each command on
record. -/
theorem Backend.Answered.all {b : Backend} {P : Execution → Prop}
    (hb : ∀ history conn command origin, P (b.answer history conn command origin))
    {history : Array Execution} {xs : List Execution} (h : b.Answered history xs) :
    ∀ x ∈ xs, P x := by
  induction xs generalizing history with
  | nil => exact nofun
  | cons x xs ih =>
      obtain ⟨hx, hrest⟩ := h
      intro y hy
      rcases List.mem_cons.mp hy with rfl | hmem
      · have hanswer := hb history y.conn y.command y.origin
        rwa [answer, ← hx] at hanswer
      · exact ih hrest y hmem

namespace Engine

/-- The executions on record since an earlier state, oldest first. -/
def executedSince (s e : Engine) : List Execution := e.executions.toList.drop s.executions.size

variable {b : Backend} {e next s : Engine} {d : Driver} {run : PhaseRun} {phase : Phase}
  {point : Point} {turn : Turn} {todo : List Phase} {reports : List PhaseCount} {label : Label}
  {events : List Event} {attempts : List Execution}

/-- What a step puts on record of executions: nothing, or one with the backend's answer. -/
inductive Answers (b : Backend) (e next : Engine) : Prop
  | nothing (h : next.executions = e.executions)
  | one (conn : Nat) (command : Command) (origin : Origin)
      (h : next.executions = e.executions.push (b.answer e.executions conn command origin))

theorem WorkerMove.answers {i k : Nat} {p : WorkerPool} {w : Worker}
    (h : WorkerMove b e i k p w next) : Answers b e next := by
  cases h with
  | begins ha hc => exact .one _ _ _ rfl
  | collapses ha hc => exact .one _ _ _ rfl
  | _ => exact .nothing rfl

theorem DialMove.executions {dialed : Dialed} (h : DialMove e dialed next) :
    next.executions = e.executions := by
  cases h <;> rfl

/-- A step of a direct phase executes the command that the phase issues, if it issues one. -/
theorem DirectMove.executions (h : DirectMove b e d phase point turn next) :
    next.executions = e.executions ∨ ∃ number index command conn,
      point = .issuing number index command ∧ d.direct = some conn ∧
        next.executions =
          e.executions.push (b.answer e.executions conn command (.direct number index)) := by
  cases h with
  | @dials _ _ dialed mid _ hp hdial ht =>
      refine .inl ?_
      rw [← hdial.executions]
      cases dialed <;> cases ht <;> rfl
  | begins hd ht => exact .inr ⟨_, _, _, _, rfl, hd, rfl⟩
  | @finishes run index _ fault gate hp =>
      cases fault <;> exact .inl rfl
  | _ => exact .inl rfl

theorem DirectMove.answers (h : DirectMove b e d phase point turn next) : Answers b e next := by
  rcases h.executions with hsame | ⟨_, _, _, _, _, _, hpush⟩
  · exact .nothing hsame
  · exact .one _ _ _ hpush

theorem executions_cancelPoint (hs : e.cancelPoint point = some next) :
    next.executions = e.executions := by
  cases point with
  | waiting latch index job =>
      cases hs
      unfold withdrawJob
      cases e.driver <;> rfl
  | offering | awaiting | dialing | stalled =>
      cases hs
      rfl
  | _ => cases hs

/-- A step while a phase is being run, whoever takes it. -/
theorem step_answers (hs : e.step b label = some next) (hd : e.driver = some d)
    (hr : e.progress.isRunning = true) : Answers b e next := by
  cases hl : label.ofCaller with
  | false =>
      have hm := step_move hs
      have hbare : Answers b e.bare next.bare := by
        generalize next.bare = after at hm ⊢
        cases hm with
        | stay permits | latch size => exact .nothing rfl
        | worker hp hw h => exact h.answers
        | caller hl' _ =>
            rw [hl] at hl'
            cases hl'
      cases hbare with
      | nothing h => exact .nothing h
      | one conn command origin h => exact .one conn command origin h
  | true =>
      cases hp : e.progress with
      | running run todo reports =>
          rcases step_of_running hs hl hd hp with
            ⟨_, turn, mid, hturn, rfl⟩ | ⟨_, mid, hcancel, rfl⟩
          · have hmid : Answers b e mid := by
              obtain ⟨phase, before, point⟩ := run
              unfold phaseTurn at hturn
              split at hturn
              · cases pooledStep_cases hturn <;> exact .nothing rfl
              · exact (directStep_cases hturn).answers
            cases hmid with
            | nothing h => exact .nothing (executions_goOn.trans h)
            | one conn command origin h => exact .one conn command origin (executions_goOn.trans h)
          · have hsame : mid.executions = e.executions := executions_cancelPoint hcancel
            exact .nothing hsame
      | entering | leaving =>
          obtain ⟨_, _, _, _, rfl⟩ := step_of_reads (by rw [hp]; rfl) hl hs
          exact .nothing rfl
      | _ =>
          rw [hp] at hr
          cases hr

/-- What was on record when a phase began stays there, and what came since is answered. -/
structure Heard (b : Backend) (s e : Engine) : Prop where
  grown : e.executions.toList = s.executions.toList ++ s.executedSince e
  answered : b.Answered s.executions (s.executedSince e)

theorem executedSince_eq {xs : List Execution}
    (h : e.executions.toList = s.executions.toList ++ xs) : s.executedSince e = xs := by
  rw [executedSince, h, ← Array.length_toList, List.drop_left]

theorem Heard.same (h : Heard b s e) (hsame : next.executions = e.executions) : Heard b s next := by
  have hsince : s.executedSince next = s.executedSince e := by
    rw [executedSince, hsame, executedSince]
  refine ⟨?_, ?_⟩
  · rw [hsame, hsince]
    exact h.grown
  · rw [hsince]
    exact h.answered

theorem Heard.step (h : Heard b s e) (hs : Answers b e next) : Heard b s next := by
  cases hs with
  | nothing hsame => exact h.same hsame
  | one conn command origin hpush =>
      have hgrown : next.executions.toList = s.executions.toList ++
          (s.executedSince e ++ [b.answer e.executions conn command origin]) := by
        rw [hpush, Array.toList_push, h.grown, List.append_assoc]
      have hhistory : s.executions ++ (s.executedSince e).toArray = e.executions := by
        apply Array.toList_inj.mp
        rw [h.grown, Array.toList_append]
      have hsince := executedSince_eq hgrown
      refine ⟨?_, ?_⟩
      · rw [hsince]
        exact hgrown
      · rw [hsince, Backend.answered_append, hhistory]
        exact ⟨h.answered, rfl, trivial⟩

theorem Heard.refl (b : Backend) (s : Engine) : Heard b s s := by
  have hsince : s.executedSince s = [] := executedSince_eq (List.append_nil _).symm
  refine ⟨?_, ?_⟩
  · rw [hsince, List.append_nil]
  · rw [hsince]
    trivial

/-- While a phase is being run its driver gets a connection of its own at most. -/
theorem During.driver (h : During b s e) (hd : s.driver = some d)
    (hr : s.progress = .planning (phase :: todo) reports) :
    ∃ direct, e.driver = some { d with direct } := by
  induction h with
  | begins hs =>
      exact step_driver hs hd (by rw [hr]; rfl) (by rw [hr]; rfl)
  | @step e next label h hrunning hs ih =>
      obtain ⟨direct, hdriver⟩ := ih
      obtain ⟨hbusy, hopening⟩ := place_of_isRunning hrunning
      obtain ⟨direct', hnext⟩ := step_driver hs hdriver hbusy hopening
      exact ⟨direct', hnext⟩

theorem During.heard (h : During b s e) (hd : s.driver = some d)
    (hr : s.progress = .planning (phase :: todo) reports) : Heard b s e := by
  induction h with
  | begins hs =>
      obtain ⟨_, _, rfl⟩ := step_of_planned hr hs
      exact (Heard.refl b s).same executions_beginPhase
  | @step e next label h hrunning hs ih =>
      obtain ⟨direct, hdriver⟩ := h.driver hd hr
      exact ih.step (step_answers hs hdriver hrunning)

/-- What is on record of a direct phase is what direct commands have put there. -/
theorem AddsDirect.executed {events : List Event} (h : AddsDirect s e events attempts) :
    (s.executedSince e).filter Execution.isDirect = attempts := by
  obtain ⟨l, xs, hadds, _, hxs⟩ := h
  rw [executedSince_eq hadds.executions, hxs]

end Engine

end LoadBench
