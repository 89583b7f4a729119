import LoadBench.Proofs.DirectRecord

/-!
A direct phase, command by command. A phase without a connection dials once, and it turns to its
commands only when the dial has succeeded. From then on each command is generated, executed on the
connection, and counted before the next one is generated. That goes on until all are counted, or
until the phase stops at one of them: the command cannot be made, its execution panics, or the call
is given up while the execution waits.
-/

namespace LoadBench

/-- Whether an execution fails that comes to its end without a panic. -/
def Conduct.result? : Conduct → Option Bool
  | .succeed => some false
  | .fail _ => some true
  | .panic _ | .panicAtOnce _ => none
  | .stall fault => some fault.isSome

/-- What an execution says that panics, at once or after it has begun. -/
def Conduct.panic? : Conduct → Option String
  | .panic message | .panicAtOnce message => some message
  | _ => none

namespace Execution

/-- Whether an execution counts as a failure in a direct phase. -/
def failed (x : Execution) : Bool := x.conduct.result?.getD true

/-- What is on record of a direct command from when it was generated until it was counted. -/
def course (x : Execution) : List Event :=
  [.generated x.origin, .begun x.origin x.conn, .finished x.origin x.failed, .tallied x.origin,
    .counted x.origin x.failed]

/-- A command that is done with has been counted in full. -/
theorem after_course (t : Tally) (x : Execution) : t.after x.course = t.record x.failed := by
  rw [course]
  cases x.failed with
  | false => rfl
  | true => rfl

theorem after_courses (t : Tally) (done : List Execution) :
    t.after (done.flatMap course) = (done.map failed).foldl Tally.record t := by
  induction done generalizing t with
  | nil => rfl
  | cons x done ih =>
      rw [List.flatMap_cons, Tally.after_append, after_course, ih]
      rfl

/-- The execution of a command of a direct phase, by the phase's number and the command's index. It
came to its end without a panic. -/
structure Ran (x : Execution) (phase : Phase) (number conn index : Nat) : Prop where
  conn : x.conn = conn
  attempt : x.attempt = phase.attempt number index
  ended : ∃ failed, x.conduct.result? = some failed

end Execution

/-- The command that a direct phase has in hand at a point, with what is on record of it. -/
inductive InHand (phase : Phase) (number conn index : Nat) :
    Point → List Event → List Execution → Prop
  | prepares : InHand phase number conn index (.preparing number index) [] []
  | issues {command : Command} (hlt : index < phase.iterations)
      (hg : phase.generate index = .ok command) :
      InHand phase number conn index (.issuing number index command)
        [.generated (.direct number index)] []
  | executes {command : Command} {conduct : Conduct} (hlt : index < phase.iterations)
      (hg : phase.generate index = .ok command) :
      InHand phase number conn index (.executing number index conduct)
        [.generated (.direct number index), .begun (.direct number index) conn]
        [⟨conn, command, .direct number index, conduct⟩]
  | stalls {command : Command} {fault : Option Fault} (hlt : index < phase.iterations)
      (hg : phase.generate index = .ok command) :
      InHand phase number conn index (.stalled number index fault)
        [.generated (.direct number index), .begun (.direct number index) conn]
        [⟨conn, command, .direct number index, .stall fault⟩]
  | finishes {command : Command} {conduct : Conduct} {failed : Bool}
      (hlt : index < phase.iterations) (hg : phase.generate index = .ok command)
      (hc : conduct.result? = some failed) :
      InHand phase number conn index (.finished number index failed)
        [.generated (.direct number index), .begun (.direct number index) conn,
          .finished (.direct number index) failed]
        [⟨conn, command, .direct number index, conduct⟩]
  /-- The command has failed, and it is counted but for its failure. -/
  | counts {command : Command} {conduct : Conduct} (hlt : index < phase.iterations)
      (hg : phase.generate index = .ok command) (hc : conduct.result? = some true) :
      InHand phase number conn index (.failing number index)
        [.generated (.direct number index), .begun (.direct number index) conn,
          .finished (.direct number index) true, .tallied (.direct number index)]
        [⟨conn, command, .direct number index, conduct⟩]

/-- How a direct phase stops short that has counted so many of its commands, with what is on record
of the command at which it stops. -/
inductive Stops (phase : Phase) (number conn index : Nat) :
    Answer → List Event → List Execution → Prop
  | stumbles {message : String} (hlt : index < phase.iterations)
      (hg : phase.generate index = .error message) :
      Stops phase number conn index (.panic message) [] []
  | panics {command : Command} {conduct : Conduct} {message : String}
      (hlt : index < phase.iterations) (hg : phase.generate index = .ok command)
      (hc : conduct.panic? = some message) :
      Stops phase number conn index (.panic message)
        [.generated (.direct number index), .begun (.direct number index) conn]
        [⟨conn, command, .direct number index, conduct⟩]
  | givesUp {command : Command} {fault : Option Fault} (hlt : index < phase.iterations)
      (hg : phase.generate index = .ok command) :
      Stops phase number conn index .blocked
        [.generated (.direct number index), .begun (.direct number index) conn]
        [⟨conn, command, .direct number index, .stall fault⟩]

namespace Engine

/-- The connections that a direct phase dials for: one, unless the driver has a connection. -/
def Driver.lacking (d : Driver) : Nat := d.direct.isNone.toNat

/-- What is on record of the dial of a direct phase that has succeeded. -/
def Driver.dials (d : Driver) (attempt conn : Nat) : List Event :=
  if d.direct.isNone then [.dialed attempt (some conn)] else []

/-- A direct phase that has a connection: the commands that it has executed and counted, in the
order of their indices, and what is on record of one more. -/
structure Connected (b : Backend) (s : Engine) (d : Driver) (before : Tally) (phase : Phase)
    (conn : Nat) (done : List Execution) (events : List Event) (attempts : List Execution)
    (e : Engine) : Prop where
  holds : conn = d.direct.getD s.connections
  dials : e.dialAttempts = s.dialAttempts + Driver.lacking d
  connected : d.direct = none → (b.dial s.dialAttempts).refusal? = none
  runs : e.directRuns = s.directRuns + 1
  within : done.length ≤ phase.iterations
  ran : ∀ (index : Nat) (x : Execution), done[index]? = some x →
    x.Ran phase s.directRuns conn index
  stands : Stands s d before (some conn) (Driver.lacking d)
    (Driver.dials d s.dialAttempts conn ++ done.flatMap Execution.course ++ events)
    (done ++ attempts) e

/-- How a dial comes to nothing: it fails, it panics, or the call is given up while it waits. -/
inductive Refused (b : Backend) (attempt : Nat) : Answer → List Event → Prop
  | fails {answer : Answer} (hb : (b.dial attempt).refusal? = some answer) :
      Refused b attempt answer [.dialed attempt none]
  | givesUp (hb : b.dial attempt = .stall) : Refused b attempt .blocked []

/-- The call of a direct phase is at a point. At first it has read one of the counters only, and it
turns to the point when it reads the other one. -/
inductive AtPoint (s : Engine) (d : Driver) (phase : Phase) (todo : List Phase)
    (reports : List PhaseCount) (before : Tally) (point : Point) (e : Engine) : Prop
  | enters (entry : PhaseEntry) (hr : e.progress =
        .entering phase (s.load d.tally .executed) entry todo reports)
      (hp : entry.point = point) (hb : before = s.tallyAt d.tally)
  | runs (hr : e.progress = .running ⟨phase, before, point⟩ todo reports)

/-- What a direct phase reads of a counter when its commands are done with: all of them are counted
there. -/
structure ReadAfter (s : Engine) (d : Driver) (before : Tally) (done : List Execution)
    (c : Tally.Counter) (x : Nat) (e : Engine) : Prop where
  counted : ((done.map Execution.failed).foldl Tally.record before).get c ≤ x
  last : x ≤ e.load d.tally c
  undisturbed : Undisturbed s d → x = e.load d.tally c

/-- How far a direct phase has come that began in the state `s`. -/
inductive DirectLeg (b : Backend) (s : Engine) (d : Driver) (phase : Phase) (todo : List Phase)
    (reports : List PhaseCount) (e : Engine) : Prop
  /-- It has no connection yet, and nothing of it is on record. -/
  | dials {before : Tally} (stalled : Bool) (hd : d.direct = none)
      (hr : AtPoint s d phase todo reports before (if stalled then .dialing else .connecting) e)
      (ha : e.dialAttempts = s.dialAttempts + stalled.toNat) (hn : e.directRuns = s.directRuns)
      (hw : stalled = true → b.dial s.dialAttempts = .stall)
      (h : Stands s d before none 0 [] [] e)
  /-- Its dial has come to nothing. -/
  | refused {before : Tally} {answer : Answer} {events : List Event} (hd : d.direct = none)
      (hr : e.progress = .returned answer) (hw : Refused b s.dialAttempts answer events)
      (ha : e.dialAttempts = s.dialAttempts + 1) (h : Stands s d before none 0 events [] e)
  | serves {before : Tally} {conn : Nat} {done : List Execution} {point : Point}
      {events : List Event} {attempts : List Execution}
      (hr : AtPoint s d phase todo reports before point e)
      (hh : InHand phase s.directRuns conn done.length point events attempts)
      (h : Connected b s d before phase conn done events attempts e)
  /-- Its commands are done with, and it reads the counters again. -/
  | leaves {before : Tally} {conn : Nat} {done : List Execution} (executed : Option Nat)
      (hr : e.progress = .leaving phase before executed todo reports)
      (hall : done.length = phase.iterations)
      (hx : ∀ x, executed = some x → ReadAfter s d before done .executed x e)
      (h : Connected b s d before phase conn done [] [] e)
  /-- It is done, and its report compares what it has read of the counters. -/
  | reported {before : Tally} {conn : Nat} {done : List Execution} (after : Tally)
      (hr : e.progress = .planning todo (reports ++ [phase.report before after]))
      (hall : done.length = phase.iterations)
      (ha : ∀ c, ReadAfter s d before done c (after.get c) e)
      (h : Connected b s d before phase conn done [] [] e)
  /-- It has stopped at one of its commands. -/
  | stopped {before : Tally} {conn : Nat} {done : List Execution} {answer : Answer}
      {events : List Event} {attempts : List Execution} (hr : e.progress = .returned answer)
      (hh : Stops phase s.directRuns conn done.length answer events attempts)
      (h : Connected b s d before phase conn done events attempts e)

variable {b : Backend} {e mid next s : Engine} {d : Driver} {phase : Phase} {todo : List Phase}
  {reports : List PhaseCount} {point : Point} {turn : Turn} {label : Label} {before : Tally}
  {conn index : Nat} {events : List Event} {attempts done : List Execution}

section Frames

variable {l : List Event} {xs : List Execution}

theorem Connected.notes (h : Connected b s d before phase conn done events attempts e)
    (hn : Notes d e next l xs) :
    Connected b s d before phase conn done (events ++ l) (attempts ++ xs) next where
  holds := h.holds
  dials := hn.dialAttempts.trans h.dials
  connected := h.connected
  runs := hn.directRuns.trans h.runs
  within := h.within
  ran := h.ran
  stands := by
    have hnext := h.stands.notes hn
    rwa [List.append_assoc, List.append_assoc done] at hnext

theorem Connected.same (h : Connected b s d before phase conn done events attempts e)
    (hn : Notes d e next [] []) :
    Connected b s d before phase conn done events attempts next := by
  have hnext := h.notes hn
  rwa [List.append_nil, List.append_nil] at hnext

theorem Connected.others (h : Connected b s d before phase conn done events attempts e)
    (hreachable : Reachable b e) (hs : e.step b label = some next) (hl : label.ofCaller = false)
    (hbusy : e.progress.latch? = none) :
    Connected b s d before phase conn done events attempts next where
  holds := h.holds
  dials := (dials_of_others hs hl).1.trans h.dials
  connected := h.connected
  runs := (step_of_others hs hl).2.1.trans h.runs
  within := h.within
  ran := h.ran
  stands := h.stands.others hreachable hs hl hbusy

end Frames

section Counters

theorem after_dials (d : Driver) (attempt conn : Nat) (t : Tally) :
    t.after (Driver.dials d attempt conn) = t := by
  unfold Driver.dials
  split <;> rfl

/-- What a direct phase has put on record that has a connection: its commands that are done with are
counted in full. -/
theorem after_connected (t : Tally) (attempt : Nat) (events : List Event) :
    t.after (Driver.dials d attempt conn ++ done.flatMap Execution.course ++ events) =
      ((done.map Execution.failed).foldl Tally.record t).after events := by
  rw [Tally.after_append, Tally.after_append, after_dials, Execution.after_courses]

theorem Connected.counters (h : Connected b s d before phase conn done events attempts e)
    (hidle : Undisturbed s d) : e.tallyAt d.tally =
      ((done.map Execution.failed).foldl Tally.record (s.tallyAt d.tally)).after events :=
  (h.stands.counters hidle).trans (after_connected _ _ _)

/-- A counter is read when the commands are done with. -/
theorem Connected.readAfter (h : Connected b s d before phase conn done [] [] e)
    (c : Tally.Counter) : ReadAfter s d before done c (e.load d.tally c) e where
  counted := by
    have hcounted := h.stands.counted
    rw [after_connected] at hcounted
    exact hcounted c
  last := Nat.le_refl _
  undisturbed _ := rfl

/-- While nobody else counts, a counter stays as it was read. -/
theorem ReadAfter.others {c : Tally.Counter} {x : Nat} (h : ReadAfter s d before done c x e)
    (hidle : Undisturbed s d → Undisturbed e d) (hs : e.step b label = some next)
    (hl : label.ofCaller = false) : ReadAfter s d before done c x next where
  counted := h.counted
  last := h.last.trans (step_tallyAt hs d.tally c)
  undisturbed hs' := by
    rw [load, (hidle hs').tallyAt hs hl]
    exact h.undisturbed hs'

end Counters

section Commands

variable {command : Command} {conduct : Conduct} {failed : Bool} {fault : Option Fault}

/-- A command of a direct phase is generated, or there is none left, or it cannot be made. -/
theorem Connected.prepares (h : Connected b s d before phase conn done [] [] e)
    (hs : e.directStep b { d with direct := some conn } phase
      (.preparing s.directRuns done.length) = some (turn, mid)) :
    DirectLeg b s d phase todo reports
      (mid.goOn ⟨phase, before, .preparing s.directRuns done.length⟩ todo reports turn) := by
  simp only [directStep] at hs
  split at hs
  · next hlt =>
    split at hs
    · next command hg =>
      cases hs
      exact .serves (.runs rfl) (.issues hlt hg)
        ((h.notes (.generates d e _ _)).same (.goOn d _ _ _ _))
    · next message hg =>
      cases hs
      exact .stopped rfl (.stumbles hlt hg) (h.same (.goOn d _ _ _ _))
  · next hnot =>
    cases hs
    have hall := Nat.le_antisymm h.within (Nat.le_of_not_lt hnot)
    have htold : Connected b s d before phase conn done [] []
        (e.tell (.stageChanged .executing .done)) := h.same (.same d e _ _ _)
    refine .leaves none rfl hall (fun x hx => ?_) (htold.same (.goOn d _ _ _ _))
    cases hx

/-- The execution of a command begins. If its call panics at once, so does the phase. -/
theorem Connected.issues (h : Connected b s d before phase conn done
      [.generated (.direct s.directRuns done.length)] [] e) (hlt : done.length < phase.iterations)
    (hg : phase.generate done.length = .ok command)
    (hs : e.directStep b { d with direct := some conn } phase
      (.issuing s.directRuns done.length command) = some (turn, mid)) :
    DirectLeg b s d phase todo reports
      (mid.goOn ⟨phase, before, .issuing s.directRuns done.length command⟩ todo reports turn) := by
  have hnext := h.notes (.beginExecution b d e conn command s.directRuns done.length)
  simp only [directStep, Option.bind_eq_bind, Option.bind_some] at hs
  split at hs
  · next message hc =>
    cases hs
    have hpanic : (b.execute e.executions conn command).panic? = some message := by
      rw [show b.execute e.executions conn command = _ from hc]
      rfl
    exact .stopped rfl (.panics hlt hg hpanic) (hnext.same (.goOn d _ _ _ _))
  · cases hs
    exact .serves (.runs rfl) (.executes hlt hg) (hnext.same (.goOn d _ _ _ _))

/-- An execution comes to its end, or it waits, or it panics, and then so does the phase. -/
theorem Connected.executes (h : Connected b s d before phase conn done
      [.generated (.direct s.directRuns done.length),
        .begun (.direct s.directRuns done.length) conn]
      [⟨conn, command, .direct s.directRuns done.length, conduct⟩] e)
    (hlt : done.length < phase.iterations) (hg : phase.generate done.length = .ok command)
    (hs : e.directStep b { d with direct := some conn } phase
      (.executing s.directRuns done.length conduct) = some (turn, mid)) :
    DirectLeg b s d phase todo reports
      (mid.goOn ⟨phase, before, .executing s.directRuns done.length conduct⟩ todo reports
        turn) := by
  have hfinishes (gate : FairSemaphore Actor) (fault : Option Fault)
      (hc : conduct.result? = some fault.isSome) :
      DirectLeg b s d phase todo reports
        ((({ e with gate } : Engine).finishDirect s.directRuns done.length fault).2.goOn
          ⟨phase, before, .executing s.directRuns done.length conduct⟩ todo reports
          (.to (.finished s.directRuns done.length fault.isSome))) :=
    .serves (.runs rfl) (.finishes hlt hg hc)
      ((h.notes (.finishDirect d e gate _ _ fault)).same (.goOn d _ _ _ _))
  cases conduct with
  | succeed =>
      cases hs
      exact hfinishes e.gate none rfl
  | fail fault =>
      cases hs
      exact hfinishes e.gate (some fault) rfl
  | panic message | panicAtOnce message =>
      cases hs
      exact .stopped rfl (.panics hlt hg rfl) (h.same (.goOn d _ _ _ _))
  | stall fault =>
      simp only [directStep] at hs
      split at hs
      · cases hs
        exact hfinishes _ fault rfl
      · cases hs
        exact .serves (.runs rfl) (.stalls hlt hg)
          ((h.same (.same d e _ _ _)).same (.goOn d _ _ _ _))

/-- An execution that waited comes to its end. -/
theorem Connected.stalls (h : Connected b s d before phase conn done
      [.generated (.direct s.directRuns done.length),
        .begun (.direct s.directRuns done.length) conn]
      [⟨conn, command, .direct s.directRuns done.length, .stall fault⟩] e)
    (hlt : done.length < phase.iterations) (hg : phase.generate done.length = .ok command)
    (hs : e.directStep b { d with direct := some conn } phase
      (.stalled s.directRuns done.length fault) = some (turn, mid)) :
    DirectLeg b s d phase todo reports
      (mid.goOn ⟨phase, before, .stalled s.directRuns done.length fault⟩ todo reports turn) := by
  simp only [directStep, Option.ite_none_right_eq_some] at hs
  obtain ⟨_, hs⟩ := hs
  cases hs
  exact .serves (.runs rfl) (.finishes hlt hg rfl)
    ((h.notes (.finishDirect d e _ _ _ fault)).same (.goOn d _ _ _ _))

theorem course_of_result {x : Execution} (hc : x.conduct.result? = some failed) :
    x.course = [.generated x.origin, .begun x.origin x.conn, .finished x.origin failed,
      .tallied x.origin, .counted x.origin failed] := by
  have hfailed : x.failed = failed := by
    rw [Execution.failed, hc]
    rfl
  rw [Execution.course, hfailed]

/-- One more command has been executed, with the index that comes next. -/
theorem ran_concat {number : Nat} {x : Execution} (hran : ∀ (index : Nat) (x : Execution),
    done[index]? = some x → x.Ran phase number conn index)
    (hx : x.Ran phase number conn done.length) : ∀ (index : Nat) (y : Execution),
      (done ++ [x])[index]? = some y → y.Ran phase number conn index := by
  intro index y hy
  rcases Nat.lt_trichotomy index done.length with hbefore | rfl | hafter
  · rw [List.getElem?_append_left hbefore] at hy
    exact hran index y hy
  · rw [List.getElem?_concat_length] at hy
    cases hy
    exact hx
  · rw [List.getElem?_eq_none (by rw [List.length_append]; exact hafter)] at hy
    cases hy

/-- A command that is counted in full is done with, and the phase turns to the next one. -/
theorem Connected.completes (h : Connected b s d before phase conn done
      [.generated (.direct s.directRuns done.length),
        .begun (.direct s.directRuns done.length) conn,
        .finished (.direct s.directRuns done.length) failed,
        .tallied (.direct s.directRuns done.length),
        .counted (.direct s.directRuns done.length) failed]
      [⟨conn, command, .direct s.directRuns done.length, conduct⟩] e)
    (hm : phase.mode = .direct) (hlt : done.length < phase.iterations)
    (hg : phase.generate done.length = .ok command) (hc : conduct.result? = some failed) :
    DirectLeg b s d phase todo reports (e.goOn ⟨phase, before, point⟩ todo reports
      (.to (.preparing s.directRuns (done.length + 1)))) := by
  let x : Execution := ⟨conn, command, .direct s.directRuns done.length, conduct⟩
  have hlength : (done ++ [x]).length = done.length + 1 := List.length_append
  suffices hnext : Connected b s d before phase conn (done ++ [x]) [] [] e by
    refine .serves (.runs rfl) ?_ (hnext.same (.goOn d _ _ _ _))
    rw [hlength]
    exact .prepares
  exact {
    holds := h.holds
    dials := h.dials
    connected := h.connected
    runs := h.runs
    within := by omega
    ran := by
      refine ran_concat h.ran ⟨rfl, ?_, failed, hc⟩
      rw [Phase.attempt, Phase.origin_direct hm, hg]
      rfl
    stands := by
      have hstands := h.stands
      rw [List.flatMap_append, List.flatMap_singleton, course_of_result (x := x) hc]
      simpa only [List.append_assoc, List.append_nil] using hstands }

/-- A command that has finished is counted: in full if it has succeeded, and if it has failed all
but its failure. -/
theorem Connected.finishes (h : Connected b s d before phase conn done
      [.generated (.direct s.directRuns done.length),
        .begun (.direct s.directRuns done.length) conn,
        .finished (.direct s.directRuns done.length) failed]
      [⟨conn, command, .direct s.directRuns done.length, conduct⟩] e)
    (hm : phase.mode = .direct) (htally : d.tally < e.tallies.size)
    (hlt : done.length < phase.iterations) (hg : phase.generate done.length = .ok command)
    (hc : conduct.result? = some failed)
    (hs : e.directStep b { d with direct := some conn } phase
      (.finished s.directRuns done.length failed) = some (turn, mid)) :
    DirectLeg b s d phase todo reports
      (mid.goOn ⟨phase, before, .finished s.directRuns done.length failed⟩ todo reports turn) := by
  have htallied := h.notes (.countExecution htally s.directRuns done.length)
  cases failed with
  | false =>
      cases hs
      exact (htallied.notes (.counted d _ _ _)).completes hm hlt hg hc
  | true =>
      cases hs
      exact .serves (.runs rfl) (.counts hlt hg hc) (htallied.same (.goOn d _ _ _ _))

/-- The failure of a command is counted. -/
theorem Connected.fails (h : Connected b s d before phase conn done
      [.generated (.direct s.directRuns done.length),
        .begun (.direct s.directRuns done.length) conn,
        .finished (.direct s.directRuns done.length) true,
        .tallied (.direct s.directRuns done.length)]
      [⟨conn, command, .direct s.directRuns done.length, conduct⟩] e)
    (hm : phase.mode = .direct) (htally : d.tally < e.tallies.size)
    (hlt : done.length < phase.iterations) (hg : phase.generate done.length = .ok command)
    (hc : conduct.result? = some true)
    (hs : e.directStep b { d with direct := some conn } phase
      (.failing s.directRuns done.length) = some (turn, mid)) :
    DirectLeg b s d phase todo reports
      (mid.goOn ⟨phase, before, .failing s.directRuns done.length⟩ todo reports turn) := by
  cases hs
  exact (h.notes (.countFailure htally _ _)).completes hm hlt hg hc

end Commands

section Dial

/-- With its connection, a direct phase turns to its commands. -/
theorem Stands.connected {conn : Nat} (phase : Phase) (h : Stands s d before none 0 [] [] e)
    (hd : d.direct = none) (hdial : DialMove e (.connected conn) mid)
    (hadds : Adds e mid [.dialed s.dialAttempts (some conn)] []) (hconn : conn = e.connections)
    (ha : mid.dialAttempts = s.dialAttempts + 1) (hn : e.directRuns = s.directRuns)
    (hb : (b.dial s.dialAttempts).refusal? = none)
    (ht : mid.directDialed { d with direct := none } (.connected conn) = (turn, next)) :
    ∃ point, turn = .to point ∧ InHand phase s.directRuns conn 0 point [] [] ∧
      Connected b s d before phase conn [] [] [] next := by
  have hnumber := hdial.leaves.2.2.2.1.trans hn
  have hstands := h.equips hdial hadds
  rw [ht] at hstands
  have hlacking : Driver.lacking d = 1 := by
    unfold Driver.lacking
    rw [hd]
    rfl
  have hdials : Driver.dials d s.dialAttempts conn = [.dialed s.dialAttempts (some conn)] := by
    unfold Driver.dials
    rw [hd]
    rfl
  cases ht
  rw [hnumber]
  refine ⟨_, rfl, .prepares, ?_⟩
  exact {
    holds := by
      rw [hd]
      exact hconn.trans h.connections
    dials := by
      rw [hlacking]
      exact ha
    connected := fun _ => hb
    runs := rfl
    within := Nat.zero_le _
    ran := nofun
    stands := by
      rw [hlacking, hdials]
      rw [hnumber] at hstands
      exact hstands }

/-- The dial of a direct phase succeeds, or it comes to nothing, or it waits. -/
theorem Stands.dials {stalled : Bool} {dialed : Dialed} {point : Point}
    (h : Stands s d before none 0 [] [] e) (hd : d.direct = none)
    (ha : e.dialAttempts = s.dialAttempts + stalled.toNat) (hn : e.directRuns = s.directRuns)
    (hw : stalled = true → b.dial s.dialAttempts = .stall)
    (hs : e.dialStep b stalled = some (dialed, mid))
    (ht : mid.directDialed { d with direct := none } dialed = (turn, next)) :
    DirectLeg b s d phase todo reports
      (next.goOn ⟨phase, before, point⟩ todo reports turn) := by
  have hdial := dialStep_cases hs
  have hadds : Adds e mid (dialed.events s.dialAttempts) [] := by
    have hadds := dialStep_adds hs
    rwa [ha, Nat.add_sub_cancel] at hadds
  obtain ⟨hone, hconduct⟩ := dialStep_attempt ha hw hs
  cases dialed with
  | connected conn =>
      obtain ⟨point, rfl, hhand, hconnected⟩ :=
        h.connected phase hd hdial hadds hconduct.1 hone hn hconduct.2 ht
      exact .serves (.runs rfl) hhand (hconnected.same (.goOn d _ _ _ _))
  | parked =>
      cases ht
      have hruns := hdial.leaves.2.2.2.1.trans hn
      exact .dials true hd (.runs rfl) hone hruns (fun _ => hconduct)
        ((h.undialed hdial hadds nofun).same (.goOn d _ _ _ _))
  | failed fault | panicked message =>
      cases ht
      have hrefusal := congrArg DialConduct.refusal? hconduct
      exact .refused hd rfl (.fails hrefusal) hone
        ((h.undialed hdial hadds nofun).same (.goOn d _ _ _ _))

end Dial

section Run

/-- A direct phase begins: with its commands, if the driver has a connection. -/
theorem DirectLeg.begun (hd : s.driver = some d) (hm : phase.mode = .direct)
    (hp : ∃ p, s.pools[d.pool]? = some p) :
    DirectLeg b s d phase todo reports (s.beginPhase d phase todo reports) := by
  have hstands := Stands.begun phase todo reports hd hp
  cases hdirect : d.direct with
  | none =>
      rw [beginPhase_of_undialed hm hdirect, hdirect] at hstands
      rw [beginPhase_of_undialed hm hdirect]
      exact .dials false hdirect (.enters .undialed rfl rfl rfl) rfl rfl Bool.noConfusion hstands
  | some conn =>
      rw [beginPhase_of_connected hm hdirect, hdirect] at hstands
      rw [beginPhase_of_connected hm hdirect]
      have hlacking : Driver.lacking d = 0 := by
        rw [Driver.lacking, hdirect]
        rfl
      have hdials : Driver.dials d s.dialAttempts conn = [] := by
        rw [Driver.dials, hdirect]
        rfl
      suffices hconnected : Connected b s d (s.tallyAt d.tally) phase conn [] [] [] _ from
        .serves (.enters (.direct s.directRuns) rfl rfl rfl) .prepares hconnected
      exact {
        holds := by
          rw [hdirect]
          rfl
        dials := by
          rw [hlacking]
          rfl
        connected := fun hlost => by cases hdirect.symm.trans hlost
        runs := rfl
        within := Nat.zero_le _
        ran _ _ hx := by cases hx
        stands := by
          rw [hlacking, hdials]
          exact hstands }

/-- Others leave the call of a direct phase at its point. -/
theorem AtPoint.others (h : AtPoint s d phase todo reports before point e)
    (hprogress : next.progress = e.progress) :
    AtPoint s d phase todo reports before point next := by
  cases h with
  | enters entry hr hp hb => exact .enters entry (hprogress.trans hr) hp hb
  | runs hr => exact .runs (hprogress.trans hr)

/-- At a point of a direct phase the caller has no job to offer. -/
theorem AtPoint.latch? (h : AtPoint s d phase todo reports before point e)
    (hp : point.latch? = none) : e.progress.latch? = none := by
  cases h with
  | enters entry hr hentry =>
      rw [hr, Progress.latch?, hentry]
      exact hp
  | runs hr =>
      rw [hr]
      exact hp

/-- What is not a step of the caller's leaves a direct phase where it is. -/
theorem DirectLeg.others (h : DirectLeg b s d phase todo reports e) (hreachable : Reachable b e)
    (hr : e.progress.isRunning = true) (hs : e.step b label = some next)
    (hl : label.ofCaller = false) : DirectLeg b s d phase todo reports next := by
  obtain ⟨hprogress, hruns, _⟩ := step_of_others hs hl
  obtain ⟨hattempts, _⟩ := dials_of_others hs hl
  cases h with
  | dials stalled hd hr' ha hn hw h =>
      have hbusy := hr'.latch? (by cases stalled <;> rfl)
      exact .dials stalled hd (hr'.others hprogress) (hattempts.trans ha) (hruns.trans hn) hw
        (h.others hreachable hs hl hbusy)
  | serves hr' hh h =>
      have hbusy := hr'.latch? (by cases hh <;> rfl)
      exact .serves (hr'.others hprogress) hh (h.others hreachable hs hl hbusy)
  | leaves executed hr' hall hx h =>
      have hbusy : e.progress.latch? = none := by
        rw [hr']
        rfl
      refine .leaves executed (hprogress.trans hr') hall (fun x hsome => ?_)
        (h.others hreachable hs hl hbusy)
      exact (hx x hsome).others h.stands.undisturbed hs hl
  | refused _ hr' | reported _ hr' | stopped hr' =>
      rw [hr'] at hr
      cases hr

/-- A command of a direct phase goes on. -/
theorem Connected.goesOn (h : Connected b s d before phase conn done events attempts e)
    (hh : InHand phase s.directRuns conn done.length point events attempts)
    (hm : phase.mode = .direct) (htally : d.tally < e.tallies.size)
    (hs : e.directStep b { d with direct := some conn } phase point = some (turn, mid)) :
    DirectLeg b s d phase todo reports
      (mid.goOn ⟨phase, before, point⟩ todo reports turn) := by
  cases hh with
  | prepares => exact h.prepares hs
  | issues hlt hg => exact h.issues hlt hg hs
  | executes hlt hg => exact h.executes hlt hg hs
  | stalls hlt hg => exact h.stalls hlt hg hs
  | finishes hlt hg hc => exact h.finishes hm htally hlt hg hc hs
  | counts hlt hg hc => exact h.fails hm htally hlt hg hc hs

/-- A direct phase may be given up while its dial or an execution waits. -/
theorem DirectLeg.givesUp (h : DirectLeg b s d phase todo reports e) {run : PhaseRun}
    (hr : e.progress = .running run todo reports) (hs : e.cancelPoint run.point = some mid) :
    DirectLeg b s d phase todo reports (mid.finish .blocked) := by
  cases h with
  | dials stalled hd hr' ha hn hw h =>
      cases hr' with
      | enters entry hr' => cases hr'.symm.trans hr
      | runs hr' =>
          cases hr'.symm.trans hr
          cases stalled with
          | false => cases hs
          | true =>
              cases hs
              exact .refused hd rfl (.givesUp (hw rfl)) ha (h.same (.same d e _ _ _))
  | serves hr' hh h =>
      cases hr' with
      | enters entry hr' => cases hr'.symm.trans hr
      | runs hr' =>
          cases hr'.symm.trans hr
          cases hh with
          | stalls hlt hg =>
              cases hs
              exact .stopped rfl (.givesUp hlt hg) (h.same (.same d e _ _ _))
          | _ => cases hs
  | refused _ hr' | leaves _ hr' | reported _ hr' | stopped hr' => cases hr'.symm.trans hr

/-- A direct phase turns to its first point when it has read both counters. -/
theorem DirectLeg.enters {entry : PhaseEntry} {notices : Array Notice}
    (h : DirectLeg b s d phase todo reports e)
    (hr : e.progress = .entering phase (s.load d.tally .executed) entry todo reports) :
    DirectLeg b s d phase todo reports
      { e with notices, progress := e.progress.afterRead (e.load d.tally) } := by
  have hafter : e.progress.afterRead (e.load d.tally) =
      .running ⟨phase, ⟨s.load d.tally .executed, e.load d.tally .failed⟩, entry.point⟩ todo
        reports := by
    rw [hr]
    rfl
  cases h with
  | dials stalled hd hr' ha hn hw h =>
      cases hr' with
      | enters entry' hr' hp hb =>
          cases hr'.symm.trans hr
          subst hb
          refine .dials stalled hd (.runs ?_) ha hn hw
            ((h.enters fun _ => rfl).same (.same d e _ _ _))
          rw [← hp]
          exact hafter
      | runs hr' => cases hr'.symm.trans hr
  | @serves _ conn done point events attempts hr' hh h =>
      cases hr' with
      | enters entry' hr' hp hb =>
          cases hr'.symm.trans hr
          subst hb hp
          -- A phase with a connection begins with nothing done and nothing in hand.
          obtain ⟨rfl, rfl⟩ : done = [] ∧ events = [] := by
            generalize hat : entry.point = point at hh
            cases hh with
            | prepares =>
                cases entry with
                | direct number =>
                    obtain ⟨_, hzero⟩ := Point.preparing.inj hat
                    exact ⟨List.length_eq_zero_iff.mp hzero.symm, rfl⟩
                | pooled | undialed => cases hat
            | _ => cases entry <;> cases hat
          have hread := h.stands.enters fun t => after_connected t _ []
          exact .serves (.runs hafter) hh ({ h with stands := hread }.same (.same d e _ _ _))
      | runs hr' => cases hr'.symm.trans hr
  | refused _ hr' | leaves _ hr' | reported _ hr' | stopped hr' => cases hr'.symm.trans hr

/-- A direct phase whose commands are done with reads both counters once more, and it reports. -/
theorem Connected.leaves {executed : Option Nat} {notices : Array Notice}
    (h : Connected b s d before phase conn done [] [] e)
    (hr : e.progress = .leaving phase before executed todo reports)
    (hall : done.length = phase.iterations)
    (hx : ∀ x, executed = some x → ReadAfter s d before done .executed x e) :
    DirectLeg b s d phase todo reports
      { e with notices, progress := e.progress.afterRead (e.load d.tally) } := by
  have hnext := h.same (.same d e (e.progress.afterRead (e.load d.tally)) e.gate notices)
  cases executed with
  | none =>
      refine .leaves (some (e.load d.tally .executed)) ?_ hall ?_ hnext
      · rw [hr]
        rfl
      · rintro x ⟨⟩
        exact hnext.readAfter .executed
  | some executed =>
      refine .reported ⟨executed, e.load d.tally .failed⟩ ?_ hall ?_ hnext
      · rw [hr]
        rfl
      · intro c
        cases c with
        | executed =>
            obtain ⟨hcounted, hlast, hsame⟩ := hx executed rfl
            exact ⟨hcounted, hlast, hsame⟩
        | failed => exact hnext.readAfter .failed

/-- A step of the caller's at a point of a direct phase. -/
theorem DirectLeg.turns (h : DirectLeg b s d phase todo reports e)
    (hr : AtPoint s d phase todo reports before point e) (hm : phase.mode = .direct)
    (hd : e.driver = some { d with direct })
    (hturn : ∀ turn mid, e.progress = .running ⟨phase, before, point⟩ todo reports →
      e.directStep b { d with direct } phase point = some (turn, mid) →
        DirectLeg b s d phase todo reports (mid.goOn ⟨phase, before, point⟩ todo reports turn))
    (hs : e.step b label = some next) (hl : label.ofCaller = true) :
    DirectLeg b s d phase todo reports next := by
  cases hr with
  | enters entry hr =>
      obtain ⟨_, d', notices, hd', rfl⟩ := step_of_reads (by rw [hr]; rfl) hl hs
      cases hd.symm.trans hd'
      exact h.enters hr
  | runs hr =>
      rcases step_of_running hs hl hd hr with ⟨_, turn, mid, hstep, rfl⟩ | ⟨_, mid, hcancel, rfl⟩
      · simp only [phaseTurn, hm] at hstep
        exact hturn turn mid hr hstep
      · exact h.givesUp hr hcancel

/-- One step of a direct phase, whoever takes it. -/
theorem DirectLeg.step (h : DirectLeg b s d phase todo reports e) (hreachable : Reachable b e)
    (hm : phase.mode = .direct) (hr : e.progress.isRunning = true)
    (hs : e.step b label = some next) : DirectLeg b s d phase todo reports next := by
  cases hl : label.ofCaller with
  | false => exact h.others hreachable hr hs hl
  | true =>
      have hleg := h
      cases h with
      | dials stalled hd hr' ha hn hw h =>
          refine hleg.turns hr' hm h.driver (fun turn mid _ hturn => ?_) hs hl
          cases stalled with
          | false =>
              simp only [Bool.false_eq_true, if_false, directStep, Option.bind_eq_bind,
                Option.bind_eq_some_iff, Option.some.injEq] at hturn
              obtain ⟨⟨dialed, e'⟩, hdial, ht⟩ := hturn
              exact h.dials hd ha hn hw hdial ht
          | true =>
              simp only [if_true, directStep, Option.bind_eq_bind, Option.bind_eq_some_iff,
                Option.some.injEq] at hturn
              obtain ⟨⟨dialed, e'⟩, hdial, ht⟩ := hturn
              exact h.dials hd ha hn hw hdial ht
      | serves hr' hh h =>
          have htally := (hasCounters_of_reachable hreachable).driver _ h.stands.driver
          exact hleg.turns hr' hm h.stands.driver (fun _ _ _ => h.goesOn hh hm htally) hs hl
      | leaves executed hr' hall hx h =>
          obtain ⟨_, d', notices, hd', rfl⟩ := step_of_reads (by rw [hr']; rfl) hl hs
          cases h.stands.driver.symm.trans hd'
          exact h.leaves hr' hall hx
      | refused _ hr' | reported _ hr' | stopped hr' =>
          rw [hr'] at hr
          cases hr

/-- A direct phase from its beginning until its call goes on or returns. -/
theorem During.directLeg (h : During b s e) (hreachable : Reachable b s) (hd : s.driver = some d)
    (hr : s.progress = .planning (phase :: todo) reports) (hm : phase.mode = .direct) :
    DirectLeg b s d phase todo reports e := by
  induction h with
  | begins hs =>
      obtain ⟨d', hd', rfl⟩ := step_of_planned hr hs
      cases hd.symm.trans hd'
      obtain ⟨p, hp, _⟩ := (housed_of_reachable hreachable).driver d hd
      exact .begun hd hm ⟨p, hp⟩
  | step label h hrunning hs ih => exact ih.step (h.reachable hreachable) hm hrunning hs

end Run

end Engine

end LoadBench
