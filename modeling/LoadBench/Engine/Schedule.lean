import LoadBench.Engine.Step
import LoadBench.Engine.Work

/-!
One fair schedule of the engine, by which it runs when nothing else decides.

Workers that can go on stand in line. The caller goes first; then workers take turns from the head
of the line, and after a round of so many turns, or when the line is empty, the caller goes again. A
turn lasts until its actor has to wait, or until it has used up the shared things that it may use in
one turn; an actor that stops for that reason comes back at the end of the round. Whoever can go on
because of a turn joins the line behind everybody else.

Each step of a schedule is a step of the transition system, so what holds of all runs holds of this
one.
-/

namespace LoadBench.Engine

/-- How many uses of shared things fit into one turn. -/
def usesPerTurn : Nat := 128

/-- How many of them are left for the turn in which a call begins. Having waited for everybody else
took one. -/
def usesAtCall : Nat := usesPerTurn - 1

/-- How many turns of workers fit into one round. -/
def turnsPerRound : Nat := 61

/-- Whether the next step of a worker would use something that is shared. -/
def workerUses : Activity → Bool
  | .idle | .queued | .receiving | .executing _ (.stall _) | .stalled _ _ => true
  | _ => false

/-- Whether the next step of a phase would use something that is shared. -/
def pointUses : Point → Bool
  | .offering _ _ _ | .waiting _ _ _ | .executing _ _ (.stall _) | .stalled _ _ _ | .dialing => true
  | _ => false

/-- Whether the next step of the call would use something that is shared. -/
def callUses : Progress → Bool
  | .running run _ _ => pointUses run.point
  | .submitting s => s.waiting.isSome || 0 < s.left
  | .starting _ _ _ stalled | .acquiring stalled => stalled
  | _ => false

/-- Whether the next step of an actor would use something that is shared. -/
def uses (e : Engine) : Actor → Bool
  | .caller => callUses e.progress
  | .worker i k => ((e.pools[i]?.bind (·.activity? k)).map workerUses).getD false

/-- Whether a worker waits for something after a step, in which case the step used nothing. -/
def workerWaits : Activity → Bool
  | .queued | .stalled _ _ => true
  | _ => false

/-- Whether the call waits for a slot or a permit after a step. -/
def callWaits : Progress → Bool
  | .running { point := .waiting _ _ _, .. } _ _ => true
  | .running { point := .stalled _ _ _, .. } _ _ => true
  | .submitting s => s.waiting.isSome
  | _ => false

/-- Whether an actor waits for something that is shared. -/
def waits (e : Engine) : Actor → Bool
  | .caller => callWaits e.progress
  | .worker i k => ((e.pools[i]?.bind (·.activity? k)).map workerWaits).getD false

/-- The uses that are left in a turn after a step. -/
def usesLeft (before after : Engine) (actor : Actor) (left : Nat) : Nat :=
  if before.uses actor && !after.waits actor then left - 1 else left

/-- One turn of an actor: as many steps as it can take. The answer says whether it could have gone
on. -/
def turn (b : Backend) (actor : Actor) : Nat → Nat → Engine → Bool × Engine
  | 0, _, e => (false, e)
  | fuel + 1, left, e =>
      if left = 0 && e.uses actor then (true, e)
      else match e.advance b actor with
        | none => (false, e)
        | some next => turn b actor fuel (usesLeft e next actor left) next

/-- Whether an actor has something to do, which it can see without doing it. -/
def ready (e : Engine) : Actor → Bool
  | .caller => false
  | .worker i k =>
      match e.pools[i]? with
      | none => false
      | some p =>
          match p.activity? k with
          | none | some (.ended _) => false
          | some .queued => p.queue.turn.ready k
          | some .receiving => p.queue.receiveReady
          | some (.stalled _ _) => e.gate.ready (.worker i k)
          | some _ => true

/-- Every worker of every pool, in order. -/
def workersOfAll (e : Engine) : List Actor :=
  (List.range e.pools.size).flatMap fun i =>
    (List.range (e.workersOf i)).map (Actor.worker i)

/-- The workers that can go on, those first that were let through the gate. -/
def awake (e : Engine) : List Actor :=
  e.gate.granted.filter e.ready ++
    e.workersOfAll.filter fun a => e.ready a && !e.gate.granted.contains a

/-- The engine with those who stand in line and those who come back at the end of the round. -/
structure Line where
  engine : Engine
  ready : List Actor
  deferred : List Actor := []

namespace Line

/-- Whoever can go on and does not stand in line yet joins it. -/
def join (l : Line) : Line :=
  { l with ready := l.ready ++ l.engine.awake.filter fun a =>
      !l.ready.contains a && !l.deferred.contains a }

/-- The line in front of an engine at rest. -/
def ofEngine (e : Engine) : Line := ({ engine := e, ready := [] } : Line).join

/-- A turn of one actor with so many uses. -/
def turn (b : Backend) (l : Line) (uses : Nat) (actor : Actor) : Line :=
  let (more, engine) := Engine.turn b actor (l.engine.work + 1) uses l.engine
  { l with engine, deferred := if more then l.deferred ++ [actor] else l.deferred }.join

/-- So many turns from the head of the line. -/
def round (b : Backend) : Nat → Line → Line
  | 0, l => l
  | n + 1, l =>
      match l.ready with
      | [] => l
      | actor :: rest => round b n ({ l with ready := rest }.turn b usesPerTurn actor)

/-- The caller's turn and a round, over and over until nobody can go on. The caller has so many
uses in its first turn. -/
def drive (b : Backend) : Nat → Nat → Line → Line
  | 0, _, l => l
  | fuel + 1, uses, l =>
      let l := round b turnsPerRound (l.turn b uses .caller)
      let workers := l.deferred.filter (· != .caller)
      let l := { l with ready := l.ready ++ workers, deferred := [] }
      if l.ready.isEmpty && (l.engine.callerStep b).isNone then l
      else drive b fuel usesPerTurn l

end Line

/-- Lets everybody go on until nobody can. -/
def settle (b : Backend) (e : Engine) : Engine :=
  (Line.drive b (2 * e.work + 2) usesAtCall (Line.ofEngine e)).engine

/-- A call from its beginning to its answer. If it comes to where it can only wait, it is given
up. Afterwards everybody else goes on until nobody can. -/
def perform (b : Backend) (e : Engine) (request : Request) : Answer × Engine :=
  let e := (e.begin b request).settle b
  let e := match e.cancel with
    | some e => e.settle b
    | none => e
  ((e.progress.answer?).getD .blocked, e)

end LoadBench.Engine
