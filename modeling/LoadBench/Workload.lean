import LoadBench.Phase

/-!
The workload: two kinds of phase that write and two that read. The pooled pair and the direct pair
use different families of commands and of keys. A read asks for exactly the key that the write with
the same index wrote.
-/

namespace LoadBench

/-- The kinds of phase that can be asked for. -/
inductive PhaseKind where
  | pooledPut
  | pooledGet
  | directSet
  | directGet
deriving DecidableEq, Repr, Inhabited

namespace PhaseKind

/-- Every kind, in the order in which the kinds are listed to a reader. -/
def all : List PhaseKind := [.pooledPut, .pooledGet, .directSet, .directGet]

/-- The name by which a kind is asked for. -/
def name : PhaseKind → String
  | .pooledPut => "pooled-put"
  | .pooledGet => "pooled-get"
  | .directSet => "direct-set"
  | .directGet => "direct-get"

def render : PhaseKind → String
  | .pooledPut => "PooledPut"
  | .pooledGet => "PooledGet"
  | .directSet => "DirectSet"
  | .directGet => "DirectGet"

def ofName? (s : String) : Option PhaseKind := all.find? (·.name == s)

/-- The name of the command that a phase of this kind issues. -/
def commandName : PhaseKind → String
  | .pooledPut => "tikv.put"
  | .pooledGet => "tikv.cget"
  | .directSet => "set"
  | .directGet => "get"

/-- The label in the header of a report. The pooled read goes by another name than its command. -/
def label : PhaseKind → String
  | .pooledGet => "tikv.get"
  | kind => kind.commandName

def mode : PhaseKind → Mode
  | .pooledPut | .pooledGet => .pooled
  | .directSet | .directGet => .direct

/-- The key of the command with index `i`. -/
def key (kind : PhaseKind) (i : Nat) : String :=
  match kind.mode with
  | .pooled => "pkey-" ++ toString i
  | .direct => "key-" ++ toString i

/-- The value that a write with index `i` writes. -/
def value (kind : PhaseKind) (suffix : String) (i : Nat) : String :=
  match kind.mode with
  | .pooled => "pvaluedata-" ++ toString i ++ "-" ++ suffix
  | .direct => "valuedata-" ++ toString i ++ "-" ++ suffix

def writes : PhaseKind → Bool
  | .pooledPut | .directSet => true
  | .pooledGet | .directGet => false

/-- The command with index `i`. -/
def command (kind : PhaseKind) (suffix : String) (i : Nat) : Command :=
  let keyed := (Command.ofName kind.commandName).textArg (kind.key i)
  if kind.writes then keyed.textArg (kind.value suffix i) else keyed

def phase (kind : PhaseKind) (iterations : Nat) (suffix : String) : Phase :=
  { name := kind.name
    mode := kind.mode
    iterations
    generate := fun i => .ok (kind.command suffix i) }

theorem ofName?_name (kind : PhaseKind) : ofName? kind.name = some kind := by
  cases kind <;> decide

end PhaseKind

end LoadBench
