import LoadBench.Command

/-!
Requests on the wire. A request is an array of strings, the name of the command and its arguments.
The array says how many there are and each string says how many bytes it has, so no byte of an
argument can be taken for framing.
-/

namespace LoadBench.Wire

/-- The end of a line. -/
def lineEnd : Bytes := [0x0d, 0x0a]

/-- A mark, a number and the end of the line. -/
def header (mark : UInt8) (n : Nat) : Bytes := mark :: Bytes.ofText (toString n) ++ lineEnd

/-- One string: its length on a line, its bytes, and the end of a line. -/
def bulk (value : Bytes) : Bytes := header 0x24 value.length ++ value ++ lineEnd

/-- An array of strings. -/
def array (values : List Bytes) : Bytes :=
  header 0x2a values.length ++ values.flatMap bulk

/-- The request of a command. -/
def request (c : Command) : Bytes := array (Bytes.ofText c.name :: c.args)

end LoadBench.Wire
