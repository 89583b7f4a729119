import LoadBench.Address
import LoadBench.Backend

/-!
A machine without a network. Every dial fails there with what the system says about it, so no
command is ever executed. Names of other machines cannot even be looked up.
-/

namespace LoadBench.Offline

/-- Whether a host is given as a number, in any of the forms that the system knows, or is the
machine itself. -/
def isKnown (host : String) : Bool :=
  let isNumeral := fun (c : Char) =>
    c.isDigit || c = '.' || c = 'x' || c = 'X' || ('a' ≤ c && c ≤ 'f') || ('A' ≤ c && c ≤ 'F')
  host == "localhost" || host.toList.contains ':' ||
    (host.toList.head?.any Char.isDigit && host.toList.all isNumeral)

/-- What the system says when an endpoint is dialed. -/
def refusal : Endpoint → Fault
  | .tcp host _ =>
      if isKnown host then .told "Network is unreachable (os error 101)"
      else .told "failed to lookup address information: Temporary failure in name resolution"
  | .socket _ => .told "No such file or directory (os error 2)"

/-- The backend at an address. -/
def backend (a : Address) : Backend where
  dial _ := .fail (.dial (refusal a.endpoint))
  execute _ _ command := .fail (.command command.name (refusal a.endpoint))
  closePanic _ := none

/-- The backend at an address that is given as a text. -/
def open? (url : String) : Except AddressFault Backend :=
  (Address.parse url).map backend

end LoadBench.Offline
