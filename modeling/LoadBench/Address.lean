import LoadBench.Address.Url
import LoadBench.Fault

/-!
Addresses of a backend. An address names a host and a port, or a socket in the file system, and
says how a session begins: with which credentials, on which database and in which version of the
protocol.
-/

namespace LoadBench

/-- The versions of the protocol. -/
inductive Protocol where
  | resp2
  | resp3
deriving DecidableEq, Repr

namespace Protocol

def render : Protocol → String
  | .resp2 => "RESP2"
  | .resp3 => "RESP3"

def ofName? (s : String) : Option Protocol :=
  if s = "2" || s = "resp2" then some .resp2
  else if s = "3" || s = "resp3" then some .resp3
  else none

end Protocol

/-- Where a backend listens. -/
inductive Endpoint where
  | tcp (host : String) (port : Nat)
  | socket (path : Bytes)
deriving DecidableEq, Repr

/-- An address of a backend. -/
structure Address where
  endpoint : Endpoint
  database : Int := 0
  username : Option String := none
  password : Option String := none
  protocol : Protocol := .resp2
deriving DecidableEq, Repr

/-- Why a text is no address. -/
inductive AddressFault where
  | malformed
  | noHost
  | encrypted
  | badDatabase
  | badUsername
  | badPassword
  | badProtocol (text : String)
  | noPath
deriving DecidableEq, Repr

namespace AddressFault

def message : AddressFault → String
  | .malformed => "Redis URL did not parse- InvalidClientConfig"
  | .noHost => "Missing hostname- InvalidClientConfig"
  | .encrypted => "can't connect with TLS, the feature is not enabled- InvalidClientConfig"
  | .badDatabase => "Invalid database number- InvalidClientConfig"
  | .badUsername => "Username is not valid UTF-8 string- InvalidClientConfig"
  | .badPassword => "Password is not valid UTF-8 string- InvalidClientConfig"
  | .badProtocol text => "Invalid protocol version - InvalidClientConfig: " ++ text
  | .noPath => "Missing path- InvalidClientConfig"

/-- A bad address is a fault of every dial to it. -/
def fault (f : AddressFault) : Fault := .dial (.told f.message)

end AddressFault

namespace Address

/-- The port of an address that names none. -/
def defaultPort : Nat := 6379

/-- The schemes of addresses. The last two are for sockets in the file system. -/
def schemes : List String := ["redis", "rediss", "redis+unix", "unix"]

/-- Digits as a number. -/
def digits? (s : List Char) : Option Nat :=
  if s.isEmpty then none
  else s.foldlM
    (fun n c => if '0' ≤ c ∧ c ≤ '9' then some (10 * n + (c.toNat - '0'.toNat)) else none) 0

/-- A number of a database: a signed number of 64 bits. -/
def database? (s : List Char) : Option Int :=
  match s with
  | '-' :: digits => do
      let n ← digits? digits
      if n ≤ Nat.pow 2 63 then some (-(n : Int)) else none
  | '+' :: digits | digits => do
      let n ← digits? digits
      if n < Nat.pow 2 63 then some (n : Int) else none

/-- The text of a path without the slashes at both ends. -/
def pathText (url : Url) : List Char :=
  let text := match url.path with
    | .segments parts => (parts.map ('/' :: ·)).flatten
    | .verbatim text => text
  ((text.dropWhile (· = '/')).reverse.dropWhile (· = '/')).reverse

/-- A part of the credentials, without its percent codes. -/
def credential? (s : List Char) : Option String :=
  Bytes.text? (percentDecode (Bytes.ofText (String.ofList s)))

/-- The version of the protocol that a query asks for. -/
def protocolOf (url : Url) : Except AddressFault Protocol :=
  match url.get? "protocol" with
  | none => .ok .resp2
  | some text =>
      match Protocol.ofName? text with
      | some p => .ok p
      | none => .error (.badProtocol text)

/-- The answer, or a fault if there is none. -/
def orFault {α : Type} (fault : AddressFault) : Option α → Except AddressFault α
  | some a => .ok a
  | none => .error fault

def ofHostUrl (url : Url) : Except AddressFault Address := do
  let host ← orFault .noHost url.host
  if url.scheme = "rediss" then throw .encrypted
  let text := pathText url
  let database ← if text.isEmpty then pure 0 else orFault .badDatabase (database? text)
  let username ← if url.username.isEmpty then pure none
    else some <$> orFault .badUsername (credential? url.username)
  let password ← url.password.mapM (orFault .badPassword <| credential? ·)
  let protocol ← protocolOf url
  let endpoint := .tcp host (url.port.getD defaultPort)
  return { endpoint, database, username, password, protocol }

/-- Whether bytes look like the end of a path to a drive: a letter and a colon or a bar. -/
def endsInDrive (path : Bytes) : Bool :=
  match path.reverse with
  | last :: letter :: _ :: _ =>
      (last = 0x3a || last = 0x7c) && Url.isAlphanumeric (Char.ofNat letter.toNat) &&
        0x40 < letter
  | _ => false

/-- The path in the file system that a URL names. It must be absolute and on this machine. -/
def socketPath? (url : Url) : Option Bytes :=
  match url.path with
  | .verbatim _ => none
  | .segments parts =>
      if url.host = none ∨ url.host = some "localhost" then
        let path := (parts.map fun part =>
          0x2f :: percentDecode (Bytes.ofText (String.ofList part))).flatten
        some (if endsInDrive path then path ++ [0x2f] else path)
      else none

/-- Reads the address of a socket, whose settings stand in the query. -/
def ofSocketUrl (url : Url) : Except AddressFault Address := do
  let path ← orFault .noPath (socketPath? url)
  let database ← match url.get? "db" with
    | none => pure 0
    | some text => orFault .badDatabase (database? text.toList)
  let protocol ← protocolOf url
  return {
    endpoint := .socket path
    database
    username := url.get? "user"
    password := url.get? "pass"
    protocol }

def parse (s : String) : Except AddressFault Address :=
  match Url.parse? s with
  | none => .error .malformed
  | some url =>
      if !schemes.contains url.scheme then .error .malformed
      else if url.scheme = "redis" || url.scheme = "rediss" then ofHostUrl url
      else ofSocketUrl url

/-- A path in quotes. It is a quoted text, but for bytes that are no text, which are written with
capital hexadecimal digits. -/
def quotedPath (path : Bytes) : String :=
  String.ofList <| '"' :: (path.pieces.flatMap (fun
    | .char c => Text.quotedChar c
    | .broken bytes => bytes.flatMap fun b => '\\' :: 'x' :: (Bytes.hexPair b).map Char.toUpper)
    ++ ['"'])

/-- Something that may be absent, as a developer sees it. -/
def optional : Option String → String
  | some s => "Some(" ++ Text.quoted s ++ ")"
  | none => "None"

def renderEndpoint : Endpoint → String
  | .tcp host port => "Tcp(" ++ Text.quoted host ++ ", " ++ toString port ++ ")"
  | .socket path => "Unix(" ++ quotedPath path ++ ")"

def render (a : Address) : String :=
  "RedisDialer \x7b client: Client \x7b connection_info: ConnectionInfo \x7b addr: " ++
    renderEndpoint a.endpoint ++ ", redis: RedisConnectionInfo \x7b db: " ++ toString a.database ++
    ", username: " ++ optional a.username ++ ", password: " ++ optional a.password ++
    ", protocol: " ++ a.protocol.render ++ " \x7d \x7d \x7d \x7d"

end Address

end LoadBench
