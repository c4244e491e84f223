import RuleFlow.KeyCache
import RuleFlow.Url.Basic

/-!
# Addresses of key-value servers

A server is reached over the network or through a socket of the file system. Its address is a URL; the path,
or for a socket the parameter `db`, is the number of a database. `KeyCache.connect` checks the address; behind
a good one no server answers.
-/

namespace RuleFlow.KeyCache

/-- The schemes of addresses in a network, with whether they ask for encryption. -/
def networkSchemes : List (String × Bool) :=
  [("redis", false), ("rediss", true), ("valkey", false), ("valkeys", true)]

/-- The schemes of sockets. -/
def socketSchemes : List String := ["unix", "redis+unix", "valkey+unix"]

/-- Whether a text is an integer of 64 bits. -/
def isInteger (cs : List Char) : Bool :=
  let (isNegative, ds) := match cs with
    | '-' :: ds => (true, ds)
    | '+' :: ds => (false, ds)
    | ds => (false, ds)
  !ds.isEmpty && ds.all Char.isDigit &&
    (let n := ds.foldl (fun n c => 10 * n + (c.toNat - 48)) 0
     n < Nat.pow 2 63 || (isNegative && n = Nat.pow 2 63))

/-- A text without slashes at its ends. -/
def trimSlashes (cs : List Char) : List Char :=
  ((cs.dropWhile (· = '/')).reverse.dropWhile (· = '/')).reverse

/-- A text of a query with its escapes resolved; bytes that are no text are replaced. -/
def unescaped (cs : List Char) : String :=
  let bytes := Url.unescape (Json.bytesOf (String.ofList (cs.map fun c => if c = '+' then ' ' else c)))
  (Json.stringOf? bytes).getD "\uFFFD"

/-- The parameters of a query. -/
def parameters (query : Option String) : List (String × String) :=
  ((Text.splitOn '&' (query.getD "").toList).filter (!·.isEmpty)).map fun piece =>
    match Text.cutAt '=' piece with
    | some (name, value) => (unescaped name, unescaped value)
    | none => (unescaped piece, "")

/-- Checks which version of the protocol is asked for. -/
def checkProtocol (ps : List (String × String)) : Except CacheFault Unit :=
  match ps.reverse.lookup "protocol" with
  | none => .ok ()
  | some version => if version ∈ ["2", "resp2", "3", "resp3"] then .ok () else .error (.protocol version)

/-- Whether an escaped text stands for bytes that are a text. -/
def isReadable (text : String) : Bool := (Json.stringOf? (Url.unescape (Json.bytesOf text))).isSome

/-- Checks the address of a server in a network. -/
def checkNetwork (isEncrypted : Bool) (u : Url) : Except CacheFault Unit := do
  if u.hostName?.isNone then throw .noHost
  if isEncrypted then throw .encryption
  let database := trimSlashes u.path.toList
  if ¬database.isEmpty ∧ ¬isInteger database then throw .database
  if ¬isReadable u.username then throw .username
  if ¬isReadable (u.password.getD "") then throw .password
  checkProtocol (parameters u.query)

/-- Checks the address of a socket. -/
def checkSocket (u : Url) : Except CacheFault Unit := do
  let ps := parameters u.query
  if u.path.toList.head? ≠ some '/' ∨ (u.hostName?.isSome ∧ u.host ≠ some "localhost") then throw .noPath
  if !((ps.reverse.lookup "db").all fun db => isInteger db.toList) then throw .database
  checkProtocol ps

/-- Checks an address and connects to the server there. -/
def connect (address : String) : Result KeyServer :=
  match Url.parse address with
  | .error _ => .error (.cacheServer .address)
  | .ok u =>
    match networkSchemes.lookup u.scheme with
    | some isEncrypted =>
      match checkNetwork isEncrypted u with
      | .error fault => .error (.cacheServer fault)
      | .ok () => .error (.cacheServer .refused)
    | none =>
      if u.scheme ∈ socketSchemes then
        match checkSocket u with
        | .error fault => .error (.cacheServer fault)
        | .ok () => .error (.cacheServer .noSocket)
      else .error (.cacheServer .address)

end RuleFlow.KeyCache
