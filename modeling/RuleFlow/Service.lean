import RuleFlow.Engine
import RuleFlow.Envelope
import RuleFlow.Repository

/-!
# The service

What callers ask for: to add, change, remove, list, start and stop chains of their own, and to bring messages
to the chains that run. Every operation first finds out who calls and whether the stored status permits it;
these checks change nothing (`authorizeNew`, `authorizeUpdate`, `authorize`). Then the engine acts and the new
status is stored. If it cannot be stored, what the engine did is undone.

The collaborators of a service are a repository, a cache of names and a table of tokens. A call of the
repository or the cache may fail and then changes nothing; an `Occasion` says which calls fail during an
operation. A failure of the cache never shows.
-/

namespace RuleFlow

/-- A call of the repository or of the cache. -/
inductive Call where
  | save (id : String)
  | update (id : String)
  | retrieve (id : String)
  | revoke (id : String)
  | list
  | withStatus
  | cacheSave (name : String)
  | cacheId (name : String)
  | cacheRemove (id : String)
  deriving DecidableEq

/-- What an operation meets: the time, an unused id for a chain and one for a message, and the calls of
collaborators that fail. An operation that stores many chains reads the clock for each of them; `later` says
what it shows then. -/
structure Occasion where
  now : Int
  later : String → Int := fun _ => now
  freshId : String
  freshUuid : Uuid
  fails : Call → Bool := fun _ => false

/-- The answer of a repository, unless the call fails. -/
def Occasion.stored {α : Type} (o : Occasion) (call : Call) (r : Result α) : Result α :=
  if o.fails call then .error .repositoryDown else r

/-- The answer of a cache, unless the call fails. -/
def Occasion.cached {α : Type} (o : Occasion) (call : Call) (r : Result α) : Result α :=
  if o.fails call then .error .cacheDown else r

/-- An operation after it has read the clock again, for the chain of an id. -/
def Occasion.reread (o : Occasion) (id : String) : Occasion :=
  { o with now := o.later id }

/-- A service with its collaborators. -/
structure Service (ω η : Type) where
  settings : Settings := {}
  tokens : Table String
  repository : Repository := .empty
  cache : NameCache := .empty
  engine : Engine ω η

namespace Service

variable {ω η : Type}

/-- The user a token belongs to. -/
def identify (s : Service ω η) (token : String) : Result String :=
  match s.tokens.get? token with
  | some user => .ok user
  | none => .error .unauthorized

/-- The stored definition of a chain of an owner. -/
def retrieve (o : Occasion) (owner id : String) (s : Service ω η) : Result Chain :=
  o.stored (.retrieve id) (s.repository.retrieve owner id)

/-- Stores a new definition. -/
def save (o : Occasion) (c : Chain) (s : Service ω η) : Result (Service ω η) :=
  (o.stored (.save c.id) (s.repository.save c)).map fun repository => { s with repository }

/-- Replaces a stored definition. -/
def store (o : Occasion) (c : Chain) (s : Service ω η) : Result (Service ω η) :=
  (o.stored (.update c.id) (s.repository.update c)).map fun repository => { s with repository }

/-- Removes a stored definition. -/
def erase (o : Occasion) (owner id : String) (s : Service ω η) : Result (Service ω η) :=
  (o.stored (.revoke id) (s.repository.revoke owner id)).map fun repository => { s with repository }

/-- Remembers the id of a name. -/
def saveName (o : Occasion) (name id : String) (s : Service ω η) : Result (Service ω η) :=
  o.cached (.cacheSave name) (.ok { s with cache := s.cache.save name id })

/-- Forgets the names of an id. -/
def forgetNames (o : Occasion) (id : String) (s : Service ω η) : Result (Service ω η) :=
  o.cached (.cacheRemove id) (.ok { s with cache := s.cache.remove id })

/-- The id that is remembered for a name. -/
def lookupName (o : Occasion) (name : String) (s : Service ω η) : Result String :=
  o.cached (.cacheId name) (s.cache.id name)

/-- Replaces the names of an id by a new one. -/
def rename (o : Occasion) (name id : String) (s : Service ω η) : Service ω η :=
  match s.forgetNames o id with
  | .ok s => (s.saveName o name id).toOption.getD s
  | .error _ => s

/-! ## Definitions -/

/-- What is stored when a caller adds a chain. -/
def newChain (o : Occasion) (owner : String) (c : Chain) : Chain :=
  { c with
    id := if c.id = "" then o.freshId else c.id
    owner
    status := .created
    createdAt := o.now
    updatedAt := o.now }

/-- Whether a caller may add a chain, and what is to be stored. -/
def authorizeNew (o : Occasion) (token : String) (c : Chain) (s : Service ω η) : Result Chain := do
  let owner ← s.identify token
  let c := newChain o owner c
  match s.retrieve o owner c.id with
  | .ok _ => .error (.chainExists c.id)
  | .error e =>
    if e.isNotFound then
      c.validate
      return c
    else .error e

/-- Adds a chain. It is stored as created and belongs to the caller. -/
def add (o : Occasion) (token : String) (c : Chain) (s : Service ω η) : Result Chain × Service ω η :=
  match s.authorizeNew o token c with
  | .error e => (.error e, s)
  | .ok c =>
    match s.save o c with
    | .error e => (.error e, s)
    | .ok s => (.ok c, (s.saveName o c.name c.id).toOption.getD s)

/-- The definition of a chain of the caller. -/
def get (o : Occasion) (token id : String) (s : Service ω η) : Result Chain := do
  let owner ← s.identify token
  s.retrieve o owner id

/-- Whether a caller may do something with a chain, and the chain as it is stored. -/
def authorize (o : Occasion) (operation : Operation) (token id : String) (s : Service ω η) :
    Result Chain := do
  let c ← s.get o token id
  c.check operation
  return c

/-- What is stored when a caller changes a chain. -/
def changed (o : Occasion) (current c : Chain) : Chain :=
  { c with
    id := current.id
    owner := current.owner
    status := current.status
    createdAt := current.createdAt
    updatedAt := o.now }

/-- Whether a caller may change a chain; the chain as it is stored and as it is to be stored. -/
def authorizeUpdate (o : Occasion) (token : String) (c : Chain) (s : Service ω η) :
    Result (Chain × Chain) := do
  let current ← s.authorize o .update token c.id
  let c := changed o current c
  c.validate
  return (current, c)

/-- Changes a chain that does not run. Its owner, status and time of creation stay. -/
def update (o : Occasion) (token : String) (c : Chain) (s : Service ω η) :
    Result Chain × Service ω η :=
  match s.authorizeUpdate o token c with
  | .error e => (.error e, s)
  | .ok (current, c) =>
    match s.store o c with
    | .error e => (.error e, s)
    | .ok s => (.ok c, if c.name = current.name then s else s.rename o c.name c.id)

/-- Removes a chain that does not run. -/
def revoke (o : Occasion) (token id : String) (k : Catalogue ω η) (s : Service ω η) :
    Result Unit × Service ω η :=
  match s.authorize o .revoke token id with
  | .error e => (.error e, s)
  | .ok current =>
    match s.engine.delete k current.id with
    | (.error e, engine) => (.error e, { s with engine })
    | (.ok (), engine) =>
      let s := { s with engine }
      match s.erase o current.owner id with
      | .error e => (.error e, s)
      | .ok s => (.ok (), (s.forgetNames o id).toOption.getD s)

/-- How many chains a page holds when a caller asks for so many. -/
def pageLimit (settings : Settings) (limit : Nat) : Nat :=
  if limit = 0 then settings.defaultPageLimit else min limit settings.maxPageLimit

/-- A part of the chains of the caller. -/
def list (o : Occasion) (token : String) (offset limit : Nat) (s : Service ω η) : Result Page := do
  let owner ← s.identify token
  o.stored .list (.ok (s.repository.page owner offset (pageLimit s.settings limit)))

/-! ## Starting and stopping -/

/-- A definition with a new status. -/
def restamped (o : Occasion) (status : Status) (c : Chain) : Chain :=
  { c with status, updatedAt := o.now }

/-- Starts a chain. If its status cannot be stored, it is stopped again. -/
def start (o : Occasion) (token id : String) (k : Catalogue ω η) (s : Service ω η) :
    Result Unit × Service ω η :=
  match s.authorize o .start token id with
  | .error e => (.error e, s)
  | .ok current =>
    match s.engine.start k current with
    | (.error e, engine) => (.error e, { s with engine })
    | (.ok (), engine) =>
      let s := { s with engine }
      match s.store o (restamped o .started current) with
      | .error e => (.error e, { s with engine := (s.engine.stop k current.id).2 })
      | .ok s => (.ok (), s)

/-- Stops a chain. If its status cannot be stored, it is started again, provided it did run. -/
def stop (o : Occasion) (token id : String) (k : Catalogue ω η) (s : Service ω η) :
    Result Unit × Service ω η :=
  match s.authorize o .stop token id with
  | .error e => (.error e, s)
  | .ok current =>
    match s.engine.stop k current.id with
    | (r, engine) =>
      let s := { s with engine }
      match s.store o (restamped o .stopped current) with
      | .error e =>
        (.error e,
          match r with
          | .ok () => { s with engine := (s.engine.start k (restamped o .stopped current)).2 }
          | .error _ => s)
      | .ok s => (.ok (), s)

/-- Lists the defects of a graph; nothing is started. -/
def check (token : String) (payload : List UInt8) (k : Catalogue ω η) (s : Service ω η) :
    Result (List RuleError) × Service ω η :=
  match s.identify token with
  | .error e => (.error e, s)
  | .ok _ =>
    let (es, engine) := s.engine.check k payload
    (.ok es, { s with engine })

/-- Starts a chain that was found as started; if it cannot be started, it is stored as stopped. Says whether
it runs. -/
def restoreOne (o : Occasion) (k : Catalogue ω η) (c : Chain) (s : Service ω η) :
    Bool × Service ω η :=
  match s.engine.start k c with
  | (.ok (), engine) => (true, { s with engine })
  | (.error _, engine) =>
    let s := { s with engine }
    (false, (s.store o (restamped (o.reread c.id) .stopped c)).toOption.getD s)

/-- Starts some chains, one after the other; says how many run. -/
def restoreAll (o : Occasion) (k : Catalogue ω η) : List Chain → Service ω η → Nat × Service ω η
  | [], s => (0, s)
  | c :: cs, s =>
    let (runs, s) := s.restoreOne o k c
    let (n, s) := restoreAll o k cs s
    (n + runs.toNat, s)

/-- Starts all chains that are stored as started. -/
def restore (o : Occasion) (k : Catalogue ω η) (s : Service ω η) : Result Nat × Service ω η :=
  match o.stored .withStatus (.ok (s.repository.withStatus .started)) with
  | .error e => (.error e, s)
  | .ok cs =>
    let (n, s) := s.restoreAll o k cs
    (.ok n, s)

/-! ## Messages -/

/-- Brings the message of an envelope to all chains that listen where it was sent. -/
def deliver (o : Occasion) (e : Envelope) (k : Catalogue ω η) (s : Service ω η) :
    Result Unit × Service ω η :=
  match e.toMessage o.freshUuid o.now with
  | .error e => (.error e, s)
  | .ok m =>
    let (_, engine) := s.engine.dispatch k e.channel e.subTopic m
    (.ok (), { s with engine })

/-- The message that the data of an adaptor make. -/
def adaptorMessage (o : Occasion) (adaptor : String) (payload : List UInt8) : Result Message :=
  match Json.parse payload with
  | .error e => .error (.notJson .adaptorData e)
  | .ok data =>
    .ok { id := o.freshUuid, type := "adaptor", metadata := Table.empty.insert "adaptor_id" adaptor,
          data, timestamp := o.now }

/-- Brings the data of an adaptor to all chains that take them; says how many these are. -/
def deliverFrom (o : Occasion) (adaptor : String) (payload : List UInt8) (k : Catalogue ω η)
    (s : Service ω η) : Result Nat × Service ω η :=
  match adaptorMessage o adaptor payload with
  | .error e => (.error e, s)
  | .ok m =>
    let (n, engine) := s.engine.dispatchFrom k adaptor m
    (.ok n, { s with engine })

end Service

end RuleFlow
