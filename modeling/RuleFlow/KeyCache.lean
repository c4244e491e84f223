import RuleFlow.Error
import RuleFlow.Table

/-!
# A cache of names on a key-value server

Names and ids are kept on a server that stores texts under keys. `KeyCache.save` writes both directions, so
that `KeyCache.remove` finds the name of an id without searching. While the server is down every command
fails and nothing changes.
-/

namespace RuleFlow

/-- A server that stores texts under keys. -/
structure KeyServer where
  entries : Table String := .empty
  isDown : Bool := false

namespace KeyServer

/-- Answers a command, unless the server is down. -/
def serve {α : Type} (s : KeyServer) (answer : α) : Result α :=
  if s.isDown then .error (.cacheServer .serverDown) else .ok answer

end KeyServer

namespace KeyCache

/-- The key under which the id of a name is stored. -/
def nameKey (name : String) : String := "rulechain:key:" ++ name

/-- The key under which the name of an id is stored. -/
def idKey (id : String) : String := "rulechain:id:" ++ id

/-- Stores an id and a name, each under the other. -/
def save (name id : String) (s : KeyServer) : Result KeyServer :=
  s.serve { s with entries := (s.entries.insert (nameKey name) id).insert (idKey id) name }

/-- The id that is stored for a name. -/
def id (name : String) (s : KeyServer) : Result String := do
  match ← s.serve (s.entries.get? (nameKey name)) with
  | some id => return id
  | none => .error (.noKey name)

/-- Removes an id together with the name stored for it. -/
def remove (id : String) (s : KeyServer) : Result KeyServer := do
  let entries := s.entries.erase (idKey id)
  match ← s.serve (s.entries.get? (idKey id)) with
  | some name => s.serve { s with entries := entries.erase (nameKey name) }
  | none => s.serve { s with entries }

end KeyCache

end RuleFlow
