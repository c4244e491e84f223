import RuleFlow.Chain
import RuleFlow.Table

/-!
# Stored definitions and names

A `Repository` holds the definitions of chains by id; what it answers to an owner concerns the chains of
that owner only. A `NameCache` remembers the id that was last saved under a name.
-/

namespace RuleFlow

/-- The stored definitions by id. -/
abbrev Repository := Table Chain

namespace Repository

/-- The definition under an id, if the owner has it. -/
def retrieve (r : Repository) (owner id : String) : Result Chain :=
  match r.get? id with
  | some c => if c.owner = owner then .ok c else .error (.noChain id)
  | none => .error (.noChain id)

/-- Stores a definition under an id that is free. -/
def save (c : Chain) (r : Repository) : Result Repository :=
  if r.contains c.id then .error (.chainExists c.id) else .ok (r.insert c.id c)

/-- Replaces a definition of the same owner. -/
def update (c : Chain) (r : Repository) : Result Repository :=
  (r.retrieve c.owner c.id).map fun _ => r.insert c.id c

/-- Removes a definition of an owner. -/
def revoke (owner id : String) (r : Repository) : Result Repository :=
  (r.retrieve owner id).map fun _ => r.erase id

/-- All definitions of an owner, by id. -/
def owned (r : Repository) (owner : String) : List Chain := r.values.filter (·.owner = owner)

/-- A part of the definitions of an owner. -/
def page (r : Repository) (owner : String) (offset limit : Nat) : Page :=
  { total := (r.owned owner).length, offset, limit,
    chains := ((r.owned owner).drop offset).take limit }

/-- All definitions in a status, by id. -/
def withStatus (r : Repository) (status : Status) : List Chain := r.values.filter (·.status = status)

end Repository

/-- The ids of chains by name. -/
abbrev NameCache := Table String

namespace NameCache

/-- The id that was saved under a name. -/
def id (cache : NameCache) (name : String) : Result String :=
  match cache.get? name with
  | some id => .ok id
  | none => .error (.noKey name)

/-- Saves an id under a name. -/
def save (name id : String) (cache : NameCache) : NameCache := cache.insert name id

/-- Forgets all names of an id. -/
def remove (id : String) (cache : NameCache) : NameCache := cache.filter fun _ other => other ≠ id

end NameCache

end RuleFlow
