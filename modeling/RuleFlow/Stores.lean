import RuleFlow.Json.Decoder

/-!
# Attributes and relations

What nodes write for others to read: attributes of entities, by scope, and relations between entities.
Saving attributes merges them key by key, the later value winning (`Attributes.get?_save`). A relation is
stored once; `Relations.create` says whether it was new. Both kinds of `Stores` are kept in memory.
-/

namespace RuleFlow

/-- Who attributes are meant for. -/
inductive Scope where
  | server
  | client
  | shared
  deriving DecidableEq, Inhabited

namespace Scope

/-- The name of a scope. -/
def name : Scope → String
  | server => "server"
  | client => "client"
  | shared => "shared"

/-- The scopes under their names. -/
def variants : List (String × Scope) := [server, client, shared].map fun s => (s.name, s)

/-- Reads a scope by name. -/
def decoder : Json.Decoder Scope := .variant variants

end Scope

/-- A directed, typed relation between two entities. -/
structure Relation where
  source : String := ""
  target : String := ""
  type : String := ""
  deriving DecidableEq

namespace Relation

/-- Reads a relation. -/
def decoder : Json.Decoder Relation :=
  .record "Relation" {}
    [.mandatory "from" .string fun v r => { r with source := v },
     .mandatory "to" .string fun v r => { r with target := v },
     .mandatory "relation_type" .string fun v r => { r with type := v }]

/-- The relation with its fields in order. -/
def toJson (r : Relation) : Json.Value :=
  .object [("from", .string r.source), ("to", .string r.target), ("relation_type", .string r.type)]

end Relation

/-- The attributes of entities, by entity and scope. -/
abbrev Attributes := List ((String × Scope) × Json.Members)

namespace Attributes

/-- The attributes of an entity in a scope, if any were saved. -/
def get? (store : Attributes) (entity : String) (scope : Scope) : Option Json.Members :=
  store.lookup (entity, scope)

/-- Merges attributes into those of an entity and scope. -/
def save (entity : String) (scope : Scope) (attributes : Json.Members) : Attributes → Attributes
  | [] => [((entity, scope), Json.Members.extend [] attributes)]
  | (place, old) :: store =>
    if place = (entity, scope) then (place, old.extend attributes) :: store
    else (place, old) :: save entity scope attributes store

/-- Saving extends what is stored for an entity in a scope, and leaves everything else. -/
theorem get?_save (store : Attributes) (entity entity' : String) (scope scope' : Scope)
    (attributes : Json.Members) :
    (save entity scope attributes store).get? entity' scope' =
      if (entity', scope') = (entity, scope) then
        some (((store.get? entity scope).getD []).extend attributes)
      else store.get? entity' scope' := by
  induction store with
  | nil =>
    by_cases h : (entity', scope') = (entity, scope)
    · simp [save, get?, h]
    · have hb : ((entity', scope') == (entity, scope)) = false := by simpa using h
      simp only [save, get?, List.lookup_cons, List.lookup_nil, hb, if_neg h]
  | cons x store ih =>
    obtain ⟨place, old⟩ := x
    simp only [save]
    by_cases hp : place = (entity, scope)
    · subst hp
      by_cases h : (entity', scope') = (entity, scope)
      · simp [get?, h]
      · have hb : ((entity', scope') == (entity, scope)) = false := by simpa using h
        simp only [get?, if_true, List.lookup_cons, hb, if_neg h]
    · simp only [if_neg hp]
      have hne : ((entity, scope) == place) = false := by
        simpa using fun e => hp e.symm
      by_cases h' : (entity', scope') = place
      · subst h'
        simp [get?, hp]
      · have hb : ((entity', scope') == place) = false := by simpa using h'
        have := ih
        simp only [get?] at this ⊢
        simp only [List.lookup_cons, hb, hne]
        exact this

end Attributes

/-- The stored relations in the order in which they were created. -/
abbrev Relations := List Relation

/-- Stores a relation unless it is there; says whether it was new. -/
def Relations.create (store : Relations) (r : Relation) : Bool × Relations :=
  if r ∈ store then (false, store) else (true, store ++ [r])

/-- What all graphs write to. -/
structure Stores where
  attributes : Attributes := []
  relations : Relations := []

end RuleFlow
