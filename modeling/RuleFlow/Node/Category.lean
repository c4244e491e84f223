import RuleFlow.Json.Decoder

/-!
# What is told about a node type

The category of a node type, and the descriptor that a node shows of itself.
-/

namespace RuleFlow

/-- What a node type is for. -/
inductive Category where
  | action
  | external
  | filter
  deriving DecidableEq, Inhabited

namespace Category

/-- The name of a category. -/
def name : Category → String
  | action => "action"
  | external => "external"
  | filter => "filter"

/-- The categories under their names. -/
def variants : List (String × Category) :=
  [action, external, filter].map fun c => (c.name, c)

/-- Reads a category by name. -/
def decoder : Json.Decoder Category := .variant variants

end Category

/-- How a node presents itself. -/
structure Descriptor where
  typeName : String := ""
  name : String := ""
  description : String := ""
  category : Category := .action
  deriving DecidableEq

namespace Descriptor

/-- Reads a descriptor. -/
def decoder : Json.Decoder Descriptor :=
  .record "NodeDescriptor" {}
    [.mandatory "type_name" .string fun v d => { d with typeName := v },
     .mandatory "name" .string fun v d => { d with name := v },
     .mandatory "description" .string fun v d => { d with description := v },
     .mandatory "category" Category.decoder fun v d => { d with category := v }]

/-- The descriptor with its fields in order. -/
def toJson (d : Descriptor) : Json.Value :=
  .object [("type_name", .string d.typeName), ("name", .string d.name),
    ("description", .string d.description), ("category", .string d.category.name)]

end Descriptor

end RuleFlow
