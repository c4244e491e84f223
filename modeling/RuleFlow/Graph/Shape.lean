import RuleFlow.Json.Render

/-!
# The shape of JSON values

A `Shape` says what a value must look like; `Shape.violations` lists where a value departs from it. At each
object the fields come first, in the order of the shape, then the required fields that are missing; members
that the shape does not name are ignored. `graphShape` is the shape of the definition of a graph.
-/

namespace RuleFlow

/-- What a value must look like. -/
inductive Shape where
  /-- A string of at least `least` characters. -/
  | text (least : Nat)
  | textOrNull
  | list (item : Shape)
  /-- An object whose fields have shapes and of which some are required. -/
  | record (fields : List (String × Shape)) (required : List String)

/-- How a value departs from its shape. -/
inductive Violation where
  | type (found : Json.Value) (wanted : List String)
  | short (found : String) (least : Nat)
  | missing (field : String)
  deriving DecidableEq

namespace Violation

/-- The wording of a violation. -/
def message : Violation → String
  | type found [wanted] => s!"{found.render} is not of type {Json.quote wanted}"
  | type found wanted =>
    s!"{found.render} is not of types " ++ ", ".intercalate (wanted.map Json.quote)
  | short found 1 => s!"{Json.quote found} is shorter than 1 character"
  | short found least => s!"{Json.quote found} is shorter than {least} characters"
  | missing field => s!"{Json.quote field} is a required property"

end Violation

namespace Shape

/-- The place of a part below a place. -/
def placeIn (pointer step : String) : String := pointer ++ "/" ++ step

mutual

/-- The departures of a value from a shape, each with its place. -/
def violations : Shape → String → Json.Value → List (String × Violation)
  | text least, pointer, .string s =>
    if s.length < least then [(pointer, .short s least)] else []
  | text _, pointer, v => [(pointer, .type v ["string"])]
  | textOrNull, _, .null => []
  | textOrNull, _, .string _ => []
  | textOrNull, pointer, v => [(pointer, .type v ["null", "string"])]
  | list item, pointer, .array vs =>
    vs.zipIdx.flatMap fun (v, i) => item.violations (placeIn pointer (toString i)) v
  | list _, pointer, v => [(pointer, .type v ["array"])]
  | record fields required, pointer, .object ms =>
    fieldViolations fields pointer ms ++
      ((required.filter fun field => (Entries.get? field ms).isNone).map fun field =>
        (pointer, .missing field))
  | record _ _, pointer, v => [(pointer, .type v ["object"])]

/-- The departures of the members of an object from the shapes of its fields. -/
def fieldViolations : List (String × Shape) → String → Json.Members → List (String × Violation)
  | [], _, _ => []
  | (field, shape) :: fields, pointer, ms =>
    (match Entries.get? field ms with
      | some v => shape.violations (placeIn pointer field) v
      | none => []) ++ fieldViolations fields pointer ms

end

end Shape

/-- The shape of a node in a graph definition. -/
def nodeShape : Shape :=
  .record [("config", .record [] []), ("id", .text 1), ("name", .text 0), ("type", .text 1)]
    ["id", "type"]

/-- The shape of a connection in a graph definition. -/
def connectionShape : Shape :=
  .record [("from_id", .text 0), ("label", .text 1), ("to_id", .text 0)]
    ["from_id", "to_id", "label"]

/-- The shape of a graph definition. -/
def graphShape : Shape :=
  .record [("adaptors", .list (.text 1)), ("connections", .list connectionShape),
    ("first_rule_node_id", .textOrNull), ("nodes", .list nodeShape)] ["nodes"]

end RuleFlow
