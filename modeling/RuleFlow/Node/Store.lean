import RuleFlow.Node.Category
import RuleFlow.Node.Plan
import RuleFlow.Stores
import RuleFlow.Template

/-!
# Nodes that write to the stores

A node that saves attributes merges the data of a message into the attributes of an entity: the one that
its template names or, without a template, the sender of the message. A node that creates relations relates
the sender to the entity that its template names and notes on the message whether the relation was new.
What cannot be stored changes nothing and goes the way of failures.
-/

namespace RuleFlow

variable {ω : Type}

/-- The configuration of a node that saves attributes. -/
structure SaveAttributesNode where
  scope : Scope := .server
  entity : Option String := none
  deriving DecidableEq

namespace SaveAttributesNode

/-- Reads the configuration. -/
def decoder : Json.Decoder SaveAttributesNode :=
  .record "SaveAttributesConfig" {}
    [.optional "scope" Scope.decoder fun v c => { c with scope := v },
     .optional "entity_id" (.option .string) fun v c => { c with entity := v }]

/-- How the node presents itself. -/
def descriptor : Descriptor :=
  ⟨"save_attributes", "保存属性", "把消息数据保存为实体属性", .action⟩

/-- The entity whose attributes a message brings. -/
def entityOf (n : SaveAttributesNode) (m : Message) : String :=
  match n.entity with
  | some template => Template.render template m
  | none => m.originator?.getD ""

/-- The entity and the attributes that a message brings, or why it brings none. -/
def request (n : SaveAttributesNode) (m : Message) : Except NodeFault (String × Json.Members) :=
  if n.entityOf m = "" then .error .noEntity
  else match m.data with
    | .object attributes => .ok (n.entityOf m, attributes)
    | data => .error (.notAttributes data)

/-- Saves the data, by a call that saves attributes, and forwards the message. -/
def handle (n : SaveAttributesNode) (save : String → Scope → Json.Members → Query ω Unit) (m : Message) :
    Plan ω :=
  match n.request m with
  | .error fault => .divert m (.execution fault)
  | .ok (entity, attributes) => (save entity n.scope attributes).orDivert m fun _ => .succeed m

end SaveAttributesNode

/-- Which way a relation runs, seen from the sender of a message. -/
inductive Direction where
  | fromSender
  | toSender
  deriving DecidableEq

namespace Direction

/-- Reads a direction by name. -/
def decoder : Json.Decoder Direction := .variant [("from", fromSender), ("to", toSender)]

end Direction

/-- The configuration of a node that creates relations. -/
structure CreateRelationNode where
  type : String := ""
  entity : String := ""
  direction : Direction := .fromSender
  deriving DecidableEq

namespace CreateRelationNode

/-- Reads the configuration. -/
def decoder : Json.Decoder CreateRelationNode :=
  .record "CreateRelationConfig" {}
    [.mandatory "relation_type" .string fun v c => { c with type := v },
     .mandatory "entity_id" .string fun v c => { c with entity := v },
     .optional "direction" Direction.decoder fun v c => { c with direction := v }]

/-- How the node presents itself. -/
def descriptor : Descriptor :=
  ⟨"create_relation", "创建关系", "在消息发布者与目标实体之间创建关系", .action⟩

/-- A relation needs a type and an entity. -/
def check (id : String) (n : CreateRelationNode) : Except NodeConfigFault CreateRelationNode :=
  if n.type = "" ∨ n.entity = "" then .error (.empty id .relation) else .ok n

/-- The relation that a message asks for, or why it asks for none. -/
def request (n : CreateRelationNode) (m : Message) : Except NodeFault Relation :=
  match m.originator? with
  | none | some "" => .error .noPublisher
  | some sender =>
    let entity := Template.render n.entity m
    if entity = "" then .error .noTarget
    else match n.direction with
      | .fromSender => .ok ⟨sender, entity, n.type⟩
      | .toSender => .ok ⟨entity, sender, n.type⟩

/-- Creates the relation, by a call that says whether it was new, and forwards the message with a note of that. -/
def handle (n : CreateRelationNode) (create : Relation → Query ω Bool) (m : Message) : Plan ω :=
  match n.request m with
  | .error fault => .divert m (.execution fault)
  | .ok relation =>
    (create relation).orDivert m fun isNew => .succeed (m.note "relation_created" (toString isNew))

end CreateRelationNode

end RuleFlow
