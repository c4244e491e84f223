import RuleFlow.Json.Decoder

/-!
# The definition of a graph

What a chain stores of its graph: nodes with their types and configurations, labelled connections, the
entry node and the adaptors whose data the chain consumes.
-/

namespace RuleFlow

/-- The label under which a node forwards what went well. -/
def successLabel : String := "Success"

/-- The label under which a node forwards what failed. -/
def failureLabel : String := "Failure"

/-- The label of messages that pass a filter. -/
def trueLabel : String := "True"

/-- The label of messages that a filter holds back. -/
def falseLabel : String := "False"

/-- A node of a graph before it is built. -/
structure NodeSpec where
  id : String := ""
  typeName : String := ""
  name : String := ""
  config : Json.Value := .object []
  deriving DecidableEq, Inhabited

/-- A labelled edge between two nodes. -/
structure Connection where
  source : String := ""
  target : String := ""
  label : String := ""
  deriving DecidableEq

/-- The stored form of a graph. -/
structure GraphPayload where
  entry : Option String := none
  adaptors : List String := []
  nodes : List NodeSpec := []
  connections : List Connection := []
  deriving DecidableEq

/-- Reads a node. -/
def NodeSpec.decoder : Json.Decoder NodeSpec :=
  .record "NodeSpec" {}
    [.mandatory "id" .string fun v n => { n with id := v },
     .mandatory "type" .string fun v n => { n with typeName := v },
     .optional "name" .string fun v n => { n with name := v },
     .optional "config" .any fun v n => { n with config := v }]

/-- The node with its fields in order. -/
def NodeSpec.toJson (n : NodeSpec) : Json.Value :=
  .object [("id", .string n.id), ("type", .string n.typeName), ("name", .string n.name),
    ("config", n.config)]

/-- Reads a connection. -/
def Connection.decoder : Json.Decoder Connection :=
  .record "Connection" {}
    [.mandatory "from_id" .string fun v c => { c with source := v },
     .mandatory "to_id" .string fun v c => { c with target := v },
     .mandatory "label" .string fun v c => { c with label := v }]

/-- The connection with its fields in order. -/
def Connection.toJson (c : Connection) : Json.Value :=
  .object [("from_id", .string c.source), ("to_id", .string c.target), ("label", .string c.label)]

/-- Reads a graph definition. -/
def GraphPayload.decoder : Json.Decoder GraphPayload :=
  .record "GraphPayload" {}
    [.optional "first_rule_node_id" (.option .string) fun v g => { g with entry := v },
     .optional "adaptors" (.list .string) fun v g => { g with adaptors := v },
     .mandatory "nodes" (.list NodeSpec.decoder) fun v g => { g with nodes := v },
     .optional "connections" (.list Connection.decoder) fun v g => { g with connections := v }]

/-- The graph definition with its fields in order. -/
def GraphPayload.toJson (g : GraphPayload) : Json.Value :=
  .object [("first_rule_node_id", (g.entry.map .string).getD .null),
    ("adaptors", .array (g.adaptors.map .string)),
    ("nodes", .array (g.nodes.map NodeSpec.toJson)),
    ("connections", .array (g.connections.map Connection.toJson))]

end RuleFlow
