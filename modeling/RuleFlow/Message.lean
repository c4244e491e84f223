import RuleFlow.Json.Decoder

/-!
# Messages

What runs through the nodes of a chain. A message keeps its id and its timestamp on its whole way; nodes
change its data, its type and its metadata.
-/

namespace RuleFlow

/-- A message on its way through a chain. -/
structure Message where
  id : Uuid
  type : String
  metadata : Table String
  data : Json.Value
  timestamp : Int
  deriving DecidableEq, Inhabited

namespace Message

/-- Reads a message. -/
def decoder : Json.Decoder Message :=
  .record "Message" ⟨⟨0⟩, "", .empty, .null, 0⟩
    [.mandatory "id" .uuid fun v m => { m with id := v },
     .mandatory "msg_type" .string fun v m => { m with type := v },
     .mandatory "metadata" .stringMap fun v m => { m with metadata := v },
     .mandatory "data" .any fun v m => { m with data := v },
     .mandatory "timestamp" .int64 fun v m => { m with timestamp := v }]

/-- The metadata as an object. -/
def metadataToJson (metadata : Table String) : Json.Value :=
  .object (metadata.entries.map fun (k, v) => (k, .string v))

/-- The message with its keys sorted. -/
def toJson (m : Message) : Json.Value :=
  .object [("data", m.data), ("id", .string m.id.render), ("metadata", metadataToJson m.metadata),
    ("msg_type", .string m.type), ("timestamp", .ofInt m.timestamp)]

/-- Who sent the message, if its metadata tells. -/
def originator? (m : Message) : Option String := m.metadata.get? "publisher"

/-- The message with one more entry in its metadata. -/
def note (m : Message) (key value : String) : Message :=
  { m with metadata := m.metadata.insert key value }

end Message

end RuleFlow
