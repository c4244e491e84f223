import RuleFlow.Chain
import RuleFlow.Message

/-!
# Envelopes

What a transport delivers: a payload with the channel and sub-topic it was published on. An envelope is
encoded as JSON and decoded again; one without a channel is refused. `Envelope.toMessage` opens it.
-/

namespace RuleFlow

/-- A payload on its way over a transport. -/
structure Envelope where
  channel : String := ""
  subTopic : String := ""
  publisher : String := ""
  protocol : String := ""
  payload : List UInt8 := []
  created : Int := 0
  deriving DecidableEq, Inhabited

namespace Envelope

/-- Reads an envelope. -/
def decoder : Json.Decoder Envelope :=
  .record "Envelope" {}
    [.mandatory "channel" .string fun v e => { e with channel := v },
     .optional "sub_topic" .string fun v e => { e with subTopic := v },
     .optional "publisher" .string fun v e => { e with publisher := v },
     .optional "protocol" .string fun v e => { e with protocol := v },
     .optional "payload" (.list .byte) fun v e => { e with payload := v },
     .optional "created" .int64 fun v e => { e with created := v }]

/-- The envelope with its fields in order. -/
def toJson (e : Envelope) : Json.Value :=
  .object [("channel", .string e.channel), ("sub_topic", .string e.subTopic),
    ("publisher", .string e.publisher), ("protocol", .string e.protocol),
    ("payload", Chain.bytesToJson e.payload), ("created", .ofInt e.created)]

/-- The first piece of every subject. -/
def subjectRoot : String := "channels"

/-- The subject an envelope is published under. -/
def subject (e : Envelope) : String :=
  if e.subTopic = "" then s!"{subjectRoot}.{e.channel}"
  else s!"{subjectRoot}.{e.channel}.{e.subTopic}"

/-- The bytes of an envelope. -/
def encode (e : Envelope) : List UInt8 := e.toJson.encode

/-- Reads the bytes of an envelope, which must name a channel. -/
def decode (raw : List UInt8) : Result Envelope :=
  match decoder.parse raw with
  | .error e => .error (.notJson .envelope e)
  | .ok e => if e.channel = "" then .error .noChannel else .ok e

/-- The metadata that tells where a message came from. -/
def origin (e : Envelope) : Table String :=
  let place := (Table.empty.insert "channel" e.channel).insert "sub_topic" e.subTopic
  if e.publisher = "" then place else place.insert "publisher" e.publisher

/-- Opens an envelope into a message with the given id; `now` is the time where the envelope has none. -/
def toMessage (e : Envelope) (id : Uuid) (now : Int) : Result Message :=
  match Json.parse e.payload with
  | .error fault => .error (.notJson .messageData fault)
  | .ok data =>
    .ok { id, type := "telemetry", metadata := e.origin, data,
          timestamp := if 0 < e.created then e.created else now }

end Envelope

end RuleFlow
