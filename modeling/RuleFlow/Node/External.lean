import RuleFlow.Node.Category
import RuleFlow.Node.Plan
import RuleFlow.Template

/-!
# Nodes that speak to the outside

A node that calls a web service forwards the answer as the new data of the message. A node that publishes
sends the data of a message to a topic of a broker; it is connected when it is made, and cannot be made
without a connection.
-/

namespace RuleFlow

variable {ω : Type}

/-- The configuration of a node that calls a web service. -/
structure RestNode where
  url : String := ""
  method : String := "POST"
  headers : Table String := .empty
  timeoutMs : Option Nat := none
  deriving DecidableEq

namespace RestNode

/-- Reads the configuration. -/
def decoder : Json.Decoder RestNode :=
  .record "RestClientConfig" {}
    [.mandatory "url" .string fun v c => { c with url := v },
     .optional "method" .string fun v c => { c with method := v },
     .optional "headers" .stringMap fun v c => { c with headers := v },
     .optional "timeout_ms" (.option .nat64) fun v c => { c with timeoutMs := v }]

/-- How the node presents itself. -/
def descriptor : Descriptor :=
  ⟨"rest_api_call", "HTTP客户端", "发送HTTP请求,支持成功/失败分支路由", .external⟩

/-- A call needs a URL and a method, whose letters become capitals. -/
def check (id : String) (n : RestNode) : Except NodeConfigFault RestNode :=
  if n.url = "" then .error (.empty id .url)
  else match Http.method? n.method with
    | some method => .ok { n with method }
    | none => .error (.method n.method)

/-- The methods whose requests carry the data of the message. -/
def methodsWithBody : List String := ["POST", "PUT", "PATCH"]

/-- The request for a message, and its URL as it is told in messages. -/
def request (n : RestNode) (m : Message) : Except Http.Fault (Http.Request × String) :=
  Http.Request.build n.method (Template.render n.url m)
    (n.headers.entries.map fun h => (h.1, Template.render h.2 m))
    (if n.method ∈ methodsWithBody then some m.data.encode else none)

/-- The data of a message that brings an answer: the status, and the body as JSON if it is JSON. -/
def answer (r : Http.Response) : Json.Value :=
  let body := ((Json.parse (Json.bytesOf r.text)).toOption).getD (.string r.text)
  .object [("body", body), ("status", .ofNat r.status)]

/-- Calls the service for a message and forwards its answer; a status that says otherwise is a failure. -/
def handle (n : RestNode) (send : RestNode → Message → Query ω Http.Response) (m : Message) : Plan ω :=
  (send n m).orDivert m fun r =>
    if Http.isSuccess r.status then .succeed { m with data := answer r, type := "http_response" }
    else .divert m (.execution (.status r.status))

end RestNode

/-- The configuration of a node that publishes. -/
structure MqttNode where
  broker : String := ""
  topic : String := ""
  qos : Nat := 0
  clientId : Option String := none
  username : Option String := none
  password : Option String := none
  retain : Bool := false
  deriving DecidableEq

namespace MqttNode

/-- Reads the configuration. -/
def decoder : Json.Decoder MqttNode :=
  .record "MqttConfig" {}
    [.mandatory "broker" .string fun v c => { c with broker := v },
     .mandatory "topic" .string fun v c => { c with topic := v },
     .optional "qos" .byte fun v c => { c with qos := v.toNat },
     .optional "client_id" (.option .string) fun v c => { c with clientId := v },
     .optional "username" (.option .string) fun v c => { c with username := v },
     .optional "password" (.option .string) fun v c => { c with password := v },
     .optional "retain" .bool fun v c => { c with retain := v }]

/-- How the node presents itself. -/
def descriptor : Descriptor := ⟨"mqtt", "MQTT 发布", "把消息数据发布到 MQTT 主题", .external⟩

/-- A publication needs a topic and the address of a broker. -/
def check (id : String) (n : MqttNode) : Except NodeConfigFault MqttNode :=
  if n.topic = "" then .error (.empty id .topic)
  else match Mqtt.address n.broker with
    | .ok _ => .ok n
    | .error fault => .error (.broker n.broker fault)

/-- What a message is published as; an unknown quality of service counts as the lowest. -/
def publication (n : MqttNode) (m : Message) : Mqtt.Publication :=
  ⟨Template.render n.topic m, if n.qos ≤ 2 then n.qos else 0, n.retain, m.data.encode⟩

/-- Publishes the data and forwards the message. -/
def handle (n : MqttNode) (publish : Mqtt.Publication → Query ω Unit) (m : Message) : Plan ω :=
  (publish (n.publication m)).orDivert m fun _ => .succeed m

end MqttNode

end RuleFlow
