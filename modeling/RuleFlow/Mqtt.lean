import RuleFlow.Url.Basic

/-!
# Message brokers outside

A client connects to a broker at a `mqtt` or `tcp` address and publishes messages there. `Peer` says how
the broker behind the network takes the connection. What becomes of a publication is up to the service that a
node calls on (`Services.publish`); to try chains out, `publish` plays a client that stays connected.
-/

namespace RuleFlow.Mqtt

/-- Why a broker address cannot be used. -/
inductive AddressFault where
  | url (fault : Url.Fault)
  | scheme (name : String)
  | noHost
  deriving DecidableEq

/-- Why there is no connection, or why a message was not sent over it. -/
inductive Fault where
  | unreachable
  | closed
  | refused (code : Nat)
  | late (broker : String)
  | unsendable
  deriving DecidableEq

/-- The names of the codes with which a broker refuses a connection. -/
def refusals : List (Nat × String) :=
  [(1, "RefusedProtocolVersion"), (2, "BadClientId"), (3, "ServiceUnavailable"),
    (4, "BadUserNamePassword"), (5, "NotAuthorized")]

/-- The wording of a fault. -/
def Fault.message : Fault → String
  | .unreachable => "MQTT 连接失败: I/O: Network is unreachable (os error 101)"
  | .closed => "MQTT 连接失败: I/O: connection closed by peer"
  | .refused code =>
    match refusals.lookup code with
    | some name => s!"MQTT 连接失败: Connection refused, return code: `{name}`"
    | none => s!"MQTT 连接失败: I/O: Invalid Connect return code: {code}"
  | .late broker => s!"连接 MQTT broker {broker} 超时"
  | .unsendable => "MQTT 发布失败: Failed to send mqtt requests to eventloop"

/-- The host and the port of a broker. -/
def address (broker : String) : Except AddressFault (String × Nat) :=
  match Url.parse broker with
  | .error fault => .error (.url fault)
  | .ok u =>
    if u.scheme ≠ "mqtt" ∧ u.scheme ≠ "tcp" then .error (.scheme u.scheme)
    else match u.hostName? with
      | none => .error .noHost
      | some host => .ok (host, u.port.getD 1883)

/-- How the broker behind the network takes a connection. -/
inductive Peer where
  | unreachable
  | answers (code : Nat)
  | closes
  | silent
  deriving DecidableEq, Inhabited

/-- Tries to connect. -/
def connect (peer : Peer) (broker : String) : Except Fault Unit :=
  match peer with
  | .unreachable => .error .unreachable
  | .answers 0 => .ok ()
  | .answers code => .error (.refused code)
  | .closes => .error .closed
  | .silent => .error (.late broker)

/-- A message on its way to a topic. -/
structure Publication where
  topic : String
  qos : Nat
  retain : Bool
  payload : List UInt8
  deriving DecidableEq

/-- Plays a client that stays connected: a message can be sent if its topic has no wildcard. -/
def publish (p : Publication) : Except Fault Publication :=
  if p.topic.toList.any fun c => c = '+' || c = '#' then .error .unsendable else .ok p

end RuleFlow.Mqtt
