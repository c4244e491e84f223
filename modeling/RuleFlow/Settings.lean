import RuleFlow.Json.Decoder

/-!
# Settings of the engine

The settings with their defaults, and what makes them unusable (`Settings.validate`).
-/

namespace RuleFlow

/-- The settings of an engine. -/
structure Settings where
  selfChannel : String := "rulechain"
  subscribeTopic : String := "channels.>"
  workerPoolSize : Nat := 64
  errorChannelCapacity : Nat := 256
  defaultPageLimit : Nat := 10
  maxPageLimit : Nat := 100
  logLevel : String := "info"
  mqttConnectTimeoutMs : Nat := 3000
  httpTimeoutMs : Nat := 5000
  deriving DecidableEq, Inhabited

namespace Settings

/-- Why settings are unusable. -/
inductive Fault where
  | noWorkers
  | noPage
  | pageAboveMaximum
  | noTopic
  deriving DecidableEq

/-- The wording of a fault. -/
def Fault.message : Fault → String
  | .noWorkers => "worker_pool_size 必须大于 0"
  | .noPage => "分页大小必须大于 0"
  | .pageAboveMaximum => "default_page_limit 不能大于 max_page_limit"
  | .noTopic => "subscribe_topic 不能为空"

/-- The fields of the settings; all have defaults. -/
def fields : List (Json.Decoder.Field Settings) :=
  [.optional "self_channel" .string fun v s => { s with selfChannel := v },
   .optional "subscribe_topic" .string fun v s => { s with subscribeTopic := v },
   .optional "worker_pool_size" .size fun v s => { s with workerPoolSize := v },
   .optional "error_channel_capacity" .size fun v s => { s with errorChannelCapacity := v },
   .optional "default_page_limit" .nat64 fun v s => { s with defaultPageLimit := v },
   .optional "max_page_limit" .nat64 fun v s => { s with maxPageLimit := v },
   .optional "log_level" .string fun v s => { s with logLevel := v },
   .optional "mqtt_connect_timeout_ms" .nat64 fun v s => { s with mqttConnectTimeoutMs := v },
   .optional "http_timeout_ms" .nat64 fun v s => { s with httpTimeoutMs := v }]

/-- Reads settings over the defaults. -/
def decoder : Json.Decoder Settings := .record "EngineConfig" {} fields

/-- The settings with their fields in order. -/
def toJson (s : Settings) : Json.Value :=
  .object [("self_channel", .string s.selfChannel), ("subscribe_topic", .string s.subscribeTopic),
    ("worker_pool_size", .ofNat s.workerPoolSize),
    ("error_channel_capacity", .ofNat s.errorChannelCapacity),
    ("default_page_limit", .ofNat s.defaultPageLimit), ("max_page_limit", .ofNat s.maxPageLimit),
    ("log_level", .string s.logLevel),
    ("mqtt_connect_timeout_ms", .ofNat s.mqttConnectTimeoutMs),
    ("http_timeout_ms", .ofNat s.httpTimeoutMs)]

/-- The first reason why the settings cannot be used. -/
def validate (s : Settings) : Except Fault Unit :=
  if s.workerPoolSize = 0 then .error .noWorkers
  else if s.defaultPageLimit = 0 ∨ s.maxPageLimit = 0 then .error .noPage
  else if s.maxPageLimit < s.defaultPageLimit then .error .pageAboveMaximum
  else if s.subscribeTopic = "" then .error .noTopic
  else .ok ()

end Settings

end RuleFlow
