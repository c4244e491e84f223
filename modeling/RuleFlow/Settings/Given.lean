import RuleFlow.Settings
import RuleFlow.Table
import RuleFlow.Toml.Document

/-!
# What sources give to settings

A source gives texts and numbers to settings; a value of any other shape suits no setting. `Settings.given`
puts what was given over the defaults and refuses a number or a text where the other one is asked for.
-/

namespace RuleFlow

/-- A value that a source gives to a setting. -/
inductive Given where
  | text (s : String)
  | number (n : Int)
  | other
  deriving DecidableEq

namespace Given

/-- What a value of a document gives. -/
def ofValue : Toml.Value → Given
  | .string s => .text s
  | .integer n => .number n
  | _ => .other

/-- What a document gives, by name. -/
def ofDocument (es : Toml.Entries) : Table Given :=
  Table.ofList (es.map fun (name, v) => (name, ofValue v))

/-- The text of a setting; none if something else was given. -/
def text? (given : Table Given) (name default : String) : Option String :=
  match given.get? name with
  | none => some default
  | some (.text s) => some s
  | some _ => none

/-- The number of a setting; none if something else was given, or a number below zero or above 64 bits. -/
def nat? (given : Table Given) (name : String) (default : Nat) : Option Nat :=
  match given.get? name with
  | none => some default
  | some (.number n) => if 0 ≤ n ∧ n < Int.pow 2 64 then some n.toNat else none
  | some _ => none

end Given

namespace Settings

/-- The settings with what was given in place of the defaults. -/
def given (g : Table Given) : Option Settings := do
  let d : Settings := {}
  return {
    selfChannel := ← Given.text? g "self_channel" d.selfChannel
    subscribeTopic := ← Given.text? g "subscribe_topic" d.subscribeTopic
    workerPoolSize := ← Given.nat? g "worker_pool_size" d.workerPoolSize
    errorChannelCapacity := ← Given.nat? g "error_channel_capacity" d.errorChannelCapacity
    defaultPageLimit := ← Given.nat? g "default_page_limit" d.defaultPageLimit
    maxPageLimit := ← Given.nat? g "max_page_limit" d.maxPageLimit
    logLevel := ← Given.text? g "log_level" d.logLevel
    mqttConnectTimeoutMs := ← Given.nat? g "mqtt_connect_timeout_ms" d.mqttConnectTimeoutMs
    httpTimeoutMs := ← Given.nat? g "http_timeout_ms" d.httpTimeoutMs }

end Settings

end RuleFlow
