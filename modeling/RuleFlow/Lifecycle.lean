import RuleFlow.Json.Decoder

/-!
# The life of a chain

A chain is created, started and stopped; `Status.permits` is the table that says which operation may be
tried in which status. The names of the statuses are part of the stored definitions.
-/

namespace RuleFlow

/-- The stored status of a chain. -/
inductive Status where
  | created
  | started
  | stopped
  | unknown
  deriving DecidableEq, Inhabited

/-- The operations that the status table governs. -/
inductive Operation where
  | update
  | revoke
  | start
  | stop
  deriving DecidableEq

namespace Status

/-- The stored name. -/
def name : Status → String
  | created => "created"
  | started => "started"
  | stopped => "stopped"
  | unknown => "unknown"

/-- The statuses under their names. -/
def variants : List (String × Status) :=
  [created, started, stopped, unknown].map fun s => (s.name, s)

/-- The status of a name. -/
def ofName? (text : String) : Option Status := variants.lookup text

/-- A started chain may only be stopped; a created or stopped one may be changed, removed and started. -/
def permits : Status → Operation → Bool
  | created, .stop | stopped, .stop => false
  | created, _ | stopped, _ => true
  | started, .stop => true
  | started, _ => false
  | unknown, _ => false

/-- Reads a status by name. -/
def decoder : Json.Decoder Status := .variant variants

end Status

/-- The name of an operation in messages. -/
def Operation.name : Operation → String
  | .update => "update"
  | .revoke => "revoke"
  | .start => "start"
  | .stop => "stop"

end RuleFlow
