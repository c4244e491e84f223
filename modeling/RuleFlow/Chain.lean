import RuleFlow.Error

/-!
# Chains

The stored definition of a rule chain: who owns it, in which status it is, which channel it listens to and
the text of its graph. `Chain.validate` asks for an id and an owner, `Chain.check` for a status that permits
an operation.
-/

namespace RuleFlow

/-- The stored definition of a rule chain. -/
structure Chain where
  id : String := ""
  name : String := ""
  description : String := ""
  debugMode : Bool := false
  owner : String := ""
  status : Status := .unknown
  payload : List UInt8 := []
  root : Bool := false
  channel : String := ""
  subTopic : String := ""
  createdAt : Int := 0
  updatedAt : Int := 0
  deriving DecidableEq, Inhabited

namespace Chain

/-- Reads a chain. -/
def decoder : Json.Decoder Chain :=
  .record "RuleChain" {}
    [.mandatory "id" .string fun v c => { c with id := v },
     .mandatory "name" .string fun v c => { c with name := v },
     .optional "description" .string fun v c => { c with description := v },
     .optional "debug_mode" .bool fun v c => { c with debugMode := v },
     .mandatory "user_id" .string fun v c => { c with owner := v },
     .optional "status" Status.decoder fun v c => { c with status := v },
     .optional "payload" (.list .byte) fun v c => { c with payload := v },
     .optional "root" .bool fun v c => { c with root := v },
     .mandatory "channel" .string fun v c => { c with channel := v },
     .optional "sub_topic" .string fun v c => { c with subTopic := v },
     .optional "create_at" .int64 fun v c => { c with createdAt := v },
     .optional "last_update_at" .int64 fun v c => { c with updatedAt := v }]

/-- Bytes as an array of numbers. -/
def bytesToJson (bytes : List UInt8) : Json.Value := .array (bytes.map fun b => .ofNat b.toNat)

/-- The chain with its fields in order. -/
def toJson (c : Chain) : Json.Value :=
  .object [("id", .string c.id), ("name", .string c.name), ("description", .string c.description),
    ("debug_mode", .bool c.debugMode), ("user_id", .string c.owner),
    ("status", .string c.status.name), ("payload", bytesToJson c.payload), ("root", .bool c.root),
    ("channel", .string c.channel), ("sub_topic", .string c.subTopic),
    ("create_at", .ofInt c.createdAt), ("last_update_at", .ofInt c.updatedAt)]

/-- A chain needs an id and an owner. -/
def validate (c : Chain) : Result Unit :=
  if c.id = "" then .error .noId
  else if c.owner = "" then .error .noOwner
  else .ok ()

/-- Whether the status of a chain permits an operation. -/
def check (c : Chain) (operation : Operation) : Result Unit :=
  if c.status.permits operation then .ok ()
  else .error (.notPermitted c.id c.status operation)

end Chain

/-- A part of the chains of an owner. -/
structure Page where
  total : Nat := 0
  offset : Nat := 0
  limit : Nat := 0
  chains : List Chain := []
  deriving DecidableEq

namespace Page

/-- Reads a page. -/
def decoder : Json.Decoder Page :=
  .record "RuleChainPage" {}
    [.mandatory "total" .nat64 fun v p => { p with total := v },
     .mandatory "offset" .nat64 fun v p => { p with offset := v },
     .mandatory "limit" .nat64 fun v p => { p with limit := v },
     .mandatory "rule_chains" (.list Chain.decoder) fun v p => { p with chains := v }]

/-- The page with its fields in order. -/
def toJson (p : Page) : Json.Value :=
  .object [("total", .ofNat p.total), ("offset", .ofNat p.offset), ("limit", .ofNat p.limit),
    ("rule_chains", .array (p.chains.map Chain.toJson))]

end Page

end RuleFlow
