import RuleFlow.Node.Category
import RuleFlow.Node.Plan

/-!
# Nodes that do as they are told

A probe shows every message that it receives and then does what its configuration says: it panics, fails,
changes the type of the message, forwards it as a failure or under given labels. Chains are tried out with
probes. A probe may also be told not to be made, or to take its time when it is made.
-/

namespace RuleFlow

/-- What a probe is told to do. -/
structure Probe where
  isSlow : Bool := false
  createError : Option RuleError := none
  panic : Option (Option String) := none
  failure : Option RuleError := none
  setType : Option String := none
  tellFailure : Option RuleError := none
  emit : Option (List String) := none
  routes : Option (List String) := none
  showsContext : Bool := false
  deriving DecidableEq

namespace Probe

/-- How a probe presents itself. -/
def descriptor : Descriptor := ⟨"probe", "probe", "", .action⟩

/-- A member of an object. -/
def member? (v : Json.Value) (key : String) : Option Json.Value :=
  match v with
  | .object ms => Entries.get? key ms
  | _ => none

/-- A member that is a text. -/
def text? (v : Json.Value) (key : String) : Option String :=
  match member? v key with
  | some (.string s) => some s
  | _ => none

/-- A member that is a list of texts. -/
def texts? (v : Json.Value) (key : String) : Option (List String) :=
  match member? v key with
  | some (.array vs) => some (vs.filterMap fun
      | .string s => some s
      | _ => none)
  | _ => none

/-- Whether a member is true. -/
def flag (v : Json.Value) (key : String) : Bool := member? v key = some (.bool true)

/-- The error that a description of its kind and text stands for. -/
def errorOf (v : Json.Value) : RuleError :=
  let text := (text? v "message").getD ""
  match (ErrorKind.names.lookup ((text? v "kind").getD "")).getD .json with
  | .nodeFailed => .nodeFailed ((text? v "node_id").getD "") ((text? v "node_type").getD "") text
  | kind => .stated kind text

/-- The error that a member describes. -/
def error? (v : Json.Value) (key : String) : Option RuleError :=
  match member? v key with
  | none | some .null => none
  | some e => some (errorOf e)

/-- The panic that a configuration asks for. -/
def panic? (v : Json.Value) : Option (Option String) :=
  (text? v "panic").map fun text =>
    if text? v "panic_kind" = some "int" then none else some text

/-- What a configuration tells a probe to do. -/
def ofConfig (v : Json.Value) : Probe where
  isSlow := flag v "create_yield"
  createError := error? v "create_error"
  panic := panic? v
  failure := error? v "fail"
  setType := text? v "set_type"
  tellFailure := error? v "tell_failure"
  emit := texts? v "emit"
  routes := texts? v "routes"
  showsContext := flag v "debug"

/-- Where a message goes from a probe that neither panics nor fails. -/
def pass {ω : Type} (p : Probe) (m : Message) : Plan ω :=
  match p.tellFailure, p.emit with
  | some e, _ => .divert m e
  | none, some labels => .forwardAll m labels
  | none, none => .succeed m

/-- Shows the message and does as told. -/
def handle {ω : Type} (p : Probe) (ctx : Context) (m : Message) : Plan ω :=
  .reveal (.hit ctx m (p.routes.map fun labels => labels.map ctx.hasRoute) p.showsContext)
    (match p.panic, p.failure with
      | some text, _ => .finish (.panicked text)
      | none, some e => .finish (.failed e)
      | none, none => p.pass { m with type := p.setType.getD m.type })

end Probe

end RuleFlow
