import RuleFlow.Node.Category
import RuleFlow.Node.Plan
import RuleFlow.Template

/-!
# Nodes that write a line

A log node writes a line for each message, filled in from its template or, without one, with the type and
the data of the message, and forwards the message.
-/

namespace RuleFlow

/-- The configuration of a log node. -/
structure LogNode where
  template : Option String := none
  deriving DecidableEq

namespace LogNode

/-- Reads the configuration. -/
def decoder : Json.Decoder LogNode :=
  .record "LogConfig" {} [.optional "template" (.option .string) fun v c => { c with template := v }]

/-- How the node presents itself. -/
def descriptor : Descriptor := ⟨"log", "日志节点", "输出格式化日志", .action⟩

/-- The line for a message. -/
def line (n : LogNode) (m : Message) : String :=
  match n.template with
  | some template => Template.render template m
  | none => s!"[{m.type}] {m.data.render}"

/-- Writes the line and forwards the message. -/
def handle {ω : Type} (n : LogNode) (ctx : Context) (m : Message) : Plan ω :=
  .reveal (.line ctx.chainId ctx.nodeId (n.line m)) (.succeed m)

end LogNode

end RuleFlow
