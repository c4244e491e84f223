import RuleFlow.Node.Category
import RuleFlow.Node.Plan
import RuleFlow.Text.Blank

/-!
# Nodes with a script

A filter forwards a message one way or the other, a switch under the labels that its script returns and
that lead somewhere, and a transformation forwards the message that its script makes. If the script has no
usable result, the message goes the way of failures as it came.
-/

namespace RuleFlow

variable {ω : Type}

/-- The configuration of a node with a script. -/
structure ScriptedNode where
  script : String := ""
  deriving DecidableEq

namespace ScriptedNode

/-- Reads the configuration, which is called `name` in messages. -/
def decoder (name : String) : Json.Decoder ScriptedNode :=
  .record name {} [.mandatory "script" .string fun v c => { c with script := v }]

/-- A script must not be blank. -/
def check (id : String) (n : ScriptedNode) : Except NodeConfigFault ScriptedNode :=
  if (Text.trim n.script.toList).isEmpty then .error (.empty id .script) else .ok n

/-- How a filter presents itself. -/
def filterDescriptor : Descriptor :=
  ⟨"filter", "过滤器", "根据脚本条件选择 True/False 分支", .filter⟩

/-- How a switch presents itself. -/
def switchDescriptor : Descriptor :=
  ⟨"switch", "条件分支", "根据脚本返回的标签选择分支", .filter⟩

/-- How a transformation presents itself. -/
def transformDescriptor : Descriptor :=
  ⟨"transform", "转换", "使用脚本转换消息内容", .filter⟩

/-- Forwards a message as true or as false, as the script decides. -/
def handleFilter (n : ScriptedNode) (decides : Message → String → Query ω Bool) (m : Message) : Plan ω :=
  (decides m n.script).orDivert m fun
    | true => .forward trueLabel m
    | false => .forward falseLabel m

/-- Forwards a message under each label that the script names and that leads somewhere. -/
def handleSwitch (n : ScriptedNode) (names : Message → String → Query ω (List String)) (ctx : Context)
    (m : Message) : Plan ω :=
  (names m n.script).orDivert m fun labels => .forwardAll m (labels.filter ctx.hasRoute)

/-- Forwards the message that the script makes. -/
def handleTransform (n : ScriptedNode) (makes : Message → String → Query ω Message) (m : Message) : Plan ω :=
  (makes m n.script).orDivert m .succeed

end ScriptedNode

end RuleFlow
