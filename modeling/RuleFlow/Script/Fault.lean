import RuleFlow.Json.Fault

/-!
# Why a script fails

A script can be ill-formed, raise an exception, throw a value of its own, return what has no text, or
return what its node cannot use.
-/

namespace RuleFlow.Script

/-- Why a script has no usable result. -/
inductive Fault where
  /-- An exception with a message, raised by the script or by the engine. -/
  | raised (message : String)
  /-- A thrown value that is no exception. -/
  | thrown (description : String)
  /-- A result that has no JSON text. -/
  | noText
  /-- A result whose text is not JSON. -/
  | badText (e : Json.Error)
  | notBoolean (result : Json.Value)
  | notLabels (result : Json.Value)
  | notLabel (item : Json.Value)
  | badMetadata (cause : Json.Cause)
  deriving DecidableEq

/-- The wording of a fault. -/
def Fault.message : Fault → String
  | .raised m => m
  | .thrown d => d
  | .noText => "Error converting from js 'undefined' into type 'string'"
  | .badText e => s!"脚本结果解析失败: {e.message}"
  | .notBoolean v => s!"filter 脚本必须返回布尔值, 实际为: {v.render}"
  | .notLabels v => s!"switch 脚本必须返回标签或标签数组, 实际为: {v.render}"
  | .notLabel v => s!"switch 脚本必须返回字符串标签, 实际为: {v.render}"
  | .badMetadata c => s!"metadata 必须是字符串映射: {c.message}"

end RuleFlow.Script
