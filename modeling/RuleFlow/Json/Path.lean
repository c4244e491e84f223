import RuleFlow.Json.Render
import RuleFlow.Text.Split

/-!
# Paths into values

A path is a text of steps between dots; empty steps do not count. A step picks an item of an array by its
position or a member of an object by its key, and leads nowhere from any other value. Following two paths
one after the other is following the joined one (`follow?_append`).
-/

namespace RuleFlow.Json

/-- The largest position in an array. -/
def maxIndex : Nat := Nat.pow 2 64 - 1

/-- The position that a text of decimal digits, with a plus in front or not, stands for. -/
def index? (step : String) : Option Nat :=
  let ds := match step.toList with
    | '+' :: ds => ds
    | ds => ds
  if ds.isEmpty ∨ ds.any (! ·.isDigit) then none
  else
    let n := ds.foldl (fun n c => min (10 * n + (c.toNat - 48)) (maxIndex + 1)) 0
    if n ≤ maxIndex then some n else none

/-- The value one step below. -/
def Value.step? (v : Value) (step : String) : Option Value :=
  match v with
  | .array items => (index? step).bind (items[·]?)
  | .object ms => Entries.get? step ms
  | _ => none

/-- The value at the end of a list of steps. -/
def Value.follow? (v : Value) : List String → Option Value
  | [] => some v
  | step :: steps => (v.step? step).bind fun w => Value.follow? w steps

/-- The steps of a path. -/
def stepsOf (path : List Char) : List String :=
  ((Text.splitOn '.' path).filter (! ·.isEmpty)).map String.ofList

/-- The value at the end of a path. -/
def Value.at? (v : Value) (path : List Char) : Option Value := v.follow? (stepsOf path)

/-- A value as part of another text: strings without quotes. -/
def Value.plain : Value → String
  | .string s => s
  | v => v.render

/-- Steps in two parts are followed one part after the other. -/
theorem Value.follow?_append (v : Value) (steps more : List String) :
    v.follow? (steps ++ more) = (v.follow? steps).bind fun w => w.follow? more := by
  induction steps generalizing v with
  | nil => simp [follow?]
  | cons s steps ih =>
    simp only [List.cons_append, follow?]
    cases v.step? s with
    | none => rfl
    | some w => simp [ih]

end RuleFlow.Json
