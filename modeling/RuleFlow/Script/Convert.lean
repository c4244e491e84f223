import RuleFlow.Script.Object
import RuleFlow.Script.Syntax

/-!
# Conversions and operators of a script

How a value counts as true, as a number and as a text, when two values are equal, and what the operators
make of their operands. An object counts as the text of its items or as the word for an object.
-/

namespace RuleFlow.Script

/-- A number that is no number. -/
def undefinedNumber : Float := 0.0 / 0.0

/-- The text of a number. -/
def numberText (f : Float) : String :=
  if f.isNaN then "NaN"
  else if f.isInf then (if f < 0 then "-Infinity" else "Infinity")
  else numberLayout.writeDouble f.toBits

/-- The text of an exception. -/
def exceptionText (message : Units) : Units :=
  if message.isEmpty then units "Error" else units "Error: " ++ message

mutual

/-- The text that a value counts as; `fuel` bounds the nesting of arrays. -/
def toText (heap : Heap) : Nat → Val → Units
  | _, .undefined => units "undefined"
  | _, .null => units "null"
  | _, .bool b => units (if b then "true" else "false")
  | _, .number f => units (numberText f)
  | _, .text us => us
  | _, .function name => units s!"function {name}() \x7b\n    [native code]\n\x7d"
  | 0, .object _ => []
  | fuel + 1, .object a =>
    match heap[a]? with
    | some (.array items) => (units ",").intercalate (itemTexts heap fuel items)
    | some (.exception message) => exceptionText message
    | _ => units "[object Object]"

/-- The texts of the items of an array; what is undefined or null has none. -/
def itemTexts (heap : Heap) : Nat → List Val → List Units
  | _, [] => []
  | fuel, .undefined :: vs => [] :: itemTexts heap fuel vs
  | fuel, .null :: vs => [] :: itemTexts heap fuel vs
  | fuel, v :: vs => toText heap fuel v :: itemTexts heap fuel vs

end

/-- The text that a value counts as. -/
def Val.asText (heap : Heap) (v : Val) : Units := toText heap (heap.size + 1) v

/-- A value as an operand that is no object. -/
def Val.primitive (heap : Heap) (v : Val) : Val :=
  match v with
  | .object _ | .function _ => .text (v.asText heap)
  | v => v

/-- Whether a value counts as true. -/
def Val.isTrue : Val → Bool
  | .undefined | .null => false
  | .bool b => b
  | .number f => !(f == 0) && !f.isNaN
  | .text us => !us.isEmpty
  | .function _ | .object _ => true

/-- The characters of a text without blanks at its ends; none if it holds a lone surrogate. -/
def trimmed (us : Units) : Option (List Char) :=
  let cs := (Text.Units.decode us).mapM fun
    | .inl c => some c
    | .inr _ => none
  cs.map fun cs => ((cs.dropWhile Token.isSpace).reverse.dropWhile Token.isSpace).reverse

/-- The number that a whole text stands for. -/
def unsigned (cs : List Char) : Float :=
  if cs = "Infinity".toList then 1.0 / 0.0
  else match Token.decimalOf? cs with
    | some (f, length) => if length = cs.length then f else undefinedNumber
    | none => undefinedNumber

/-- The number that a text counts as; the empty text counts as zero. -/
def textNumber (us : Units) : Float :=
  match trimmed us with
  | none => undefinedNumber
  | some [] => 0
  | some ('+' :: cs) => unsigned cs
  | some ('-' :: cs) => -unsigned cs
  | some ('0' :: letter :: cs) =>
    match Token.baseOf? letter, Token.numberOf? ('0' :: letter :: cs) with
    | some _, some (f, length) => if length = cs.length + 2 then f else undefinedNumber
    | some _, none => undefinedNumber
    | none, _ => unsigned ('0' :: letter :: cs)
  | some cs => unsigned cs

/-- The number that a value counts as. -/
def Val.toNumber (heap : Heap) (v : Val) : Float :=
  match v.primitive heap with
  | .null => 0
  | .bool b => if b then 1 else 0
  | .number f => f
  | .text us => textNumber us
  | _ => undefinedNumber

/-- The remainder of a division toward zero, exact, with the sign of the dividend. -/
def remainder (a b : Float) : Float :=
  if a.isNaN ∨ b.isNaN ∨ a.isInf ∨ b == 0 then undefinedNumber
  else if b.isInf ∨ a == 0 then a
  else
    let e := Double.exponent a.toBits
    let e' := Double.exponent b.toBits
    let low := min e e'
    let m := Double.significand a.toBits * Nat.pow 2 (e - low).toNat
    let m' := Double.significand b.toBits * Nat.pow 2 (e' - low).toNat
    let r := (m % m').toFloat.scaleB low
    if Double.isNegative a.toBits then -r else r

/-! ## Comparisons and operators -/

/-- Whether two values are the same value of the same type. -/
def strictlyEqual : Val → Val → Bool
  | .undefined, .undefined => true
  | .null, .null => true
  | .bool a, .bool b => a == b
  | .number a, .number b => a == b
  | .text a, .text b => a == b
  | .function a, .function b => a == b
  | .object a, .object b => a == b
  | _, _ => false

/-- Whether a value is an object or a function. -/
def Val.isObject : Val → Bool
  | .object _ | .function _ => true
  | _ => false

/-- Whether two values that are no objects are equal, numbers being read from texts and truth values. -/
def primitivelyEqual (heap : Heap) (v w : Val) : Bool :=
  match v, w with
  | .undefined, .null | .null, .undefined => true
  | .undefined, _ | .null, _ | _, .undefined | _, .null => strictlyEqual v w
  | .bool _, _ | _, .bool _ | .number _, .text _ | .text _, .number _ =>
    v.toNumber heap == w.toNumber heap
  | _, _ => strictlyEqual v w

/-- Whether two values are equal after conversion. -/
def looselyEqual (heap : Heap) (v w : Val) : Bool :=
  match v, w with
  | .undefined, _ | .null, _ | _, .undefined | _, .null => primitivelyEqual heap v w
  | _, _ =>
    if v.isObject && w.isObject then strictlyEqual v w
    else primitivelyEqual heap (v.primitive heap) (w.primitive heap)

/-- Whether a text comes before another in the order of their units. -/
def textBefore : Units → Units → Bool
  | _, [] => false
  | [], _ :: _ => true
  | u :: us, v :: vs => u < v || (u == v && textBefore us vs)

/-- Compares two values: as texts if both are texts, else as numbers. -/
def compare (heap : Heap) (texts : Units → Units → Bool) (numbers : Float → Float → Bool)
    (v w : Val) : Val :=
  match v.primitive heap, w.primitive heap with
  | .text us, .text vs => .bool (texts us vs)
  | v, w => .bool (numbers (v.toNumber heap) (w.toNumber heap))

/-- The name of a value's type. -/
def Val.typeName : Val → String
  | .undefined => "undefined"
  | .null | .object _ => "object"
  | .bool _ => "boolean"
  | .number _ => "number"
  | .text _ => "string"
  | .function _ => "function"

/-- The value of an operator with one operand. -/
def UnaryOp.apply (op : UnaryOp) (heap : Heap) (v : Val) : Val :=
  match op with
  | .not => .bool !v.isTrue
  | .negate => .number (-(v.toNumber heap))
  | .plus => .number (v.toNumber heap)
  | .typeOf => .text (units v.typeName)

/-- The sum of two values: their texts joined if one of them is a text, else the sum of their numbers. -/
def sum (heap : Heap) (v w : Val) : Val :=
  match v.primitive heap, w.primitive heap with
  | .text us, w => .text (us ++ w.asText heap)
  | v, .text us => .text (v.asText heap ++ us)
  | v, w => .number (v.toNumber heap + w.toNumber heap)

/-- The value of an operator with two operands. -/
def BinaryOp.apply (op : BinaryOp) (heap : Heap) (v w : Val) : Val :=
  match op with
  | .add => sum heap v w
  | .sub => .number (v.toNumber heap - w.toNumber heap)
  | .mul => .number (v.toNumber heap * w.toNumber heap)
  | .div => .number (v.toNumber heap / w.toNumber heap)
  | .mod => .number (remainder (v.toNumber heap) (w.toNumber heap))
  | .less => compare heap textBefore (fun a b => a < b) v w
  | .lessEq => compare heap (fun a b => !textBefore b a) (fun a b => a ≤ b) v w
  | .greater => compare heap (fun a b => textBefore b a) (fun a b => a > b) v w
  | .greaterEq => compare heap (fun a b => !textBefore a b) (fun a b => a ≥ b) v w
  | .looseEq => .bool (looselyEqual heap v w)
  | .looseNe => .bool !(looselyEqual heap v w)
  | .strictEq => .bool (strictlyEqual v w)
  | .strictNe => .bool !(strictlyEqual v w)

/-- How a thrown value is told. -/
def thrown (heap : Heap) (v : Val) : Fault :=
  match v with
  | .undefined => .thrown "Undefined\"undefined\""
  | .null => .thrown "Null\"null\""
  | .bool b => .thrown s!"Bool({b})"
  | .number f =>
    let bits := f.toBits
    if f == f.floor ∧ f.abs < 2147483648 ∧ !(f == 0 ∧ Double.isNegative bits) then
      .thrown s!"Int({numberText f})"
    else if f.isNaN then .thrown "Float(NaN)"
    else if f.isInf then .thrown (if f < 0 then "Float(-inf)" else "Float(inf)")
    else .thrown s!"Float({Json.numberLayout.writeDouble bits})"
  | .text us => .thrown ("String(Ok(" ++ Text.quoted (Text.Units.toString us) ++ "))")
  | .function _ => .thrown "Function"
  | .object a =>
    match heap[a]? with
    | some (.exception message) => .raised (Text.Units.toString message)
    | some (.array _) => .thrown "Array"
    | _ => .thrown "Object"

end RuleFlow.Script
