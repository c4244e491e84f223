import RuleFlow.Json.Render
import RuleFlow.Script.Fault
import RuleFlow.Script.Token

/-!
# The values of a script

A value is undefined, null, a truth value, a double, a text of 16-bit units, a function or an object. Objects
live in a heap and are shared: what is changed through one name is seen through all. `load` puts a JSON
value into the heap, `textOf` writes a value as JSON text, in which members without a value are left out
and numbers that are not finite are null.
-/

namespace RuleFlow.Script

/-- A text of a script. -/
abbrev Units := List UInt16

/-- The units of a string. -/
def units (s : String) : Units := Text.Units.ofString s

/-- A value of a script. -/
inductive Val where
  | undefined
  | null
  | bool (b : Bool)
  | number (f : Float)
  | text (us : Units)
  | function (name : String)
  | object (address : Nat)
  deriving Inhabited

/-- An object: named members in the order of their creation with the object they fall back on, items by
position, or an exception with its message. -/
inductive Obj where
  | plain (prototype : Option Nat) (members : List (Units × Val))
  | array (items : List Val)
  | exception (message : Units)
  deriving Inhabited

/-- The objects by address. -/
abbrev Heap := Array Obj

/-- The position that a key stands for: decimal digits without a leading zero, below `2 ^ 32 - 1`. -/
def positionOf? (key : Units) : Option Nat :=
  let isDigit := fun u : UInt16 => 0x30 ≤ u && u ≤ 0x39
  if key.isEmpty ∨ 10 < key.length ∨ key.any (! isDigit ·) ∨ (1 < key.length ∧ key.head? = some 0x30) then
    none
  else
    let n := key.foldl (fun n u => 10 * n + (u.toNat - 0x30)) 0
    if n < Nat.pow 2 32 - 1 then some n else none

/-- Puts a member under a key, in place or at the end. -/
def putMember (key : Units) (v : Val) : List (Units × Val) → List (Units × Val)
  | [] => [(key, v)]
  | (k, w) :: ms => if k = key then (k, v) :: ms else (k, w) :: putMember key v ms

/-- The members as they are listed: positions in increasing order, then names in the order of creation. -/
def listed (ms : List (Units × Val)) : List (Units × Val) :=
  let at_ := fun m : Units × Val => (positionOf? m.1).getD 0
  (ms.filter fun m => (positionOf? m.1).isSome).mergeSort (fun a b => at_ a ≤ at_ b) ++
    ms.filter fun m => (positionOf? m.1).isNone

/-- The name under which a literal sets the fallback of an object. -/
def prototypeKey : Units := units "__proto__"

/-- A member of an object literal: the name of the fallback sets it, any other name a member. -/
def addMember (o : Option Nat × List (Units × Val)) (key : Units) (v : Val) :
    Option Nat × List (Units × Val) :=
  if key = prototypeKey then
    match v with
    | .object a => (some a, o.2)
    | _ => o
  else (o.1, putMember key v o.2)

/-! ## JSON -/

/-- Puts a new object into the heap. -/
def allocate (o : Obj) (heap : Heap) : Val × Heap := (.object heap.size, heap.push o)

mutual

/-- Puts a JSON value into the heap. -/
def load : Json.Value → Heap → Val × Heap
  | .null, heap => (.null, heap)
  | .bool b, heap => (.bool b, heap)
  | .number n, heap => (.number n.toFloat, heap)
  | .string s, heap => (.text (units s), heap)
  | .array items, heap =>
    let (vs, heap) := loadItems items heap
    allocate (.array vs) heap
  | .object ms, heap =>
    let (o, heap) := loadMembers ms (none, []) heap
    allocate (.plain o.1 o.2) heap

/-- Puts the items of an array into the heap. -/
def loadItems : List Json.Value → Heap → List Val × Heap
  | [], heap => ([], heap)
  | v :: vs, heap =>
    let (w, heap) := load v heap
    let (ws, heap) := loadItems vs heap
    (w :: ws, heap)

/-- Puts the members of an object into the heap. -/
def loadMembers : List (String × Json.Value) → Option Nat × List (Units × Val) → Heap →
    (Option Nat × List (Units × Val)) × Heap
  | [], o, heap => (o, heap)
  | (k, v) :: ms, o, heap =>
    let (w, heap) := load v heap
    loadMembers ms (addMember o (units k) w) heap

end

/-- Whole doubles are positional below `10 ^ 21` and show no point. -/
def numberLayout : Layout := ⟨21, -6, false⟩

/-- A text in quotes; a surrogate without a partner is escaped. -/
def quoteUnits (us : Units) : String :=
  "\"" ++ String.ofList ((Text.Units.decode us).flatMap fun
    | .inl c => Json.escapeChar c
    | .inr u => '\\' :: 'u' :: Text.Hex.digits 4 u.toNat) ++ "\""

mutual

/-- The JSON text of a value, none if it has none; `fuel` bounds the nesting, and an object inside itself
is refused. -/
def textOf (heap : Heap) : Nat → List Nat → Val → Except Fault (Option String)
  | _, _, .undefined => .ok none
  | _, _, .function _ => .ok none
  | _, _, .null => .ok (some "null")
  | _, _, .bool b => .ok (some (if b then "true" else "false"))
  | _, _, .number f =>
    .ok (some (if f.isFinite then numberLayout.writeDouble f.toBits else "null"))
  | _, _, .text us => .ok (some (quoteUnits us))
  | 0, _, .object _ => .error (.raised "circular reference")
  | fuel + 1, around, .object a =>
    if a ∈ around then .error (.raised "circular reference")
    else match heap[a]? with
      | none => .ok none
      | some (.exception _) => .ok (some "\x7b\x7d")
      | some (.array items) => do
        let texts ← textsOf heap fuel (a :: around) items
        .ok (some ("[" ++ ",".intercalate (texts.map (·.getD "null")) ++ "]"))
      | some (.plain _ ms) => do
        let ms := listed ms
        let texts ← textsOf heap fuel (a :: around) (ms.map (·.2))
        let written := (ms.zip texts).filterMap fun (m, text) =>
          text.map fun text => quoteUnits m.1 ++ ":" ++ text
        .ok (some ("\x7b" ++ ",".intercalate written ++ "\x7d"))

/-- The JSON texts of several values. -/
def textsOf (heap : Heap) : Nat → List Nat → List Val → Except Fault (List (Option String))
  | _, _, [] => .ok []
  | fuel, around, v :: vs => do
    let text ← textOf heap fuel around v
    let texts ← textsOf heap fuel around vs
    .ok (text :: texts)

end

end RuleFlow.Script
