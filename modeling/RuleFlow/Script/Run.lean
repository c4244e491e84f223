import RuleFlow.Script.Convert

/-!
# Running a script

A run keeps the heap and the variables by scope, innermost first. `Expr.eval` and `Stmt.run` follow the
structure of the script. A run ends with the value that is returned, undefined if none is, or with a fault;
a script has no way to catch one.
-/

namespace RuleFlow.Script

/-- A variable: its value, none before its declaration is reached, and whether it keeps its first one. -/
structure Variable where
  value : Option Val
  fixed : Bool
  deriving Inhabited

/-- The variables of a scope. -/
abbrev Frame := List (String × Variable)

/-- The objects and the variables of a run, innermost scope first. -/
structure State where
  heap : Heap
  frames : List Frame

/-- A step of a run. -/
abbrev Run (α : Type) := StateT State (Except Fault) α

/-- Ends the run with an exception. -/
def fail {α : Type} (message : String) : Run α := throw (.raised message)

/-- The functions that every object has. -/
def objectFunctions : List String :=
  ["constructor", "hasOwnProperty", "isPrototypeOf", "propertyIsEnumerable", "toLocaleString",
    "toString", "valueOf", "__defineGetter__", "__defineSetter__", "__lookupGetter__",
    "__lookupSetter__"]

/-- The functions of a text. -/
def textFunctions : List String :=
  ["at", "charAt", "charCodeAt", "codePointAt", "concat", "endsWith", "includes", "indexOf",
    "isWellFormed", "lastIndexOf", "localeCompare", "match", "matchAll", "normalize", "padEnd",
    "padStart", "repeat", "replace", "replaceAll", "search", "slice", "split", "startsWith", "substr",
    "substring", "toLocaleLowerCase", "toLocaleUpperCase", "toLowerCase", "toUpperCase", "toWellFormed",
    "trim", "trimEnd", "trimStart"]

/-- The functions of an array. -/
def arrayFunctions : List String :=
  ["at", "concat", "copyWithin", "entries", "every", "fill", "filter", "find", "findIndex", "findLast",
    "findLastIndex", "flat", "flatMap", "forEach", "includes", "indexOf", "join", "keys", "lastIndexOf",
    "map", "pop", "push", "reduce", "reduceRight", "reverse", "shift", "slice", "some", "sort", "splice",
    "toReversed", "toSorted", "toSpliced", "unshift", "values", "with"]

/-- The functions of a number. -/
def numberFunctions : List String := ["toExponential", "toFixed", "toPrecision"]

/-- The function of one of the given names. -/
def functionOf? (names : List String) (key : Units) : Option Val :=
  (names.find? fun name => units name = key).map .function

/-- The name under which texts and arrays tell their length. -/
def lengthKey : Units := units "length"

/-- The member of an object under a key; `fuel` bounds the objects it falls back on. -/
def memberOf? (heap : Heap) (key : Units) : Nat → Nat → Option Val
  | 0, _ => none
  | fuel + 1, a =>
    match heap[a]? with
    | none => none
    | some (.plain prototype ms) =>
      match ms.lookup key with
      | some v => some v
      | none =>
        match prototype with
        | some p => memberOf? heap key fuel p
        | none => functionOf? objectFunctions key
    | some (.array items) =>
      if key = lengthKey then some (.number items.length.toFloat)
      else match positionOf? key with
        | some i => items[i]?
        | none => functionOf? (arrayFunctions ++ objectFunctions) key
    | some (.exception message) =>
      if key = units "message" then some (.text message)
      else if key = units "name" then some (.text (units "Error"))
      else functionOf? objectFunctions key

/-- The member of a value under a key. -/
def readMember (heap : Heap) (v : Val) (key : Units) : Except Fault Val :=
  match v with
  | .undefined => .error (.raised s!"cannot read property '{Text.Units.toString key}' of undefined")
  | .null => .error (.raised s!"cannot read property '{Text.Units.toString key}' of null")
  | .bool _ => .ok ((functionOf? objectFunctions key).getD .undefined)
  | .number _ => .ok ((functionOf? (numberFunctions ++ objectFunctions) key).getD .undefined)
  | .function _ => .ok ((functionOf? objectFunctions key).getD .undefined)
  | .text us =>
    if key = lengthKey then .ok (.number us.length.toFloat)
    else match positionOf? key with
      | some i => .ok ((us[i]?.map fun u => .text [u]).getD .undefined)
      | none => .ok ((functionOf? (textFunctions ++ objectFunctions) key).getD .undefined)
  | .object a => .ok ((memberOf? heap key (heap.size + 1) a).getD .undefined)

/-- The items of an array cut or filled up to a length. -/
def resize (items : List Val) (length : Nat) : List Val :=
  items.take length ++ List.replicate (length - items.length) .undefined

/-- The object after a member was set. -/
def Obj.set (heap : Heap) (key : Units) (v : Val) : Obj → Except Fault Obj
  | .plain prototype ms =>
    let o := addMember (prototype, ms) key v
    .ok (.plain o.1 o.2)
  | .array items =>
    if key = lengthKey then
      let length := v.toNumber heap
      if length < 0 ∨ ¬(length == length.floor) ∨ 4294967295 < length then
        .error (.raised "invalid array length")
      else .ok (.array (resize items length.toUInt64.toNat))
    else match positionOf? key with
      | some i => .ok (.array ((resize items (max items.length (i + 1))).set i v))
      | none => .ok (.array items)
  | .exception message => .ok (.exception (if key = units "message" then v.asText heap else message))

/-- The heap after a member of a value was set. -/
def writeMember (heap : Heap) (target : Val) (key : Units) (v : Val) : Except Fault Heap :=
  match target with
  | .undefined => .error (.raised s!"cannot set property '{Text.Units.toString key}' of undefined")
  | .null => .error (.raised s!"cannot set property '{Text.Units.toString key}' of null")
  | .function _ => .ok heap
  | .object a =>
    match heap[a]? with
    | some o => (o.set heap key v).map fun o => heap.setIfInBounds a o
    | none => .ok heap
  | _ => .error (.raised "not an object")

/-! ## Variables -/

/-- The names of the exceptions that can be made. -/
def exceptionNames : List String :=
  ["Error", "EvalError", "RangeError", "ReferenceError", "SyntaxError", "TypeError", "URIError"]

/-- What a name stands for that no scope declares. -/
def global? (s : String) : Option Val :=
  match s with
  | "undefined" | "this" => some .undefined
  | "NaN" => some (.number undefinedNumber)
  | "Infinity" => some (.number (1.0 / 0.0))
  | s =>
    if (exceptionNames ++ ["String", "Number", "Boolean", "Object", "Array"]).contains s then
      some (.function s)
    else none

/-- The variable of the innermost scope that declares a name. -/
def lookUp? (frames : List Frame) (s : String) : Option Variable := frames.findSome? (·.lookup s)

/-- Replaces the variable of a name in a scope. -/
def Frame.put (s : String) (x : Variable) (f : Frame) : Frame :=
  f.map fun e => if e.1 = s then (s, x) else e

/-- Replaces the variable of a name in the innermost scope that declares it. -/
def putVariable (s : String) (x : Variable) : List Frame → List Frame
  | [] => []
  | f :: fs => if (f.lookup s).isSome then f.put s x :: fs else f :: putVariable s x fs

/-- The value of a name. -/
def readName (s : String) : Run Val := do
  match lookUp? (← get).frames s with
  | some ⟨some v, _⟩ => return v
  | some ⟨none, _⟩ => fail s!"{s} is not initialized"
  | none =>
    match global? s with
    | some v => return v
    | none => fail s!"{s} is not defined"

/-- Gives a variable its first value. -/
def giveValue (s : String) (fixed : Bool) (v : Val) : Run Unit :=
  modify fun st => { st with frames := putVariable s ⟨some v, fixed⟩ st.frames }

/-- Gives a variable another value. -/
def assignName (s : String) (v : Val) : Run Unit := do
  match lookUp? (← get).frames s with
  | some ⟨none, _⟩ => fail s!"{s} is not initialized"
  | some ⟨some _, true⟩ => fail s!"'{s}' is read-only"
  | some ⟨some _, false⟩ => giveValue s false v
  | none => fail (if (global? s).isSome then s!"'{s}' is read-only" else s!"{s} is not defined")

mutual

/-- The names that a statement declares for the whole script. -/
def Stmt.hoisted : Stmt → List String
  | .declare .variable vs => vs.map (·.1)
  | .branch _ yes none => yes.hoisted
  | .branch _ yes (some no) => yes.hoisted ++ no.hoisted
  | .block body => hoistedAll body
  | _ => []

/-- The names that statements declare for the whole script. -/
def hoistedAll : List Stmt → List String
  | [] => []
  | s :: ss => s.hoisted ++ hoistedAll ss

end

/-- The variables that the statements of a block declare for the block, still without values. -/
def blockFrame (body : List Stmt) : Frame :=
  body.flatMap fun
    | .declare .lexical vs => vs.map fun x => (x.1, ⟨none, false⟩)
    | .declare .fixed vs => vs.map fun x => (x.1, ⟨none, true⟩)
    | _ => []

/-! ## Expressions -/

/-- Puts a new object into the heap. -/
def create (o : Obj) : Run Val := do
  let st ← get
  let (v, heap) := allocate o st.heap
  set { st with heap }
  return v

/-- Makes an exception with a message. -/
def createException (arguments : List Val) : Run Val := do
  let heap := (← get).heap
  match arguments with
  | [] | .undefined :: _ => create (.exception [])
  | v :: _ => create (.exception (v.asText heap))

/-- Calls a value. -/
def call (callee : Val) (arguments : List Val) : Run Val := do
  let heap := (← get).heap
  match callee with
  | .function name =>
    if exceptionNames.contains name then createException arguments
    else if name = "String" then
      return .text ((arguments.head?.map (Val.asText heap)).getD [])
    else if name = "Number" then
      return .number ((arguments.head?.map (Val.toNumber heap)).getD 0)
    else if name = "Boolean" then
      return .bool ((arguments.head?.map Val.isTrue).getD false)
    else fail "not a function"
  | _ => fail "not a function"

/-- Makes an object by calling a value with `new`. -/
def construct (callee : Val) (arguments : List Val) : Run Val :=
  match callee with
  | .function name =>
    if exceptionNames.contains name then createException arguments else fail "not a constructor"
  | .object _ => fail "not a constructor"
  | _ => fail "not a function"

/-- Reads a member of a value. -/
def getMember (v : Val) (key : Units) : Run Val := do
  readMember (← get).heap v key

/-- Sets a member of a value. -/
def setMember (target : Val) (key : Units) (v : Val) : Run Unit := do
  let st ← get
  let heap ← writeMember st.heap target key v
  set { st with heap }

/-- The key that a value stands for. -/
def keyOf (v : Val) : Run Units := do
  return v.asText (← get).heap

/-- The value of a constant. -/
def Constant.value : Constant → Val
  | .null => .null
  | .bool b => .bool b
  | .number bits => .number (Float.ofBits bits)
  | .text us => .text us

mutual

/-- The value of an expression. -/
def Expr.eval : Expr → Run Val
  | .constant c => return c.value
  | .name s => readName s
  | .array items => do create (.array (← evalAll items))
  | .object ms => do
    let o ← evalMembers ms (none, [])
    create (.plain o.1 o.2)
  | .member e key => do getMember (← e.eval) key
  | .index e key => do
    let v ← e.eval
    let k ← key.eval
    getMember v (← keyOf k)
  | .call callee arguments => do
    let f ← callee.eval
    call f (← evalAll arguments)
  | .construct callee arguments => do
    let f ← callee.eval
    construct f (← evalAll arguments)
  | .unary .typeOf (.name s) => do
    if (lookUp? (← get).frames s).isNone ∧ (global? s).isNone then
      return .text (units "undefined")
    else return .text (units (← readName s).typeName)
  | .unary op e => do
    let v ← e.eval
    return op.apply (← get).heap v
  | .binary op left right => do
    let v ← left.eval
    let w ← right.eval
    return op.apply (← get).heap v w
  | .conjunction left right => do
    let v ← left.eval
    if v.isTrue then right.eval else return v
  | .disjunction left right => do
    let v ← left.eval
    if v.isTrue then return v else right.eval
  | .conditional condition yes no => do
    if (← condition.eval).isTrue then yes.eval else no.eval
  | .assignName s value => do
    let v ← value.eval
    assignName s v
    return v
  | .assignMember e key value => do
    let target ← e.eval
    let v ← value.eval
    setMember target key v
    return v
  | .assignIndex e key value => do
    let target ← e.eval
    let k ← key.eval
    let v ← value.eval
    setMember target (← keyOf k) v
    return v
  | .function => return .function ""

/-- The values of expressions from left to right. -/
def evalAll : List Expr → Run (List Val)
  | [] => return []
  | e :: es => do
    let v ← e.eval
    return v :: (← evalAll es)

/-- The members of an object literal from left to right. -/
def evalMembers : List (Units × Expr) → Option Nat × List (Units × Val) →
    Run (Option Nat × List (Units × Val))
  | [], o => return o
  | (key, e) :: ms, o => do
    let v ← e.eval
    evalMembers ms (addMember o key v)

end

/-! ## Statements -/

/-- How a statement ends: going on, or with the result of the script. -/
inductive Completion where
  | normal
  | result (v : Val)

/-- Declares variables from left to right. -/
def declareAll (binding : Binding) : List (String × Option Expr) → Run Unit
  | [] => return
  | (s, value) :: vs => do
    match value, binding with
    | none, .variable => pure ()
    | none, _ => giveValue s false .undefined
    | some e, .variable => assignName s (← e.eval)
    | some e, .lexical => giveValue s false (← e.eval)
    | some e, .fixed => giveValue s true (← e.eval)
    declareAll binding vs

/-- Opens a scope. -/
def enter (f : Frame) : Run Unit := modify fun st => { st with frames := f :: st.frames }

/-- Closes the innermost scope. -/
def leave : Run Unit := modify fun st => { st with frames := st.frames.tail }

mutual

/-- Runs a statement. -/
def Stmt.run : Stmt → Run Completion
  | .empty => return .normal
  | .expression e => do
    let _ ← e.eval
    return .normal
  | .declare binding vs => do
    declareAll binding vs
    return .normal
  | .result none => return .result .undefined
  | .result (some e) => return .result (← e.eval)
  | .raise e => do
    let v ← e.eval
    throw (thrown (← get).heap v)
  | .branch condition yes none => do
    if (← condition.eval).isTrue then yes.run else return .normal
  | .branch condition yes (some no) => do
    if (← condition.eval).isTrue then yes.run else no.run
  | .block body => do
    enter (blockFrame body)
    let c ← runAll body
    leave
    return c

/-- Runs statements until one ends the script. -/
def runAll : List Stmt → Run Completion
  | [] => return .normal
  | s :: ss => do
    match ← s.run with
    | .normal => runAll ss
    | .result v => return .result v

end

/-- The value that the body of a script returns for its parameters, and the heap after it. -/
def runBody (body : List Stmt) (parameters : List (String × Val)) (heap : Heap) :
    Except Fault (Val × Heap) := do
  let given : Frame := parameters.map fun p => (p.1, ⟨some p.2, false⟩)
  let hoisted : Frame := (hoistedAll body).map fun s => (s, ⟨some .undefined, false⟩)
  let (c, st) ← (runAll body).run ⟨heap, [blockFrame body, given ++ hoisted]⟩
  match c with
  | .normal => .ok (.undefined, st.heap)
  | .result v => .ok (v, st.heap)

end RuleFlow.Script
