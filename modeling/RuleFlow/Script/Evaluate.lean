import RuleFlow.Message
import RuleFlow.Script.Parse
import RuleFlow.Script.Run

/-!
# What a script makes of a message

A script is the body of a function of the data, the metadata and the type of a message. What it returns is
written as JSON and read again (`Language.evaluate`); undefined counts as null. The result is read as a truth value,
as labels or as a message: a label alone or a list of labels, and new data alone or an object with the data under
`msg`. All this is the same for every `Language`. The one that chains are tried out with is `interpreter`, a part of
the usual language of scripts.
-/

namespace RuleFlow.Script

/-- The JSON text of a result. -/
def resultText (heap : Heap) (v : Val) : Except Fault String :=
  match v with
  | .undefined => .ok "null"
  | v => do
    match ← textOf heap (heap.size + 1) [] v with
    | some text => .ok text
    | none => .error .noText

/-- A language of scripts: the text that a script returns for a message, or why there is none. -/
abbrev Language := Message → String → Except Fault String

/-- The text that a script of the modelled language returns. -/
def interpreter : Language := fun m script =>
  match Stmt.ofScript script with
  | .error e => .error (.raised e)
  | .ok body => do
    let (data, heap) := load m.data #[]
    let (metadata, heap) := load (Message.metadataToJson m.metadata) heap
    let parameters := [("msg", data), ("metadata", metadata), ("msgType", .text (units m.type))]
    let (v, heap) ← runBody body parameters heap
    resultText heap v

/-- The JSON value of a returned text. -/
def readResult (text : String) : Except Fault Json.Value :=
  match Json.parse (Json.bytesOf text) with
  | .ok result => .ok result
  | .error e => .error (.badText e)

/-- The result as a truth value. -/
def filterResult : Json.Value → Except Fault Bool
  | .bool b => .ok b
  | v => .error (.notBoolean v)

/-- The items of a list as labels, or the first one that is none. -/
def labelsOf : List Json.Value → Except Fault (List String)
  | [] => .ok []
  | .string label :: vs => (labelsOf vs).map (label :: ·)
  | v :: _ => .error (.notLabel v)

/-- The result as labels. -/
def switchResult : Json.Value → Except Fault (List String)
  | .string label => .ok [label]
  | .array items => labelsOf items
  | v => .error (.notLabels v)

/-- The message with the metadata that a result brings, if it brings any. -/
def withMetadata (m : Message) : Option Json.Value → Except Fault Message
  | none => .ok m
  | some v =>
    match Json.Decoder.stringMap.ofValue v with
    | .ok metadata => .ok { m with metadata }
    | .error cause => .error (.badMetadata cause)

/-- The result as a message: an object with `msg` brings data and may bring metadata and a type, anything
else is the data. -/
def transformResult (m : Message) (v : Json.Value) : Except Fault Message :=
  match v with
  | .object ms =>
    match Entries.get? "msg" ms with
    | none => .ok { m with data := v }
    | some data => do
      let m ← withMetadata { m with data } (Entries.get? "metadata" ms)
      match Entries.get? "msgType" ms with
      | some (.string type) => .ok { m with type }
      | _ => .ok m
  | v => .ok { m with data := v }

namespace Language

/-- What a script returns for a message. -/
def evaluate (l : Language) (m : Message) (script : String) : Except Fault Json.Value := do
  readResult (← l m script)

/-- Whether a message passes a script. -/
def evaluateFilter (l : Language) (m : Message) (script : String) : Except Fault Bool := do
  filterResult (← l.evaluate m script)

/-- The labels that a script gives a message. -/
def evaluateSwitch (l : Language) (m : Message) (script : String) : Except Fault (List String) := do
  switchResult (← l.evaluate m script)

/-- The message that a script makes of a message. -/
def evaluateTransform (l : Language) (m : Message) (script : String) : Except Fault Message := do
  transformResult m (← l.evaluate m script)

end Language

/-- Whether a message passes a script of the modelled language. -/
def evaluateFilter : Message → String → Except Fault Bool := interpreter.evaluateFilter

/-- The labels that a script of the modelled language gives a message. -/
def evaluateSwitch : Message → String → Except Fault (List String) := interpreter.evaluateSwitch

/-- The message that a script of the modelled language makes of a message. -/
def evaluateTransform : Message → String → Except Fault Message := interpreter.evaluateTransform

end RuleFlow.Script
