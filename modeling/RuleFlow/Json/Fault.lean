import RuleFlow.Json.Render
import RuleFlow.Text.Quoted
import RuleFlow.Uuid

/-!
# Why JSON is refused

A `Cause` names what is wrong, `Cause.message` words it. While text is read a `Fault` also carries the
number of bytes that were left when it arose, from which `Fault.locate` finds line and column. A value
that is converted into a record has causes only.
-/

namespace RuleFlow.Json

/-- What stands where something else was wanted. -/
inductive Found where
  | null
  | bool (b : Bool)
  | number (n : Number)
  | string (s : String)
  | array
  | object
  deriving DecidableEq

/-- The wording of what was found. -/
def Found.message : Found → String
  | .null => "null"
  | .bool b => s!"boolean `{b}`"
  | .number (.int i) => s!"integer `{i}`"
  | .number (.double bits) => s!"floating point `{(Number.double bits).render}`"
  | .string s => "string " ++ Text.quoted s
  | .array => "sequence"
  | .object => "map"

/-- What a value is, in the words of a message. -/
def Value.found : Value → Found
  | .null => .null
  | .bool b => .bool b
  | .number n => .number n
  | .string s => .string s
  | .array _ => .array
  | .object _ => .object

/-- What was wanted. -/
inductive Wanted where
  | string
  | boolean
  | integer (kind : String)
  | sequence
  | map
  | unit
  | identifier
  | variant
  | stringOrMap
  | singleKeyMap
  | record (name : String)
  | recordOf (name : String) (elements : Nat)
  | fewerElements
  deriving DecidableEq

/-- The wording of what was wanted. -/
def Wanted.message : Wanted → String
  | .string => "a string"
  | .boolean => "a boolean"
  | .integer kind => kind
  | .sequence => "a sequence"
  | .map => "a map"
  | .unit => "unit"
  | .identifier => "a UUID string"
  | .variant => "variant identifier"
  | .stringOrMap => "string or map"
  | .singleKeyMap => "map with a single key"
  | .record name => s!"struct {name}"
  | .recordOf name 1 => s!"struct {name} with 1 element"
  | .recordOf name n => s!"struct {name} with {n} elements"
  | .fewerElements => "fewer elements in array"

/-- Why text is not JSON, or why a value does not fit a record. -/
inductive Cause where
  | listEnds
  | objectEnds
  | stringEnds
  | valueEnds
  | colon
  | listCommaOrEnd
  | objectCommaOrEnd
  | ident
  | value
  | escape
  | number
  | numberRange
  | codePoint
  | controlCharacter
  | key
  | loneSurrogate
  | trailingComma
  | trailingCharacters
  | hexEscapeEnds
  | depth
  | mismatch (found : Found) (wanted : Wanted)
  | unsuitable (found : Found) (wanted : Wanted)
  | length (found : Nat) (wanted : Wanted)
  | unknownVariant (name : String) (known : List String)
  | missingField (name : String)
  | duplicateField (name : String)
  | identifier (fault : Uuid.Fault)
  deriving DecidableEq

/-- Names in ticks as alternatives. -/
def alternatives : List String → String
  | [a] => s!"`{a}`"
  | [a, b] => s!"`{a}` or `{b}`"
  | names => "one of " ++ ", ".intercalate (names.map fun n => s!"`{n}`")

/-- The wording of a cause. -/
def Cause.message : Cause → String
  | .listEnds => "EOF while parsing a list"
  | .objectEnds => "EOF while parsing an object"
  | .stringEnds => "EOF while parsing a string"
  | .valueEnds => "EOF while parsing a value"
  | .colon => "expected `:`"
  | .listCommaOrEnd => "expected `,` or `]`"
  | .objectCommaOrEnd => "expected `,` or `\x7d`"
  | .ident => "expected ident"
  | .value => "expected value"
  | .escape => "invalid escape"
  | .number => "invalid number"
  | .numberRange => "number out of range"
  | .codePoint => "invalid unicode code point"
  | .controlCharacter => "control character (\\u0000-\\u001F) found while parsing a string"
  | .key => "key must be a string"
  | .loneSurrogate => "lone leading surrogate in hex escape"
  | .trailingComma => "trailing comma"
  | .trailingCharacters => "trailing characters"
  | .hexEscapeEnds => "unexpected end of hex escape"
  | .depth => "recursion limit exceeded"
  | .mismatch found wanted => s!"invalid type: {found.message}, expected {wanted.message}"
  | .unsuitable found wanted => s!"invalid value: {found.message}, expected {wanted.message}"
  | .length n wanted => s!"invalid length {n}, expected {wanted.message}"
  | .unknownVariant name known => s!"unknown variant `{name}`, expected {alternatives known}"
  | .missingField name => s!"missing field `{name}`"
  | .duplicateField name => s!"duplicate field `{name}`"
  | .identifier fault => "UUID parsing failed: " ++ fault.message

/-- A line, counted from one, and a column, counted in bytes. -/
structure Position where
  line : Nat
  column : Nat
  deriving DecidableEq

/-- The line and the column after a run of bytes. -/
def Position.after (read : List UInt8) : Position :=
  read.foldl (fun p b => if b = 0x0A then ⟨p.line + 1, 0⟩ else ⟨p.line, p.column + 1⟩) ⟨1, 0⟩

/-- A cause with the place where it arose, if it arose in text. -/
structure Error where
  cause : Cause
  position : Option Position
  deriving DecidableEq

/-- The wording of an error. -/
def Error.message (e : Error) : String :=
  match e.position with
  | some p => s!"{e.cause.message} at line {p.line} column {p.column}"
  | none => e.cause.message

/-- A cause with the number of bytes left where it arose. -/
structure Fault where
  cause : Cause
  left : Nat
  deriving DecidableEq

/-- The place of a fault in the text that was read. -/
def Fault.locate (text : List UInt8) (f : Fault) : Error :=
  ⟨f.cause, some (Position.after (text.take (text.length - f.left)))⟩

/-- Fails where reading stands. -/
def failAt {α : Type} (cause : Cause) (rest : List UInt8) : Except Fault α :=
  .error ⟨cause, rest.length⟩

/-- Fails at the byte that comes next. -/
def failNext {α : Type} (cause : Cause) (rest : List UInt8) : Except Fault α :=
  .error ⟨cause, rest.length - 1⟩

end RuleFlow.Json
