import RuleFlow.Decimal.Shortest
import RuleFlow.Json.Value
import RuleFlow.Text.Hex

/-!
# Writing JSON

Text without blanks, members in the order of the list. A string escapes the quote, the backslash and the
control characters below the space; everything else stands as it is. A double has the fewest digits that
read back, keeps `.0` if it is whole, and is positional from `0.00001` to below `10 ^ 16`.
-/

namespace RuleFlow.Json

/-- How one character stands inside quotes. -/
def escapeChar (c : Char) : List Char :=
  if c = '"' then ['\\', '"']
  else if c = '\\' then ['\\', '\\']
  else if c = '\n' then ['\\', 'n']
  else if c = '\r' then ['\\', 'r']
  else if c = '\t' then ['\\', 't']
  else if c = '\x08' then ['\\', 'b']
  else if c = '\x0c' then ['\\', 'f']
  else if c.toNat < 0x20 then '\\' :: 'u' :: Text.Hex.digits 4 c.toNat
  else [c]

/-- A string in quotes. -/
def quote (s : String) : String :=
  "\"" ++ String.ofList (s.toList.flatMap escapeChar) ++ "\""

/-- Doubles are positional from `0.00001` to below `10 ^ 16`, and whole ones keep `.0`. -/
def numberLayout : Layout := ⟨16, -5, true⟩

/-- The text of a number. -/
def Number.render : Number → String
  | .int i => toString i
  | .double bits => numberLayout.writeDouble bits

mutual

/-- The compact text of a value. -/
def Value.render : Value → String
  | .null => "null"
  | .bool true => "true"
  | .bool false => "false"
  | .number n => n.render
  | .string s => quote s
  | .array items => "[" ++ Value.renderItems items ++ "]"
  | .object ms => "\x7b" ++ Value.renderMembers ms ++ "\x7d"

/-- The texts of the items with commas between them. -/
def Value.renderItems : List Value → String
  | [] => ""
  | [v] => v.render
  | v :: w :: vs => v.render ++ "," ++ Value.renderItems (w :: vs)

/-- The members with commas between them. -/
def Value.renderMembers : List (String × Value) → String
  | [] => ""
  | [(k, v)] => quote k ++ ":" ++ v.render
  | (k, v) :: m :: ms => quote k ++ ":" ++ v.render ++ "," ++ Value.renderMembers (m :: ms)

end

/-- The UTF-8 bytes of a text. -/
def bytesOf (s : String) : List UInt8 := s.toUTF8.data.toList

/-- The bytes of a value's compact text. -/
def Value.encode (v : Value) : List UInt8 := bytesOf v.render

end RuleFlow.Json
