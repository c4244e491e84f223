import RuleFlow.Json.Render
import RuleFlow.Text.Hex

/-!
# Percent escapes

The characters that each part of a URL escapes, and escaping and its reversal on bytes. Everything outside
the printable ASCII characters is always escaped.
-/

namespace RuleFlow.Url

/-- The parts of a URL that escape different characters. -/
inductive Part where
  | control
  | fragment
  | path
  | userinfo
  | query
  | specialQuery
  deriving DecidableEq

/-- The printable characters that a part escapes. -/
def Part.escaped : Part → List Char
  | .control => []
  | .fragment => [' ', '"', '<', '>', '`']
  | .path => [' ', '"', '<', '>', '`', '#', '?', '{', '}']
  | .userinfo =>
    [' ', '"', '<', '>', '`', '#', '?', '{', '}', '/', ':', ';', '=', '@', '[', '\\', ']', '^', '|']
  | .query => [' ', '"', '#', '<', '>']
  | .specialQuery => [' ', '"', '#', '<', '>', '\'']

/-- Whether a part escapes a character. -/
def Part.escapes (p : Part) (c : Char) : Bool :=
  c.toNat < 0x20 || 0x7F ≤ c.toNat || p.escaped.contains c

/-- A byte as `%` and two capital digits. -/
def escapeByte (b : UInt8) : List Char :=
  '%' :: (Text.Hex.digits 2 b.toNat).map Char.toUpper

/-- A text with the characters escaped that the part escapes. -/
def escape (p : Part) (cs : List Char) : List Char :=
  cs.flatMap fun c => if p.escapes c then (String.utf8EncodeChar c).flatMap escapeByte else [c]

/-- The bytes of a text with its escapes resolved; a `%` without two digits stands for itself. -/
def unescape : List UInt8 → List UInt8
  | 0x25 :: a :: b :: rest =>
    match Text.Hex.number? [Char.ofNat a.toNat, Char.ofNat b.toNat] with
    | some n => UInt8.ofNat n :: unescape rest
    | none => 0x25 :: unescape (a :: b :: rest)
  | b :: rest => b :: unescape rest
  | [] => []

end RuleFlow.Url
