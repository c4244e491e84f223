import RuleFlow.Text.Hex
import RuleFlow.Text.Printable

/-!
# Quotations for human readers

A text in double quotes in which the quote, the backslash and everything that would not show are escaped.
-/

namespace RuleFlow.Text

/-- How one character stands in a quotation. -/
def quotedChar (c : Char) : List Char :=
  if c = '"' then ['\\', '"']
  else if c = '\\' then ['\\', '\\']
  else if c = '\n' then ['\\', 'n']
  else if c = '\r' then ['\\', 'r']
  else if c = '\t' then ['\\', 't']
  else if c = '\x00' then ['\\', '0']
  else if isPrintable c then [c]
  else '\\' :: 'u' :: '\x7b' :: Hex.shortDigits c.toNat ++ ['\x7d']

/-- A text as a quotation. -/
def quoted (s : String) : String :=
  "\"" ++ String.ofList (s.toList.flatMap quotedChar) ++ "\""

end RuleFlow.Text
