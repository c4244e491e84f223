import RuleFlow.Text.Hex
import RuleFlow.Text.Split

/-!
# Quoted text in TOML

A text stands between quotes, with escapes, or between apostrophes, without. Three quotes or three apostrophes
start a text of several lines; a line break right after them does not belong to it. What is read is returned
with the rest of the document.
-/

namespace RuleFlow.Toml

/-- Whether a character may stand in a line. -/
def isPlain (c : Char) : Bool := c = '\t' || (0x20 ≤ c.toNat && c.toNat ≠ 0x7F)

/-- The character whose number is written in hexadecimal digits. -/
def scalar? (digits : List Char) : Option Char :=
  (Text.Hex.number? digits).bind fun n => if n.isValidChar then some (Char.ofNat n) else none

/-- Reads what follows a backslash. -/
def escaped? : List Char → Option (Char × List Char)
  | 'b' :: rest => some ('\x08', rest)
  | 't' :: rest => some ('\t', rest)
  | 'n' :: rest => some ('\n', rest)
  | 'f' :: rest => some ('\x0c', rest)
  | 'r' :: rest => some ('\r', rest)
  | '"' :: rest => some ('"', rest)
  | '\\' :: rest => some ('\\', rest)
  | 'u' :: rest =>
    if rest.length < 4 then none else (scalar? (rest.take 4)).map (·, rest.drop 4)
  | 'U' :: rest =>
    if rest.length < 8 then none else (scalar? (rest.take 8)).map (·, rest.drop 8)
  | _ => none

/-- Puts a character in front of a text that was read. -/
def push (c : Char) (r : List Char × List Char) : List Char × List Char := (c :: r.1, r.2)

/-- Reads a text up to its quote. -/
def basic : Nat → List Char → Option (List Char × List Char)
  | 0, _ => none
  | fuel + 1, cs =>
    match cs with
    | [] => none
    | '"' :: rest => some ([], rest)
    | '\\' :: rest => (escaped? rest).bind fun (c, rest) => (basic fuel rest).map (push c)
    | c :: rest => if isPlain c then (basic fuel rest).map (push c) else none

/-- Reads a text up to its apostrophe. -/
def literal : List Char → Option (List Char × List Char)
  | [] => none
  | '\'' :: rest => some ([], rest)
  | c :: rest => if isPlain c then (literal rest).map (push c) else none

/-- What follows a backslash at the end of a line: the blanks and line breaks up to the next text. -/
def continuation? (cs : List Char) : Option (List Char) :=
  match cs.dropWhile fun c => c = ' ' || c = '\t' with
  | '\n' :: rest => some (rest.dropWhile (· ∈ [' ', '\t', '\n', '\r']))
  | '\r' :: '\n' :: rest => some (rest.dropWhile (· ∈ [' ', '\t', '\n', '\r']))
  | _ => none

/-- Reads a text of several lines up to its three quotes; one or two quotes before them belong to it. -/
def basicLines : Nat → List Char → Option (List Char × List Char)
  | 0, _ => none
  | fuel + 1, cs =>
    match cs with
    | [] => none
    | '"' :: '"' :: '"' :: '"' :: '"' :: rest => some (['"', '"'], rest)
    | '"' :: '"' :: '"' :: '"' :: rest => some (['"'], rest)
    | '"' :: '"' :: '"' :: rest => some ([], rest)
    | '\\' :: rest =>
      match continuation? rest with
      | some rest => basicLines fuel rest
      | none => (escaped? rest).bind fun (c, rest) => (basicLines fuel rest).map (push c)
    | '\r' :: '\n' :: rest => (basicLines fuel rest).map (push '\n')
    | c :: rest => if isPlain c ∨ c = '\n' then (basicLines fuel rest).map (push c) else none

/-- Reads a text of several lines up to its three apostrophes; one or two before them belong to it. -/
def literalLines : List Char → Option (List Char × List Char)
  | [] => none
  | '\'' :: '\'' :: '\'' :: '\'' :: '\'' :: rest => some (['\'', '\''], rest)
  | '\'' :: '\'' :: '\'' :: '\'' :: rest => some (['\''], rest)
  | '\'' :: '\'' :: '\'' :: rest => some ([], rest)
  | '\r' :: '\n' :: rest => (literalLines rest).map (push '\n')
  | c :: rest => if isPlain c ∨ c = '\n' then (literalLines rest).map (push c) else none

/-- The text after a line break at its start. -/
def afterBreak : List Char → List Char
  | '\n' :: rest => rest
  | '\r' :: '\n' :: rest => rest
  | cs => cs

/-- Reads a quoted text of one line. -/
def line? : List Char → Option (List Char × List Char)
  | '"' :: rest => basic (rest.length + 1) rest
  | '\'' :: rest => literal rest
  | _ => none

/-- Reads a quoted text. -/
def quoted? : List Char → Option (List Char × List Char)
  | '"' :: '"' :: '"' :: rest => basicLines (rest.length + 1) (afterBreak rest)
  | '\'' :: '\'' :: '\'' :: rest => literalLines (afterBreak rest)
  | cs => line? cs

end RuleFlow.Toml
