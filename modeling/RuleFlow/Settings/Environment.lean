import RuleFlow.Settings.Given
import RuleFlow.Text.Blank
import RuleFlow.Toml.Quoted

/-!
# Settings from the environment

A variable whose name starts with `RULECHAIN_` in any case gives a value to the setting that the rest of its
name names. The shape of the text decides what is given: a number, a truth value, a list between brackets, a
table between braces, a text between quotes. A text of no such shape is given as it is, without the blanks
around it; one that starts like such a shape and does not go on like it is given with its blanks.
-/

namespace RuleFlow.Environment

/-- Whether a character is a blank between shapes. -/
def isGap (c : Char) : Bool := c ∈ [' ', '\t', '\n', '\r', '\x0c']

/-- What is left after blanks. -/
def afterGap (cs : List Char) : List Char := cs.dropWhile isGap

/-- Whether a character belongs to a plain text. -/
def isInner (c : Char) : Bool := c ∉ [',', '{', '}', '[', ']']

/-- Resolves the escapes of a quoted text. -/
def resolve? : Nat → List Char → Option (List Char)
  | 0, _ => none
  | _, [] => some []
  | fuel + 1, '\\' :: rest =>
    (Toml.escaped? rest).bind fun (c, rest) => (resolve? fuel rest).map (c :: ·)
  | fuel + 1, c :: rest => if Toml.isPlain c then (resolve? fuel rest).map (c :: ·) else none

/-- Cuts a text at the first quote that is not escaped. -/
def cutQuote? : List Char → Option (List Char × List Char)
  | [] => none
  | '"' :: rest => some ([], rest)
  | ['\\'] => none
  | '\\' :: c :: rest => (cutQuote? rest).map fun (inner, rest) => ('\\' :: c :: inner, rest)
  | c :: rest => (cutQuote? rest).map fun (inner, rest) => (c :: inner, rest)

/-- Reads a text that follows a quote. -/
def quoted? (cs : List Char) : Option (List Char × List Char) :=
  (cutQuote? cs).bind fun (inner, rest) => (resolve? (inner.length + 1) inner).map (·, rest)

/-- Whether a text with a point in it is a decimal number. -/
def isDecimal (cs : List Char) : Bool :=
  let (_, cs) := Toml.cutSign cs
  let mantissa := cs.takeWhile fun c => c ≠ 'e' && c ≠ 'E'
  let exponent := cs.drop mantissa.length
  match Text.cutAt '.' mantissa with
  | none => false
  | some (front, back) =>
    front.all Char.isDigit && back.all Char.isDigit && !(front.isEmpty && back.isEmpty) &&
      match exponent with
      | [] => true
      | _ :: ds =>
        let (_, ds) := Toml.cutSign ds
        !ds.isEmpty && ds.all Char.isDigit

/-- The integer of a text, if it fits 64 bits. -/
def integer? (cs : List Char) : Option Int :=
  let (isNegative, ds) := Toml.cutSign cs
  if ds.isEmpty ∨ ¬ds.all Char.isDigit then none
  else if isNegative then
    (if Toml.decimal ds ≤ Nat.pow 2 63 then some (-(Toml.decimal ds : Int)) else none)
  else if Toml.decimal ds < Nat.pow 2 64 then some (Toml.decimal ds)
  else none

/-- What a plain text gives. -/
def plain (cs : List Char) : Given :=
  let cs := Text.trim cs
  if isDecimal cs then .other
  else match integer? cs with
    | some n => .number n
    | none => .text (String.ofList cs)

/-- Reads the key of a pair. -/
def key? : List Char → Option (List Char)
  | '"' :: rest => (quoted? rest).map (·.2)
  | cs =>
    let rest := cs.dropWhile fun c => c.isAlphanum || c = '_' || c = '-'
    if rest.length < cs.length then some rest else none

mutual

/-- Reads what a text gives, with the blanks around it. -/
def value? : Nat → List Char → Option (Given × List Char)
  | 0, _ => none
  | fuel + 1, cs =>
    let cs := afterGap cs
    let shape : Option (Given × List Char) := match Text.after? "true".toList cs, Text.after? "false".toList cs, cs with
      | some rest, _, _ => some (.other, rest)
      | _, some rest, _ => some (.other, rest)
      | _, _, '{' :: rest => (pairs? fuel rest).map (.other, ·)
      | _, _, '[' :: rest => (items? fuel rest).map (.other, ·)
      | _, _, '"' :: rest => (quoted? rest).map fun (s, rest) => (.text (String.ofList s), rest)
      | _, _, '\'' :: c :: '\'' :: rest => some (.text (String.singleton c), rest)
      | _, _, '\'' :: _ => none
      | _, _, cs => some (plain (cs.takeWhile isInner), cs.dropWhile isInner)
    shape.map fun (g, rest) => (g, afterGap rest)

/-- What is left after a list, from its opening bracket on. -/
def items? : Nat → List Char → Option (List Char)
  | 0, _ => none
  | fuel + 1, cs =>
    match cs with
    | ']' :: rest => some rest
    | cs =>
      (value? fuel cs).bind fun (_, rest) =>
        match rest with
        | ',' :: rest => items? fuel rest
        | ']' :: rest => some rest
        | _ => none

/-- What is left after a table, from its opening brace on. -/
def pairs? : Nat → List Char → Option (List Char)
  | 0, _ => none
  | fuel + 1, cs =>
    match cs with
    | '}' :: rest => some rest
    | cs =>
      match (key? (afterGap cs)).map afterGap with
      | some ('=' :: rest) =>
        (value? fuel rest).bind fun (_, rest) =>
          match rest with
          | ',' :: rest => pairs? fuel rest
          | '}' :: rest => some rest
          | _ => none
      | _ => none

end

/-- What the text of a variable gives. -/
def given (text : String) : Given :=
  match value? (2 * text.length + 2) text.toList with
  | some (g, []) => g
  | _ => .text text

/-- What the names of variables start with. -/
def opening : List Char := "rulechain_".toList

/-- The name of the setting that a variable is for, and whether it is for a part of the setting. -/
def setting? (name : String) : Option (String × Bool) :=
  let cs := (Text.trim name.toList).map Char.toLower
  (Text.after? opening cs).bind fun rest =>
    let pieces := Text.splitOn '.' (Text.trim rest)
    if pieces.any (·.isEmpty) then none
    else pieces.head?.map fun piece => (String.ofList piece, 1 < pieces.length)

/-- What the variables of an environment give; of several for one setting the last counts. -/
def settings (environment : List (String × String)) : Table Given :=
  Table.ofList (environment.filterMap fun (name, text) =>
    (setting? name).map fun (setting, isPart) => (setting, if isPart then .other else given text))

end RuleFlow.Environment
