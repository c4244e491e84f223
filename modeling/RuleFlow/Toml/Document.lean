import RuleFlow.Toml.Quoted
import RuleFlow.Toml.Scalar

/-!
# Documents in TOML

`Toml.parse` reads a document line by line: comments, headers and pairs of a key and a value. There is no
answer for a text that is no document.
-/

namespace RuleFlow.Toml

/-- What is left after blanks. -/
def afterBlanks (cs : List Char) : List Char := cs.dropWhile fun c => c = ' ' || c = '\t'

/-- What is left after the comment that a `#` starts; the line break stays. -/
def afterComment? (cs : List Char) : Option (List Char) :=
  let rest := cs.dropWhile isPlain
  match rest with
  | [] => some []
  | '\n' :: _ => some rest
  | '\r' :: '\n' :: _ => some rest
  | _ => none

/-- What is left after blanks, line breaks and comments. -/
def afterGap? : Nat → List Char → Option (List Char)
  | 0, cs => some cs
  | fuel + 1, cs =>
    match afterBlanks cs with
    | '\n' :: rest => afterGap? fuel rest
    | '\r' :: '\n' :: rest => afterGap? fuel rest
    | '#' :: rest => (afterComment? rest).bind (afterGap? fuel)
    | rest => some rest

/-- What is left after the end of a line. -/
def afterLine? (cs : List Char) : Option (List Char) :=
  let rest := match afterBlanks cs with
    | '#' :: rest => afterComment? rest
    | rest => some rest
  match rest with
  | some [] => some []
  | some ('\n' :: rest) => some rest
  | some ('\r' :: '\n' :: rest) => some rest
  | _ => none

/-- Whether a character may stand in a key without quotes. -/
def isKeyChar (c : Char) : Bool := c.isAlphanum || c = '_' || c = '-'

/-- Reads a key without dots. -/
def key? (cs : List Char) : Option (String × List Char) :=
  match line? cs with
  | some (key, rest) => some (String.ofList key, rest)
  | none =>
    let key := cs.takeWhile isKeyChar
    if key.isEmpty then none else some (String.ofList key, cs.drop key.length)

/-- Reads a key with dots. -/
def path? : Nat → List Char → Option (List String × List Char)
  | 0, _ => none
  | fuel + 1, cs =>
    (key? (afterBlanks cs)).bind fun (key, rest) =>
      match afterBlanks rest with
      | '.' :: more => (path? fuel more).map fun (path, rest) => (key :: path, rest)
      | rest => some ([key], rest)

mutual

/-- Reads a value. -/
def value? : Nat → List Char → Option (Value × List Char)
  | 0, _ => none
  | fuel + 1, cs =>
    match cs with
    | '[' :: rest => (items? fuel rest).map fun (vs, rest) => (.array vs, rest)
    | '{' :: rest =>
      match afterBlanks rest with
      | '}' :: rest => some (.table .braces [], rest)
      | rest => (pairs? fuel [] rest).map fun (es, rest) => (.table .braces es, rest)
    | _ =>
      match Text.after? "true".toList cs, Text.after? "false".toList cs, quoted? cs with
      | some rest, _, _ => some (.bool true, rest)
      | _, some rest, _ => some (.bool false, rest)
      | _, _, some (text, rest) => some (.string (String.ofList text), rest)
      | _, _, _ => number? cs

/-- Reads the values of an array up to its bracket. -/
def items? : Nat → List Char → Option (List Value × List Char)
  | 0, _ => none
  | fuel + 1, cs =>
    match afterGap? cs.length cs with
    | none => none
    | some (']' :: rest) => some ([], rest)
    | some cs =>
      (value? fuel cs).bind fun (v, rest) =>
        match afterGap? rest.length rest with
        | some (',' :: rest) => (items? fuel rest).map fun (vs, rest) => (v :: vs, rest)
        | some (']' :: rest) => some ([v], rest)
        | _ => none

/-- Reads the pairs of a table up to its brace. -/
def pairs? : Nat → Entries → List Char → Option (Entries × List Char)
  | 0, _, _ => none
  | fuel + 1, es, cs =>
    (path? cs.length cs).bind fun (path, rest) =>
      match rest with
      | '=' :: rest =>
        (value? fuel (afterBlanks rest)).bind fun (v, rest) =>
          (es.put path v).bind fun es =>
            match afterBlanks rest with
            | ',' :: rest => pairs? fuel es rest
            | '}' :: rest => some (es, rest)
            | _ => none
      | _ => none

end

/-- What was read of a document, and the path of the last header. -/
structure Draft where
  entries : Entries := []
  path : List String := []

/-- Reads a header between so many brackets. -/
def header? (close : List Char) (cs : List Char) : Option (List String × List Char) :=
  (path? cs.length cs).bind fun (path, rest) =>
    (Text.after? close rest).bind fun rest => (afterLine? rest).map fun rest => (path, rest)

/-- Reads a line that is not empty. -/
def statement? (d : Draft) (cs : List Char) : Option (Draft × List Char) :=
  match cs with
  | '[' :: '[' :: rest =>
    (header? [']', ']'] rest).bind fun (path, rest) =>
      (d.entries.appendTable path).map fun entries => (⟨entries, path⟩, rest)
  | '[' :: rest =>
    (header? [']'] rest).bind fun (path, rest) =>
      (d.entries.openTable path).map fun entries => (⟨entries, path⟩, rest)
  | _ =>
    (path? cs.length cs).bind fun (path, rest) =>
      match rest with
      | '=' :: rest =>
        (value? rest.length (afterBlanks rest)).bind fun (v, rest) =>
          (d.entries.change (·.put path v) d.path).bind fun entries =>
            (afterLine? rest).map fun rest => (⟨entries, d.path⟩, rest)
      | _ => none

/-- Reads the lines of a document. -/
def statements? : Nat → Draft → List Char → Option Entries
  | 0, _, _ => none
  | fuel + 1, d, cs =>
    match afterGap? cs.length cs with
    | none => none
    | some [] => some d.entries
    | some cs => (statement? d cs).bind fun (d, rest) => statements? fuel d rest

/-- Reads a document; a mark of the byte order at its start is skipped. -/
def parse (text : String) : Option Entries :=
  let cs := match text.toList with
    | '\uFEFF' :: rest => rest
    | cs => cs
  statements? (cs.length + 1) {} cs

end RuleFlow.Toml
