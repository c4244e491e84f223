import RuleFlow.Decimal.Shortest
import RuleFlow.Text.Blank
import RuleFlow.Text.Hex
import RuleFlow.Text.Split
import RuleFlow.Text.Units

/-!
# The words of a script

`Token.scan` cuts the text of a script into numbers, quoted texts, names and marks. Each token knows its
own text and whether a line break stands before it, since a line break may end a statement. Blanks and
comments are passed over. The end of the text is a token too: the brace that closes the body.
-/

namespace RuleFlow.Script

/-- What a token is. -/
inductive TokenKind where
  /-- A number, as the bits of its double. -/
  | number (bits : UInt64)
  /-- A quoted text, as its units. -/
  | text (units : List UInt16)
  | name (s : String)
  | mark (s : String)
  | finish
  deriving DecidableEq

/-- A token, its own text, and whether a line break stands before it. -/
structure Token where
  kind : TokenKind
  text : String
  afterBreak : Bool
  deriving DecidableEq

namespace Token

/-- Whether a character ends a line. -/
def isLineBreak (c : Char) : Bool := c = '\n' || c = '\r' || c = '\u2028' || c = '\u2029'

/-- Whether a character is a blank between tokens. -/
def isSpace (c : Char) : Bool := Text.isBlank c || c = '\ufeff'

/-- Whether a character may start a name. -/
def startsName (c : Char) : Bool :=
  c.isAlpha || c = '_' || c = '$' || (0x80 ≤ c.toNat && !isSpace c)

/-- Whether a character may stand in a name. -/
def isNameChar (c : Char) : Bool := startsName c || c.isDigit

/-- The marks, longer ones first. -/
def marks : List String :=
  ["===", "!==", "**=", ">>>", "...", "&&=", "||=", "==", "!=", "<=", ">=", "&&", "||", "??", "?.", "=>",
    "+=", "-=", "*=", "/=", "%=", "++", "--", "**", "<<", ">>", "\x7b", "\x7d", "(", ")", "[", "]",
    ".", ";", ",", "<", ">", "+", "-", "*", "/", "%", "&", "|", "^", "!", "~", "?", ":", "="]

/-- Where a scan of blanks stands. -/
inductive BlankState where
  | blank
  | lineComment
  | blockComment

/-- The text after blanks and comments, and whether a line break was passed. -/
def skipBlanks : BlankState → Bool → List Char → Bool × List Char
  | _, broken, [] => (broken, [])
  | .lineComment, broken, c :: rest =>
    if isLineBreak c then skipBlanks .blank true rest else skipBlanks .lineComment broken rest
  | .blockComment, broken, '*' :: '/' :: rest => skipBlanks .blank broken rest
  | .blockComment, broken, c :: rest => skipBlanks .blockComment (broken || isLineBreak c) rest
  | .blank, broken, '/' :: '/' :: rest => skipBlanks .lineComment broken rest
  | .blank, broken, '/' :: '*' :: rest => skipBlanks .blockComment broken rest
  | .blank, broken, c :: rest =>
    if isSpace c then skipBlanks .blank (broken || isLineBreak c) rest else (broken, c :: rest)

/-- The digits at the front of a text. -/
def digitsOf (cs : List Char) : List Char := cs.takeWhile Char.isDigit

/-- The value of a run of decimal digits. -/
def decimalValue (ds : List Char) : Nat := ds.foldl (fun n c => 10 * n + (c.toNat - 48)) 0

/-- The double nearest to digits times a power of ten. -/
def nearest (digits : Nat) (exponent : Int) : Float :=
  if 0 ≤ exponent then Float.ofScientific (digits * Nat.pow 10 (min exponent.toNat 400)) false 0
  else Float.ofScientific digits true exponent.natAbs

/-- The exponent at the front of a text, if there is one, and how long it is. -/
def exponentOf (cs : List Char) : Int × Nat :=
  match cs with
  | e :: rest =>
    if e = 'e' ∨ e = 'E' then
      let (down, sign, rest) := match rest with
        | '+' :: rest => (false, 1, rest)
        | '-' :: rest => (true, 1, rest)
        | rest => (false, 0, rest)
      let ds := digitsOf rest
      let n : Int := min (decimalValue ds) 10000
      if ds.isEmpty then (0, 0) else (if down then -n else n, 1 + sign + ds.length)
    else (0, 0)
  | [] => (0, 0)

/-- A decimal number at the front of a text and how long it is; none if there is no digit. -/
def decimalOf? (cs : List Char) : Option (Float × Nat) :=
  let whole := digitsOf cs
  let rest := cs.drop whole.length
  let (fraction, point) := match rest with
    | '.' :: more => (digitsOf more, 1)
    | _ => ([], 0)
  if whole.isEmpty ∧ fraction.isEmpty then none
  else
    let length := whole.length + point + fraction.length
    let (exponent, more) := exponentOf (cs.drop length)
    some (nearest (decimalValue (whole ++ fraction)) (exponent - fraction.length), length + more)

/-- The base that a letter after `0` announces. -/
def baseOf? (c : Char) : Option Nat :=
  if c = 'x' ∨ c = 'X' then some 16
  else if c = 'o' ∨ c = 'O' then some 8
  else if c = 'b' ∨ c = 'B' then some 2
  else none

/-- A digit below a base. -/
def digitBelow? (base : Nat) (c : Char) : Option Nat := (Text.Hex.value? c).filter (· < base)

/-- A number at the front of a text and how long it is. -/
def numberOf? (cs : List Char) : Option (Float × Nat) :=
  match cs with
  | '0' :: letter :: rest =>
    match baseOf? letter with
    | some base =>
      let ds := rest.takeWhile fun c => (digitBelow? base c).isSome
      let n := ds.foldl (fun n c => base * n + ((digitBelow? base c).getD 0)) 0
      if ds.isEmpty then none else some (nearest n 0, 2 + ds.length)
    | none => decimalOf? cs
  | _ => decimalOf? cs

/-- The character of a one-letter escape. -/
def escaped (c : Char) : Char :=
  if c = 'n' then '\n' else if c = 't' then '\t' else if c = 'r' then '\r'
  else if c = 'b' then '\x08' else if c = 'f' then '\x0c' else if c = 'v' then '\x0b'
  else if c = '0' then '\x00' else c

/-- What an escape stands for, and how many characters after the backslash it takes. -/
def escapeOf? (cs : List Char) : Option (List UInt16 × Nat) :=
  match cs with
  | [] => none
  | 'x' :: a :: b :: _ => (Text.Hex.number? [a, b]).map fun n => ([UInt16.ofNat n], 3)
  | 'u' :: '{' :: rest =>
    let ds := rest.takeWhile (· ≠ '}')
    match rest.drop ds.length, Text.Hex.number? ds with
    | '}' :: _, some n =>
      if ds.isEmpty ∨ 0x10FFFF < n then none
      else if n < 0x10000 then some ([UInt16.ofNat n], 3 + ds.length)
      else some (Text.Units.ofChar (Char.ofNat n), 3 + ds.length)
    | _, _ => none
  | 'u' :: a :: b :: c :: d :: _ => (Text.Hex.number? [a, b, c, d]).map fun n => ([UInt16.ofNat n], 5)
  | 'x' :: _ | 'u' :: _ => none
  | c :: _ => some (if isLineBreak c then [] else Text.Units.ofChar (escaped c), 1)

/-- The units of a quoted text up to its closing quote, and the text after it. `skip` characters belong to
an escape that was already read. -/
def quotedOf? (quote : Char) : Nat → List UInt16 → List Char → Option (List UInt16 × List Char)
  | _, _, [] => none
  | skip + 1, taken, _ :: rest => quotedOf? quote skip taken rest
  | 0, taken, c :: rest =>
    if c = quote then some (taken, rest)
    else if c = '\\' then
      match escapeOf? rest with
      | some (units, length) => quotedOf? quote length (taken ++ units) rest
      | none => none
    else if c = '\n' ∨ c = '\r' then none
    else quotedOf? quote 0 (taken ++ Text.Units.ofChar c) rest

/-! ## Scanning -/

/-- The mark at the front of a text. -/
def markOf? (cs : List Char) : Option String :=
  marks.find? fun m => (Text.after? m.toList cs).isSome

/-- The token at the front of a text that starts with no blank, and the text after it, or the reason why
there is none. -/
def next (broken : Bool) (cs : List Char) : Except String (Token × List Char) :=
  match cs with
  | [] => .ok (⟨.finish, "\x7d", broken⟩, [])
  | c :: rest =>
    if startsName c then
      let name := String.ofList (cs.takeWhile isNameChar)
      .ok (⟨.name name, name, broken⟩, cs.dropWhile isNameChar)
    else if c.isDigit ∨ (c = '.' ∧ (digitsOf rest).length ≠ 0) then
      match numberOf? cs with
      | none => .error "invalid number literal"
      | some (f, length) =>
        let after := cs.drop length
        if (after.head?.map isNameChar).getD false then .error "invalid number literal"
        else .ok (⟨.number f.toBits, String.ofList (cs.take length), broken⟩, after)
    else if c = '"' ∨ c = '\'' then
      match quotedOf? c 0 [] rest with
      | none => .error "unexpected end of string"
      | some (units, after) =>
        .ok (⟨.text units, String.ofList (cs.take (cs.length - after.length)), broken⟩, after)
    else match markOf? cs with
      | some m => .ok (⟨.mark m, m, broken⟩, cs.drop m.length)
      | none => .error "unexpected character"

/-- The tokens of a text; `fuel` bounds their number. -/
def scanAll : Nat → List Char → Except String (List Token)
  | 0, _ => .ok [⟨.finish, "\x7d", false⟩]
  | fuel + 1, cs =>
    let (broken, cs) := skipBlanks .blank false cs
    match next broken cs with
    | .error e => .error e
    | .ok (t, rest) =>
      if t.kind = .finish then .ok [{ t with afterBreak := true }]
      else (scanAll fuel rest).map (t :: ·)

/-- The tokens of a script, the last of which is its end. -/
def scan (script : String) : Except String (List Token) :=
  scanAll (script.length + 1) script.toList

end Token

end RuleFlow.Script
