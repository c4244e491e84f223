import RuleFlow.Json.Fault

/-!
# Reading JSON

A reader takes bytes from the front of a text and returns what it read and the bytes that are left.
Blanks are skipped, literals and numbers taken, strings scanned by a machine with one state per place in
an escape. `readValue` builds a value, nesting at most `maxDepth` deep; `skipValue` passes over a value
that nobody wants, which it checks less strictly and to any depth. A whole text is read by `parseWith`.

A number accumulates its digits in 64 bits and drops those that do not fit; the result is scaled once by a
power of ten, so that a double is not always the nearest one.
-/

namespace RuleFlow.Json

/-- What is read and the bytes that are left. -/
abbrev Reader (α : Type) := List UInt8 → Except Fault (α × List UInt8)

/-! ## Bytes and strings -/

/-- Whether a byte is one of the four blanks. -/
def isBlankByte (b : UInt8) : Bool := b = 0x20 || b = 0x0A || b = 0x09 || b = 0x0D

/-- The text from the first byte on that is no blank. -/
def skipBlanks : List UInt8 → List UInt8
  | [] => []
  | b :: bs => if isBlankByte b then skipBlanks bs else b :: bs

/-- Whether a byte is a decimal digit. -/
def isDigitByte (b : UInt8) : Bool := 0x30 ≤ b && b ≤ 0x39

/-- The value of a decimal digit. -/
def digitValue (b : UInt8) : Nat := b.toNat - 0x30

/-- Whether a text starts with a decimal digit. -/
def startsWithDigit : List UInt8 → Bool
  | b :: _ => isDigitByte b
  | [] => false

/-- Whether a text starts with an exponent mark. -/
def startsWithExponent : List UInt8 → Bool
  | b :: _ => b = 0x65 || b = 0x45
  | [] => false

/-- Reads the rest of a literal. -/
def readLiteral : List UInt8 → List UInt8 → Except Fault (List UInt8)
  | [], rest => .ok rest
  | _ :: _, [] => failAt .valueEnds []
  | w :: word, b :: rest => if b = w then readLiteral word rest else failAt .ident rest

/-- The bytes of `null` after the first. -/
def nullTail : List UInt8 := [0x75, 0x6C, 0x6C]

/-- The bytes of `true` after the first. -/
def trueTail : List UInt8 := [0x72, 0x75, 0x65]

/-- The bytes of `false` after the first. -/
def falseTail : List UInt8 := [0x61, 0x6C, 0x73, 0x65]

/-- The place of a scan in a string: between characters, after a backslash, among the four digits of an
escape (after the first surrogate of a pair, if any), or between the two escapes of a pair. -/
inductive StringState where
  | plain
  | escape
  | hex (digits : List UInt8) (lead : Option Nat)
  | betweenPair (lead : Nat)
  | betweenPairEscape (lead : Nat)

/-- The character that a one-letter escape stands for. -/
def escapeByte? (b : UInt8) : Option UInt8 :=
  if b = 0x22 ∨ b = 0x5C ∨ b = 0x2F then some b
  else if b = 0x62 then some 0x08
  else if b = 0x66 then some 0x0C
  else if b = 0x6E then some 0x0A
  else if b = 0x72 then some 0x0D
  else if b = 0x74 then some 0x09
  else none

/-- The value of four hexadecimal digits. -/
def hexUnit? (digits : List UInt8) : Option Nat :=
  Text.Hex.number? (digits.map fun b => Char.ofNat b.toNat)

/-- The bytes of a code point, in reverse order. -/
def pushCodePoint (n : Nat) (taken : List UInt8) : List UInt8 :=
  (String.utf8EncodeChar (Char.ofNat n)).reverse ++ taken

/-- Scans a string up to its closing quote; `taken` holds the bytes so far, last first. -/
def scanString : StringState → List UInt8 → Reader (List UInt8)
  | _, _, [] => failAt .stringEnds []
  | .plain, taken, b :: rest =>
    if b = 0x22 then .ok (taken.reverse, rest)
    else if b = 0x5C then scanString .escape taken rest
    else if b < 0x20 then failAt .controlCharacter rest
    else scanString .plain (b :: taken) rest
  | .escape, taken, b :: rest =>
    if b = 0x75 then scanString (.hex [] none) taken rest
    else match escapeByte? b with
      | some c => scanString .plain (c :: taken) rest
      | none => failAt .escape rest
  | .hex digits lead, taken, b :: rest =>
    if digits.length < 3 then scanString (.hex (digits ++ [b]) lead) taken rest
    else match hexUnit? (digits ++ [b]), lead with
      | none, _ => failAt .escape rest
      | some n, none =>
        if 0xDC00 ≤ n ∧ n < 0xE000 then failAt .loneSurrogate rest
        else if 0xD800 ≤ n ∧ n < 0xDC00 then scanString (.betweenPair n) taken rest
        else scanString .plain (pushCodePoint n taken) rest
      | some n, some lead =>
        if 0xDC00 ≤ n ∧ n < 0xE000 then
          scanString .plain (pushCodePoint (0x10000 + (lead - 0xD800) * 0x400 + (n - 0xDC00)) taken) rest
        else failAt .loneSurrogate rest
  | .betweenPair lead, taken, b :: rest =>
    if b = 0x5C then scanString (.betweenPairEscape lead) taken rest else failAt .hexEscapeEnds rest
  | .betweenPairEscape lead, taken, b :: rest =>
    if b = 0x75 then scanString (.hex [] (some lead)) taken rest else failAt .hexEscapeEnds rest

/-- The string of a run of bytes, if it is well-formed UTF-8. -/
def stringOf? (bytes : List UInt8) : Option String := String.fromUTF8? ⟨bytes.toArray⟩

/-- Whether a byte continues a character. -/
def isContinuation (b : UInt8) : Bool := 0x80 ≤ b && b < 0xC0

/-- Whether two bytes may start a character of three bytes. -/
def startsThree (a b : UInt8) : Bool :=
  (a = 0xE0 && 0xA0 ≤ b && b < 0xC0) || (a = 0xED && 0x80 ≤ b && b < 0xA0) ||
    (0xE1 ≤ a && a < 0xF0 && a ≠ 0xED && isContinuation b)

/-- Whether two bytes may start a character of four bytes. -/
def startsFour (a b : UInt8) : Bool :=
  (a = 0xF0 && 0x90 ≤ b && b < 0xC0) || (a = 0xF4 && 0x80 ≤ b && b < 0x90) ||
    (0xF1 ≤ a && a < 0xF4 && isContinuation b)

/-- The text from the first byte on that belongs to no well-formed character. -/
def dropWellFormed : List UInt8 → List UInt8
  | [] => []
  | a :: rest =>
    if a < 0x80 then dropWellFormed rest
    else match rest with
      | [] => [a]
      | b :: rest =>
        if 0xC2 ≤ a ∧ a < 0xE0 ∧ isContinuation b then dropWellFormed rest
        else match rest with
          | [] => [a, b]
          | c :: rest =>
            if startsThree a b ∧ isContinuation c then dropWellFormed rest
            else match rest with
              | [] => [a, b, c]
              | d :: rest =>
                if startsFour a b ∧ isContinuation c ∧ isContinuation d then dropWellFormed rest
                else a :: b :: c :: d :: rest

/-- Reads a string after its opening quote. -/
def readString : Reader String := fun text => do
  let (bytes, rest) ← scanString .plain [] text
  match stringOf? bytes with
  | some s => .ok (s, rest)
  | none => failNext .codePoint (dropWellFormed text)

/-- Passes over a string after its opening quote; escapes are checked one by one only. -/
def skipString : StringState → List UInt8 → Except Fault (List UInt8)
  | _, [] => failAt .stringEnds []
  | .plain, b :: rest =>
    if b = 0x22 then .ok rest
    else if b = 0x5C then skipString .escape rest
    else if b < 0x20 then failAt .controlCharacter (b :: rest)
    else skipString .plain rest
  | .hex digits _, b :: rest =>
    if digits.length < 3 then skipString (.hex (digits ++ [b]) none) rest
    else if (hexUnit? (digits ++ [b])).isSome then skipString .plain rest
    else failAt .escape rest
  | _, b :: rest =>
    if b = 0x75 then skipString (.hex [] none) rest
    else if (escapeByte? b).isSome then skipString .plain rest
    else failAt .escape rest

/-! ## Numbers -/

/-- The largest whole number that fits into 64 bits. -/
def maxWord : Nat := Nat.pow 2 64 - 1

/-- Takes digits as long as the significand fits into 64 bits: the significand, how many were taken and
what is left. -/
def takeDigits (significand taken : Nat) : List UInt8 → Nat × Nat × List UInt8
  | [] => (significand, taken, [])
  | b :: rest =>
    if isDigitByte b ∧ significand * 10 + digitValue b ≤ maxWord then
      takeDigits (significand * 10 + digitValue b) (taken + 1) rest
    else (significand, taken, b :: rest)

/-- Drops digits: how many there were and what is left. -/
def dropDigits (dropped : Nat) : List UInt8 → Nat × List UInt8
  | [] => (dropped, [])
  | b :: rest => if isDigitByte b then dropDigits (dropped + 1) rest else (dropped, b :: rest)

/-- The power `10 ^ n` as a double, for `n` up to 308. -/
def tenTo (n : Nat) : Float := Float.ofScientific 1 false n

/-- The significand times a power of ten, rounded at each step; none if it is too large. -/
def scale? (significand : Nat) (exponent : Int) : Option Float :=
  let f := (UInt64.ofNat significand).toFloat
  if 0 ≤ exponent then
    if exponent ≤ 308 then
      let g := f * tenTo exponent.toNat
      if g.isInf then none else some g
    else if significand = 0 then some f else none
  else if -308 ≤ exponent then some (f / tenTo exponent.natAbs)
  else if -616 ≤ exponent then some (f / tenTo 308 / tenTo (exponent + 308).natAbs)
  else some 0.0

/-- A double with the sign in front. -/
def signed (negative : Bool) (f : Float) : Number := .ofFloat (if negative then -f else f)

/-- A scaled number at the end of its text. -/
def scaled (negative : Bool) (significand : Nat) (exponent : Int) : Reader Number := fun rest =>
  match scale? significand exponent with
  | some f => .ok (signed negative f, rest)
  | none => failAt .numberRange rest

/-- The bound of an exponent; one that passes it counts as infinite. -/
def maxExponent : Nat := Nat.pow 2 31 - 1

/-- Takes the digits of an exponent: its value and what is left, or what is left after the digit that
made it too large. -/
def takeExponent (e : Nat) : List UInt8 → (Nat × List UInt8) ⊕ List UInt8
  | [] => .inl (e, [])
  | b :: rest =>
    if isDigitByte b then
      if e * 10 + digitValue b ≤ maxExponent then takeExponent (e * 10 + digitValue b) rest
      else .inr rest
    else .inl (e, b :: rest)

/-- Reads an exponent after its mark. -/
def readExponent (negative : Bool) (significand : Nat) (start : Int) : Reader Number := fun text =>
  let (down, text) := match text with
    | 0x2B :: rest => (false, rest)
    | 0x2D :: rest => (true, rest)
    | rest => (false, rest)
  match text with
  | [] => failAt .valueEnds []
  | b :: rest =>
    if isDigitByte b then
      match takeExponent (digitValue b) rest with
      | .inl (e, rest) => scaled negative significand (if down then start - e else start + e) rest
      | .inr rest =>
        if significand ≠ 0 ∧ ¬down then failAt .numberRange rest
        else .ok (signed negative 0.0, (dropDigits 0 rest).2)
    else failAt .number rest

/-- What may follow the digits of a number: an exponent or nothing. -/
def readScale (negative : Bool) (significand : Nat) (exponent : Int) : Reader Number := fun text =>
  match text with
  | b :: rest =>
    if b = 0x65 ∨ b = 0x45 then readExponent negative significand exponent rest
    else scaled negative significand exponent text
  | [] => scaled negative significand exponent []

/-- Reads the digits after the point. -/
def readFraction (negative : Bool) (significand : Nat) (exponent : Int) : Reader Number := fun text =>
  let (significand, taken, rest) := takeDigits significand 0 text
  if startsWithDigit rest then
    readScale negative significand (exponent - taken) (dropDigits 0 rest).2
  else if taken = 0 then
    failNext (if rest.isEmpty then .valueEnds else .number) rest
  else readScale negative significand (exponent - taken) rest

/-- What may follow the whole part of a number; without a point or an exponent it is a whole number if it
fits, and `-0` is a double. -/
def readTail (negative : Bool) (significand : Nat) : Reader Number := fun text =>
  match text with
  | 0x2E :: rest => readFraction negative significand 0 rest
  | rest =>
    if startsWithExponent rest then readScale negative significand 0 rest
    else if ¬negative then .ok (.int significand, rest)
    else if 0 < significand ∧ significand ≤ Nat.pow 2 63 then .ok (.int (-significand), rest)
    else .ok (signed true (UInt64.ofNat significand).toFloat, rest)

/-- Reads a number after its sign. -/
def readNumber (negative : Bool) : Reader Number := fun text =>
  match text with
  | [] => failAt .valueEnds []
  | b :: rest =>
    if b = 0x30 then
      if startsWithDigit rest then failNext .number rest else readTail negative 0 rest
    else if isDigitByte b then
      let (significand, _, rest) := takeDigits (digitValue b) 0 rest
      if startsWithDigit rest then
        let (dropped, rest) := dropDigits 0 rest
        match rest with
        | 0x2E :: rest => readFraction negative significand dropped rest
        | rest => readScale negative significand dropped rest
      else readTail negative significand rest
    else failAt .number rest

/-- Passes over the exponent of a number after its mark. -/
def skipExponent (text : List UInt8) : Except Fault (List UInt8) :=
  let text := match text with
    | 0x2B :: rest => rest
    | 0x2D :: rest => rest
    | rest => rest
  match text with
  | [] => failAt .number []
  | b :: rest => if isDigitByte b then .ok (dropDigits 0 rest).2 else failAt .number rest

/-- Passes over what may follow the whole part of a number. -/
def skipTail (text : List UInt8) : Except Fault (List UInt8) :=
  match text with
  | 0x2E :: rest =>
    let (taken, rest) := dropDigits 0 rest
    if taken = 0 then failNext .number rest
    else match rest with
      | b :: more => if b = 0x65 ∨ b = 0x45 then skipExponent more else .ok rest
      | [] => .ok []
  | b :: rest => if b = 0x65 ∨ b = 0x45 then skipExponent rest else .ok text
  | [] => .ok []

/-- Passes over a number after its sign. -/
def skipNumber (text : List UInt8) : Except Fault (List UInt8) :=
  match text with
  | [] => failAt .number []
  | b :: rest =>
    if b = 0x30 then if startsWithDigit rest then failNext .number rest else skipTail rest
    else if isDigitByte b then skipTail (dropDigits 0 rest).2
    else failAt .number rest

/-! ## Values -/

/-- Whether an array goes on: the text at the next item, or at the closing bracket. -/
def nextItem (first : Bool) (text : List UInt8) : Except Fault (Bool × List UInt8) :=
  match skipBlanks text with
  | [] => failNext .listEnds []
  | b :: rest =>
    if b = 0x5D then .ok (false, b :: rest)
    else if first then .ok (true, b :: rest)
    else if b = 0x2C then
      match skipBlanks rest with
      | [] => failNext .valueEnds []
      | c :: more =>
        if c = 0x5D then failNext .trailingComma (c :: more) else .ok (true, c :: more)
    else failNext .listCommaOrEnd (b :: rest)

/-- Reads the items of an array up to its closing bracket, which stays; `item` takes what was collected
so far and the text at the item. -/
def foldItems {σ : Type} (item : σ → Reader σ) : Nat → Bool → σ → Reader σ
  | 0, _, _, rest => failNext .listEnds rest
  | fuel + 1, first, acc, text => do
    match ← nextItem first text with
    | (false, rest) => .ok (acc, rest)
    | (true, rest) => do
      let (acc, rest) ← item acc rest
      foldItems item fuel false acc rest

/-- Reads the colon after a key. -/
def readColon (text : List UInt8) : Except Fault (List UInt8) :=
  match skipBlanks text with
  | [] => failNext .objectEnds []
  | b :: rest => if b = 0x3A then .ok rest else failNext .colon (b :: rest)

/-- Reads the members of an object up to its closing brace, which stays; `member` takes the key, what was
collected so far and the text after the key. -/
def foldMembers {σ : Type} (member : String → σ → Reader σ) : Nat → Bool → σ → Reader σ
  | 0, _, _, rest => failNext .objectEnds rest
  | fuel + 1, first, acc, text =>
    match skipBlanks text with
    | [] => failNext .objectEnds []
    | b :: rest =>
      if b = 0x7D then .ok (acc, b :: rest)
      else if ¬first ∧ b ≠ 0x2C then failNext .objectCommaOrEnd (b :: rest)
      else
        match (if first then b :: rest else skipBlanks rest) with
        | [] => failNext .valueEnds []
        | c :: more =>
          if c = 0x22 then do
            let (key, rest) ← readString more
            let (acc, rest) ← member key acc rest
            foldMembers member fuel false acc rest
          else if c = 0x7D then failNext .trailingComma (c :: more)
          else failNext .key (c :: more)

/-- Closes an array: where reading stands then, and whether the bracket was there. -/
def closeArray (text : List UInt8) : Except Fault (List UInt8) :=
  match skipBlanks text with
  | [] => failNext .listEnds []
  | b :: rest =>
    if b = 0x5D then .ok rest
    else if b = 0x2C then
      match skipBlanks rest with
      | [] => failNext .trailingCharacters []
      | c :: more => failNext (if c = 0x5D then .trailingComma else .trailingCharacters) (c :: more)
    else failNext .trailingCharacters (b :: rest)

/-- Closes an object. -/
def closeObject (text : List UInt8) : Except Fault (List UInt8) :=
  match skipBlanks text with
  | [] => failNext .objectEnds []
  | b :: rest =>
    if b = 0x7D then .ok rest
    else failNext (if b = 0x2C then .trailingComma else .trailingCharacters) (b :: rest)

/-- How deep arrays and objects nest at most. -/
def maxDepth : Nat := 127

/-- Reads a value that nests at most `depth` deep; `fuel` bounds the number of items of one array. -/
def readValue (fuel : Nat) : Nat → Reader Value
  | depth, text =>
    match skipBlanks text with
    | [] => failNext .valueEnds []
    | b :: rest =>
      if b = 0x6E then do
        let rest ← readLiteral nullTail rest
        .ok (.null, rest)
      else if b = 0x74 then do
        let rest ← readLiteral trueTail rest
        .ok (.bool true, rest)
      else if b = 0x66 then do
        let rest ← readLiteral falseTail rest
        .ok (.bool false, rest)
      else if b = 0x2D then do
        let (n, rest) ← readNumber true rest
        .ok (.number n, rest)
      else if isDigitByte b then do
        let (n, rest) ← readNumber false (b :: rest)
        .ok (.number n, rest)
      else if b = 0x22 then do
        let (s, rest) ← readString rest
        .ok (.string s, rest)
      else if b = 0x5B then
        match depth with
        | 0 => failNext .depth (b :: rest)
        | depth + 1 => do
          let (items, rest) ← foldItems
            (fun acc text => do
              let (v, rest) ← readValue fuel depth text
              .ok (v :: acc, rest)) fuel true [] rest
          let rest ← closeArray rest
          .ok (.array items.reverse, rest)
      else if b = 0x7B then
        match depth with
        | 0 => failNext .depth (b :: rest)
        | depth + 1 => do
          let (members, rest) ← foldMembers
            (fun key acc text => do
              let text ← readColon text
              let (v, rest) ← readValue fuel depth text
              .ok (Entries.insert key v acc, rest)) fuel true [] rest
          let rest ← closeObject rest
          .ok (.object members, rest)
      else failNext .value (b :: rest)

/-! ## Values that nobody wants -/

/-- An array or an object around the place of a skip. -/
inductive Frame where
  | array
  | object
  deriving DecidableEq

/-- Passes over the key and the colon of a member. -/
def skipKey (text : List UInt8) : Except Fault (List UInt8) :=
  match skipBlanks text with
  | [] => failNext .objectEnds []
  | b :: rest =>
    if b = 0x22 then do
      let rest ← skipString .plain rest
      readColon rest
    else failNext .key (b :: rest)

/-- After a value inside the given frames: closes frames until a comma follows or none is left. The
result is the frames that are still open and the text after the comma, if one was read. `comma` says
whether a comma may come now. -/
def skipEnds : Nat → Bool → List Frame → List UInt8 → Except Fault (List Frame × List UInt8)
  | _, _, [], text => .ok ([], text)
  | 0, _, _, text => failNext .value text
  | fuel + 1, comma, frame :: frames, text =>
    match skipBlanks text with
    | [] => failNext (if frame = .array then .listEnds else .objectEnds) []
    | b :: rest =>
      if b = 0x2C ∧ comma then .ok (frame :: frames, rest)
      else if (b = 0x5D ∧ frame = .array) ∨ (b = 0x7D ∧ frame = .object) then
        skipEnds fuel true frames rest
      else if comma then
        failNext (if frame = .array then .listCommaOrEnd else .objectCommaOrEnd) (b :: rest)
      else .ok (frame :: frames, b :: rest)

/-- Passes over a value inside the given frames and over everything up to the end of the outermost. -/
def skipInside : Nat → List Frame → List UInt8 → Except Fault (List UInt8)
  | 0, _, text => failNext .value text
  | fuel + 1, frames, text => do
    let (comma, frames, rest) ← (match skipBlanks text with
      | [] => failNext .valueEnds []
      | b :: rest =>
        if b = 0x6E then do .ok (true, frames, ← readLiteral nullTail rest)
        else if b = 0x74 then do .ok (true, frames, ← readLiteral trueTail rest)
        else if b = 0x66 then do .ok (true, frames, ← readLiteral falseTail rest)
        else if b = 0x2D then do .ok (true, frames, ← skipNumber rest)
        else if isDigitByte b then do .ok (true, frames, ← skipNumber (b :: rest))
        else if b = 0x22 then do .ok (true, frames, ← skipString .plain rest)
        else if b = 0x5B then .ok (false, .array :: frames, rest)
        else if b = 0x7B then .ok (false, .object :: frames, rest)
        else failNext .value (b :: rest) : Except Fault (Bool × List Frame × List UInt8))
    match ← skipEnds fuel comma frames rest with
    | ([], rest) => .ok rest
    | (.array :: frames, rest) => skipInside fuel (.array :: frames) rest
    | (.object :: frames, rest) => do
      let rest ← skipKey rest
      skipInside fuel (.object :: frames) rest

/-- Passes over a value. -/
def skipValue (fuel : Nat) (text : List UInt8) : Except Fault (List UInt8) :=
  skipInside fuel [] text

/-- Reads a whole text: after the value only blanks may follow. The reader is given a bound on the number
of steps that no text of this length exceeds. -/
def parseWith {α : Type} (reader : Nat → Reader α) (text : List UInt8) : Except Error α :=
  let result : Except Fault α := do
    let (a, rest) ← reader (text.length + 1) text
    match skipBlanks rest with
    | [] => .ok a
    | b :: rest => failNext .trailingCharacters (b :: rest)
  result.mapError (Fault.locate text)

/-- Reads a text as a value. -/
def parse (text : List UInt8) : Except Error Value :=
  parseWith (fun fuel => readValue fuel maxDepth) text

end RuleFlow.Json
