import RuleFlow.Text.Split
import RuleFlow.Url.Escape
import RuleFlow.Url.Punycode

/-!
# Hosts

The host of a URL in its normal form: a domain in lower-case ASCII, an address of four bytes, or one of
eight 16-bit pieces in brackets with the longest run of zeros left out. Under a scheme that is not one of
the web's, a host is any text without the characters that would end it.
-/

namespace RuleFlow.Url

/-- Why a text is no URL. -/
inductive Fault where
  | relative
  | port
  | address6
  | address4
  | emptyHost
  | domain
  | hostCharacter
  deriving DecidableEq

/-- The wording of a fault. -/
def Fault.message : Fault → String
  | .relative => "relative URL without a base"
  | .port => "invalid port number"
  | .address6 => "invalid IPv6 address"
  | .address4 => "invalid IPv4 address"
  | .emptyHost => "empty host"
  | .domain => "invalid international domain name"
  | .hostCharacter => "invalid domain character"

/-- A number in decimal, in octal after `0` or in hexadecimal after `0x`. -/
def numberInAnyBase? (cs : List Char) : Option Nat :=
  let value (base : Nat) (ds : List Char) : Option Nat :=
    ds.foldlM (fun n c => (Text.Hex.value? c).bind fun d => if d < base then some (base * n + d) else none) 0
  match cs with
  | [] => none
  | '0' :: 'x' :: ds | '0' :: 'X' :: ds => value 16 ds
  | '0' :: d :: ds => value 8 (d :: ds)
  | ds => value 10 ds

/-- The pieces of a host between dots, less an empty last one. -/
def hostParts (cs : List Char) : List (List Char) :=
  let parts := Text.splitOn '.' cs
  if 1 < parts.length ∧ parts.getLast? = some [] then parts.dropLast else parts

/-- Whether the last piece of a host is a number, so that the host must be an address. -/
def endsInNumber (cs : List Char) : Bool :=
  match (hostParts cs).getLast? with
  | none => false
  | some part =>
    (!part.isEmpty && part.all Char.isDigit) ||
      (match part with
        | '0' :: 'x' :: ds | '0' :: 'X' :: ds => ds.all fun c => (Text.Hex.value? c).isSome
        | _ => false)

/-- The value of an address written in at most four parts, the last of which fills the remaining bytes. -/
def address4? (cs : List Char) : Option Nat := do
  let parts := hostParts cs
  if 4 < parts.length then none
  else
    let numbers ← parts.mapM numberInAnyBase?
    let last ← numbers.getLast?
    let front := numbers.dropLast
    if front.any (255 < ·) ∨ Nat.pow 256 (5 - numbers.length) ≤ last then none
    else some (front.zipIdx.foldl (fun total (n, i) => total + n * Nat.pow 256 (3 - i)) last)

/-- An address of four bytes in decimal. -/
def renderAddress4 (n : Nat) : List Char :=
  Text.joinWith '.' ([3, 2, 1, 0].map fun i => (toString (n / Nat.pow 256 i % 256)).toList)

/-- The value of one to four hexadecimal digits. -/
def piece? (cs : List Char) : Option Nat :=
  if cs.isEmpty ∨ 4 < cs.length then none else Text.Hex.number? cs

/-- A decimal number below 256 without a leading zero. -/
def octet? (cs : List Char) : Option Nat :=
  if cs.isEmpty ∨ 3 < cs.length ∨ cs.any (! ·.isDigit) ∨ (1 < cs.length ∧ cs.head? = some '0') then none
  else
    let n := cs.foldl (fun n c => 10 * n + (c.toNat - 48)) 0
    if n < 256 then some n else none

/-- The two pieces of four dotted numbers. -/
def dottedTail? (cs : List Char) : Option (List Nat) :=
  match (Text.splitOn '.' cs).mapM octet? with
  | some [a, b, c, d] => some [a * 256 + b, c * 256 + d]
  | _ => none

/-- The pieces between colons; the last may be four dotted numbers. -/
def pieces? : List (List Char) → Option (List Nat)
  | [] => some []
  | [last] => if '.' ∈ last then dottedTail? last else (piece? last).map fun n => [n]
  | part :: next :: parts => do some ((← piece? part) :: (← pieces? (next :: parts)))

/-- Cuts a text at the first `::`. -/
def cutDoubleColon : List Char → Option (List Char × List Char)
  | ':' :: ':' :: rest => some ([], rest)
  | c :: rest => (cutDoubleColon rest).map fun (a, b) => (c :: a, b)
  | [] => none

/-- The pieces of a text, none for the empty text. -/
def piecesOf? (cs : List Char) : Option (List Nat) :=
  if cs.isEmpty then some [] else pieces? (Text.splitOn ':' cs)

/-- The eight pieces of an address; `::` stands for the zeros that are left out. -/
def address6? (cs : List Char) : Option (List Nat) :=
  match cutDoubleColon cs with
  | some (front, back) => do
    if '.' ∈ front then none
    else
      let front ← piecesOf? front
      let back ← piecesOf? back
      if front.length + back.length ≤ 7 then
        some (front ++ List.replicate (8 - front.length - back.length) 0 ++ back)
      else none
  | none => do
    let all ← piecesOf? cs
    if all.length = 8 then some all else none

/-- The length of the run of zeros at the front. -/
def zeroRun (ps : List Nat) : Nat := (ps.takeWhile (· = 0)).length

/-- The start and length of the first longest run of zeros. -/
def longestRun (ps : List Nat) : Nat × Nat :=
  (List.range ps.length).foldl
    (fun best i => let n := zeroRun (ps.drop i); if best.2 < n then (i, n) else best) (0, 0)

/-- An address of eight pieces, the first longest run of at least two zeros left out. -/
def renderAddress6 (ps : List Nat) : List Char :=
  let write (ps : List Nat) := Text.joinWith ':' (ps.map Text.Hex.shortDigits)
  let (start, length) := longestRun ps
  if length < 2 then write ps
  else write (ps.take start) ++ ':' :: ':' :: write (ps.drop (start + length))

/-- The characters that may not stand in a domain. -/
def isForbiddenInDomain (c : Char) : Bool :=
  c.toNat ≤ 0x20 || c.toNat = 0x7F ||
    ['#', '/', ':', '<', '>', '?', '@', '[', '\\', ']', '^', '|', '%'].contains c

/-- A label in lower-case ASCII. -/
def asciiLabel (label : List Char) : List Char :=
  if label.all (·.toNat < 0x80) then label else 'x' :: 'n' :: '-' :: '-' :: Punycode.encode label

/-- A domain in lower-case ASCII. -/
def asciiDomain? (cs : List Char) : Option (List Char) :=
  let lower := cs.map fun c => if c = '。' ∨ c = '．' ∨ c = '｡' then '.' else c.toLower
  let ascii := Text.joinWith '.' ((Text.splitOn '.' lower).map asciiLabel)
  if ascii.any isForbiddenInDomain then none else some ascii

/-- The characters that may not stand in a host under other schemes. -/
def isForbiddenInHost (c : Char) : Bool :=
  ['\x00', '\t', '\n', '\r', ' ', '#', '/', ':', '<', '>', '?', '@', '[', '\\', ']', '^', '|'].contains c

/-- The text inside brackets as an address of eight pieces. -/
def bracketed (cs : List Char) : Except Fault (List Char) :=
  match cs.getLast?, address6? cs.dropLast with
  | some ']', some ps => .ok ('[' :: renderAddress6 ps ++ [']'])
  | _, _ => .error .address6

/-- The normal form of a host under a scheme of the web. -/
def specialHost (cs : List Char) : Except Fault (List Char) :=
  match cs with
  | '[' :: rest => bracketed rest
  | _ =>
    match String.fromUTF8? ⟨(unescape (Json.bytesOf (String.ofList cs))).toArray⟩ with
    | none => .error .domain
    | some decoded =>
      match asciiDomain? decoded.toList with
      | none => .error .domain
      | some [] => .error .emptyHost
      | some domain =>
        if endsInNumber domain then
          match address4? domain with
          | some n => .ok (renderAddress4 n)
          | none => .error .address4
        else .ok domain

/-- The normal form of a host under any other scheme. -/
def opaqueHost (cs : List Char) : Except Fault (List Char) :=
  match cs with
  | '[' :: rest => bracketed rest
  | _ => if cs.any isForbiddenInHost then .error .hostCharacter else .ok (escape .control cs)

end RuleFlow.Url
