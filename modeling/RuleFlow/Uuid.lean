import RuleFlow.Text.Hex

/-!
# Universally unique identifiers

An identifier is a number below `2 ^ 128`. `Uuid.render` writes it as 32 lower-case digits in groups of
8, 4, 4, 4 and 12. `Uuid.parse` reads that form, the form without hyphens, the form in braces and the one
after `urn:uuid:`, in either case; a text that is none of them is refused with the first reason that applies.
-/

namespace RuleFlow

/-- A universally unique identifier. -/
structure Uuid where
  value : Nat
  deriving DecidableEq, Inhabited

namespace Uuid

/-- Why a text is not an identifier. -/
inductive Fault where
  | character (found : Char) (index : Nat)
  | length (found : Nat)
  | groupCount (found : Nat)
  | groupLength (group expected found : Nat)
  deriving DecidableEq

/-- The wording of a fault. -/
def Fault.message : Fault → String
  | .character c i => s!"invalid character: found `{c}` at {i}"
  | .length n => s!"invalid length: found {n}"
  | .groupCount n => s!"invalid group count: expected 5, found {n}"
  | .groupLength g e n => s!"invalid group length in group {g}: expected {e}, found {n}"

/-- The lengths of the five groups. -/
def groupLengths : List Nat := [8, 4, 4, 4, 12]

/-- Cuts digits into groups of the given lengths, with a hyphen between two groups. -/
def hyphenate : List Nat → List Char → List Char
  | [], ds => ds
  | [n], ds => ds.take n
  | n :: next :: ns, ds => ds.take n ++ '-' :: hyphenate (next :: ns) (ds.drop n)

/-- The 32 digits of an identifier. -/
def digits (u : Uuid) : List Char := Text.Hex.digits 32 u.value

/-- The hyphenated lower-case form. -/
def render (u : Uuid) : String := String.ofList (hyphenate groupLengths u.digits)

/-- The digits of a hyphenated text, if its groups have the right lengths. -/
def ungroup? : List Nat → List Char → Option (List Char)
  | [], _ => none
  | [n], cs => if cs.length = n then some cs else none
  | n :: next :: ns, cs =>
    match cs.drop n with
    | '-' :: rest => (ungroup? (next :: ns) rest).map (cs.take n ++ ·)
    | _ => none

/-- The text inside braces or after `urn:uuid:`, with the number of characters before it. -/
def unwrap (cs : List Char) : List Char × Nat × Bool :=
  match cs with
  | '{' :: rest => if rest.getLast? = some '}' then (rest.dropLast, 1, false) else (cs, 0, true)
  | 'u' :: 'r' :: 'n' :: ':' :: 'u' :: 'u' :: 'i' :: 'd' :: ':' :: rest => (rest, 9, false)
  | _ => (cs, 0, true)

/-- The first character that is neither a digit nor a hyphen, with its byte position. -/
def strayCharacter? : Nat → List Char → Option (Char × Nat)
  | _, [] => none
  | i, c :: cs =>
    if c = '-' ∨ (Text.Hex.value? c).isSome then strayCharacter? (i + c.utf8Size) cs else some (c, i)

/-- The positions of the hyphens. -/
def hyphens (cs : List Char) : List Nat :=
  (cs.zipIdx.filter (·.1 = '-')).map (·.2)

/-- The first group of a text with four hyphens that has the wrong length; the last group counts the
characters up to the end of the whole text of `total` characters. -/
def badGroup (total : Nat) : Nat → Nat → List Nat → List Nat → Fault
  | group, start, expected :: lengths, at_ :: more =>
    if at_ = start + expected then badGroup total (group + 1) (at_ + 1) lengths more
    else .groupLength group expected (at_ - start)
  | group, start, lengths, _ => .groupLength group (lengths.headD 12) (total - start)

/-- Why a text that is in no accepted form is refused. -/
def fault (cs : List Char) : Fault :=
  let total := (String.ofList cs).utf8ByteSize
  let (inner, offset, simple) := unwrap cs
  match strayCharacter? 0 inner with
  | some (c, i) => .character c (i + offset)
  | none =>
    let marks := hyphens inner
    if marks.isEmpty && simple then .length total
    else if marks.length ≠ 4 then .groupCount (marks.length + 1)
    else badGroup total 0 0 groupLengths marks

/-- The digits of a text in one of the accepted forms. -/
def digits? (cs : List Char) : Option (List Char) :=
  let (inner, _, simple) := unwrap cs
  if simple ∧ inner.length = 32 ∧ '-' ∉ inner then some inner else ungroup? groupLengths inner

/-- Reads an identifier. -/
def parse (s : String) : Except Fault Uuid :=
  match (digits? s.toList).bind Text.Hex.number? with
  | some n => .ok ⟨n⟩
  | none => .error (fault s.toList)

end Uuid

end RuleFlow
