/-!
# Sixteen-bit units

Text as UTF-16 code units: a character above `0xFFFF` is a pair of surrogates. Decoding keeps a surrogate
that has no partner apart, as `Sum.inr`, since it stands for no character.
-/

namespace RuleFlow.Text.Units

/-- The units of one character. -/
def ofChar (c : Char) : List UInt16 :=
  if c.toNat < 0x10000 then [UInt16.ofNat c.toNat]
  else
    let n := c.toNat - 0x10000
    [UInt16.ofNat (0xD800 + n / 0x400), UInt16.ofNat (0xDC00 + n % 0x400)]

/-- The units of a text. -/
def encode (cs : List Char) : List UInt16 := cs.flatMap ofChar

/-- Whether a unit is the first half of a pair. -/
def isLead (u : UInt16) : Bool := 0xD800 ≤ u.toNat && u.toNat < 0xDC00

/-- Whether a unit is the second half of a pair. -/
def isTrail (u : UInt16) : Bool := 0xDC00 ≤ u.toNat && u.toNat < 0xE000

/-- The character of a pair. -/
def pair (lead trail : UInt16) : Char :=
  Char.ofNat (0x10000 + (lead.toNat - 0xD800) * 0x400 + (trail.toNat - 0xDC00))

/-- The characters of a run of units; a surrogate without a partner stays a unit. -/
def decode : List UInt16 → List (Char ⊕ UInt16)
  | [] => []
  | [u] => if isLead u || isTrail u then [.inr u] else [.inl (Char.ofNat u.toNat)]
  | u :: v :: us =>
    if isLead u && isTrail v then .inl (pair u v) :: decode us
    else if isLead u || isTrail u then .inr u :: decode (v :: us)
    else .inl (Char.ofNat u.toNat) :: decode (v :: us)

/-- The units of a string. -/
def ofString (s : String) : List UInt16 := encode s.toList

/-- The string of a run of units; a surrogate without a partner becomes the replacement character. -/
def toString (us : List UInt16) : String :=
  String.ofList ((decode us).map fun
    | .inl c => c
    | .inr _ => '\ufffd')

end RuleFlow.Text.Units
