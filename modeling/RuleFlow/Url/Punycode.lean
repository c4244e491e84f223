/-!
# Punycode

The writing of a label with other than ASCII characters in ASCII. The characters that are not ASCII are
inserted in increasing order; each insertion is a number in a mixed base whose thresholds adapt.
-/

namespace RuleFlow.Url.Punycode

/-- The character of a digit below 36. -/
def digitChar (d : Nat) : Char :=
  if d < 26 then Char.ofNat (0x61 + d) else Char.ofNat (0x30 + (d - 26))

/-- The threshold of the digit at position `k`. -/
def threshold (k bias : Nat) : Nat :=
  if k ≤ bias then 1 else if bias + 26 ≤ k then 26 else k - bias

/-- Divides by 35 until the number is at most 455, adding 36 for each division. -/
def shrink : Nat → Nat → Nat → Nat × Nat
  | 0, delta, k => (delta, k)
  | fuel + 1, delta, k => if 455 < delta then shrink fuel (delta / 35) (k + 36) else (delta, k)

/-- The bias after an insertion. -/
def adapt (delta points : Nat) (first : Bool) : Nat :=
  let delta := if first then delta / 700 else delta / 2
  let (delta, k) := shrink delta (delta + delta / points) 0
  k + 36 * delta / (delta + 38)

/-- The digits of a number; `fuel` bounds their count. -/
def numberDigits (bias : Nat) : Nat → Nat → Nat → List Char
  | 0, _, _ => []
  | fuel + 1, k, q =>
    let t := threshold k bias
    if q < t then [digitChar q]
    else digitChar (t + (q - t) % (36 - t)) :: numberDigits bias fuel (k + 36) ((q - t) / (36 - t))

/-- The place of a writer: the digits so far, the distance, the bias and how many characters are in. -/
structure Progress where
  digits : List Char
  delta : Nat
  bias : Nat
  inserted : Nat

/-- Passes one character while the code point `m` is inserted. -/
def pass (basic m : Nat) (p : Progress) (c : Char) : Progress :=
  if c.toNat < m then { p with delta := p.delta + 1 }
  else if c.toNat = m then
    { digits := p.digits ++ numberDigits p.bias (p.delta + 1) 36 p.delta, delta := 0,
      bias := adapt p.delta (p.inserted + 1) (p.inserted = basic), inserted := p.inserted + 1 }
  else p

/-- Inserts the code points in increasing order. -/
def insertAll (label : List Char) (basic : Nat) : List Nat → Nat → Progress → Progress
  | [], _, p => p
  | m :: ms, n, p =>
    let p := { p with delta := p.delta + (m - n) * (p.inserted + 1) }
    let p := label.foldl (pass basic m) p
    insertAll label basic ms (m + 1) { p with delta := p.delta + 1 }

/-- The ASCII form of a label, without the mark in front. -/
def encode (label : List Char) : List Char :=
  let basic := label.filter (·.toNat < 0x80)
  let others := ((label.filter (0x80 ≤ ·.toNat)).map Char.toNat).mergeSort (· ≤ ·)
  let p := insertAll label basic.length others.eraseReps 128 ⟨[], 0, 72, basic.length⟩
  basic ++ (if basic.isEmpty then [] else ['-']) ++ p.digits

end RuleFlow.Url.Punycode
