/-!
# The shortest decimal of a double

A double with bits `b` is `m * 2 ^ q` (`Double.significand`, `Double.exponent`). Every real between the
midpoints to its neighbours rounds to it, the midpoints included if and only if `m` is even. `shortest`
gives the decimal `digits * 10 ^ exponent` with the fewest digits in that interval, and of two with as
many digits the nearer one. All arithmetic is exact, on natural numbers.

`Layout.write` puts the digits on paper; a `Layout` says where positional notation ends.
-/

namespace RuleFlow

namespace Double

/-- The eleven exponent bits. -/
def exponentField (bits : UInt64) : Nat := (bits.toNat / Nat.pow 2 52) % 2048

/-- The fifty-two fraction bits. -/
def fraction (bits : UInt64) : Nat := bits.toNat % Nat.pow 2 52

/-- Whether the sign bit is set. -/
def isNegative (bits : UInt64) : Bool := Nat.pow 2 63 ≤ bits.toNat

/-- The whole number `m` in the magnitude `m * 2 ^ q`. -/
def significand (bits : UInt64) : Nat :=
  if exponentField bits = 0 then fraction bits else fraction bits + Nat.pow 2 52

/-- The power `q` in the magnitude `m * 2 ^ q`. -/
def exponent (bits : UInt64) : Int :=
  if exponentField bits = 0 then -1074 else exponentField bits - 1075

/-- Whether the magnitude is zero. -/
def isZero (bits : UInt64) : Bool := significand bits = 0

end Double

/-- A decimal magnitude `digits * 10 ^ exponent`. -/
structure Decimal where
  digits : Nat
  exponent : Int
  deriving DecidableEq

namespace Decimal

/-- A positive rational `numerator / denominator` scaled by powers of two and ten. -/
structure Ratio where
  numerator : Nat
  denominator : Nat

/-- The ratio `n * 2 ^ q`. -/
def Ratio.ofBinary (n : Nat) (q : Int) : Ratio :=
  if 0 ≤ q then ⟨n * Nat.pow 2 q.toNat, 1⟩ else ⟨n, Nat.pow 2 (-q).toNat⟩

/-- The ratio divided by `10 ^ k`. -/
def Ratio.divTen (r : Ratio) (k : Int) : Ratio :=
  if 0 ≤ k then ⟨r.numerator, r.denominator * Nat.pow 10 k.toNat⟩
  else ⟨r.numerator * Nat.pow 10 (-k).toNat, r.denominator⟩

/-- The number of decimal digits of the whole part, which is not below one. -/
def Ratio.wholeDigits (r : Ratio) : Nat :=
  (Nat.toDigits 10 (r.numerator / r.denominator)).length

/-- The `e` with `10 ^ (e - 1) ≤ r < 10 ^ e`, for a ratio of at least `10 ^ -400`. -/
def Ratio.magnitude (r : Ratio) : Int :=
  (r.divTen (-400)).wholeDigits - 400

/-- The interval of values that round to one double, in quarters of its last binary place. -/
structure Neighbourhood where
  value : Nat
  low : Nat
  high : Nat
  exponent : Int
  closed : Bool

/-- The interval around the magnitude of a double. -/
def Neighbourhood.ofBits (bits : UInt64) : Neighbourhood :=
  let m := Double.significand bits
  let atPower := Double.fraction bits = 0 ∧ 1 < Double.exponentField bits
  { value := 4 * m, low := 4 * m - (if atPower then 1 else 2), high := 4 * m + 2,
    exponent := Double.exponent bits - 2, closed := m % 2 = 0 }

/-- Whether `n * 10 ^ k` lies in the interval. -/
def Neighbourhood.contains (i : Neighbourhood) (n : Nat) (k : Int) : Bool :=
  let low := (Ratio.ofBinary i.low i.exponent).divTen k
  let high := (Ratio.ofBinary i.high i.exponent).divTen k
  let above := n * low.denominator
  let below := n * high.denominator
  if i.closed then low.numerator ≤ above && below ≤ high.numerator
  else low.numerator < above && below < high.numerator

/-- The multiple of `10 ^ k` next to the value that lies in the interval; of two such the nearer, on a tie
the even one. -/
def Neighbourhood.onGrid? (i : Neighbourhood) (k : Int) : Option Nat :=
  let v := (Ratio.ofBinary i.value i.exponent).divTen k
  let below := v.numerator / v.denominator
  let remainder := v.numerator % v.denominator
  match i.contains below k, i.contains (below + 1) k with
  | true, true =>
    if 2 * remainder < v.denominator then some below
    else if 2 * remainder = v.denominator then some (if below % 2 = 0 then below else below + 1)
    else some (below + 1)
  | true, false => some below
  | false, true => some (below + 1)
  | false, false => none

/-- The first grid from `10 ^ k` downwards that has a point in the interval. -/
def Neighbourhood.firstGrid (i : Neighbourhood) : Nat → Int → Decimal
  | 0, k => ⟨0, k⟩
  | tries + 1, k =>
    match i.onGrid? k with
    | some n => ⟨n, k⟩
    | none => i.firstGrid tries (k - 1)

/-- Moves the trailing zeros of the digits into the exponent. -/
def dropZeros : Nat → Decimal → Decimal
  | 0, d => d
  | fuel + 1, d =>
    if d.digits ≠ 0 ∧ d.digits % 10 = 0 then dropZeros fuel ⟨d.digits / 10, d.exponent + 1⟩ else d

/-- The decimal with the fewest digits that rounds to the magnitude of a double, which is not zero;
seventeen digits always suffice. -/
def shortest (bits : UInt64) : Decimal :=
  let i := Neighbourhood.ofBits bits
  let e := (Ratio.ofBinary i.value i.exponent).magnitude
  dropZeros 20 (i.firstGrid 18 (e - 1))

end Decimal

/-- How a number is written: positionally while the point falls after at most `maxPoint` and more than
`minPoint` digits counted from the first one, with or without `.0` after a whole number. -/
structure Layout where
  maxPoint : Int
  minPoint : Int
  pointZero : Bool

/-- The digits of a decimal in the given layout, without a sign. -/
def Layout.write (layout : Layout) (d : Decimal) : String :=
  let ds := Nat.toDigits 10 d.digits
  let point : Int := ds.length + d.exponent
  if layout.minPoint < point ∧ point ≤ layout.maxPoint then
    if 0 ≤ d.exponent then
      String.ofList (ds ++ List.replicate d.exponent.toNat '0') ++ (if layout.pointZero then ".0" else "")
    else if 0 < point then
      String.ofList (ds.take point.toNat ++ '.' :: ds.drop point.toNat)
    else String.ofList ('0' :: '.' :: List.replicate (-point).toNat '0' ++ ds)
  else
    let power := point - 1
    let rest := ds.drop 1
    String.ofList (ds.take 1 ++ (if rest.isEmpty then [] else '.' :: rest)) ++
      (if power < 0 then "e-" else "e+") ++ toString power.natAbs

/-- A finite double in the given layout; a zero keeps its sign only where whole numbers show `.0`. -/
def Layout.writeDouble (layout : Layout) (bits : UInt64) : String :=
  if Double.isZero bits then
    if layout.pointZero then (if Double.isNegative bits then "-0.0" else "0.0") else "0"
  else (if Double.isNegative bits then "-" else "") ++ layout.write (Decimal.shortest bits)

end RuleFlow
