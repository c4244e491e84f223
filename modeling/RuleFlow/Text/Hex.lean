/-!
# Hexadecimal digits

The value of a digit and the digit of a value, for the escapes of quoted text and for identifiers.
-/

namespace RuleFlow.Text.Hex

/-- The value of a hexadecimal digit in either case. -/
def value? (c : Char) : Option Nat :=
  if '0' ≤ c ∧ c ≤ '9' then some (c.toNat - 48)
  else if 'a' ≤ c ∧ c ≤ 'f' then some (c.toNat - 87)
  else if 'A' ≤ c ∧ c ≤ 'F' then some (c.toNat - 55)
  else none

/-- The lower-case digit of a value below sixteen. -/
def digit (n : Nat) : Char :=
  if n < 10 then Char.ofNat (48 + n) else Char.ofNat (87 + n)

/-- The last `width` hexadecimal digits of `n`, most significant first. -/
def digits : Nat → Nat → List Char
  | 0, _ => []
  | width + 1, n => digits width (n / 16) ++ [digit (n % 16)]

/-- The digits of `n` without leading zeros. -/
def shortDigits (n : Nat) : List Char :=
  match (digits 16 n).dropWhile (· == '0') with
  | [] => ['0']
  | ds => ds

/-- The value of a run of digits, none if one is no digit. -/
def number? (ds : List Char) : Option Nat :=
  ds.foldlM (fun n c => (value? c).map (16 * n + ·)) 0

end RuleFlow.Text.Hex
