import RuleFlow.Toml.Value
import RuleFlow.Text.Hex
import RuleFlow.Text.Split

/-!
# Numbers and times in TOML

The grammar of integers, floating-point numbers and times. Digits may be parted by single underscores. An
integer must fit 64 bits, a positive floating-point number must be below the largest one and a date must
be one of the calendar.
-/

namespace RuleFlow.Toml

/-- The digits of a run that may be parted by single underscores. -/
def run? (isDigit : Char → Bool) (cs : List Char) : Option (List Char) :=
  let runs := Text.splitOn '_' cs
  if runs.all fun run => !run.isEmpty && run.all isDigit then some runs.flatten else none

/-- The number of a run of decimal digits. -/
def decimal (ds : List Char) : Nat := ds.foldl (fun n c => 10 * n + (c.toNat - 48)) 0

/-- The digits of a decimal number without needless zeros in front. -/
def whole? (cs : List Char) : Option (List Char) :=
  (run? Char.isDigit cs).filter fun ds => ds.head? ≠ some '0' || ds.length = 1

/-- Cuts off a sign; says whether it was a minus. -/
def cutSign : List Char → Bool × List Char
  | '-' :: cs => (true, cs)
  | '+' :: cs => (false, cs)
  | cs => (false, cs)

/-- The number of a run of digits to a base. -/
def based? (base : Nat) (cs : List Char) : Option Nat :=
  let value := fun c => (Text.Hex.value? c).filter (· < base)
  (run? (fun c => (value c).isSome) cs).map fun ds =>
    ds.foldl (fun n c => base * n + (value c).getD 0) 0

/-- Reads an integer. -/
def integer? (cs : List Char) : Option Int :=
  let n := match cs with
    | '0' :: 'x' :: ds => (based? 16 ds).map Int.ofNat
    | '0' :: 'o' :: ds => (based? 8 ds).map Int.ofNat
    | '0' :: 'b' :: ds => (based? 2 ds).map Int.ofNat
    | cs =>
      let (isNegative, ds) := cutSign cs
      (whole? ds).map fun ds => if isNegative then -(decimal ds : Int) else decimal ds
  n.filter fun n => -Int.pow 2 63 ≤ n ∧ n < Int.pow 2 63

/-- Whether digits times a power of ten, both as they are written, are rounded beyond all numbers. -/
def isHuge (ds : List Char) (power : Int) : Bool :=
  let ds := ds.dropWhile (· = '0')
  let size := ds.length + power
  if ds.isEmpty ∨ size < 309 then false
  else if 309 < size then true
  else decide (Nat.pow 2 1024 - Nat.pow 2 970 ≤
    decimal ds * Nat.pow 10 power.toNat / Nat.pow 10 (-power).toNat)

/-- Whether a text is a floating-point number. -/
def isFloat (cs : List Char) : Bool :=
  let (isNegative, cs) := cutSign cs
  if cs = ['i', 'n', 'f'] ∨ cs = ['n', 'a', 'n'] then true
  else
    let mantissa := cs.takeWhile fun c => c ≠ 'e' && c ≠ 'E'
    let exponent := match cs.drop mantissa.length with
      | [] => some none
      | _ :: ds =>
        let (isNegative, ds) := cutSign ds
        (run? Char.isDigit ds).map fun ds =>
          some (if isNegative then -(decimal ds : Int) else (decimal ds : Int))
    let parts := match Text.cutAt '.' mantissa with
      | none => (whole? mantissa).map (·, none)
      | some (front, back) => (whole? front).bind fun front => (run? Char.isDigit back).map (front, some ·)
    match parts, exponent with
    | some (front, back), some power =>
      (back.isSome || power.isSome) &&
        (isNegative || !isHuge (front ++ back.getD []) (power.getD 0 - (back.getD []).length))
    | _, _ => false

/-- Reads so many digits and the number they write. -/
def digits? (count : Nat) (cs : List Char) : Option (Nat × List Char) :=
  let ds := cs.take count
  if ds.length = count ∧ ds.all Char.isDigit then some (decimal ds, cs.drop count) else none

/-- Reads a character. -/
def sign? (c : Char) : List Char → Option (List Char)
  | d :: rest => if d = c then some rest else none
  | [] => none

/-- The number of days of a month. -/
def daysIn (year month : Nat) : Nat :=
  if month = 2 then (if (year % 4 = 0 ∧ year % 100 ≠ 0) ∨ year % 400 = 0 then 29 else 28)
  else if month ∈ [4, 6, 9, 11] then 30
  else 31

/-- What is left after a date. -/
def afterDate? (cs : List Char) : Option (List Char) := do
  let (year, cs) ← digits? 4 cs
  let (month, cs) ← digits? 2 (← sign? '-' cs)
  let (day, cs) ← digits? 2 (← sign? '-' cs)
  if 1 ≤ month ∧ month ≤ 12 ∧ 1 ≤ day ∧ day ≤ daysIn year month then some cs else none

/-- What is left after a time of the day. -/
def afterTime? (cs : List Char) : Option (List Char) := do
  let (hour, cs) ← digits? 2 cs
  let (minute, cs) ← digits? 2 (← sign? ':' cs)
  let (second, cs) ← digits? 2 (← sign? ':' cs)
  if hour ≤ 23 ∧ minute ≤ 59 ∧ second ≤ 60 then
    match cs with
    | '.' :: d :: rest => if d.isDigit then some (rest.dropWhile Char.isDigit) else some cs
    | _ => some cs
  else none

/-- What is left after the difference from universal time, if one is there. -/
def afterOffset (cs : List Char) : List Char :=
  match cs with
  | 'Z' :: rest => rest
  | 'z' :: rest => rest
  | c :: rest =>
    if c = '+' ∨ c = '-' then
      match digits? 2 rest with
      | some (hour, rest) =>
        match (sign? ':' rest).bind (digits? 2) with
        | some (minute, rest) => if hour ≤ 23 ∧ minute ≤ 59 then rest else cs
        | none => cs
      | none => cs
    else cs
  | [] => []

/-- What is left after a date, a time or both. -/
def afterMoment? (cs : List Char) : Option (List Char) :=
  match afterDate? cs with
  | none => afterTime? cs
  | some rest =>
    match rest with
    | c :: more =>
      if c = 'T' ∨ c = 't' ∨ c = ' ' then
        match afterTime? more with
        | some rest => some (afterOffset rest)
        | none => some rest
      else some rest
    | [] => some []

/-- Reads a number or a time. -/
def number? (cs : List Char) : Option (Value × List Char) :=
  match afterMoment? cs with
  | some rest => some (.time (String.ofList (cs.take (cs.length - rest.length))), rest)
  | none =>
    let word := cs.takeWhile fun c => c.isAlphanum || c ∈ ['_', '+', '-', '.']
    let rest := cs.drop word.length
    match integer? word with
    | some n => some (.integer n, rest)
    | none => if isFloat word then some (.float (String.ofList word), rest) else none

end RuleFlow.Toml
