import RuleFlow.Table

/-!
# JSON values

A value is null, a truth value, a number, a string, an array or an object. Numbers are whole numbers or
doubles, and a double is kept as its bits, so that two values are equal exactly if they are written alike.
The members of an object are a list; in a value that was read they are sorted by key, each key once
(`Value.Sorted`), which `Entries.insert` keeps.
-/

namespace RuleFlow.Json

/-- A whole number, or the bits of a double. -/
inductive Number where
  | int (i : Int)
  | double (bits : UInt64)
  deriving DecidableEq, Inhabited

/-- A JSON value. -/
inductive Value where
  | null
  | bool (b : Bool)
  | number (n : Number)
  | string (s : String)
  | array (items : List Value)
  | object (members : List (String × Value))
  deriving Inhabited

/-- The members of an object in order. -/
abbrev Members := List (String × Value)

mutual

/-- Whether two values are the same. -/
def Value.same : Value → Value → Bool
  | .null, .null => true
  | .bool a, .bool b => a == b
  | .number a, .number b => a == b
  | .string a, .string b => a == b
  | .array a, .array b => Value.sameItems a b
  | .object a, .object b => Value.sameMembers a b
  | _, _ => false

/-- Whether two lists hold the same values. -/
def Value.sameItems : List Value → List Value → Bool
  | [], [] => true
  | a :: as, b :: bs => Value.same a b && Value.sameItems as bs
  | _, _ => false

/-- Whether two member lists hold the same keys and values. -/
def Value.sameMembers : List (String × Value) → List (String × Value) → Bool
  | [], [] => true
  | (k, a) :: as, (l, b) :: bs => k == l && Value.same a b && Value.sameMembers as bs
  | _, _ => false

end

mutual

theorem Value.eq_of_same : ∀ {a b : Value}, Value.same a b = true → a = b
  | .null, b, h => by cases b <;> simp_all [Value.same]
  | .bool x, b, h => by cases b <;> simp_all [Value.same]
  | .number x, b, h => by cases b <;> simp_all [Value.same]
  | .string x, b, h => by cases b <;> simp_all [Value.same]
  | .array x, b, h => by
    cases b with
    | array y => exact congrArg Value.array (Value.eq_of_sameItems (by simpa [Value.same] using h))
    | _ => simp [Value.same] at h
  | .object x, b, h => by
    cases b with
    | object y => exact congrArg Value.object (Value.eq_of_sameMembers (by simpa [Value.same] using h))
    | _ => simp [Value.same] at h

theorem Value.eq_of_sameItems : ∀ {a b : List Value}, Value.sameItems a b = true → a = b
  | [], b, h => by cases b <;> simp_all [Value.sameItems]
  | x :: xs, b, h => by
    cases b with
    | nil => simp [Value.sameItems] at h
    | cons y ys =>
      simp only [Value.sameItems, Bool.and_eq_true] at h
      rw [Value.eq_of_same h.1, Value.eq_of_sameItems h.2]

theorem Value.eq_of_sameMembers :
    ∀ {a b : List (String × Value)}, Value.sameMembers a b = true → a = b
  | [], b, h => by cases b <;> simp_all [Value.sameMembers]
  | (k, x) :: xs, b, h => by
    cases b with
    | nil => simp [Value.sameMembers] at h
    | cons y ys =>
      obtain ⟨l, y⟩ := y
      simp only [Value.sameMembers, Bool.and_eq_true, beq_iff_eq] at h
      rw [h.1.1, Value.eq_of_same h.1.2, Value.eq_of_sameMembers h.2]

end

mutual

theorem Value.same_self : ∀ a : Value, Value.same a a = true
  | .null => by simp [Value.same]
  | .bool _ => by simp [Value.same]
  | .number _ => by simp [Value.same]
  | .string _ => by simp [Value.same]
  | .array x => by simpa [Value.same] using Value.sameItems_self x
  | .object x => by simpa [Value.same] using Value.sameMembers_self x

theorem Value.sameItems_self : ∀ a : List Value, Value.sameItems a a = true
  | [] => by simp [Value.sameItems]
  | x :: xs => by simp [Value.sameItems, Value.same_self x, Value.sameItems_self xs]

theorem Value.sameMembers_self : ∀ a : List (String × Value), Value.sameMembers a a = true
  | [] => by simp [Value.sameMembers]
  | (_, x) :: xs => by simp [Value.sameMembers, Value.same_self x, Value.sameMembers_self xs]

end

instance : DecidableEq Value := fun a b =>
  if h : Value.same a b then isTrue (Value.eq_of_same h)
  else isFalse fun e => h (e ▸ Value.same_self a)

/-- Adds all members of the second list to the first, the later value winning. -/
def Members.extend (ms more : Members) : Members :=
  more.foldl (fun acc (k, v) => Entries.insert k v acc) ms

mutual

/-- Whether the keys of every object in a value are strictly increasing. -/
def Value.Sorted : Value → Prop
  | .array items => Value.SortedItems items
  | .object ms => Entries.Sorted ms ∧ Value.SortedMembers ms
  | _ => True

/-- Whether all values of a list have sorted objects only. -/
def Value.SortedItems : List Value → Prop
  | [] => True
  | v :: vs => v.Sorted ∧ Value.SortedItems vs

/-- Whether all values of a member list have sorted objects only. -/
def Value.SortedMembers : List (String × Value) → Prop
  | [] => True
  | (_, v) :: ms => v.Sorted ∧ Value.SortedMembers ms

end

/-- A double as a JSON number. -/
def Number.ofFloat (f : Float) : Number := .double f.toBits

/-- The double nearest to a number. -/
def Number.toFloat : Number → Float
  | .int i => if 0 ≤ i then (UInt64.ofNat i.toNat).toFloat else -(UInt64.ofNat i.natAbs).toFloat
  | .double bits => Float.ofBits bits

/-- A natural number as a value. -/
def Value.ofNat (n : Nat) : Value := .number (.int n)

/-- A whole number as a value. -/
def Value.ofInt (i : Int) : Value := .number (.int i)

end RuleFlow.Json
