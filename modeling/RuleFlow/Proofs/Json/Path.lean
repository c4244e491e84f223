import Mathlib.Data.List.Forall2
import RuleFlow.Json.Path
import RuleFlow.Proofs.Table

/-!
# Paths and the places they lead to

A value has parts at places: an array at the positions of its items, an object at the keys of its members
(`Value.Has`), and parts of parts at lists of places (`Value.Holds`). A path is a text. A step of it stands
for a place, as a key or as a position (`Place.NamedBy`), and the path leads to what is held at the places
that its steps stand for (`Value.at?_eq_some_iff`). It leads nowhere exactly if the value to which some of its
first steps lead lacks the next one (`Value.Lacks`, `Value.at?_eq_none_iff`).

Two paths with a dot between them are followed one after the other, and whatever a value holds is found on the
path on which the places are written out (`Value.at?_composes`).
-/

namespace RuleFlow.Json

/-- What is left of a text without a plus in front. -/
def unsigned (cs : List Char) : List Char :=
  match cs with
  | '+' :: cs => cs
  | cs => cs

/-- A text stands for a position: a number in decimal digits, with a plus in front or not. -/
structure IsPosition (step : String) (i : Nat) : Prop where
  ne_nil : unsigned step.toList ≠ []
  digits : ∀ c ∈ unsigned step.toList, c.isDigit = true
  value : Nat.ofDigitChars 10 (unsigned step.toList) 0 = i
  le : i ≤ maxIndex

/-- Cutting a number off at a bound after each digit is cutting it off at the end. -/
theorem foldl_min_eq (digits : List Char) (n bound : Nat) :
    digits.foldl (fun n c => min (10 * n + (c.toNat - 48)) bound) (min n bound) =
      min (Nat.ofDigitChars 10 digits n) bound := by
  induction digits generalizing n with
  | nil => rfl
  | cons c digits ih =>
    have hstep : min (10 * min n bound + (c.toNat - 48)) bound =
        min (10 * n + (c.toNat - 48)) bound := by omega
    rw [List.foldl_cons, hstep, ih, Nat.ofDigitChars_cons]
    rfl

/-- A step is a number if and only if it is written as a position. -/
theorem index?_eq_some_iff {step : String} {i : Nat} : index? step = some i ↔ IsPosition step i := by
  -- The number is cut off one past the largest position, so that what was cut off is still refused.
  have hbounded := foldl_min_eq (unsigned step.toList) 0 (maxIndex + 1)
  rw [Nat.zero_min] at hbounded
  have hindex : index? step =
      if (unsigned step.toList).isEmpty ∨ (unsigned step.toList).any (! ·.isDigit) then none
      else if min (Nat.ofDigitChars 10 (unsigned step.toList) 0) (maxIndex + 1) ≤ maxIndex then
        some (min (Nat.ofDigitChars 10 (unsigned step.toList) 0) (maxIndex + 1))
      else none := by
    rw [← hbounded]
    rfl
  rw [hindex]
  constructor
  · intro h
    split at h
    · cases h
    · rename_i hdigits
      split at h
      · obtain ⟨hne, hall⟩ := not_or.1 hdigits
        have hi := Option.some.inj h
        exact ⟨by simpa using hne, by simpa using hall, by omega, by omega⟩
      · cases h
  · rintro ⟨hne, hall, hvalue, hle⟩
    rw [if_neg (by simpa [hne] using hall), if_pos (by omega)]
    exact congrArg some (by omega)

/-- A plus and zeros in front do not matter. A number that takes more than 64 bits is no position. -/
example : index? "+007" = some 7 ∧ index? "18446744073709551616" = none := by decide

theorem toList_toString (n : Nat) : (toString n).toList = Nat.toDigits 10 n := by
  rw [Nat.toString_eq_repr, Nat.toList_repr]

theorem isDigit_of_mem_toString {n : Nat} {c : Char} (h : c ∈ (toString n).toList) :
    c.isDigit = true := by
  rw [toList_toString] at h
  exact Nat.isDigit_of_mem_toDigits (by decide) (by decide) h

theorem unsigned_toString (n : Nat) : unsigned (toString n).toList = (toString n).toList := by
  unfold unsigned
  split
  · rename_i cs hcs
    exact absurd (isDigit_of_mem_toString (n := n) (hcs ▸ List.mem_cons_self)) (by decide)
  · rfl

/-- The digits of a number are a position if the number is not too large. -/
theorem isPosition_toString_iff {n i : Nat} : IsPosition (toString n) i ↔ n = i ∧ i ≤ maxIndex := by
  constructor
  · rintro ⟨-, -, hvalue, hle⟩
    rw [unsigned_toString, toList_toString, Nat.ofDigitChars_ten_toDigits] at hvalue
    exact ⟨hvalue, hle⟩
  · rintro ⟨rfl, hle⟩
    refine ⟨?_, ?_, ?_, hle⟩
    all_goals rw [unsigned_toString]
    · rw [toList_toString]
      exact Nat.toDigits_ne_nil
    · exact fun c => isDigit_of_mem_toString
    · rw [toList_toString]
      exact Nat.ofDigitChars_ten_toDigits

/-- A text that can be a step of a path. -/
def IsStep (step : String) : Prop := step ≠ "" ∧ '.' ∉ step.toList

instance (step : String) : Decidable (IsStep step) := inferInstanceAs (Decidable (_ ∧ _))

theorem isStep_toString (n : Nat) : IsStep (toString n) := by
  refine ⟨?_, fun hdot => absurd (isDigit_of_mem_toString hdot) (by decide)⟩
  rw [Nat.toString_eq_repr]
  exact Nat.repr_ne_empty

/-- The path of some steps. -/
def pathOf (steps : List String) : List Char := Text.joinWith '.' (steps.map String.toList)

/-- A path that is cut at a dot has the steps of both parts. -/
theorem stepsOf_append (p q : List Char) : stepsOf (p ++ '.' :: q) = stepsOf p ++ stepsOf q := by
  simp [stepsOf, Text.splitOn_append]

theorem stepsOf_toList {step : String} (h : IsStep step) : stepsOf step.toList = [step] := by
  simp [stepsOf, Text.splitOn_of_not_mem h.2, h.1]

theorem isStep_of_mem_stepsOf {path : List Char} {step : String} (h : step ∈ stepsOf path) :
    IsStep step := by
  obtain ⟨piece, hpiece, rfl⟩ := List.mem_map.1 h
  obtain ⟨hmem, hne⟩ := List.mem_filter.1 hpiece
  refine ⟨?_, ?_⟩
  · simpa using hne
  · rw [String.toList_ofList]
    exact Text.not_mem_of_mem_splitOn hmem

/-- A path has the steps it was made of. -/
theorem stepsOf_pathOf {steps : List String} (h : ∀ step ∈ steps, IsStep step) :
    stepsOf (pathOf steps) = steps := by
  induction steps with
  | nil => rfl
  | cons step steps ih =>
    obtain ⟨hstep, hsteps⟩ := List.forall_mem_cons.1 h
    cases steps with
    | nil => exact stepsOf_toList hstep
    | cons next steps =>
      have hpath : pathOf (step :: next :: steps) = step.toList ++ '.' :: pathOf (next :: steps) := rfl
      rw [hpath, stepsOf_append, stepsOf_toList hstep, ih hsteps, List.singleton_append]

/-! ## Places -/

/-- A place in a value: a position in an array, which is a number of 64 bits, or a key in an object. -/
inductive Place where
  | position (i : UInt64)
  | key (k : String)
  deriving DecidableEq

/-- A place as a step of a path, a position in decimal digits. -/
def Place.text : Place → String
  | .position i => toString i.toNat
  | .key k => k

/-- A step of a path stands for a place. -/
inductive Place.NamedBy : Place → String → Prop
  | position {i : UInt64} {step : String} : IsPosition step i.toNat → NamedBy (.position i) step
  | key (k : String) : NamedBy (.key k) k

theorem toNat_le_maxIndex (i : UInt64) : i.toNat ≤ maxIndex := Nat.le_of_lt_succ i.toNat_lt

theorem Place.namedBy_text (place : Place) : place.NamedBy place.text := by
  cases place with
  | position i => exact .position (isPosition_toString_iff.2 ⟨rfl, toNat_le_maxIndex i⟩)
  | key k => exact .key k

/-- The text of a place is a step if its key holds no dot. -/
theorem Place.isStep_text {place : Place} (h : ∀ k, place = .key k → IsStep k) : IsStep place.text := by
  cases place with
  | position i => exact isStep_toString i.toNat
  | key k => exact h k rfl

namespace Value

/-- A value has another at a place: an array has its items at their positions, an object the first member
under a key at this key. -/
inductive Has : Value → Place → Value → Prop
  | item {items : List Value} {i : UInt64} {v : Value} : items[i.toNat]? = some v →
    Has (.array items) (.position i) v
  | member (before after : Members) {k : String} {v : Value} : k ∉ before.map (·.1) →
    Has (.object (before ++ (k, v) :: after)) (.key k) v

/-- A value holds another at the end of some places. -/
inductive Holds : Value → List Place → Value → Prop
  | here (v : Value) : Holds v [] v
  | within {v part w : Value} {place : Place} {places : List Place} : v.Has place part →
    Holds part places w → Holds v (place :: places) w

/-- A value has nothing at any place that a step stands for: it is neither array nor object, it is an array
and the step is no position before its end, or it is an object without the key. -/
inductive Lacks : Value → String → Prop
  | scalar {v : Value} {step : String} : (∀ items, v ≠ .array items) → (∀ ms, v ≠ .object ms) →
    Lacks v step
  | item {items : List Value} {step : String} : (∀ i, IsPosition step i → items.length ≤ i) →
    Lacks (.array items) step
  | member {ms : Members} {k : String} : k ∉ ms.map (·.1) → Lacks (.object ms) k

/-- An array lacks the numbers past its end. -/
theorem lacks_toString (items : List Value) {n : Nat} (h : items.length ≤ n) :
    (Value.array items).Lacks (toString n) :=
  .item fun _ hi => (isPosition_toString_iff.1 hi).1 ▸ h

/-- A step leads to what a value has at a place of that name. -/
theorem step?_eq_some_iff {v w : Value} {step : String} :
    v.step? step = some w ↔ ∃ place : Place, place.NamedBy step ∧ v.Has place w := by
  constructor
  · intro h
    unfold step? at h
    split at h
    · obtain ⟨i, hindex, hitem⟩ := Option.bind_eq_some_iff.1 h
      have hposition := index?_eq_some_iff.1 hindex
      have hi : (UInt64.ofNat i).toNat = i :=
        UInt64.toNat_ofNat_of_lt' (Nat.lt_succ_of_le hposition.le)
      exact ⟨.position (.ofNat i), .position (hi.symm ▸ hposition), .item (hi.symm ▸ hitem)⟩
    · obtain ⟨before, after, rfl, hbefore⟩ := Entries.get?_eq_some_iff_append.1 h
      exact ⟨.key step, .key step, .member before after hbefore⟩
    · cases h
  · rintro ⟨place, hname, hpart⟩
    cases hpart with
    | item hitem =>
      cases hname with
      | position hposition => rw [step?, index?_eq_some_iff.2 hposition, Option.bind_some, hitem]
    | member before after hbefore =>
      cases hname with
      | key => exact Entries.get?_eq_some_iff_append.2 ⟨_, _, rfl, hbefore⟩

/-- A step leads nowhere if the value lacks every place of that name. -/
theorem step?_eq_none_iff {v : Value} {step : String} : v.step? step = none ↔ v.Lacks step := by
  constructor
  · intro h
    unfold step? at h
    split at h
    · rename_i items
      refine .item fun i hposition => ?_
      rw [index?_eq_some_iff.2 hposition, Option.bind_some] at h
      exact List.getElem?_eq_none_iff.1 h
    · exact .member (Entries.get?_eq_none_iff.1 h)
    · rename_i hitems hms
      exact .scalar hitems hms
  · intro h
    cases h with
    | scalar hitems hms =>
      unfold step?
      split
      · exact absurd rfl (hitems _)
      · exact absurd rfl (hms _)
      · rfl
    | item hpast =>
      rw [step?, Option.bind_eq_none_iff]
      exact fun i hindex => List.getElem?_eq_none_iff.2 (hpast i (index?_eq_some_iff.1 hindex))
    | member hkey => exact Entries.get?_eq_none_iff.2 hkey

/-! ## Whole paths -/

theorem holds_nil_iff {v w : Value} : v.Holds [] w ↔ v = w :=
  ⟨fun | .here _ => rfl, fun h => h ▸ .here v⟩

/-- Steps lead to what a value holds at places of their names. -/
theorem follow?_eq_some_iff {v w : Value} {steps : List String} :
    v.follow? steps = some w ↔ ∃ places, List.Forall₂ Place.NamedBy places steps ∧ v.Holds places w := by
  induction steps generalizing v with
  | nil => simp [follow?, List.forall₂_nil_right_iff, holds_nil_iff]
  | cons step steps ih =>
    rw [follow?, Option.bind_eq_some_iff]
    constructor
    · rintro ⟨part, hstep, hrest⟩
      obtain ⟨place, hname, hpart⟩ := step?_eq_some_iff.1 hstep
      obtain ⟨places, hnames, hplaces⟩ := ih.1 hrest
      exact ⟨place :: places, .cons hname hnames, .within hpart hplaces⟩
    · rintro ⟨_, hnames, hholds⟩
      cases hnames with
      | cons hname hnames =>
        cases hholds with
        | within hpart hplaces =>
          exact ⟨_, step?_eq_some_iff.2 ⟨_, hname, hpart⟩, ih.2 ⟨_, hnames, hplaces⟩⟩

/-- Steps lead nowhere if one of them does not go on from where those before it led. -/
theorem follow?_eq_none_iff {v : Value} {steps : List String} :
    v.follow? steps = none ↔
      ∃ before step after w, steps = before ++ step :: after ∧ v.follow? before = some w ∧ w.Lacks step := by
  constructor
  · intro h
    -- The step that is lacking is the first one or lies behind what the first one leads to.
    induction steps generalizing v with
    | nil => cases h
    | cons step steps ih =>
      cases hstep : v.step? step with
      | none => exact ⟨[], step, steps, v, rfl, rfl, step?_eq_none_iff.1 hstep⟩
      | some part =>
        rw [follow?, hstep, Option.bind_some] at h
        obtain ⟨before, last, after, w, rfl, hw, hlacks⟩ := ih h
        refine ⟨step :: before, last, after, w, rfl, ?_, hlacks⟩
        rw [follow?, hstep, Option.bind_some, hw]
  · rintro ⟨before, step, after, w, rfl, hw, hlacks⟩
    rw [follow?_append, hw, Option.bind_some, follow?, step?_eq_none_iff.2 hlacks, Option.bind_none]

/-- A path that is cut at a dot is followed part by part. -/
theorem at?_append (v : Value) (p q : List Char) :
    v.at? (p ++ '.' :: q) = (v.at? p).bind fun w => w.at? q := by
  rw [at?, stepsOf_append, follow?_append]
  rfl

/-- A path that is put together from steps is followed step by step. -/
theorem at?_pathOf (v : Value) {steps : List String} (h : ∀ step ∈ steps, IsStep step) :
    v.at? (pathOf steps) = v.follow? steps := by
  rw [at?, stepsOf_pathOf h]

/-- A path leads to what a value holds at places of its names. -/
theorem at?_eq_some_iff {v w : Value} {path : List Char} :
    v.at? path = some w ↔
      ∃ places, List.Forall₂ Place.NamedBy places (stepsOf path) ∧ v.Holds places w :=
  follow?_eq_some_iff

/-- A path leads nowhere if one of its steps does not go on. -/
theorem at?_eq_none_iff {v : Value} {path : List Char} :
    v.at? path = none ↔
      ∃ before step after w, stepsOf path = before ++ step :: after ∧
        v.at? (pathOf before) = some w ∧ w.Lacks step := by
  rw [at?, follow?_eq_none_iff]
  refine exists₄_congr fun before step after w => and_congr_right fun hpath => ?_
  have hsteps : ∀ s ∈ before, IsStep s := fun s hs =>
    isStep_of_mem_stepsOf (hpath ▸ List.mem_append_left _ hs)
  rw [at?_pathOf v hsteps]

/-- What a value holds is found on the path on which the places are written out. -/
theorem at?_of_holds {v w : Value} {places : List Place} (h : v.Holds places w)
    (hkeys : ∀ k, .key k ∈ places → IsStep k) : v.at? (pathOf (places.map Place.text)) = some w := by
  have hsteps : ∀ step ∈ places.map Place.text, IsStep step := by
    intro step hstep
    obtain ⟨place, hplace, rfl⟩ := List.mem_map.1 hstep
    exact Place.isStep_text fun k hk => hkeys k (hk ▸ hplace)
  rw [at?_eq_some_iff, stepsOf_pathOf hsteps]
  refine ⟨places, ?_, h⟩
  rw [List.forall₂_map_right_iff, List.forall₂_same]
  exact fun place _ => place.namedBy_text

/-- A path behind another and a dot is followed from where the other leads, and leads nowhere if that does.
Each value that another holds, at whatever depth, is found on the path of the positions in decimal digits and
the keys with dots between, unless a key is empty or has a dot in it. A path leads nowhere exactly if some of
its first steps lead to a value that lacks the next one: a scalar lacks every step, an object the keys it does
not have, and an array what is no position before its end. -/
theorem at?_composes (d : Value) :
    (∀ p q : List Char, d.at? (p ++ '.' :: q) = (d.at? p).bind fun v => v.at? q) ∧
    (∀ places w, d.Holds places w → (∀ k, .key k ∈ places → IsStep k) →
      d.at? (pathOf (places.map Place.text)) = some w) ∧
    ∀ path, d.at? path = none ↔
      ∃ before step after w, stepsOf path = before ++ step :: after ∧
        d.at? (pathOf before) = some w ∧ w.Lacks step :=
  ⟨d.at?_append, fun _ _ => at?_of_holds, fun _ => at?_eq_none_iff⟩

/-- A cellar without rooms. -/
def cellar : Value := .object [("name", .string "cellar")]

/-- A ground floor with two rooms. -/
def groundFloor : Value :=
  .object [("name", .string "ground"), ("rooms", .array [.string "hall", .ofNat 7])]

/-- A building with two floors. -/
def building : Value := .object [("floors", .array [cellar, groundFloor])]

/-- The hall is on the ground floor. There is no third floor, there are no rooms in the cellar, and its name
has no parts. -/
theorem at?_composes_building :
    building.Holds [.key "floors", .position 1, .key "rooms", .position 0] (.string "hall") ∧
      building.at? "floors.1.rooms.0".toList = some (.string "hall") ∧
      (building.at? "floors.1".toList).bind (fun v => v.at? "rooms.0".toList) = some (.string "hall") ∧
      building.at? "floors.2.name".toList = none ∧ building.at? "floors.0.rooms.0".toList = none ∧
      building.at? "floors.0.name.x".toList = none := by
  obtain ⟨hcompose, hholds, hnone⟩ := at?_composes building
  have hhall : building.Holds [.key "floors", .position 1, .key "rooms", .position 0] (.string "hall") :=
    .within (.member [] [] (by simp)) <| .within (.item rfl) <|
      .within (.member [("name", .string "ground")] [] (by simp)) <| .within (.item rfl) <| .here _
  have hfound : building.at? "floors.1.rooms.0".toList = some (.string "hall") :=
    hholds _ _ hhall (by simp; decide)
  refine ⟨hhall, hfound, (hcompose _ _).symm.trans hfound, ?_, ?_, ?_⟩
  · exact (hnone _).2 ⟨["floors"], toString 2, ["name"], .array [cellar, groundFloor], by decide, by decide,
      lacks_toString _ (Nat.le_refl 2)⟩
  · exact (hnone _).2 ⟨["floors", "0"], "rooms", ["0"], cellar, by decide, by decide, .member (by decide)⟩
  · exact (hnone _).2 ⟨["floors", "0", "name"], "x", [], .string "cellar", by decide, by decide,
      .scalar (by simp) (by simp)⟩

end Value

end RuleFlow.Json
