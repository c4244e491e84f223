import Mathlib.Logic.Basic

/-!
# Computations that may fail

What it means that a computation in `Except` goes well, by the form of the computation.
-/

namespace RuleFlow

variable {ε α β : Type}

/-- Two steps succeed if the first does and then the second. -/
theorem bind_eq_ok_iff {x : Except ε α} {f : α → Except ε β} {b : β} :
    x >>= f = .ok b ↔ ∃ a, x = .ok a ∧ f a = .ok b := by
  cases x with
  | error e => simp [bind, Except.bind]
  | ok a =>
    constructor
    · exact fun h => ⟨a, rfl, h⟩
    · rintro ⟨a', h, hf⟩
      rw [← Except.ok.inj h] at hf
      exact hf

theorem map_eq_ok_iff {x : Except ε α} {f : α → β} {b : β} :
    x.map f = .ok b ↔ ∃ a, x = .ok a ∧ f a = b := by
  cases x <;> simp [Except.map]

/-- Two computations that agree after a map either fail in the same way or both go well. -/
theorem map_eq_map_iff {x y : Except ε α} {f : α → β} :
    x.map f = y.map f ↔
      (∃ e, x = .error e ∧ y = .error e) ∨ ∃ a b, x = .ok a ∧ y = .ok b ∧ f a = f b := by
  cases x <;> cases y <;> simp [Except.map, eq_comm]

theorem mapError_eq_ok_iff {x : Except ε α} {f : ε → β} {a : α} :
    x.mapError f = .ok a ↔ x = .ok a := by
  cases x with
  | error e =>
    constructor
    · rintro ⟨⟩
    · rintro ⟨⟩
  | ok a' =>
    constructor
    · rintro ⟨⟩
      rfl
    · rintro ⟨⟩
      rfl

/-- A computation that is known to go well and whose result has a property. -/
theorem exists_ok_of_any {x : Except ε α × β} {p : α → Bool} (h : x.1.toOption.any p = true) :
    ∃ a b, x = (.ok a, b) ∧ p a = true := by
  obtain ⟨r, b⟩ := x
  cases r with
  | error e => simp [Except.toOption] at h
  | ok a => exact ⟨a, b, rfl, h⟩

/-- Steps that all succeed do so one after the other. -/
theorem mapM_eq_ok {f : α → Except ε β} {g : α → β} {xs : List α} (h : ∀ x ∈ xs, f x = .ok (g x)) :
    xs.mapM f = .ok (xs.map g) := by
  induction xs with
  | nil => rfl
  | cons x xs ih =>
    rw [List.mapM_cons, h x List.mem_cons_self,
      ih fun y hy => h y (List.mem_cons_of_mem _ hy)]
    rfl

end RuleFlow
