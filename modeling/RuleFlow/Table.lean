/-!
# Tables

A `Table` maps texts to values. It is a list of entries with strictly increasing keys, so that two tables
with the same look-ups are the same table (`Table.ext`). `get?_insert`, `get?_erase` and `get?_filter` say
what each operation does to the look-ups; nothing else about a table can be seen, its order included.
-/

namespace RuleFlow

namespace Entries

variable {α : Type}

/-- Whether the keys are strictly increasing. -/
def Sorted (es : List (String × α)) : Prop := es.Pairwise (·.1 < ·.1)

/-- Puts an entry at its place in key order; an entry under the same key is replaced. -/
def insert (key : String) (a : α) : List (String × α) → List (String × α)
  | [] => [(key, a)]
  | (k, b) :: es =>
    if key < k then (key, a) :: (k, b) :: es
    else if key = k then (key, a) :: es
    else (k, b) :: insert key a es

/-- The value of the first entry under a key. -/
def get? (key : String) : List (String × α) → Option α
  | [] => none
  | (k, b) :: es => if key = k then some b else get? key es

/-- The entries under other keys. -/
def erase (key : String) (es : List (String × α)) : List (String × α) :=
  es.filter (·.1 ≠ key)

/-- After an insertion there are the new entry and old ones. -/
theorem mem_insert {key : String} {a : α} {es : List (String × α)} {e : String × α}
    (h : e ∈ insert key a es) : e = (key, a) ∨ e ∈ es := by
  induction es with
  | nil => simpa [insert] using h
  | cons x es ih =>
    obtain ⟨k, b⟩ := x
    simp only [insert] at h
    split at h
    · simpa using h
    · split at h
      · rcases List.mem_cons.1 h with h | h
        · exact .inl h
        · exact .inr (List.mem_cons_of_mem _ h)
      · rcases List.mem_cons.1 h with h | h
        · exact .inr (h ▸ List.mem_cons_self)
        · exact (ih h).imp_right (List.mem_cons_of_mem _)

theorem lt_of_not {a b : String} (h : ¬a < b) (hne : ¬a = b) : b < a := by
  rcases String.le_total a b with hl | hl
  · exact absurd (String.le_antisymm hl (String.not_lt.1 h)) hne
  · by_cases hb : b < a
    · exact hb
    · exact absurd (String.le_antisymm (String.not_lt.1 hb) hl) hne

theorem sorted_insert {key : String} {a : α} {es : List (String × α)} (h : Sorted es) :
    Sorted (insert key a es) := by
  induction es with
  | nil => simp [insert, Sorted]
  | cons x es ih =>
    obtain ⟨k, b⟩ := x
    simp only [Sorted, List.pairwise_cons] at h
    simp only [insert]
    split
    case isTrue hlt =>
      simp only [Sorted, List.pairwise_cons, List.mem_cons]
      refine ⟨?_, h⟩
      rintro e (rfl | he)
      · exact hlt
      · exact String.lt_trans hlt (h.1 e he)
    case isFalse hlt =>
      split
      case isTrue heq =>
        subst heq
        exact List.pairwise_cons.2 ⟨h.1, h.2⟩
      case isFalse hne =>
        refine List.pairwise_cons.2 ⟨fun e he => ?_, ih h.2⟩
        rcases mem_insert he with rfl | he
        · exact lt_of_not hlt hne
        · exact h.1 e he

theorem sorted_erase {key : String} {es : List (String × α)} (h : Sorted es) :
    Sorted (erase key es) := h.filter _

/-- What is inserted is found under its key; other look-ups stay. -/
theorem get?_insert (key key' : String) (a : α) (es : List (String × α)) :
    get? key' (insert key a es) = if key' = key then some a else get? key' es := by
  induction es with
  | nil => simp [insert, get?]
  | cons x es ih =>
    obtain ⟨k, b⟩ := x
    simp only [insert]
    split
    · simp only [get?]
    · split
      case isTrue heq =>
        subst heq
        by_cases h : key' = key <;> simp [get?, h]
      case isFalse hne =>
        by_cases h : key' = k
        · subst h
          simp [get?, Ne.symm hne]
        · simp [get?, h, ih]

/-- Filtering by keys hides the entries of the other keys. -/
theorem get?_filter (p : String → Bool) (key : String) (es : List (String × α)) :
    get? key (es.filter fun e => p e.1) = if p key then get? key es else none := by
  induction es with
  | nil => simp [get?]
  | cons x es ih =>
    obtain ⟨k, b⟩ := x
    by_cases hk : key = k
    · subst hk
      cases hp : p key <;> simp_all [get?]
    · cases hp : p k <;> simp_all [get?]

theorem get?_eq_none_of_lt {key : String} {es : List (String × α)} (h : ∀ e ∈ es, key < e.1) :
    get? key es = none := by
  induction es with
  | nil => rfl
  | cons x es ih =>
    obtain ⟨k, b⟩ := x
    have hk : ¬key = k := fun e => String.lt_irrefl k (e ▸ h (k, b) List.mem_cons_self)
    simp [get?, hk, ih fun e he => h e (List.mem_cons_of_mem _ he)]

theorem get?_eq_some_iff {key : String} {a : α} {es : List (String × α)} (h : Sorted es) :
    get? key es = some a ↔ (key, a) ∈ es := by
  induction es with
  | nil => simp [get?]
  | cons x es ih =>
    obtain ⟨k, b⟩ := x
    simp only [Sorted, List.pairwise_cons] at h
    by_cases hk : key = k
    · subst hk
      simp only [get?, if_true, Option.some.injEq, List.mem_cons, Prod.mk.injEq, true_and]
      refine ⟨fun e => .inl e.symm, ?_⟩
      rintro (e | e)
      · exact e.symm
      · exact absurd (h.1 _ e) (String.lt_irrefl key)
    · simp [get?, hk, ih h.2]

theorem eq_of_get? {es fs : List (String × α)} (he : Sorted es) (hf : Sorted fs)
    (h : ∀ key, get? key es = get? key fs) : es = fs := by
  induction es generalizing fs with
  | nil =>
    cases fs with
    | nil => rfl
    | cons y fs =>
      have := h y.1
      simp [get?] at this
  | cons x es ih =>
    obtain ⟨k, a⟩ := x
    cases fs with
    | nil =>
      have := h k
      simp [get?] at this
    | cons y fs =>
      obtain ⟨l, b⟩ := y
      simp only [Sorted, List.pairwise_cons] at he hf
      have hkl : k = l := by
        apply Classical.byContradiction
        intro hne
        rcases String.le_total k l with hle | hle
        · have hlt : k < l := by
            apply Classical.byContradiction
            intro hn
            exact hne (String.le_antisymm hle (String.not_lt.1 hn))
          have hk := h k
          have hn : get? k ((l, b) :: fs) = none := by
            apply get?_eq_none_of_lt
            intro e hm
            rcases List.mem_cons.1 hm with rfl | hm
            · exact hlt
            · exact String.lt_trans hlt (hf.1 e hm)
          rw [hn] at hk
          simp [get?] at hk
        · have hlt : l < k := by
            apply Classical.byContradiction
            intro hn
            exact hne (String.le_antisymm (String.not_lt.1 hn) hle)
          have hl := h l
          have hn : get? l ((k, a) :: es) = none := by
            apply get?_eq_none_of_lt
            intro e hm
            rcases List.mem_cons.1 hm with rfl | hm
            · exact hlt
            · exact String.lt_trans hlt (he.1 e hm)
          rw [hn] at hl
          simp [get?] at hl
      subst hkl
      have hab : a = b := by simpa [get?] using h k
      subst hab
      congr 1
      refine ih he.2 hf.2 fun key => ?_
      by_cases hk : key = k
      · subst hk
        rw [get?_eq_none_of_lt he.1, get?_eq_none_of_lt hf.1]
      · simpa [get?, hk] using h key

end Entries

/-! ## Tables -/

/-- A finite map from texts. -/
structure Table (α : Type) where
  entries : List (String × α)
  sorted : Entries.Sorted entries

namespace Table

variable {α β : Type}

instance [DecidableEq α] : DecidableEq (Table α) := fun s t =>
  if h : s.entries = t.entries then isTrue (by cases s; cases t; simp_all)
  else isFalse fun e => h (e ▸ rfl)

/-- The table without entries. -/
def empty : Table α := ⟨[], List.Pairwise.nil⟩

instance : Inhabited (Table α) := ⟨empty⟩

/-- The value under a key. -/
def get? (t : Table α) (key : String) : Option α := Entries.get? key t.entries

/-- Whether there is a value under a key. -/
def contains (t : Table α) (key : String) : Bool := (t.get? key).isSome

/-- Puts a value under a key, replacing the one that was there. -/
def insert (t : Table α) (key : String) (a : α) : Table α :=
  ⟨Entries.insert key a t.entries, Entries.sorted_insert t.sorted⟩

/-- Removes the entry under a key. -/
def erase (t : Table α) (key : String) : Table α :=
  ⟨Entries.erase key t.entries, Entries.sorted_erase t.sorted⟩

/-- Keeps the entries that pass a test. -/
def filter (t : Table α) (p : String → α → Bool) : Table α :=
  ⟨t.entries.filter fun e => p e.1 e.2, t.sorted.filter _⟩

/-- The table of a list of entries; of several under one key the last counts. -/
def ofList (es : List (String × α)) : Table α :=
  es.foldl (fun t e => t.insert e.1 e.2) empty

/-- The keys in increasing order. -/
def keys (t : Table α) : List String := t.entries.map (·.1)

/-- The values in the order of their keys. -/
def values (t : Table α) : List α := t.entries.map (·.2)

/-- The number of entries. -/
def size (t : Table α) : Nat := t.entries.length

/-- Adds all entries of the second table to the first, whose values they replace. -/
def extend (t more : Table α) : Table α :=
  more.entries.foldl (fun t e => t.insert e.1 e.2) t

/-- Tables are equal if all look-ups are. -/
theorem ext {s t : Table α} (h : ∀ key, s.get? key = t.get? key) : s = t := by
  have := Entries.eq_of_get? s.sorted t.sorted h
  cases s; cases t; simp_all

@[simp] theorem get?_empty (key : String) : (empty : Table α).get? key = none := rfl

/-- What is inserted is found under its key; other look-ups stay. -/
theorem get?_insert (t : Table α) (key key' : String) (a : α) :
    (t.insert key a).get? key' = if key' = key then some a else t.get? key' :=
  Entries.get?_insert key key' a t.entries

@[simp] theorem get?_insert_self (t : Table α) (key : String) (a : α) :
    (t.insert key a).get? key = some a := by simp [get?_insert]

/-- What is erased is not found; other look-ups stay. -/
theorem get?_erase (t : Table α) (key key' : String) :
    (t.erase key).get? key' = if key' = key then none else t.get? key' := by
  have := Entries.get?_filter (fun k => decide (k ≠ key)) key' t.entries
  by_cases h : key' = key <;> simp_all [get?, erase, Entries.erase]

@[simp] theorem get?_erase_self (t : Table α) (key : String) : (t.erase key).get? key = none := by
  simp [get?_erase]

theorem get?_eq_some_iff {t : Table α} {key : String} {a : α} :
    t.get? key = some a ↔ (key, a) ∈ t.entries := Entries.get?_eq_some_iff t.sorted

/-- A table that is filtered has the entries that pass. -/
theorem get?_filter (t : Table α) (p : String → α → Bool) (key : String) :
    (t.filter p).get? key = (t.get? key).filter (p key) := by
  cases hg : t.get? key with
  | none =>
    cases hf : (t.filter p).get? key with
    | none => rfl
    | some a =>
      have hm := get?_eq_some_iff.1 hf
      simp only [filter, List.mem_filter] at hm
      rw [get?_eq_some_iff.2 hm.1] at hg
      simp at hg
  | some a =>
    have ha := get?_eq_some_iff.1 hg
    cases hp : p key a with
    | true =>
      have hm : (key, a) ∈ (t.filter p).entries := by
        simp only [filter, List.mem_filter]
        exact ⟨ha, hp⟩
      rw [get?_eq_some_iff.2 hm]
      simp [Option.filter, hp]
    | false =>
      simp only [Option.filter, hp]
      cases hf : (t.filter p).get? key with
      | none => rfl
      | some b =>
        have hm := get?_eq_some_iff.1 hf
        simp only [filter, List.mem_filter] at hm
        have hb := get?_eq_some_iff.2 hm.1
        rw [hg, Option.some.injEq] at hb
        subst hb
        rw [hp] at hm
        simp at hm

end Table

end RuleFlow
