import Mathlib.Data.List.Nodup
import RuleFlow.Table

/-!
# Keys and values of tables

A table is seen through its look-ups (`Table.ext`). This file says what its keys, its values and its size
are in these terms, what is looked up in the table of a list (`Table.get?_ofList`), and which values there
are after a change, in whatever order (`Table.values_insert_perm`, `Table.values_perm_erase`,
`Table.values_ofList_perm`).
-/

namespace RuleFlow

namespace Entries

variable {α : Type}

instance (es : List (String × α)) : Decidable (Sorted es) := inferInstanceAs (Decidable (es.Pairwise (·.1 < ·.1)))

theorem get?_eq_none_iff {key : String} {es : List (String × α)} :
    get? key es = none ↔ key ∉ es.map (·.1) := by
  induction es with
  | nil => simp [get?]
  | cons e es ih =>
    obtain ⟨k, b⟩ := e
    by_cases h : key = k <;> simp [get?, h, ih]

/-- Under distinct keys a look-up finds whatever entry there is. -/
theorem get?_of_mem {key : String} {a : α} {es : List (String × α)} (hd : (es.map (·.1)).Nodup)
    (h : (key, a) ∈ es) : get? key es = some a := by
  induction es with
  | nil => simp at h
  | cons e es ih =>
    obtain ⟨k, b⟩ := e
    simp only [List.map_cons, List.nodup_cons] at hd
    rcases List.mem_cons.1 h with he | hm
    · obtain ⟨rfl, rfl⟩ := Prod.mk.inj he
      simp [get?]
    · have hk : key ≠ k := fun e => hd.1 (e ▸ List.mem_map_of_mem hm)
      rw [get?, if_neg hk]
      exact ih hd.2 hm

theorem Sorted.nodup_keys {es : List (String × α)} (h : Sorted es) : (es.map (·.1)).Nodup := by
  rw [List.nodup_iff_pairwise_ne, List.pairwise_map]
  refine h.imp fun hlt he => ?_
  rw [he] at hlt
  exact String.lt_irrefl _ hlt

/-- In two lists, the first one with the key decides. -/
theorem get?_append (key : String) (es fs : List (String × α)) :
    get? key (es ++ fs) = (get? key es).or (get? key fs) := by
  induction es with
  | nil => simp [get?]
  | cons e es ih =>
    obtain ⟨k, b⟩ := e
    by_cases h : key = k <;> simp [get?, h, ih]

/-- A look-up finds the first entry under a key. -/
theorem get?_eq_some_iff_append {key : String} {a : α} {es : List (String × α)} :
    get? key es = some a ↔
      ∃ before after, es = before ++ (key, a) :: after ∧ key ∉ before.map (·.1) := by
  constructor
  · intro h
    induction es with
    | nil => cases h
    | cons e es ih =>
      obtain ⟨k, b⟩ := e
      by_cases hk : key = k
      · subst hk
        rw [get?, if_pos rfl, Option.some.injEq] at h
        exact ⟨[], es, by rw [h, List.nil_append], by simp⟩
      · rw [get?, if_neg hk] at h
        obtain ⟨before, after, rfl, hbefore⟩ := ih h
        exact ⟨(k, b) :: before, after, rfl, by simp [hk, hbefore]⟩
  · rintro ⟨before, after, rfl, hbefore⟩
    rw [get?_append, get?_eq_none_iff.2 hbefore, Option.none_or, get?, if_pos rfl]

theorem mem_of_get? {key : String} {a : α} {es : List (String × α)} (h : get? key es = some a) :
    (key, a) ∈ es := by
  obtain ⟨before, after, rfl, -⟩ := get?_eq_some_iff_append.1 h
  simp

theorem insert_perm {key : String} (a : α) {es : List (String × α)} (h : get? key es = none) :
    (insert key a es).Perm ((key, a) :: es) := by
  induction es with
  | nil => exact .refl _
  | cons e es ih =>
    obtain ⟨k, b⟩ := e
    have hk : key ≠ k := by
      rintro rfl
      simp [get?] at h
    rw [get?, if_neg hk] at h
    rw [insert, if_neg hk]
    split
    · exact .refl _
    · exact ((ih h).cons _).trans (.swap ..)

theorem perm_cons_erase {key : String} {a : α} {es : List (String × α)} (hs : Sorted es)
    (h : get? key es = some a) : es.Perm ((key, a) :: erase key es) := by
  induction es with
  | nil => simp [get?] at h
  | cons e es ih =>
    obtain ⟨k, b⟩ := e
    obtain ⟨hhead, htail⟩ := List.pairwise_cons.1 hs
    by_cases hk : key = k
    · subst hk
      rw [get?, if_pos rfl, Option.some.injEq] at h
      have hrest : ∀ e ∈ es, e.1 ≠ key := fun e he hkey => String.lt_irrefl key (hkey ▸ hhead e he)
      have herase : erase key ((key, b) :: es) = es := by simpa [erase] using hrest
      rw [herase, h]
    · have herase : erase key ((k, b) :: es) = (k, b) :: erase key es := by
        simp [erase, Ne.symm hk]
      rw [get?, if_neg hk] at h
      rw [herase]
      exact ((ih htail h).cons _).trans (.swap ..)

theorem sorted_map {β : Type} (f : α → β) {es : List (String × α)} (h : Sorted es) :
    Sorted (es.map fun e => (e.1, f e.2)) := by
  rw [Sorted, List.pairwise_map]
  exact h

theorem get?_map {β : Type} (f : α → β) (key : String) (es : List (String × α)) :
    get? key (es.map fun e => (e.1, f e.2)) = (get? key es).map f := by
  induction es with
  | nil => rfl
  | cons e es ih =>
    rw [List.map_cons, get?, get?]
    split
    · rfl
    · exact ih

end Entries

namespace Table

variable {α : Type}

theorem nodup_keys (t : Table α) : t.keys.Nodup := t.sorted.nodup_keys

@[simp] theorem length_keys (t : Table α) : t.keys.length = t.size := by simp [keys, size]

/-- The keys of a table are those under which something is found. -/
theorem mem_keys {t : Table α} {key : String} : key ∈ t.keys ↔ ∃ a, t.get? key = some a := by
  rw [← not_iff_not, keys, ← Entries.get?_eq_none_iff, ← Option.isSome_iff_exists]
  simp [get?]

theorem get?_eq_none_iff {t : Table α} {key : String} : t.get? key = none ↔ key ∉ t.keys :=
  Entries.get?_eq_none_iff

theorem contains_iff {t : Table α} {key : String} :
    t.contains key = true ↔ ∃ a, t.get? key = some a := by
  rw [contains, Option.isSome_iff_exists]

theorem contains_eq_false_iff {t : Table α} {key : String} :
    t.contains key = false ↔ t.get? key = none := by
  rw [contains, Option.isSome_eq_false_iff, Option.isNone_iff_eq_none]

/-- Keys are listed in their order, so tables with the same keys list them alike. -/
theorem keys_eq_of_mem_iff {β : Type} {s : Table α} {t : Table β}
    (h : ∀ key, key ∈ s.keys ↔ key ∈ t.keys) : s.keys = t.keys := by
  have hperm : s.keys.Perm t.keys := (List.perm_ext_iff_of_nodup s.nodup_keys t.nodup_keys).2 h
  refine hperm.eq_of_pairwise (fun a b _ _ hab hba => ?_) (List.pairwise_map.2 s.sorted)
    (List.pairwise_map.2 t.sorted)
  exact absurd (String.lt_trans hab hba) (String.lt_irrefl a)

theorem mem_values {t : Table α} {a : α} : a ∈ t.values ↔ ∃ key, t.get? key = some a := by
  simp only [values, List.mem_map, Prod.exists, exists_eq_right]
  exact exists_congr fun key => get?_eq_some_iff.symm

/-- Changes every value. -/
def map {β : Type} (f : α → β) (t : Table α) : Table β :=
  ⟨t.entries.map fun e => (e.1, f e.2), Entries.sorted_map f t.sorted⟩

theorem get?_map {β : Type} (f : α → β) (t : Table α) (key : String) :
    (t.map f).get? key = (t.get? key).map f :=
  Entries.get?_map f key t.entries

theorem values_map {β : Type} (f : α → β) (t : Table α) : (t.map f).values = t.values.map f := by
  simp only [values, map, List.map_map]
  rfl

/-- Filtering a table by its values filters the list of values. -/
theorem values_filter (t : Table α) (p : α → Bool) :
    (t.filter fun _ a => p a).values = t.values.filter p := by
  rw [values, values, filter, List.filter_map]
  rfl

theorem values_insert_perm {t : Table α} {key : String} (a : α) (h : t.get? key = none) :
    (t.insert key a).values.Perm (a :: t.values) :=
  (Entries.insert_perm a h).map Prod.snd

theorem values_perm_erase {t : Table α} {key : String} {a : α} (h : t.get? key = some a) :
    t.values.Perm (a :: (t.erase key).values) :=
  (Entries.perm_cons_erase t.sorted h).map Prod.snd

/-- New entries under different keys are added to the others. -/
theorem entries_foldl_insert_perm {es : List (String × α)} {t : Table α}
    (hd : (es.map (·.1)).Nodup) (hnew : ∀ e ∈ es, t.get? e.1 = none) :
    (es.foldl (fun t e => t.insert e.1 e.2) t).entries.Perm (t.entries ++ es) := by
  induction es generalizing t with
  | nil => simp
  | cons e es ih =>
    rw [List.map_cons, List.nodup_cons] at hd
    rw [List.foldl_cons]
    have hinsert := Entries.insert_perm e.2 (hnew e List.mem_cons_self)
    refine (ih hd.2 fun e' he' => ?_).trans ?_
    · have hne : e'.1 ≠ e.1 := fun hkey => hd.1 (hkey ▸ List.mem_map_of_mem he')
      rw [get?_insert, if_neg hne]
      exact hnew e' (List.mem_cons_of_mem _ he')
    · exact (hinsert.append_right es).trans List.perm_middle.symm

/-- The table of a list under distinct keys holds what the list does. -/
theorem values_ofList_perm {es : List (String × α)} (hd : (es.map (·.1)).Nodup) :
    (ofList es).values.Perm (es.map (·.2)) :=
  (entries_foldl_insert_perm hd fun _ _ => get?_empty _).map Prod.snd

/-- Entries in any order make the table that they are when they are sorted. -/
theorem entries_ofList_of_perm {es fs : List (String × α)} (h : es.Perm fs) (hsorted : Entries.Sorted fs) :
    (ofList es).entries = fs := by
  have hd : (es.map (·.1)).Nodup := (h.map (·.1)).nodup_iff.2 hsorted.nodup_keys
  have hperm : (ofList es).entries.Perm fs := (entries_foldl_insert_perm hd fun _ _ => get?_empty _).trans h
  refine hperm.eq_of_pairwise (fun a b _ _ hab hba => ?_) (ofList es).sorted hsorted
  exact absurd (String.lt_trans hab hba) (String.lt_irrefl a.1)

/-- A table is the one that its entries make. -/
theorem ofList_entries (t : Table α) : ofList t.entries = t := by
  have hentries := entries_ofList_of_perm (.refl _) t.sorted
  cases hlist : ofList t.entries
  cases t
  simp_all

theorem get?_foldl_insert (es : List (String × α)) (t : Table α) (key : String) :
    (es.foldl (fun t e => t.insert e.1 e.2) t).get? key =
      (Entries.get? key es.reverse).or (t.get? key) := by
  induction es generalizing t with
  | nil => simp [Entries.get?]
  | cons e es ih =>
    obtain ⟨k, b⟩ := e
    rw [List.foldl_cons, ih, get?_insert, List.reverse_cons, Entries.get?_append, Option.or_assoc]
    by_cases h : key = k <;> simp [Entries.get?, h]

/-- Of several entries under one key the last counts. -/
theorem get?_ofList (es : List (String × α)) (key : String) :
    (ofList es).get? key = Entries.get? key es.reverse := by
  rw [ofList, get?_foldl_insert, get?_empty, Option.or_none]

theorem map_ofList {β : Type} (f : α → β) (es : List (String × α)) :
    (ofList es).map f = ofList (es.map fun e => (e.1, f e.2)) := by
  refine ext fun key => ?_
  rw [get?_map, get?_ofList, get?_ofList, ← List.map_reverse, Entries.get?_map]

/-- The keys of a table that is made of a list are those of the list. -/
theorem mem_keys_ofList {es : List (String × α)} {key : String} :
    key ∈ (ofList es).keys ↔ key ∈ es.map (·.1) := by
  rw [← not_iff_not, ← get?_eq_none_iff, get?_ofList, Entries.get?_eq_none_iff]
  simp

/-- In a table that is made of entries under different keys, each is found. -/
theorem get?_ofList_of_mem {es : List (String × α)} (hd : (es.map (·.1)).Nodup) {key : String} {a : α}
    (h : (key, a) ∈ es) : (ofList es).get? key = some a := by
  rw [get?_ofList]
  refine Entries.get?_of_mem ?_ (List.mem_reverse.2 h)
  rw [List.map_reverse]
  exact List.nodup_reverse.2 hd

theorem mem_of_get?_ofList {es : List (String × α)} {key : String} {a : α}
    (h : (ofList es).get? key = some a) : (key, a) ∈ es := by
  rw [get?_ofList] at h
  exact List.mem_reverse.1 (Entries.mem_of_get? h)

end Table

end RuleFlow
