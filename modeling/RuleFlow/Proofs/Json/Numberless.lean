import RuleFlow.Proofs.Json.Written
import RuleFlow.Proofs.Table

/-!
# Values without numbers that are read as they were written

A value that holds no numbers (`Value.Numberless`) comes back when its text is read, even if the members of its
objects are written in another order (`Value.ReadsAs`): the reader puts them in order again. Arrays and objects
of what comes back come back (`readsAs_array`, `readsAs_object`), up to the depth that the reader allows.
-/

namespace RuleFlow.Json

section

variable {α β : Type} {r : α → β → Prop} {as : List α}

/-- Something for each item makes a list of the same length. -/
theorem exists_forall₂ (h : ∀ a ∈ as, ∃ b, r a b) :
    ∃ bs, List.Forall₂ r as bs := by
  induction as with
  | nil => exact ⟨[], .nil⟩
  | cons a as ih =>
    obtain ⟨⟨b, hb⟩, has⟩ := List.forall_mem_cons.1 h
    obtain ⟨bs, hbs⟩ := ih has
    exact ⟨b :: bs, .cons hb hbs⟩

theorem exists_pairs (h : ∀ a ∈ as, ∃ b, r a b) :
    ∃ pairs : List (α × β), pairs.map (·.1) = as ∧ ∀ p ∈ pairs, r p.1 p.2 := by
  obtain ⟨bs, hbs⟩ := exists_forall₂ h
  obtain ⟨hlength, hzip⟩ := List.forall₂_iff_zip.1 hbs
  exact ⟨as.zip bs, List.map_fst_zip (Nat.le_of_eq hlength), fun p hp => hzip hp⟩

end

namespace Value

/-- A value that is built from null, truth values, strings, arrays and objects and nests at most `depth` deep. The
members of its objects are in the order of their keys, as they are in every value that was read, and all keys
have a property. -/
inductive Numberless (key : String → Prop) : Nat → Value → Prop
  | null (depth : Nat) : Numberless key depth .null
  | bool (depth : Nat) (b : Bool) : Numberless key depth (.bool b)
  | string (depth : Nat) (s : String) : Numberless key depth (.string s)
  | array {depth : Nat} {items : List Value} (h : ∀ v ∈ items, Numberless key depth v) :
    Numberless key (depth + 1) (.array items)
  | object {depth : Nat} {ms : Members} (hsorted : Entries.Sorted ms) (hkeys : ∀ m ∈ ms, key m.1)
    (h : ∀ m ∈ ms, Numberless key depth m.2) : Numberless key (depth + 1) (.object ms)

/-- A value that nests so deep nests no deeper than any larger bound. -/
theorem Numberless.mono {key : String → Prop} {depth depth' : Nat} {v : Value} (h : v.Numberless key depth)
    (hdepth : depth ≤ depth') : v.Numberless key depth' := by
  induction h generalizing depth' with
  | null => exact .null depth'
  | bool depth b => exact .bool depth' b
  | string depth s => exact .string depth' s
  | array _ ih =>
    obtain ⟨depth', rfl⟩ := Nat.exists_eq_succ_of_ne_zero (Nat.ne_of_gt (Nat.zero_lt_of_lt hdepth))
    exact .array fun v hv => ih v hv (Nat.le_of_succ_le_succ hdepth)
  | object hsorted hkeys _ ih =>
    obtain ⟨depth', rfl⟩ := Nat.exists_eq_succ_of_ne_zero (Nat.ne_of_gt (Nat.zero_lt_of_lt hdepth))
    exact .object hsorted hkeys fun m hm => ih m hm (Nat.le_of_succ_le_succ hdepth)

/-- A value is not a member of itself. -/
theorem ne_object_of_mem {key : String} {v : Value} {ms : Members} (h : (key, v) ∈ ms) : v ≠ .object ms := by
  rintro rfl
  have hlt := List.sizeOf_lt_of_mem h
  simp only [Prod.mk.sizeOf_spec, object.sizeOf_spec] at hlt
  omega

/-- Wherever the text of the first value stands, the second one is read, at most `depth` deep. -/
structure ReadsAs (depth : Nat) (v w : Value) : Prop where
  opens : v.Opens
  readValue : ∀ fuel, v.encode.length < fuel → ∀ rest,
    readValue fuel depth (v.encode ++ rest) = .ok (w, rest)

/-- A value that reads as another does so with enough fuel. -/
theorem ReadsAs.reads {depth fuel : Nat} {v w : Value} (h : v.ReadsAs depth w) (hfuel : v.encode.length < fuel) :
    Decoder.any.Reads fuel depth v w where
  opens := h.opens
  ofText rest _ := h.readValue fuel hfuel rest

end Value

/-! ## Texts -/

theorem intercalate_render (vs : List Value) :
    ",".intercalate (vs.map Value.render) = Value.renderItems vs := by
  induction vs with
  | nil => rfl
  | cons v vs ih =>
    cases vs with
    | nil => simp [Value.renderItems]
    | cons w vs =>
      rw [List.map_cons] at ih
      rw [List.map_cons, List.map_cons, String.intercalate_cons_cons, ih, Value.renderItems]

theorem intercalate_renderMember (ms : Members) :
    ",".intercalate (ms.map fun m => quote m.1 ++ ":" ++ m.2.render) = Value.renderMembers ms := by
  induction ms with
  | nil => rfl
  | cons m ms ih =>
    cases ms with
    | nil => simp [Value.renderMembers]
    | cons n ms =>
      rw [List.map_cons] at ih
      rw [List.map_cons, List.map_cons, String.intercalate_cons_cons, ih, Value.renderMembers]

section

variable {depth : Nat}

theorem readsAs_null : Value.ReadsAs depth .null .null where
  opens := ⟨0x6E, [0x75, 0x6C, 0x6C], by decide, by decide, by decide⟩
  readValue fuel _ rest := by
    have hencode : Value.null.encode = [0x6E, 0x75, 0x6C, 0x6C] := by decide
    rw [hencode, readValue.eq_def]
    rfl

theorem readsAs_bool (b : Bool) : Value.ReadsAs depth (.bool b) (.bool b) where
  opens := by
    cases b with
    | false => exact ⟨0x66, [0x61, 0x6C, 0x73, 0x65], by decide, by decide, by decide⟩
    | true => exact ⟨0x74, [0x72, 0x75, 0x65], by decide, by decide, by decide⟩
  readValue fuel _ rest := by
    have htrue : (Value.bool true).encode = [0x74, 0x72, 0x75, 0x65] := by decide
    have hfalse : (Value.bool false).encode = [0x66, 0x61, 0x6C, 0x73, 0x65] := by decide
    cases b with
    | false =>
      rw [hfalse, readValue.eq_def]
      rfl
    | true =>
      rw [htrue, readValue.eq_def]
      rfl

theorem readsAs_string (s : String) : Value.ReadsAs depth (.string s) (.string s) where
  opens := ⟨0x22, quoted s, encode_string s, by decide, by decide⟩
  readValue fuel _ rest := by
    rw [encode_string, List.cons_append, readValue.eq_def]
    exact bind_eq_ok_iff.2 ⟨_, readString_quoted s rest, rfl⟩

theorem length_encode_lt_of_mem_array {v : Value} {vs : List Value} (h : v ∈ vs) :
    v.encode.length < (Value.array vs).encode.length := by
  cases vs with
  | nil => cases h
  | cons first vs =>
    rw [encode_array, bytesOf_renderItems]
    rcases List.mem_cons.1 h with rfl | h
    · simp only [List.length_append, List.length_cons]
      omega
    · obtain ⟨before, after, rfl⟩ := List.append_of_mem h
      simp only [encodeMoreItems, List.flatMap_append, List.flatMap_cons, List.length_append, List.length_cons]
      omega

/-- An array comes back if its items do. -/
theorem readsAs_array {vs ws : List Value} (h : List.Forall₂ (Value.ReadsAs depth) vs ws) :
    Value.ReadsAs (depth + 1) (.array vs) (.array ws) where
  opens := ⟨0x5B, _, encode_array vs, by decide, by decide⟩
  readValue fuel hfuel rest := by
    have hlength : ∀ v ∈ vs, v.encode.length < fuel :=
      fun v hv => Nat.lt_trans (length_encode_lt_of_mem_array hv) hfuel
    have hreads : List.Forall₂ (Decoder.any.Reads fuel depth) vs ws :=
      ((List.forall₂_and_left ..).2 ⟨hlength, h⟩).imp fun v w hvw => hvw.2.reads hvw.1
    have hitems := Decoder.foldItems_items hreads (Nat.lt_of_le_of_lt (le_length_encode_array vs) hfuel) rest
    have hclose : closeArray (0x5D :: rest) = .ok rest := by
      simp [closeArray, skipBlanks_cons (show isBlankByte 0x5D = false by decide)]
    rw [encode_array, List.cons_append, List.append_assoc, List.singleton_append, readValue.eq_def]
    refine bind_eq_ok_iff.2 ⟨_, hitems, bind_eq_ok_iff.2 ⟨rest, hclose, ?_⟩⟩
    rw [List.reverse_reverse]

/-- Reads the value of a member and puts it in order. -/
def readEntry (fuel depth : Nat) (key : String) (acc : Members) : Reader Members := fun text => do
  let text ← readColon text
  let (v, rest) ← readValue fuel depth text
  .ok (Entries.insert key v acc, rest)

/-- A member whose value comes back. -/
def EntryReadsAs (depth : Nat) (m n : String × Value) : Prop := m.1 = n.1 ∧ m.2.ReadsAs depth n.2

theorem readEntry_written {fuel : Nat} {m n : String × Value} (h : EntryReadsAs depth m n)
    (hfuel : m.2.encode.length < fuel) (t : Table Value) (rest : List UInt8) :
    readEntry fuel depth m.1 t.entries (0x3A :: (m.2.encode ++ rest)) =
      .ok ((t.insert n.1 n.2).entries, rest) := by
  have hcolon : readColon (0x3A :: (m.2.encode ++ rest)) = .ok (m.2.encode ++ rest) := by
    simp [readColon, skipBlanks_cons (show isBlankByte 0x3A = false by decide)]
  rw [← h.1]
  exact bind_eq_ok_iff.2 ⟨_, hcolon, bind_eq_ok_iff.2 ⟨_, h.2.readValue fuel hfuel rest, rfl⟩⟩

section

variable {fuel : Nat} {ms ns : Members} (h : List.Forall₂ (EntryReadsAs depth) ms ns)
  (hfuel : ∀ m ∈ ms, m.2.encode.length < fuel) (rest : List UInt8)
include h hfuel

/-- The members after the first are read into the table, one after the other. -/
theorem foldMembers_moreEntries {bound : Nat} (hbound : ms.length < bound) (t : Table Value) :
    foldMembers (readEntry fuel depth) bound false t.entries (encodeMoreMembers ms ++ 0x7D :: rest) =
      .ok ((ns.foldl (fun t n => t.insert n.1 n.2) t).entries, 0x7D :: rest) := by
  induction h generalizing bound t with
  | nil =>
    obtain ⟨bound, rfl⟩ := Nat.exists_eq_succ_of_ne_zero (Nat.ne_of_gt hbound)
    rfl
  | @cons m n ms ns hm _ ih =>
    obtain ⟨bound, rfl⟩ := Nat.exists_eq_succ_of_ne_zero (Nat.ne_of_gt (Nat.zero_lt_of_lt hbound))
    obtain ⟨hfirst, hfuel⟩ := List.forall_mem_cons.1 hfuel
    have hmember := readEntry_written hm hfirst t (encodeMoreMembers ms ++ 0x7D :: rest)
    rw [encodeMoreMembers, List.flatMap_cons, List.cons_append, List.cons_append, List.append_assoc,
      ← encodeMoreMembers, Decoder.foldMembers_comma hmember, ih hfuel (Nat.lt_of_succ_lt_succ hbound),
      List.foldl_cons]

/-- The members of an object are read into the table, one after the other. -/
theorem foldMembers_entries (hbound : ms.length < fuel) :
    foldMembers (readEntry fuel depth) fuel true [] (bytesOf (Value.renderMembers ms) ++ 0x7D :: rest) =
      .ok ((Table.ofList ns).entries, 0x7D :: rest) := by
  obtain ⟨bound, rfl⟩ := Nat.exists_eq_succ_of_ne_zero (Nat.ne_of_gt (Nat.zero_lt_of_lt hbound))
  cases h with
  | nil => rfl
  | @cons m n ms ns hm hms =>
    obtain ⟨hfirst, hfuel⟩ := List.forall_mem_cons.1 hfuel
    have hmember := readEntry_written hm hfirst .empty (encodeMoreMembers ms ++ 0x7D :: rest)
    have hmore := foldMembers_moreEntries hms hfuel rest (Nat.lt_of_succ_lt_succ hbound)
    rw [bytesOf_renderMembers, List.append_assoc]
    exact (Decoder.foldMembers_first hmember).trans (hmore _)

end

/-- An object comes back if its members do. They are put in order. -/
theorem readsAs_object {ms ns : Members} (h : List.Forall₂ (EntryReadsAs depth) ms ns) :
    Value.ReadsAs (depth + 1) (.object ms) (.object (Table.ofList ns).entries) where
  opens := ⟨0x7B, _, encode_object ms, by decide, by decide⟩
  readValue fuel hfuel rest := by
    have hlength : ∀ m ∈ ms, m.2.encode.length < fuel :=
      fun m hm => Nat.lt_of_le_of_lt (length_encode_le_of_mem hm) hfuel
    have hmembers := foldMembers_entries h hlength rest
      (Nat.lt_of_le_of_lt (le_length_encode_object ms) hfuel)
    have hclose : closeObject (0x7D :: rest) = .ok rest := by
      simp [closeObject, skipBlanks_cons (show isBlankByte 0x7D = false by decide)]
    rw [encode_object, List.cons_append, List.append_assoc, List.singleton_append, readValue.eq_def]
    exact bind_eq_ok_iff.2 ⟨_, hmembers, bind_eq_ok_iff.2 ⟨rest, hclose, rfl⟩⟩

/-- A text that is written for a value is read as what the value reads as. -/
theorem parse_of_readsAs {v w : Value} (h : v.ReadsAs maxDepth w) : parse v.encode = .ok w := by
  have hread := h.readValue _ (Nat.lt_succ_self _) []
  rw [List.append_nil] at hread
  rw [parse, parseWith, mapError_eq_ok_iff]
  exact bind_eq_ok_iff.2 ⟨_, hread, rfl⟩

end

end RuleFlow.Json
