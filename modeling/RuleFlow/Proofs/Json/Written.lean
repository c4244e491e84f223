import Mathlib.Data.List.Forall2
import Mathlib.Data.List.Nodup
import RuleFlow.Proofs.Json.Digits

/-!
# Values that are read as they were written

What a decoder reads when it meets the text of a value in an array or an object (`Decoder.Reads`). Strings and
whole numbers of 64 bits come back, and so do arrays and records of what comes back
(`Decoder.reads_string`, `Decoder.reads_integer`, `Decoder.reads_list`, `Decoder.ofText_record`). A record is
written with all its fields in order (`Decoder.Writes`); reading it puts one after the other into the blank
record.
-/

namespace RuleFlow.Json

/-- A value whose text can be told from a blank and from the end of an array. -/
def Value.Opens (v : Value) : Prop :=
  ∃ b bs, v.encode = b :: bs ∧ isBlankByte b = false ∧ b ≠ 0x5D

theorem skipBlanks_cons {b : UInt8} (h : isBlankByte b = false) (rest : List UInt8) :
    skipBlanks (b :: rest) = b :: rest := by
  simp [skipBlanks, h]

theorem encode_string (s : String) : (Value.string s).encode = 0x22 :: quoted s := by
  rw [Value.encode, Value.render, bytesOf_quote]

/-- A member of an object. -/
def encodeMember (m : String × Value) : List UInt8 := 0x22 :: (quoted m.1 ++ 0x3A :: m.2.encode)

/-- The items of an array after the first one. -/
def encodeMoreItems (vs : List Value) : List UInt8 := vs.flatMap fun v => 0x2C :: v.encode

/-- The members of an object after the first one. -/
def encodeMoreMembers (ms : Members) : List UInt8 := ms.flatMap fun m => 0x2C :: encodeMember m

/-- Items are written one after the other with commas. -/
theorem bytesOf_renderItems (v : Value) (vs : List Value) :
    bytesOf (Value.renderItems (v :: vs)) = v.encode ++ encodeMoreItems vs := by
  induction vs generalizing v with
  | nil => simp [Value.renderItems, Value.encode, encodeMoreItems]
  | cons w vs ih =>
    have hcomma : bytesOf "," = [0x2C] := by decide
    rw [Value.renderItems, bytesOf_append, bytesOf_append, ih, hcomma]
    simp [Value.encode, encodeMoreItems]

/-- Members are written one after the other with commas. -/
theorem bytesOf_renderMembers (m : String × Value) (ms : Members) :
    bytesOf (Value.renderMembers (m :: ms)) = encodeMember m ++ encodeMoreMembers ms := by
  have hcolon : bytesOf ":" = [0x3A] := by decide
  induction ms generalizing m with
  | nil =>
    simp only [Value.renderMembers, bytesOf_append, bytesOf_quote, hcolon]
    simp [encodeMember, encodeMoreMembers, Value.encode]
  | cons m' ms ih =>
    have hcomma : bytesOf "," = [0x2C] := by decide
    simp only [Value.renderMembers, bytesOf_append, bytesOf_quote, hcolon, hcomma, ih]
    simp [encodeMember, encodeMoreMembers, Value.encode]

theorem encode_array (vs : List Value) :
    (Value.array vs).encode = 0x5B :: (bytesOf (Value.renderItems vs) ++ [0x5D]) := by
  have hopen : bytesOf "[" = [0x5B] := by decide
  have hclose : bytesOf "]" = [0x5D] := by decide
  rw [Value.encode, Value.render, bytesOf_append, bytesOf_append, hopen, hclose]
  rfl

theorem encode_object (ms : Members) :
    (Value.object ms).encode = 0x7B :: (bytesOf (Value.renderMembers ms) ++ [0x7D]) := by
  have hopen : bytesOf "\x7b" = [0x7B] := by decide
  have hclose : bytesOf "\x7d" = [0x7D] := by decide
  rw [Value.encode, Value.render, bytesOf_append, bytesOf_append, hopen, hclose]
  rfl

theorem delimited_encodeMoreItems (vs : List Value) (rest : List UInt8) :
    Delimited (encodeMoreItems vs ++ 0x5D :: rest) := by
  cases vs with
  | nil => exact ⟨0x5D, rest, rfl, by simp⟩
  | cons v vs => exact ⟨0x2C, _, rfl, by simp⟩

theorem delimited_encodeMoreMembers (ms : Members) (rest : List UInt8) :
    Delimited (encodeMoreMembers ms ++ 0x7D :: rest) := by
  cases ms with
  | nil => exact ⟨0x7D, rest, rfl, by simp⟩
  | cons m ms => exact ⟨0x2C, _, rfl, by simp⟩

theorem le_length_encodeMoreItems (vs : List Value) : vs.length ≤ (encodeMoreItems vs).length := by
  induction vs with
  | nil => exact Nat.le_refl 0
  | cons v vs ih =>
    simp only [encodeMoreItems, List.flatMap_cons, List.length_append, List.length_cons] at ih ⊢
    omega

theorem le_length_encodeMoreMembers (ms : Members) : ms.length ≤ (encodeMoreMembers ms).length := by
  induction ms with
  | nil => exact Nat.le_refl 0
  | cons m ms ih =>
    simp only [encodeMoreMembers, List.flatMap_cons, List.length_append, List.length_cons] at ih ⊢
    omega

theorem le_length_encode_array (vs : List Value) : vs.length ≤ (Value.array vs).encode.length := by
  cases vs with
  | nil => exact Nat.zero_le _
  | cons v vs =>
    have hmore := le_length_encodeMoreItems vs
    simp only [encode_array, bytesOf_renderItems, List.length_cons, List.length_append] at hmore ⊢
    omega

theorem le_length_encode_object (ms : Members) : ms.length ≤ (Value.object ms).encode.length := by
  cases ms with
  | nil => exact Nat.zero_le _
  | cons m ms =>
    have hmore := le_length_encodeMoreMembers ms
    simp only [encode_object, bytesOf_renderMembers, List.length_cons, List.length_append] at hmore ⊢
    omega

theorem length_encode_le_of_mem {m : String × Value} {ms : Members} (hm : m ∈ ms) :
    m.2.encode.length ≤ (Value.object ms).encode.length := by
  have hmore : ∀ ms, m ∈ ms → m.2.encode.length ≤ (encodeMoreMembers ms).length := by
    intro ms hm
    obtain ⟨before, after, rfl⟩ := List.append_of_mem hm
    simp only [encodeMoreMembers, List.flatMap_append, List.flatMap_cons, encodeMember,
      List.length_append, List.length_cons]
    omega
  cases ms with
  | nil => cases hm
  | cons first ms =>
    rw [encode_object, bytesOf_renderMembers]
    rcases List.mem_cons.1 hm with rfl | hm
    · simp only [encodeMember, List.length_append, List.length_cons]
      omega
    · have hle := hmore ms hm
      simp only [List.length_append, List.length_cons]
      omega

namespace Decoder

variable {α β ρ : Type} {d : Decoder α} {fuel depth : Nat} {v : Value} {a : α}

/-! ## Reading back -/

/-- Where the text of a value stands in an array or an object, a decoder reads something certain. -/
structure Reads (d : Decoder α) (fuel depth : Nat) (v : Value) (a : α) : Prop where
  opens : v.Opens
  ofText : ∀ rest, Delimited rest → d.ofText fuel depth (v.encode ++ rest) = .ok (a, rest)

theorem Reads.map (h : d.Reads fuel depth v a) (f : α → β) : (d.map f).Reads fuel depth v (f a) where
  opens := h.opens
  ofText rest hrest := bind_eq_ok_iff.2 ⟨(a, rest), h.ofText rest hrest, rfl⟩

theorem reads_string (s : String) : string.Reads fuel depth (.string s) s where
  opens := ⟨0x22, quoted s, encode_string s, by decide, by decide⟩
  ofText rest _ := by
    rw [encode_string]
    exact readString_quoted s rest

theorem of_isDigitByte {b : UInt8} (h : isDigitByte b = true) :
    isBlankByte b = false ∧ b ≠ 0x5D ∧ b ≠ 0x2D := by
  obtain ⟨hlow, hhigh⟩ : 48 ≤ b.toNat ∧ b.toNat ≤ 57 := by
    simpa [isDigitByte, UInt8.le_iff_toNat_le] using h
  have hne : ∀ c : UInt8, c.toNat < 48 ∨ 57 < c.toNat → b ≠ c := by
    rintro c hc rfl
    omega
  refine ⟨?_, hne _ (by decide), hne _ (by decide)⟩
  simp [isBlankByte, hne 0x20 (by decide), hne 0x0A (by decide), hne 0x09 (by decide),
    hne 0x0D (by decide)]

/-- A whole number of 64 bits, with or without a sign, comes back. -/
theorem reads_integer {kind : String} {low high i : Int} (hlow : low ≤ i) (hhigh : i ≤ high)
    (hmin : -Nat.pow 2 63 ≤ i) (hmax : i ≤ maxWord) :
    (integer kind low high).Reads fuel depth (.ofInt i) i := by
  have hrange : inRange kind low high (.int i) = .ok i := if_pos ⟨hlow, hhigh⟩
  cases i with
  | ofNat n =>
    have hencode : (Value.ofInt (.ofNat n)).encode = digitsOf n := bytesOf_toString n
    obtain ⟨b, bs, hdigits, hb⟩ := exists_digitsOf_eq n
    obtain ⟨hblank, hend, hminus⟩ := of_isDigitByte hb
    refine ⟨⟨b, bs, hencode.trans hdigits, hblank, hend⟩, fun rest hrest => ?_⟩
    have hread : readNumber false (digitsOf n ++ rest) = .ok (.int (.ofNat n), rest) :=
      readNumber_digits_of_delimited hrest (Int.ofNat_le.1 hmax)
    rw [hdigits, List.cons_append] at hread
    rw [hencode, hdigits, List.cons_append]
    simp only [integer, skipBlanks_cons hblank, if_neg hminus, if_pos hb, hread]
    exact bind_eq_ok_iff.2 ⟨_, rfl, by simp only [hrange]⟩
  | negSucc n =>
    have hencode : (Value.ofInt (.negSucc n)).encode = 0x2D :: digitsOf (n + 1) := by
      have hminus : bytesOf "-" = [0x2D] := by decide
      have hrender : (Value.ofInt (.negSucc n)).render = "-" ++ toString (n + 1) := rfl
      rw [Value.encode, hrender, bytesOf_append, hminus, bytesOf_toString]
      rfl
    have hn : n + 1 ≤ Nat.pow 2 63 := by
      rw [Int.negSucc_eq] at hmin
      omega
    refine ⟨⟨0x2D, _, hencode, by decide, by decide⟩, fun rest hrest => ?_⟩
    have hread : readNumber true (digitsOf (n + 1) ++ rest) = .ok (.int (.negSucc n), rest) := by
      rw [readNumber_digits (Nat.le_trans hn (by decide)) (startsWithDigit_of_delimited hrest)]
      exact readTail_negative_of_delimited hrest (Nat.succ_pos n) hn
    rw [hencode, List.cons_append]
    simp only [integer, skipBlanks_cons (show isBlankByte 0x2D = false by decide), if_pos, hread]
    exact bind_eq_ok_iff.2 ⟨_, rfl, by simp only [hrange]⟩

theorem nextItem_first (hv : v.Opens) (rest : List UInt8) :
    nextItem true (v.encode ++ rest) = .ok (true, v.encode ++ rest) := by
  obtain ⟨b, bs, hencode, hblank, hend⟩ := hv
  simp only [hencode, List.cons_append, nextItem, skipBlanks_cons hblank, if_neg hend, if_true]

theorem nextItem_comma (hv : v.Opens) (rest : List UInt8) :
    nextItem false (0x2C :: (v.encode ++ rest)) = .ok (true, v.encode ++ rest) := by
  obtain ⟨b, bs, hencode, hblank, hend⟩ := hv
  have hcomma : skipBlanks (0x2C :: (b :: bs ++ rest)) = 0x2C :: (b :: bs ++ rest) :=
    skipBlanks_cons (by decide) _
  rw [hencode, nextItem, hcomma]
  simp [skipBlanks_cons hblank, hend]

section

variable {vs : List Value} {as : List α} (h : List.Forall₂ (d.Reads fuel depth) vs as)
include h

theorem foldItems_moreItems {bound : Nat} (hbound : vs.length < bound) (acc : List α)
    (rest : List UInt8) :
    foldItems
        (fun acc text => do
          let (a, rest) ← d.ofText fuel depth text
          .ok (a :: acc, rest)) bound false acc (encodeMoreItems vs ++ 0x5D :: rest) =
      .ok (as.reverse ++ acc, 0x5D :: rest) := by
  induction h generalizing bound acc with
  | nil =>
    obtain ⟨bound, rfl⟩ := Nat.exists_eq_succ_of_ne_zero (Nat.ne_of_gt hbound)
    rfl
  | @cons v a vs as hv _ ih =>
    obtain ⟨bound, rfl⟩ := Nat.exists_eq_succ_of_ne_zero (Nat.ne_of_gt (Nat.zero_lt_of_lt hbound))
    have hread := hv.ofText _ (delimited_encodeMoreItems vs rest)
    have hmore := ih (Nat.lt_of_succ_lt_succ hbound) (a :: acc)
    rw [encodeMoreItems, List.flatMap_cons, List.cons_append, List.cons_append, List.append_assoc,
      ← encodeMoreItems, foldItems, List.reverse_cons, List.append_assoc, List.singleton_append]
    refine bind_eq_ok_iff.2 ⟨_, nextItem_comma hv.opens _, ?_⟩
    exact bind_eq_ok_iff.2 ⟨(a :: acc, _), bind_eq_ok_iff.2 ⟨_, hread, rfl⟩, hmore⟩

theorem foldItems_items (hbound : vs.length < fuel) (rest : List UInt8) :
    foldItems
        (fun acc text => do
          let (a, rest) ← d.ofText fuel depth text
          .ok (a :: acc, rest)) fuel true [] (bytesOf (Value.renderItems vs) ++ 0x5D :: rest) =
      .ok (as.reverse, 0x5D :: rest) := by
  obtain ⟨fuel, rfl⟩ := Nat.exists_eq_succ_of_ne_zero (Nat.ne_of_gt (Nat.zero_lt_of_lt hbound))
  cases h with
  | nil => rfl
  | @cons v a vs as hv hvs =>
    have hread := hv.ofText _ (delimited_encodeMoreItems vs rest)
    have hmore := foldItems_moreItems hvs (Nat.lt_of_succ_lt_succ hbound) [a] rest
    rw [bytesOf_renderItems, List.append_assoc, foldItems, List.reverse_cons]
    refine bind_eq_ok_iff.2 ⟨_, nextItem_first hv.opens _, ?_⟩
    exact bind_eq_ok_iff.2 ⟨([a], _), bind_eq_ok_iff.2 ⟨_, hread, rfl⟩, hmore⟩

theorem reads_list (hbound : vs.length < fuel) : (list d).Reads fuel (depth + 1) (.array vs) as where
  opens := ⟨0x5B, _, encode_array vs, by decide, by decide⟩
  ofText rest _ := by
    have hitems := foldItems_items h hbound rest
    rw [encode_array, List.cons_append, List.append_assoc, List.singleton_append]
    simp only [list, skipBlanks_cons (show isBlankByte 0x5B = false by decide), if_true]
    refine bind_eq_ok_iff.2 ⟨_, hitems, bind_eq_ok_iff.2 ⟨rest, ?_, ?_⟩⟩
    · simp [closeArray, skipBlanks_cons (show isBlankByte 0x5D = false by decide)]
    · rw [List.reverse_reverse]

end

/-! ## Records -/

/-- The members that stand for some fields in order, and what they put into the record. -/
inductive Writes (fuel depth : Nat) : List (Field ρ) → Members → (ρ → ρ) → Prop
  | nil : Writes fuel depth [] [] id
  | cons {f : Field ρ} {fields : List (Field ρ)} {v : Value} {ms : Members} {put more : ρ → ρ} :
    f.decoder.Reads fuel depth v put → Writes fuel depth fields ms more →
    Writes fuel depth (f :: fields) ((f.name, v) :: ms) (more ∘ put)

theorem Writes.field {name : String} {required : Bool} {put : α → ρ → ρ} {fields : List (Field ρ)}
    {ms : Members} {more : ρ → ρ} (h : d.Reads fuel depth v a) (hms : Writes fuel depth fields ms more) :
    Writes fuel depth (⟨name, required, d.map put⟩ :: fields) ((name, v) :: ms) (more ∘ put a) :=
  .cons (h.map put) hms

/-- A member that was written is put into the record. -/
theorem readMember_written {fields : List (Field ρ)} {f : Field ρ} {put : ρ → ρ}
    (hf : fields.find? (·.name = f.name) = some f) (hv : f.decoder.Reads fuel depth v put) (draft : ρ)
    {seen : List String} (hseen : f.name ∉ seen) {rest : List UInt8} (hrest : Delimited rest) :
    readMember fields fuel depth f.name (draft, seen) (0x3A :: (v.encode ++ rest)) =
      .ok ((put draft, f.name :: seen), rest) := by
  have hcolon : readColon (0x3A :: (v.encode ++ rest)) = .ok (v.encode ++ rest) := by
    simp [readColon, skipBlanks_cons (show isBlankByte 0x3A = false by decide)]
  simp only [readMember, hf, if_neg hseen]
  exact bind_eq_ok_iff.2 ⟨_, hcolon, bind_eq_ok_iff.2 ⟨_, hv.ofText rest hrest, rfl⟩⟩

section

variable {σ : Type} {member : String → σ → Reader σ} {acc acc' : σ} {m : String × Value}
  {rest rest' : List UInt8} {bound : Nat}
  (h : member m.1 acc (0x3A :: (m.2.encode ++ rest)) = .ok (acc', rest'))
include h

theorem foldMembers_first :
    foldMembers member (bound + 1) true acc (encodeMember m ++ rest) =
      foldMembers member bound false acc' rest' := by
  have hkey := readString_quoted m.1 (0x3A :: (m.2.encode ++ rest))
  have hquote : ∀ text, skipBlanks (0x22 :: text) = 0x22 :: text := skipBlanks_cons (by decide)
  simp [foldMembers, encodeMember, hquote, hkey, h, bind, Except.bind]

theorem foldMembers_comma :
    foldMembers member (bound + 1) false acc (0x2C :: (encodeMember m ++ rest)) =
      foldMembers member bound false acc' rest' := by
  have hkey := readString_quoted m.1 (0x3A :: (m.2.encode ++ rest))
  have hcomma : ∀ text, skipBlanks (0x2C :: text) = 0x2C :: text := skipBlanks_cons (by decide)
  have hquote : ∀ text, skipBlanks (0x22 :: text) = 0x22 :: text := skipBlanks_cons (by decide)
  simp [foldMembers, encodeMember, hcomma, hquote, hkey, h, bind, Except.bind]

end

section

variable {fields suffix : List (Field ρ)} {ms : Members} {put : ρ → ρ}

/-- The members after the first are put into the record. -/
theorem foldMembers_moreMembers (h : Writes fuel depth suffix ms put)
    (hfind : ∀ f ∈ suffix, fields.find? (·.name = f.name) = some f)
    (hnames : (suffix.map (·.name)).Nodup) {seen : List String} (hseen : ∀ f ∈ suffix, f.name ∉ seen)
    {bound : Nat} (hbound : ms.length < bound) (draft : ρ) (rest : List UInt8) :
    foldMembers (readMember fields fuel depth) bound false (draft, seen)
        (encodeMoreMembers ms ++ 0x7D :: rest) =
      .ok ((put draft, (suffix.map (·.name)).reverse ++ seen), 0x7D :: rest) := by
  induction h generalizing bound draft seen with
  | nil =>
    obtain ⟨bound, rfl⟩ := Nat.exists_eq_succ_of_ne_zero (Nat.ne_of_gt hbound)
    rfl
  | @cons f suffix v ms put more hv _ ih =>
    obtain ⟨bound, rfl⟩ := Nat.exists_eq_succ_of_ne_zero (Nat.ne_of_gt (Nat.zero_lt_of_lt hbound))
    obtain ⟨hf, hfind⟩ := List.forall_mem_cons.1 hfind
    obtain ⟨hnew, hseen⟩ := List.forall_mem_cons.1 hseen
    rw [List.map_cons, List.nodup_cons] at hnames
    have hmember := readMember_written hf hv draft hnew (delimited_encodeMoreMembers ms rest)
    have hseen' : ∀ g ∈ suffix, g.name ∉ f.name :: seen := by
      intro g hg hmem
      rcases List.mem_cons.1 hmem with hsame | hmem
      · exact hnames.1 (hsame ▸ List.mem_map_of_mem hg)
      · exact hseen g hg hmem
    rw [encodeMoreMembers, List.flatMap_cons, List.cons_append, List.cons_append, List.append_assoc,
      ← encodeMoreMembers, foldMembers_comma hmember,
      ih hfind hnames.2 hseen' (Nat.lt_of_succ_lt_succ hbound)]
    simp

theorem find?_name_of_mem {fields : List (Field ρ)} (hnames : (fields.map (·.name)).Nodup) {f : Field ρ}
    (hf : f ∈ fields) : fields.find? (·.name = f.name) = some f := by
  cases hfind : fields.find? (·.name = f.name) with
  | none => simpa using List.find?_eq_none.1 hfind f hf
  | some g =>
    have hname : g.name = f.name := by simpa using List.find?_some hfind
    rw [List.inj_on_of_nodup_map hnames (List.mem_of_find?_eq_some hfind) hf hname]

/-- The members of an object are put into the record. -/
theorem foldMembers_members (h : Writes fuel depth fields ms put) (hnames : (fields.map (·.name)).Nodup)
    (hbound : ms.length < fuel) (blank : ρ) (rest : List UInt8) :
    foldMembers (readMember fields fuel depth) fuel true (blank, [])
        (bytesOf (Value.renderMembers ms) ++ 0x7D :: rest) =
      .ok ((put blank, (fields.map (·.name)).reverse), 0x7D :: rest) := by
  have hfind : ∀ f ∈ fields, fields.find? (·.name = f.name) = some f :=
    fun f hf => find?_name_of_mem hnames hf
  obtain ⟨bound, rfl⟩ := Nat.exists_eq_succ_of_ne_zero (Nat.ne_of_gt (Nat.zero_lt_of_lt hbound))
  cases h with
  | nil => rfl
  | @cons f suffix v ms put more hv hms =>
    have hmember := readMember_written (hfind f List.mem_cons_self) hv blank (List.not_mem_nil (a := f.name))
      (delimited_encodeMoreMembers ms rest)
    rw [List.map_cons, List.nodup_cons] at hnames
    have hseen : ∀ g ∈ suffix, g.name ∉ [f.name] := by
      intro g hg hmem
      exact hnames.1 (List.mem_singleton.1 hmem ▸ List.mem_map_of_mem hg)
    rw [bytesOf_renderMembers, List.append_assoc, foldMembers_first hmember,
      foldMembers_moreMembers hms (fun g hg => hfind g (List.mem_cons_of_mem _ hg)) hnames.2 hseen
        (Nat.lt_of_succ_lt_succ hbound)]
    simp

/-- A record that is written with all its fields in order is read by putting them in one after the other. -/
theorem ofText_record {name : String} {blank : ρ} (h : Writes fuel depth fields ms put)
    (hnames : (fields.map (·.name)).Nodup) (hbound : ms.length < fuel) (rest : List UInt8) :
    (record name blank fields).ofText fuel (depth + 1) ((Value.object ms).encode ++ rest) =
      .ok (put blank, rest) := by
  have hmembers := foldMembers_members h hnames hbound blank rest
  have hmissing : firstMissing? fields (fields.map (·.name)).reverse = none := by
    rw [firstMissing?, Option.map_eq_none_iff, List.find?_eq_none]
    intro f hf
    simpa using fun _ => ⟨f, hf, rfl⟩
  have hclose : closeObject (0x7D :: rest) = .ok rest := by
    simp [closeObject, skipBlanks_cons (show isBlankByte 0x7D = false by decide)]
  rw [encode_object, List.cons_append, List.append_assoc, List.singleton_append]
  simp only [record, skipBlanks_cons (show isBlankByte 0x7B = false by decide), if_true]
  refine bind_eq_ok_iff.2 ⟨_, hmembers, ?_⟩
  simp only [hmissing]
  exact bind_eq_ok_iff.2 ⟨rest, hclose, rfl⟩

/-- A whole text that is a record with all its fields in order. -/
theorem parse_record {name : String} {blank : ρ}
    (h : Writes ((Value.object ms).encode.length + 1) depth fields ms put) (hdepth : depth + 1 = maxDepth)
    (hnames : (fields.map (·.name)).Nodup) :
    (record name blank fields).parse (Value.object ms).encode = .ok (put blank) := by
  have hread : (record name blank fields).ofText _ (depth + 1) _ = _ :=
    ofText_record h hnames (Nat.lt_succ_of_le (le_length_encode_object ms)) []
  rw [List.append_nil, hdepth] at hread
  rw [parse, parseWith, mapError_eq_ok_iff]
  exact bind_eq_ok_iff.2 ⟨_, hread, rfl⟩

end

end Decoder

end RuleFlow.Json
