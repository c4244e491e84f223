import RuleFlow.Proofs.Json.Numberless
import RuleFlow.Proofs.Script.Units

/-!
# JSON values in the heap of a script

A value of a script stands for a JSON value without numbers if the heap holds its parts (`Script.Stands`). The
parts of an array or an object lie at lower addresses, so nothing that stands for a JSON value is inside itself.
What stands for a value goes on to do so when the heap grows (`Stands.mono`), and `load` makes it
(`stands_load`). Its text is that of the value, except that an object may list its members in another order, and
it is read as the value (`exists_textOf_of_stands`).
-/

namespace RuleFlow.Script

open Json (Members)

/-- In a heap, a value of a script stands for a JSON value, and its objects lie below an address. -/
inductive Stands (heap : Heap) : Nat → Json.Value → Val → Prop
  | null (bound : Nat) : Stands heap bound .null .null
  | bool (bound : Nat) (b : Bool) : Stands heap bound (.bool b) (.bool b)
  | string (bound : Nat) (s : String) : Stands heap bound (.string s) (.text (units s))
  | array {bound a : Nat} {parts : List (Json.Value × Val)} (ha : a < bound)
    (hget : heap[a]? = some (.array (parts.map (·.2)))) (h : ∀ p ∈ parts, Stands heap a p.1 p.2) :
    Stands heap bound (.array (parts.map (·.1))) (.object a)
  | object {bound a : Nat} {ms : Members} {parts : List (String × Json.Value × Val)} (ha : a < bound)
    (hget : heap[a]? = some (.plain none (parts.map fun p => (units p.1, p.2.2))))
    (hmembers : (parts.map fun p => (p.1, p.2.1)).Perm ms) (h : ∀ p ∈ parts, Stands heap a p.2.1 p.2.2) :
    Stands heap bound (.object ms) (.object a)

/-- A heap that has all objects of another one, and maybe more. -/
structure Grows (heap heap' : Heap) : Prop where
  size_le : heap.size ≤ heap'.size
  getElem? : ∀ (a : Nat) (o : Obj), heap[a]? = some o → heap'[a]? = some o

namespace Grows

variable {heap heap' heap'' : Heap}

theorem refl (heap : Heap) : Grows heap heap := ⟨Nat.le_refl _, fun _ _ h => h⟩

theorem trans (h : Grows heap heap') (h' : Grows heap' heap'') : Grows heap heap'' :=
  ⟨Nat.le_trans h.size_le h'.size_le, fun a o hget => h'.getElem? a o (h.getElem? a o hget)⟩

theorem push (heap : Heap) (o : Obj) : Grows heap (heap.push o) where
  size_le := by simp
  getElem? a o' hget := by
    obtain ⟨ha, rfl⟩ := Array.getElem?_eq_some_iff.1 hget
    rw [Array.getElem?_push_lt ha]

end Grows

/-- What stands for a value does so in a larger heap. -/
theorem Stands.mono {heap heap' : Heap} {bound bound' : Nat} {v : Json.Value} {w : Val} (h : Stands heap bound v w)
    (hgrows : Grows heap heap') (hbound : bound ≤ bound') : Stands heap' bound' v w := by
  induction h generalizing bound' with
  | null => exact .null bound'
  | bool bound b => exact .bool bound' b
  | string bound s => exact .string bound' s
  | array ha hget _ ih =>
    exact .array (Nat.lt_of_lt_of_le ha hbound) (hgrows.getElem? _ _ hget) fun p hp => ih p hp (Nat.le_refl _)
  | object ha hget hmembers _ ih =>
    exact .object (Nat.lt_of_lt_of_le ha hbound) (hgrows.getElem? _ _ hget) hmembers
      fun p hp => ih p hp (Nat.le_refl _)

/-! ## Loading -/

mutual

/-- What is in the heap stays there. -/
theorem grows_load : ∀ (v : Json.Value) (heap : Heap), Grows heap (load v heap).2
  | .null, heap => .refl heap
  | .bool _, heap => .refl heap
  | .number _, heap => .refl heap
  | .string _, heap => .refl heap
  | .array items, heap => (grows_loadItems items heap).trans (.push _ _)
  | .object ms, heap => (grows_loadMembers ms _ heap).trans (.push _ _)

theorem grows_loadItems : ∀ (items : List Json.Value) (heap : Heap), Grows heap (loadItems items heap).2
  | [], heap => .refl heap
  | v :: items, heap => (grows_load v heap).trans (grows_loadItems items _)

/-- Loading members leaves the objects where they are. -/
theorem grows_loadMembers : ∀ (ms : List (String × Json.Value)) (o : Option Nat × List (Units × Val))
    (heap : Heap), Grows heap (loadMembers ms o heap).2
  | [], _, heap => .refl heap
  | (_, v) :: ms, _, heap => (grows_load v heap).trans (grows_loadMembers ms _ _)

end

/-- A value for which, whenever it is loaded, something stands. -/
def Loads (v : Json.Value) : Prop :=
  ∀ heap, Stands (load v heap).2 (load v heap).2.size v (load v heap).1

/-- Items that can be loaded one by one can be loaded in a row. -/
theorem loadItems_of_loads {items : List Json.Value} (h : ∀ v ∈ items, Loads v) (heap : Heap) :
    ∃ parts : List (Json.Value × Val), parts.map (·.1) = items ∧ parts.map (·.2) = (loadItems items heap).1 ∧
      ∀ p ∈ parts, Stands (loadItems items heap).2 (loadItems items heap).2.size p.1 p.2 := by
  induction items generalizing heap with
  | nil => exact ⟨[], rfl, rfl, by simp⟩
  | cons v items ih =>
    obtain ⟨hv, hitems⟩ := List.forall_mem_cons.1 h
    obtain ⟨parts, hvalues, hwords, hparts⟩ := ih hitems (load v heap).2
    refine ⟨(v, (load v heap).1) :: parts, ?_, ?_, List.forall_mem_cons.2 ⟨?_, hparts⟩⟩
    · rw [List.map_cons, hvalues]
    · rw [List.map_cons, hwords]
      rfl
    · have hmore := grows_loadItems items (load v heap).2
      exact (hv heap).mono hmore hmore.size_le

theorem putMember_of_not_mem {key : Units} (v : Val) {ms : List (Units × Val)} (h : key ∉ ms.map (·.1)) :
    putMember key v ms = ms ++ [(key, v)] := by
  induction ms with
  | nil => rfl
  | cons m ms ih =>
    obtain ⟨k, w⟩ := m
    rw [List.map_cons, List.mem_cons, not_or] at h
    rw [putMember, if_neg (Ne.symm h.1), ih h.2, List.cons_append]

theorem addMember_units {key : String} (v : Val) {ms : List (Units × Val)} (hkey : key ≠ "__proto__")
    (h : units key ∉ ms.map (·.1)) : addMember (none, ms) (units key) v = (none, ms ++ [(units key, v)]) := by
  have hproto : units key ≠ prototypeKey := fun he => hkey (units_inj.1 he)
  simp only [addMember, if_neg hproto, putMember_of_not_mem v h]

/-- Members that can be loaded one by one can be loaded in a row, unless one names the prototype. -/
theorem loadMembers_of_loads {ms : Members} (hkeys : ∀ m ∈ ms, m.1 ≠ "__proto__") (hd : (ms.map (·.1)).Nodup)
    (h : ∀ m ∈ ms, Loads m.2) {seen : List (Units × Val)} (hseen : ∀ m ∈ ms, units m.1 ∉ seen.map (·.1))
    (heap : Heap) :
    ∃ parts : List (String × Json.Value × Val), parts.map (fun p => (p.1, p.2.1)) = ms ∧
      (loadMembers ms (none, seen) heap).1 = (none, seen ++ parts.map fun p => (units p.1, p.2.2)) ∧
      ∀ p ∈ parts, Stands (loadMembers ms (none, seen) heap).2 (loadMembers ms (none, seen) heap).2.size
        p.2.1 p.2.2 := by
  induction ms generalizing heap seen with
  | nil => exact ⟨[], rfl, by simp [loadMembers], by simp⟩
  | cons m ms ih =>
    obtain ⟨k, v⟩ := m
    obtain ⟨hkey, hkeys⟩ := List.forall_mem_cons.1 hkeys
    obtain ⟨hnew, hseen⟩ := List.forall_mem_cons.1 hseen
    obtain ⟨hv, hms⟩ := List.forall_mem_cons.1 h
    rw [List.map_cons, List.nodup_cons] at hd
    have hseen' : ∀ m ∈ ms, units m.1 ∉ (seen ++ [(units k, (load v heap).1)]).map (·.1) := by
      intro m hm
      rw [List.map_append, List.mem_append, not_or]
      refine ⟨hseen m hm, fun hmem => hd.1 ?_⟩
      have hsame : m.1 = k := units_inj.1 (List.mem_singleton.1 hmem)
      exact List.mem_map.2 ⟨m, hm, hsame⟩
    have hload : loadMembers ((k, v) :: ms) (none, seen) heap =
        loadMembers ms (none, seen ++ [(units k, (load v heap).1)]) (load v heap).2 := by
      simp only [loadMembers, addMember_units _ hkey hnew]
    obtain ⟨parts, hvalues, hwords, hparts⟩ := ih hkeys hd.2 hms hseen' (load v heap).2
    rw [hload]
    refine ⟨(k, v, (load v heap).1) :: parts, ?_, ?_, List.forall_mem_cons.2 ⟨?_, hparts⟩⟩
    · rw [List.map_cons, hvalues]
    · rw [hwords, List.append_assoc]
      rfl
    · have hmore := grows_loadMembers ms (none, seen ++ [(units k, (load v heap).1)]) (load v heap).2
      exact (hv heap).mono hmore hmore.size_le

/-- A value that was loaded stands for what was loaded. -/
theorem stands_load {key : String → Prop} (hkey : ∀ k, key k → k ≠ "__proto__") {depth : Nat} {v : Json.Value}
    (h : v.Numberless key depth) : Loads v := by
  induction h with
  | null => exact fun heap => .null _
  | bool depth b => exact fun heap => .bool _ b
  | string depth s => exact fun heap => .string _ s
  | @array depth items _ ih =>
    intro heap
    obtain ⟨parts, rfl, hwords, hparts⟩ := loadItems_of_loads ih heap
    refine .array ?_ ?_ fun p hp => (hparts p hp).mono (.push _ _) (Nat.le_refl _)
    · simp [load, allocate]
    · simp [load, allocate, hwords]
  | @object depth ms hsorted hkeys _ ih =>
    intro heap
    have hnew : ∀ m ∈ ms, units m.1 ∉ ([] : List (Units × Val)).map (·.1) := fun m _ => List.not_mem_nil
    obtain ⟨parts, hvalues, hwords, hparts⟩ :=
      loadMembers_of_loads (fun m hm => hkey _ (hkeys m hm)) hsorted.nodup_keys ih hnew heap
    refine .object ?_ ?_ (hvalues ▸ .refl _) fun p hp => (hparts p hp).mono (.push _ _) (Nat.le_refl _)
    · simp [load, allocate]
    · simp [load, allocate, hwords]

/-! ## Texts -/

/-- The listed order of members depends on their keys only. -/
theorem exists_listed_map {α : Type} (f : α → Units × Val) (xs : List α) :
    ∃ ys : List α, ys.Perm xs ∧ listed (xs.map f) = ys.map f := by
  let at_ := fun m : Units × Val => (positionOf? m.1).getD 0
  refine ⟨(xs.filter fun x => (positionOf? (f x).1).isSome).mergeSort (fun x y => at_ (f x) ≤ at_ (f y)) ++
    xs.filter fun x => (positionOf? (f x).1).isNone, ?_, ?_⟩
  · have hnone : (fun x => (positionOf? (f x).1).isNone) = fun x => !(positionOf? (f x).1).isSome := by
      funext x
      rw [Option.not_isSome]
    rw [hnone]
    exact ((List.mergeSort_perm ..).append_right _).trans (List.filter_append_perm ..)
  · rw [List.map_append, List.map_mergeSort (s := fun a b => at_ a ≤ at_ b) fun _ _ _ _ => rfl, listed,
      List.filter_map, List.filter_map]
    rfl

section

variable {heap : Heap} {fuel a : Nat} {around : List Nat}

theorem textsOf_of_forall₂ {ws : List Val} {texts : List (Option String)}
    (h : List.Forall₂ (fun w text => textOf heap fuel around w = .ok text) ws texts) :
    textsOf heap fuel around ws = .ok texts := by
  induction h with
  | nil => simp [textsOf]
  | cons hw _ ih => simp [textsOf, hw, ih, bind, Except.bind]

theorem textOf_array {ws : List Val} {texts : List (Option String)} (ha : a ∉ around)
    (hget : heap[a]? = some (.array ws)) (h : textsOf heap fuel (a :: around) ws = .ok texts) :
    textOf heap (fuel + 1) around (.object a) =
      .ok (some ("[" ++ ",".intercalate (texts.map (·.getD "null")) ++ "]")) := by
  simp [textOf, ha, hget, h, bind, Except.bind]

/-- Inside an object that lies below all those around it there is fuel left, and its parts lie below all. -/
theorem exists_less_fuel {bound : Nat} (ha : a < bound) (hfuel : bound ≤ fuel) (haround : ∀ b ∈ around, bound ≤ b) :
    a ∉ around ∧ ∃ less, fuel = less + 1 ∧ a ≤ less ∧ ∀ b ∈ a :: around, a ≤ b := by
  refine ⟨fun hmem => Nat.not_lt.2 (haround a hmem) ha, fuel - 1, by omega, by omega, ?_⟩
  exact List.forall_mem_cons.2 ⟨Nat.le_refl a, fun b hb => Nat.le_of_lt (Nat.lt_of_lt_of_le ha (haround b hb))⟩

/-- The text of a member whose value has one. -/
def memberText (m : (Units × Val) × Option String) : Option String :=
  m.2.map fun text => quoteUnits m.1.1 ++ ":" ++ text

/-- The text of an object, by the texts of its members. -/
theorem textOf_plain {prototype : Option Nat} {ms : List (Units × Val)} {texts : List (Option String)}
    (ha : a ∉ around) (hget : heap[a]? = some (.plain prototype ms))
    (h : textsOf heap fuel (a :: around) ((listed ms).map (·.2)) = .ok texts) :
    textOf heap (fuel + 1) around (.object a) =
      .ok (some ("\x7b" ++ ",".intercalate (((listed ms).zip texts).filterMap memberText) ++ "\x7d")) := by
  simp [textOf, ha, hget, h, bind, Except.bind]
  rfl

end

/-- The texts of members that all have one. -/
theorem filterMap_memberText {α : Type} {f : α → Units × Val} {xs : List α} {ms : Members}
    (h : List.Forall₂ (fun x m => (f x).1 = units m.1) xs ms) :
    ((xs.map f).zip (ms.map fun m => some m.2.render)).filterMap memberText =
      ms.map fun m => Json.quote m.1 ++ ":" ++ m.2.render := by
  induction h with
  | nil => rfl
  | @cons x m xs ms hx _ ih =>
    have hfirst : memberText (f x, some m.2.render) = some (Json.quote m.1 ++ ":" ++ m.2.render) := by
      rw [memberText, hx, quoteUnits_units]
      rfl
    rw [List.map_cons, List.map_cons, List.zip_cons_cons, List.filterMap_cons_some hfirst, ih, List.map_cons]

/-- What stands for a value is written as a text that is read as the value. The members of an object may be
written in another order. -/
theorem exists_textOf_of_stands {key : String → Prop} {heap : Heap} {bound depth : Nat} {v : Json.Value} {w : Val}
    (h : Stands heap bound v w) (hv : v.Numberless key depth) {fuel : Nat} {around : List Nat}
    (hfuel : bound ≤ fuel) (haround : ∀ a ∈ around, bound ≤ a) :
    ∃ written : Json.Value, textOf heap fuel around w = .ok (some written.render) ∧ written.ReadsAs depth v := by
  -- The parts of an object lie below it, so the addresses pay for the fuel and no object comes back to itself.
  induction h generalizing depth fuel around with
  | null => exact ⟨.null, by simp [textOf, Json.Value.render], Json.readsAs_null⟩
  | bool bound b =>
    refine ⟨.bool b, ?_, Json.readsAs_bool b⟩
    cases b <;> simp [textOf, Json.Value.render]
  | string bound s =>
    exact ⟨.string s, by simp [textOf, Json.Value.render, quoteUnits_units], Json.readsAs_string s⟩
  | @array bound a parts ha hget _ ih =>
    obtain ⟨hnot, fuel, rfl, hless, haround⟩ := exists_less_fuel ha hfuel haround
    cases hv with
    | @array depth _ hitems =>
      have hparts : ∀ p ∈ parts, ∃ written : Json.Value,
          textOf heap fuel (a :: around) p.2 = .ok (some written.render) ∧ written.ReadsAs depth p.1 :=
        fun p hp => ih p hp (hitems _ (List.mem_map_of_mem hp)) hless haround
      obtain ⟨written, hwritten⟩ := Json.exists_forall₂ hparts
      refine ⟨.array written, ?_, Json.readsAs_array ?_⟩
      · have htexts : textsOf heap fuel (a :: around) (parts.map (·.2)) =
            .ok (written.map fun x => some x.render) := by
          refine textsOf_of_forall₂ ?_
          rw [List.forall₂_map_left_iff, List.forall₂_map_right_iff]
          exact hwritten.imp fun p x hx => hx.1
        rw [textOf_array hnot hget htexts, List.map_map, Json.Value.render, ← Json.intercalate_render]
        rfl
      · rw [List.forall₂_map_right_iff]
        exact hwritten.flip.imp fun x p hx => hx.2
  | @object bound a ms parts ha hget hmembers _ ih =>
    obtain ⟨hnot, fuel, rfl, hless, haround⟩ := exists_less_fuel ha hfuel haround
    obtain ⟨shown, hshown, hlisted⟩ :=
      exists_listed_map (fun p : String × Json.Value × Val => (units p.1, p.2.2)) parts
    have hordered : (shown.map fun p => (p.1, p.2.1)).Perm ms := (hshown.map _).trans hmembers
    cases hv with
    | @object depth _ hsorted _ hvalues =>
      have hparts : ∀ p ∈ shown, ∃ m : String × Json.Value,
          textOf heap fuel (a :: around) p.2.2 = .ok (some m.2.render) ∧
            Json.EntryReadsAs depth m (p.1, p.2.1) := by
        intro p hp
        have hvalue := hvalues _ (hordered.mem_iff.1 (List.mem_map_of_mem hp))
        obtain ⟨written, htext, hreads⟩ := ih p (hshown.mem_iff.1 hp) hvalue hless haround
        exact ⟨(p.1, written), htext, rfl, hreads⟩
      obtain ⟨written, hwritten⟩ := Json.exists_forall₂ hparts
      refine ⟨.object written, ?_, ?_⟩
      · have htexts : textsOf heap fuel (a :: around)
            ((listed (parts.map fun p => (units p.1, p.2.2))).map (·.2)) =
              .ok (written.map fun m => some m.2.render) := by
          refine textsOf_of_forall₂ ?_
          rw [hlisted, List.map_map, List.forall₂_map_left_iff, List.forall₂_map_right_iff]
          exact hwritten.imp fun p m hm => hm.1
        have hmembers := filterMap_memberText (f := fun p : String × Json.Value × Val => (units p.1, p.2.2))
          (hwritten.imp fun p m hm => congrArg units hm.2.1.symm)
        rw [textOf_plain hnot hget htexts, hlisted, hmembers, Json.Value.render, ← Json.intercalate_renderMember]
      · have hentries := List.forall₂_map_right_iff.2 (hwritten.flip.imp fun m p hm => hm.2)
        have hreads := Json.readsAs_object hentries
        rw [Table.entries_ofList_of_perm hordered hsorted] at hreads
        exact hreads

end RuleFlow.Script
