import RuleFlow.Graph.Compile
import RuleFlow.Proofs.Json.Record
import RuleFlow.Proofs.Json.Sorted

/-!
# Reading the definition of a graph

A definition is described twice: by `graphShape`, against which a value is checked first, and by
`GraphPayload.decoder`, which reads it. `Shape.Accepts` says what it means to pass the check, and
`GraphPayload.named` what the members of a value name, looked up one by one. A value that passes the check is
read without a fault as just that (`GraphPayload.ofValue_of_accepts`).
-/

namespace RuleFlow

namespace Shape

mutual

/-- What it means that a value has a shape. -/
def Accepts : Shape → Json.Value → Prop
  | text least, v => ∃ s, v = .string s ∧ least ≤ s.length
  | textOrNull, v => v = .null ∨ ∃ s, v = .string s
  | list item, v => ∃ vs, v = .array vs ∧ ∀ x ∈ vs, item.Accepts x
  | record fields required, v =>
    ∃ ms, v = .object ms ∧ AcceptsFields fields ms ∧
      ∀ field ∈ required, ∃ x, Entries.get? field ms = some x

/-- Whether the members of an object have the shapes of their fields. -/
def AcceptsFields : List (String × Shape) → Json.Members → Prop
  | [], _ => True
  | (field, shape) :: fields, ms =>
    (∀ x, Entries.get? field ms = some x → shape.Accepts x) ∧ AcceptsFields fields ms

end

mutual

/-- A value violates nothing if and only if the shape accepts it. -/
theorem violations_eq_nil_iff (s : Shape) (pointer : String) (v : Json.Value) :
    s.violations pointer v = [] ↔ s.Accepts v := by
  cases s with
  | text least => cases v <;> simp [violations, Accepts]
  | textOrNull => cases v <;> simp [violations, Accepts]
  | list item =>
    cases v with
    | array vs =>
      simp only [violations, Accepts, List.flatMap_eq_nil_iff, Json.Value.array.injEq,
        exists_eq_left']
      constructor
      · intro h x hx
        obtain ⟨i, hi⟩ := List.mem_iff_getElem?.1 hx
        exact (violations_eq_nil_iff item _ x).1 (h (x, i) (List.mk_mem_zipIdx_iff_getElem?.2 hi))
      · rintro h ⟨x, i⟩ hx
        have hmem := List.mem_of_getElem? (List.mk_mem_zipIdx_iff_getElem?.1 hx)
        exact (violations_eq_nil_iff item _ x).2 (h x hmem)
    | _ => simp [violations, Accepts]
  | record fields required =>
    cases v with
    | object ms =>
      simp only [violations, Accepts, List.append_eq_nil_iff, fieldViolations_eq_nil_iff fields,
        List.map_eq_nil_iff, List.filter_eq_nil_iff, Json.Value.object.injEq, exists_eq_left']
      simp [Option.isNone_iff_eq_none, Option.ne_none_iff_exists']
    | _ => simp [violations, Accepts]

/-- Members violate nothing if and only if every field accepts its member. -/
theorem fieldViolations_eq_nil_iff (fields : List (String × Shape)) (pointer : String)
    (ms : Json.Members) : fieldViolations fields pointer ms = [] ↔ AcceptsFields fields ms := by
  cases fields with
  | nil => simp [fieldViolations, AcceptsFields]
  | cons f fields =>
    obtain ⟨field, shape⟩ := f
    rw [fieldViolations, List.append_eq_nil_iff, fieldViolations_eq_nil_iff fields, AcceptsFields]
    cases hx : Entries.get? field ms with
    | none => simp
    | some x => simp [violations_eq_nil_iff shape]

end

end Shape

namespace Json.Value

/-- The characters of a string. -/
def text : Value → String
  | string s => s
  | _ => ""

/-- The characters of a string, and none of null. -/
def text? : Value → Option String
  | string s => some s
  | _ => none

/-- The items of an array. -/
def items : Value → List Value
  | array vs => vs
  | _ => []

/-- The value under a key of an object. -/
def member? (v : Value) (key : String) : Option Value :=
  match v with
  | object ms => Entries.get? key ms
  | _ => none

end Json.Value

/-- The node that the members of an object describe. -/
def NodeSpec.named (v : Json.Value) : NodeSpec where
  id := ((v.member? "id").map (·.text)).getD ""
  typeName := ((v.member? "type").map (·.text)).getD ""
  name := ((v.member? "name").map (·.text)).getD ""
  config := (v.member? "config").getD (.object [])

/-- The connection that the members of an object describe. -/
def Connection.named (v : Json.Value) : Connection where
  source := ((v.member? "from_id").map (·.text)).getD ""
  target := ((v.member? "to_id").map (·.text)).getD ""
  label := ((v.member? "label").map (·.text)).getD ""

/-- The graph that the members of an object describe. -/
def GraphPayload.named (v : Json.Value) : GraphPayload where
  entry := (v.member? "first_rule_node_id").bind (·.text?)
  adaptors := ((v.member? "adaptors").map (·.items.map (·.text))).getD []
  nodes := ((v.member? "nodes").map (·.items.map NodeSpec.named)).getD []
  connections := ((v.member? "connections").map (·.items.map Connection.named)).getD []

/-! ## Reading what has the shape -/

attribute [ext] NodeSpec Connection GraphPayload

namespace Json.Decoder

theorem ofValue_string {v : Value} {least : Nat} (h : (Shape.text least).Accepts v) :
    string.ofValue v = .ok v.text := by
  obtain ⟨s, rfl, -⟩ := h
  rfl

theorem ofValue_option_string {v : Value} (h : Shape.textOrNull.Accepts v) :
    (option string).ofValue v = .ok v.text? := by
  rcases h with rfl | ⟨s, rfl⟩ <;> rfl

/-- A list of values of the right shape is read item by item. -/
theorem ofValue_list {α : Type} {d : Decoder α} {f : Value → α} {item : Shape} {v : Value}
    (h : (Shape.list item).Accepts v) (hd : ∀ x ∈ v.items, item.Accepts x → d.ofValue x = .ok (f x)) :
    (list d).ofValue v = .ok (v.items.map f) := by
  obtain ⟨vs, rfl, hvs⟩ := h
  exact mapM_eq_ok fun x hx => hd x hx (hvs x hx)

end Json.Decoder

open Json Json.Decoder

/-- A value of the right shape is read as the node that it names. -/
theorem NodeSpec.ofValue_of_accepts {v : Value} (hs : v.Sorted) (hv : nodeShape.Accepts v) :
    NodeSpec.decoder.ofValue v = .ok (NodeSpec.named v) := by
  obtain ⟨ms, rfl, ⟨-, hid, hname, htype, -⟩, hreq⟩ := hv
  have hd : (ms.map (·.1)).Nodup := hs.1.nodup_keys
  have setsId :
      (Field.mandatory "id" string fun v n => { n with id := v }).Sets ms NodeSpec.id Value.text :=
    Field.sets_mk (fun v h => ofValue_string (hid v h)) fun _ _ => rfl
  have setsType :
      (Field.mandatory "type" string fun v n => { n with typeName := v }).Sets ms NodeSpec.typeName
        Value.text :=
    Field.sets_mk (fun v h => ofValue_string (htype v h)) fun _ _ => rfl
  have setsName :
      (Field.optional "name" string fun v n => { n with name := v }).Sets ms NodeSpec.name Value.text :=
    Field.sets_mk (fun v h => ofValue_string (hname v h)) fun _ _ => rfl
  have setsConfig :
      (Field.optional "config" any fun v n => { n with config := v }).Sets ms NodeSpec.config fun v => v :=
    Field.sets_mk (fun _ _ => rfl) fun _ _ => rfl
  rw [NodeSpec.decoder, ofValue_record hd]
  · congr 1
    ext1
    · exact assign_get NodeSpec.id _ _ _ hd rfl setsId
        (by simp [Field.mandatory, Field.optional, Field.spares_mk])
    · exact assign_get NodeSpec.typeName _ _ _ hd rfl setsType
        (by simp [Field.mandatory, Field.optional, Field.spares_mk])
    · exact assign_get NodeSpec.name _ _ _ hd rfl setsName
        (by simp [Field.mandatory, Field.optional, Field.spares_mk])
    · rw [assign_get NodeSpec.config _ _ _ hd rfl setsConfig
        (by simp [Field.mandatory, Field.optional, Field.spares_mk])]
      simp [NodeSpec.named, Value.member?, Field.optional]
  · refine readable_of_forall hd ?_
    simp only [List.forall_mem_cons]
    exact ⟨setsId.readable, setsType.readable, setsName.readable, setsConfig.readable, by simp⟩
  · simpa [Field.mandatory, Field.optional] using hreq

/-- A value of the right shape is read as the connection that it names. -/
theorem Connection.ofValue_of_accepts {v : Value} (hs : v.Sorted) (hv : connectionShape.Accepts v) :
    Connection.decoder.ofValue v = .ok (Connection.named v) := by
  obtain ⟨ms, rfl, ⟨hsource, hlabel, htarget, -⟩, hreq⟩ := hv
  have hd : (ms.map (·.1)).Nodup := hs.1.nodup_keys
  have setsSource :
      (Field.mandatory "from_id" string fun v c => { c with source := v }).Sets ms Connection.source
        Value.text :=
    Field.sets_mk (fun v h => ofValue_string (hsource v h)) fun _ _ => rfl
  have setsTarget :
      (Field.mandatory "to_id" string fun v c => { c with target := v }).Sets ms Connection.target
        Value.text :=
    Field.sets_mk (fun v h => ofValue_string (htarget v h)) fun _ _ => rfl
  have setsLabel :
      (Field.mandatory "label" string fun v c => { c with label := v }).Sets ms Connection.label
        Value.text :=
    Field.sets_mk (fun v h => ofValue_string (hlabel v h)) fun _ _ => rfl
  rw [Connection.decoder, ofValue_record hd]
  · congr 1
    ext1
    · exact assign_get Connection.source _ _ _ hd rfl setsSource
        (by simp [Field.mandatory, Field.spares_mk])
    · exact assign_get Connection.target _ _ _ hd rfl setsTarget
        (by simp [Field.mandatory, Field.spares_mk])
    · exact assign_get Connection.label _ _ _ hd rfl setsLabel
        (by simp [Field.mandatory, Field.spares_mk])
  · refine readable_of_forall hd ?_
    simp only [List.forall_mem_cons]
    exact ⟨setsSource.readable, setsTarget.readable, setsLabel.readable, by simp⟩
  · simpa [Field.mandatory] using hreq

/-- The items of a member of a sorted object are sorted. -/
theorem sorted_of_mem_items {ms : Members} (hs : (Value.object ms).Sorted) {key : String} {v x : Value}
    (hv : Entries.get? key ms = some v) (hx : x ∈ v.items) : x.Sorted := by
  have hsv : v.Sorted := Value.sortedMembers_iff.1 hs.2 _ (Entries.mem_of_get? hv)
  cases v with
  | array vs => exact Value.sortedItems_iff.1 hsv x hx
  | _ => simp [Value.items] at hx

/-- A value that passes the check is read without a fault, as what its members name. -/
theorem GraphPayload.ofValue_of_accepts {v : Value} (hs : v.Sorted) (hv : graphShape.Accepts v) :
    GraphPayload.decoder.ofValue v = .ok (GraphPayload.named v) := by
  obtain ⟨ms, rfl, ⟨hadaptors, hconnections, hentry, hnodes, -⟩, hreq⟩ := hv
  have hd : (ms.map (·.1)).Nodup := hs.1.nodup_keys
  have setsEntry :
      (Field.optional "first_rule_node_id" (option string) fun v g => { g with entry := v }).Sets
        ms GraphPayload.entry Value.text? :=
    Field.sets_mk (fun v h => ofValue_option_string (hentry v h)) fun _ _ => rfl
  have setsAdaptors :
      (Field.optional "adaptors" (list string) fun v g => { g with adaptors := v }).Sets
        ms GraphPayload.adaptors fun v => v.items.map (·.text) :=
    Field.sets_mk (fun v h => ofValue_list (hadaptors v h) fun _ _ => ofValue_string) fun _ _ => rfl
  have setsNodes :
      (Field.mandatory "nodes" (list NodeSpec.decoder) fun v g => { g with nodes := v }).Sets
        ms GraphPayload.nodes fun v => v.items.map NodeSpec.named :=
    Field.sets_mk (fun v h => ofValue_list (hnodes v h) fun _ hx =>
      NodeSpec.ofValue_of_accepts (sorted_of_mem_items hs h hx)) fun _ _ => rfl
  have setsConnections :
      (Field.optional "connections" (list Connection.decoder) fun v g =>
        { g with connections := v }).Sets ms GraphPayload.connections
        fun v => v.items.map Connection.named :=
    Field.sets_mk (fun v h => ofValue_list (hconnections v h) fun _ hx =>
      Connection.ofValue_of_accepts (sorted_of_mem_items hs h hx)) fun _ _ => rfl
  rw [GraphPayload.decoder, ofValue_record hd]
  · congr 1
    ext1
    · rw [assign_get GraphPayload.entry _ _ _ hd rfl setsEntry
        (by simp [Field.mandatory, Field.optional, Field.spares_mk])]
      show ((Entries.get? "first_rule_node_id" ms).map Value.text?).getD none = _
      cases h : Entries.get? "first_rule_node_id" ms <;> simp [GraphPayload.named, Value.member?, h]
    · exact assign_get GraphPayload.adaptors _ _ _ hd rfl setsAdaptors
        (by simp [Field.mandatory, Field.optional, Field.spares_mk])
    · exact assign_get GraphPayload.nodes _ _ _ hd rfl setsNodes
        (by simp [Field.mandatory, Field.optional, Field.spares_mk])
    · exact assign_get GraphPayload.connections _ _ _ hd rfl
        setsConnections (by simp [Field.mandatory, Field.optional, Field.spares_mk])
  · refine readable_of_forall hd ?_
    simp only [List.forall_mem_cons]
    exact ⟨setsEntry.readable, setsAdaptors.readable, setsNodes.readable, setsConnections.readable,
      by simp⟩
  · simpa [Field.mandatory, Field.optional] using hreq

end RuleFlow
