import Mathlib.Data.List.Forall2
import RuleFlow.Proofs.Graph.Compile

/-!
# The format of definitions

What a JSON value must be to define a graph, and which graph it then defines, is said here member by
member (`GraphPayload.DescribedBy`), without the check of the shape and without the reader. A value describes
a graph exactly if it passes the check, and then the graph that its members name
(`GraphPayload.describedBy_iff`). So the reader accepts what the check accepts, as what it describes, and a
value that is refused is refused by the check alone (`GraphPayload.read_iff_describedBy`).
-/

namespace RuleFlow

open Json (Value)

/-- An object describes a node: by its id and its type, which are not empty, and, if they are there, by a name
and by the configuration, an object. Whatever else it holds is ignored. -/
structure NodeSpec.DescribedBy (n : NodeSpec) (v : Value) : Prop where
  id : v.member? "id" = some (.string n.id) ∧ n.id ≠ ""
  typeName : v.member? "type" = some (.string n.typeName) ∧ n.typeName ≠ ""
  name : v.member? "name" = some (.string n.name) ∨ v.member? "name" = none ∧ n.name = ""
  config : (v.member? "config" = some n.config ∧ ∃ ms, n.config = .object ms) ∨
    v.member? "config" = none ∧ n.config = .object []

/-- An object describes a connection: by its ends, and by its label, which is not empty. -/
structure Connection.DescribedBy (c : Connection) (v : Value) : Prop where
  source : v.member? "from_id" = some (.string c.source)
  target : v.member? "to_id" = some (.string c.target)
  label : v.member? "label" = some (.string c.label) ∧ c.label ≠ ""

/-- An object describes a graph: by its nodes, and, if they are there, by its connections, by its adaptors,
whose names are not empty, and by its entry, which may be null. -/
structure GraphPayload.DescribedBy (p : GraphPayload) (v : Value) : Prop where
  nodes : ∃ xs, v.member? "nodes" = some (.array xs) ∧ List.Forall₂ NodeSpec.DescribedBy p.nodes xs
  connections : (∃ xs, v.member? "connections" = some (.array xs) ∧
      List.Forall₂ Connection.DescribedBy p.connections xs) ∨
    v.member? "connections" = none ∧ p.connections = []
  adaptors : (∃ xs, v.member? "adaptors" = some (.array xs) ∧
      List.Forall₂ (fun name x => x = .string name ∧ name ≠ "") p.adaptors xs) ∨
    v.member? "adaptors" = none ∧ p.adaptors = []
  entry : (∃ id, v.member? "first_rule_node_id" = some (.string id) ∧ p.entry = some id) ∨
    v.member? "first_rule_node_id" = some .null ∧ p.entry = none ∨
    v.member? "first_rule_node_id" = none ∧ p.entry = none

namespace Shape

/-- An object has its shape by its members. -/
theorem accepts_record_iff {fields : List (String × Shape)} {required : List String} {v : Value} :
    (record fields required).Accepts v ↔ (∃ ms, v = .object ms) ∧
      (∀ field ∈ fields, ∀ x, v.member? field.1 = some x → field.2.Accepts x) ∧
      ∀ field ∈ required, ∃ x, v.member? field = some x := by
  have hfields : ∀ (fields : List (String × Shape)) ms, AcceptsFields fields ms ↔
      ∀ field ∈ fields, ∀ x, Entries.get? field.1 ms = some x → field.2.Accepts x := by
    intro fields ms
    induction fields with
    | nil => simp [AcceptsFields]
    | cons field fields ih => rw [AcceptsFields, ih, List.forall_mem_cons]
  rw [Accepts]
  constructor
  · rintro ⟨ms, rfl, hms, hrequired⟩
    exact ⟨⟨ms, rfl⟩, (hfields fields ms).1 hms, hrequired⟩
  · rintro ⟨⟨ms, rfl⟩, hms, hrequired⟩
    exact ⟨ms, rfl, (hfields fields ms).2 hms, hrequired⟩

end Shape

section Members

variable {α : Type} {v : Value} {key : String}

theorem Json.Value.exists_object_of_member? {x : Value} (h : v.member? key = some x) :
    ∃ ms, v = .object ms := by
  cases v with
  | object ms => exact ⟨ms, rfl⟩
  | _ => cases h

/-- The values of a shape stand for something each. -/
def Shape.StandsFor (shape : Shape) (f : Value → α) (R : α → Value → Prop) : Prop :=
  ∀ a x, R a x ↔ shape.Accepts x ∧ a = f x

/-- The shape of a text stands for texts that are long enough. -/
theorem Shape.standsFor_text (least : ℕ) :
    (text least).StandsFor Value.text fun s x => x = .string s ∧ least ≤ s.length := by
  intro s x
  rw [Accepts]
  constructor
  · rintro ⟨rfl, hs⟩
    exact ⟨⟨s, rfl, hs⟩, rfl⟩
  · rintro ⟨⟨t, rfl, ht⟩, rfl⟩
    exact ⟨rfl, ht⟩

/-- The shape of a text or null stands for a text that may be missing. -/
theorem Shape.standsFor_textOrNull :
    textOrNull.StandsFor Value.text? fun s x =>
      (∃ t, x = .string t ∧ s = some t) ∨ x = .null ∧ s = none := by
  intro s x
  rw [Accepts]
  constructor
  · rintro (⟨t, rfl, rfl⟩ | ⟨rfl, rfl⟩)
    · exact ⟨.inr ⟨t, rfl⟩, rfl⟩
    · exact ⟨.inl rfl, rfl⟩
  · rintro ⟨rfl | ⟨t, rfl⟩, rfl⟩
    · exact .inr ⟨rfl, rfl⟩
    · exact .inl ⟨t, rfl, rfl⟩

theorem Shape.standsFor_object : (record [] []).StandsFor id fun w x => x = w ∧ ∃ ms, w = .object ms := by
  intro w x
  rw [accepts_record_iff]
  constructor
  · rintro ⟨rfl, hx⟩
    exact ⟨⟨hx, by simp, by simp⟩, rfl⟩
  · rintro ⟨⟨hx, -, -⟩, rfl⟩
    exact ⟨rfl, hx⟩

variable {shape : Shape} {f : Value → α} {R : α → Value → Prop}

theorem Shape.StandsFor.forall₂_iff (h : shape.StandsFor f R) {as : List α} {xs : List Value} :
    List.Forall₂ R as xs ↔ (∀ x ∈ xs, shape.Accepts x) ∧ as = xs.map f := by
  induction xs generalizing as with
  | nil => simp
  | cons x xs ih =>
    cases as with
    | nil => simp
    | cons a as =>
      rw [List.forall₂_cons, ih, h, List.forall_mem_cons, List.map_cons, List.cons.injEq]
      exact and_and_and_comm

theorem Shape.StandsFor.list (h : shape.StandsFor f R) :
    (list shape).StandsFor (fun x => x.items.map f) fun as x =>
      ∃ xs, x = .array xs ∧ List.Forall₂ R as xs := by
  intro as x
  rw [Accepts]
  constructor
  · rintro ⟨xs, rfl, hxs⟩
    obtain ⟨hxs, has⟩ := h.forall₂_iff.1 hxs
    exact ⟨⟨xs, rfl, hxs⟩, has⟩
  · rintro ⟨⟨xs, rfl, hxs⟩, has⟩
    exact ⟨xs, rfl, h.forall₂_iff.2 ⟨hxs, has⟩⟩

/-- A member that must be there. -/
theorem Shape.StandsFor.required (h : shape.StandsFor f R) (v : Value) (key : String) (a default : α) :
    (∃ x, v.member? key = some x ∧ R a x) ↔ (∃ x, v.member? key = some x) ∧
      (∀ x, v.member? key = some x → shape.Accepts x) ∧ a = ((v.member? key).map f).getD default := by
  cases v.member? key with
  | none => simp
  | some x => simp [h a x]

/-- A member that may be missing. -/
theorem Shape.StandsFor.optional (h : shape.StandsFor f R) (v : Value) (key : String) (a default : α) :
    ((∃ x, v.member? key = some x ∧ R a x) ∨ v.member? key = none ∧ a = default) ↔
      (∀ x, v.member? key = some x → shape.Accepts x) ∧ a = ((v.member? key).map f).getD default := by
  cases v.member? key with
  | none => simp
  | some x => simp [h a x]

/-- A text that may be null or missing. -/
theorem member?_textOrNull_iff (v : Value) (key : String) (entry : Option String) :
    ((∃ s, v.member? key = some (.string s) ∧ entry = some s) ∨
        v.member? key = some .null ∧ entry = none ∨ v.member? key = none ∧ entry = none) ↔
      (∀ x, v.member? key = some x → Shape.textOrNull.Accepts x) ∧
        entry = (v.member? key).bind (·.text?) := by
  cases v.member? key with
  | none => simp
  | some x => simpa using Shape.standsFor_textOrNull entry x

end Members

/-! ## The shape and the format -/

theorem one_le_length_iff {s : String} : 1 ≤ s.length ↔ s ≠ "" := by
  rw [Nat.one_le_iff_ne_zero, ne_eq, String.length_eq_zero_iff]

theorem NodeSpec.standsFor_nodeShape : nodeShape.StandsFor NodeSpec.named NodeSpec.DescribedBy := by
  intro n v
  have hid := (Shape.standsFor_text 1).required v "id" n.id ""
  have htype := (Shape.standsFor_text 1).required v "type" n.typeName ""
  have hname := (Shape.standsFor_text 0).optional v "name" n.name ""
  have hconfig := Shape.standsFor_object.optional v "config" n.config (.object [])
  simp only [existsAndEq, true_and, and_true, one_le_length_iff, Nat.zero_le, Option.map_id_fun, id_eq]
    at hid htype hname hconfig
  rw [nodeShape, Shape.accepts_record_iff, NodeSpec.ext_iff]
  simp only [List.forall_mem_cons]
  constructor
  · intro h
    obtain ⟨hasId, acceptsId, eqId⟩ := hid.1 h.id
    obtain ⟨hasType, acceptsType, eqType⟩ := htype.1 h.typeName
    obtain ⟨acceptsName, eqName⟩ := hname.1 h.name
    obtain ⟨acceptsConfig, eqConfig⟩ := hconfig.1 h.config
    exact ⟨⟨Value.exists_object_of_member? h.id.1, ⟨acceptsConfig, acceptsId, acceptsName, acceptsType,
      by simp⟩, hasId, hasType, by simp⟩, eqId, eqType, eqName, eqConfig⟩
  · rintro ⟨⟨-, ⟨acceptsConfig, acceptsId, acceptsName, acceptsType, -⟩, hasId, hasType, -⟩, eqId, eqType,
      eqName, eqConfig⟩
    exact ⟨hid.2 ⟨hasId, acceptsId, eqId⟩, htype.2 ⟨hasType, acceptsType, eqType⟩,
      hname.2 ⟨acceptsName, eqName⟩, hconfig.2 ⟨acceptsConfig, eqConfig⟩⟩

/-- The shape of a connection stands for its description. -/
theorem Connection.standsFor_connectionShape :
    connectionShape.StandsFor Connection.named Connection.DescribedBy := by
  intro c v
  have hsource := (Shape.standsFor_text 0).required v "from_id" c.source ""
  have htarget := (Shape.standsFor_text 0).required v "to_id" c.target ""
  have hlabel := (Shape.standsFor_text 1).required v "label" c.label ""
  simp only [existsAndEq, true_and, and_true, one_le_length_iff, Nat.zero_le] at hsource htarget hlabel
  rw [connectionShape, Shape.accepts_record_iff, Connection.ext_iff]
  simp only [List.forall_mem_cons]
  constructor
  · intro h
    obtain ⟨hasSource, acceptsSource, eqSource⟩ := hsource.1 h.source
    obtain ⟨hasTarget, acceptsTarget, eqTarget⟩ := htarget.1 h.target
    obtain ⟨hasLabel, acceptsLabel, eqLabel⟩ := hlabel.1 h.label
    exact ⟨⟨Value.exists_object_of_member? h.source, ⟨acceptsSource, acceptsLabel, acceptsTarget, by simp⟩,
      hasSource, hasTarget, hasLabel, by simp⟩, eqSource, eqTarget, eqLabel⟩
  · rintro ⟨⟨-, ⟨acceptsSource, acceptsLabel, acceptsTarget, -⟩, hasSource, hasTarget, hasLabel, -⟩,
      eqSource, eqTarget, eqLabel⟩
    exact ⟨hsource.2 ⟨hasSource, acceptsSource, eqSource⟩, htarget.2 ⟨hasTarget, acceptsTarget, eqTarget⟩,
      hlabel.2 ⟨hasLabel, acceptsLabel, eqLabel⟩⟩

/-- The shape of a definition stands for its description. -/
theorem GraphPayload.standsFor_graphShape :
    graphShape.StandsFor GraphPayload.named GraphPayload.DescribedBy := by
  intro p v
  have hnodes := NodeSpec.standsFor_nodeShape.list.required v "nodes" p.nodes []
  have hconnections := Connection.standsFor_connectionShape.list.optional v "connections" p.connections []
  have hadaptors := (Shape.standsFor_text 1).list.optional v "adaptors" p.adaptors []
  have hentry := member?_textOrNull_iff v "first_rule_node_id" p.entry
  simp only [existsAndEq, true_and, one_le_length_iff] at hnodes hconnections hadaptors
  rw [graphShape, Shape.accepts_record_iff, GraphPayload.ext_iff]
  simp only [List.forall_mem_cons]
  constructor
  · intro h
    obtain ⟨hasNodes, acceptsNodes, eqNodes⟩ := hnodes.1 h.nodes
    obtain ⟨acceptsConnections, eqConnections⟩ := hconnections.1 h.connections
    obtain ⟨acceptsAdaptors, eqAdaptors⟩ := hadaptors.1 h.adaptors
    obtain ⟨acceptsEntry, eqEntry⟩ := hentry.1 h.entry
    obtain ⟨xs, hxs, -⟩ := h.nodes
    exact ⟨⟨Value.exists_object_of_member? hxs, ⟨acceptsAdaptors, acceptsConnections, acceptsEntry,
      acceptsNodes, by simp⟩, hasNodes, by simp⟩, eqEntry, eqAdaptors, eqNodes, eqConnections⟩
  · rintro ⟨⟨-, ⟨acceptsAdaptors, acceptsConnections, acceptsEntry, acceptsNodes, -⟩, hasNodes, -⟩,
      eqEntry, eqAdaptors, eqNodes, eqConnections⟩
    exact ⟨hnodes.2 ⟨hasNodes, acceptsNodes, eqNodes⟩, hconnections.2 ⟨acceptsConnections, eqConnections⟩,
      hadaptors.2 ⟨acceptsAdaptors, eqAdaptors⟩, hentry.2 ⟨acceptsEntry, eqEntry⟩⟩

/-! ## Reading -/

namespace GraphPayload

variable {p : GraphPayload} {payload : List UInt8} {v : Value}

/-- A value describes a graph exactly if it has the shape of a definition, and then the graph that it
names. -/
theorem describedBy_iff : p.DescribedBy v ↔ graphShape.Accepts v ∧ p = .named v :=
  standsFor_graphShape p v

/-- A value violates nothing if and only if it describes a definition. -/
theorem exists_describedBy_iff :
    (∃ p : GraphPayload, p.DescribedBy v) ↔ graphShape.violations "" v = [] := by
  simp only [describedBy_iff, exists_and_left, exists_eq, and_true, Shape.violations_eq_nil_iff]

/-- A value without the shape of a definition is refused for its departures from the shape. -/
theorem read_of_violations (hparse : Json.parse payload = .ok v) (hv : graphShape.violations "" v ≠ []) :
    read payload = .error ((graphShape.violations "" v).map fun x => .graph (.shape x.1 x.2)) := by
  simp only [read, hparse]

/-- A value is read as the definition that it describes and as no other. -/
theorem read_eq_ok_iff (hparse : Json.parse payload = .ok v) : read payload = .ok p ↔ p.DescribedBy v := by
  rw [describedBy_iff, ← Shape.violations_eq_nil_iff graphShape "" v]
  by_cases hv : graphShape.violations "" v = []
  · rw [Graph.read_of_accepts hparse ((Shape.violations_eq_nil_iff _ _ _).1 hv)]
    simp [hv, eq_comm]
  · simp [read_of_violations hparse hv, hv]

/-- Nothing is refused because it cannot be read as a graph after it has passed the check. -/
theorem kind_ne_json_of_read {es : List RuleError} (h : read payload = .error es) :
    ∀ e ∈ es, e.kind ≠ .json := by
  cases hparse : Json.parse payload with
  | error e =>
    simp only [read, hparse, Except.error.injEq] at h
    subst h
    simp [RuleError.kind]
  | ok v =>
    by_cases hv : graphShape.violations "" v = []
    · rw [Graph.read_of_accepts hparse ((Shape.violations_eq_nil_iff _ _ _).1 hv)] at h
      cases h
    · rw [read_of_violations hparse hv] at h
      obtain rfl := Except.error.inj h
      rw [List.forall_mem_map]
      rintro x -
      simp [RuleError.kind]

/-- A JSON value, whose objects hold each key once and in order. It passes the check exactly if it describes a
graph, and is then read as the graph that it describes, without a fault. So a text of the value is accepted as
what the value describes, or refused for its departures from the shape; and no text is refused by the reader
after the check. -/
theorem read_iff_describedBy (hv : v.Sorted) :
    (graphShape.violations "" v = [] ↔ ∃ p : GraphPayload, p.DescribedBy v) ∧
      (∀ p : GraphPayload, p.DescribedBy v → decoder.ofValue v = .ok p) ∧
      (∀ payload, Json.parse payload = .ok v →
        (∀ p, read payload = .ok p ↔ p.DescribedBy v) ∧
        ((¬∃ p : GraphPayload, p.DescribedBy v) → ∃ xs : List (String × Violation), xs ≠ [] ∧
          read payload = .error (xs.map fun x => .graph (.shape x.1 x.2)))) ∧
      ∀ payload es, read payload = .error es → ∀ e ∈ es, e.kind ≠ .json := by
  refine ⟨exists_describedBy_iff.symm, fun p hp => ?_,
    fun payload hparse => ⟨fun p => ?_, fun hnone => ?_⟩, fun payload es => kind_ne_json_of_read⟩
  · obtain ⟨haccepts, rfl⟩ := describedBy_iff.1 hp
    exact ofValue_of_accepts hv haccepts
  · exact read_eq_ok_iff hparse
  · rw [exists_describedBy_iff] at hnone
    exact ⟨_, hnone, read_of_violations hparse hnone⟩

/-- A definition with nothing in it but a node, the name of an adaptor and members that mean nothing. -/
def sparse : Value :=
  .object [("adaptors", .array [.string "mq"]), ("first_rule_node_id", .null),
    ("nodes", .array [.object [("id", .string "a"), ("note", .bool true), ("type", .string "log")]]),
    ("version", .null)]

theorem read_sparse :
    sparse.Sorted ∧ Json.parse (Json.bytesOf sparse.render) = .ok sparse ∧
      DescribedBy { adaptors := ["mq"], nodes := [{ id := "a", typeName := "log" }] } sparse ∧
      read (Json.bytesOf sparse.render) =
        .ok { adaptors := ["mq"], nodes := [{ id := "a", typeName := "log" }] } := by
  have hparse : Json.parse (Json.bytesOf sparse.render) = .ok sparse := by decide +kernel
  have hsorted : sparse.Sorted := Json.sorted_of_parse hparse
  have hread : read (Json.bytesOf sparse.render) =
      .ok { adaptors := ["mq"], nodes := [{ id := "a", typeName := "log" }] } := by decide +kernel
  have hdescribed := (((read_iff_describedBy hsorted).2.2.1 _ hparse).1 _).1 hread
  exact ⟨hsorted, hparse, hdescribed, hread⟩

end GraphPayload

end RuleFlow
