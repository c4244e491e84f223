import RuleFlow.Proofs.Graph.Definition
import RuleFlow.Proofs.Graph.Routes

/-!
# What compiles, and to what

A definition compiles exactly if it is well formed (`GraphPayload.WellFormed`) and the handlers of its nodes
can be made one after the other (`Catalogue.Makes`): `Graph.compile_eq_ok_iff`. Both are said of the
definition alone, without the tables and the search of the compiler. What it compiles to holds the nodes, the
routes and the entry of the definition and nothing else (`Graph.Represents`).
-/

namespace RuleFlow

namespace GraphPayload

/-- Some connection leads from one node to another. -/
def Leads (p : GraphPayload) (a b : String) : Prop :=
  ∃ c ∈ p.connections, c.source = a ∧ c.target = b

/-- A definition whose nodes have different ids, whose connections and entry name nodes, and whose
connections lead from no node back to itself. -/
structure WellFormed (p : GraphPayload) : Prop where
  nodes : p.nodes ≠ []
  distinct : p.ids.Nodup
  ends : ∀ c ∈ p.connections, c.source ∈ p.ids ∧ c.target ∈ p.ids
  entry : ∀ id, p.entry = some id → id ∈ p.ids
  acyclic : ∀ a, ¬Relation.TransGen p.Leads a a

variable {p : GraphPayload}

/-- No id is reported as repeated if and only if the ids are new and different. -/
theorem repeatedAfter_eq_nil_iff {seen ids : List String} :
    repeatedAfter seen ids = [] ↔ ids.Nodup ∧ ∀ id ∈ ids, id ∉ seen := by
  induction ids generalizing seen with
  | nil => simp [repeatedAfter]
  | cons id ids ih =>
    rw [repeatedAfter]
    split
    case isTrue h => simp [h]
    case isFalse h =>
      rw [ih, List.nodup_cons, List.forall_mem_cons]
      constructor
      · rintro ⟨hd, hseen⟩
        refine ⟨⟨fun hmem => hseen id hmem List.mem_cons_self, hd⟩, h, fun x hx hmem => ?_⟩
        exact hseen x hx (List.mem_cons_of_mem _ hmem)
      · rintro ⟨⟨hid, hd⟩, -, hseen⟩
        refine ⟨hd, fun x hx hmem => ?_⟩
        rcases List.mem_cons.1 hmem with rfl | hmem
        · exact hid hx
        · exact hseen x hx hmem

theorem firstAfter_eq_self {seen : List String} {ns : List NodeSpec} (hd : (ns.map (·.id)).Nodup)
    (hseen : ∀ n ∈ ns, n.id ∉ seen) : firstAfter seen ns = ns := by
  induction ns generalizing seen with
  | nil => rfl
  | cons n ns ih =>
    rw [List.map_cons, List.nodup_cons] at hd
    rw [firstAfter, if_neg (hseen n List.mem_cons_self), ih hd.2]
    intro m hm hmem
    rcases List.mem_cons.1 hmem with he | hmem
    · exact hd.1 (he ▸ List.mem_map_of_mem hm)
    · exact hseen m (List.mem_cons_of_mem _ hm) hmem

theorem distinctNodes_eq_nodes (hd : p.ids.Nodup) : p.distinctNodes = p.nodes :=
  firstAfter_eq_self hd (by simp)

/-- A connection between nodes that are there is no defect. -/
theorem dangling_eq_nil_iff {c : Connection} :
    p.dangling c = [] ↔ c.source ∈ p.ids ∧ c.target ∈ p.ids := by
  rw [dangling, List.append_eq_nil_iff]
  by_cases hs : c.source ∈ p.ids <;> by_cases ht : c.target ∈ p.ids <;> simp [hs, ht]

/-- An entry is no defect if it is a node or is not given. -/
theorem entryDefects_eq_nil_iff : p.entryDefects = [] ↔ ∀ id, p.entry = some id → id ∈ p.ids := by
  unfold entryDefects
  cases p.entry with
  | none => simp
  | some id => by_cases h : id ∈ p.ids <;> simp [h]

/-- If all connections lie between nodes, the routes are those of all connections. -/
theorem routes_eq_ofConnections (h : ∀ c ∈ p.connections, c.source ∈ p.ids ∧ c.target ∈ p.ids) :
    p.routes = Routes.ofConnections p.connections := by
  rw [routes, Routes.ofConnections, List.filter_eq_self.2 fun c hc => decide_eq_true (h c hc)]

/-- If all connections lie between nodes, routes lead where connections do. -/
theorem leads_routes (h : ∀ c ∈ p.connections, c.source ∈ p.ids ∧ c.target ∈ p.ids) :
    p.routes.Leads = p.Leads := by
  funext a b
  rw [routes_eq_ofConnections h]
  exact propext Routes.leads_ofConnections

end GraphPayload

/-! ## Making handlers -/

section Making

variable {ω η : Type}

/-- The handlers of some nodes are made one after the other and none fails. -/
inductive Catalogue.Makes (k : Catalogue ω η) : List NodeSpec → ω → List η → ω → Prop
  | nil (w : ω) : k.Makes [] w [] w
  | cons {n : NodeSpec} {ns : List NodeSpec} {h : η} {hs : List η} {w w₁ w₂ : ω} :
    k.create n w = (.ok h, w₁) → k.Makes ns w₁ hs w₂ → k.Makes (n :: ns) w (h :: hs) w₂

/-- Whether a handler can be made depends on the node alone. -/
def Catalogue.Steady (k : Catalogue ω η) : Prop :=
  ∀ n w w' h, (k.create n w).1 = .ok h → ∃ h', (k.create n w').1 = .ok h'

/-- What comes of making a handler, be it a handler or an error, depends on the node alone. -/
def Catalogue.Uniform (k : Catalogue ω η) : Prop :=
  ∀ n w w', (k.create n w').1.map (fun _ => ()) = (k.create n w).1.map fun _ => ()

variable {k : Catalogue ω η} {ns : List NodeSpec} {hs : List η} {w w' : ω}

/-- What does not depend on the surroundings does not depend on the time. -/
theorem Catalogue.Uniform.steady (hk : k.Uniform) : k.Steady := by
  intro n w w' h hcreate
  have hsame := hk n w w'
  rw [hcreate] at hsame
  obtain ⟨h', hcreate', -⟩ := map_eq_ok_iff.1 hsame
  exact ⟨h', hcreate'⟩

namespace Catalogue.Makes

theorem length_eq (h : k.Makes ns w hs w') : hs.length = ns.length := by
  induction h with
  | nil => rfl
  | cons _ _ ih => simp [ih]

/-- If every handler can be made, all are, one after the other. -/
theorem createAll_eq (h : k.Makes ns w hs w') :
    Graph.createAll k ns w = ((ns.zip hs).map fun x => (x.1, .ok x.2), w') := by
  induction h with
  | nil => rfl
  | cons hcreate _ ih => simp [Graph.createAll, hcreate, ih]

/-- What was made once can be made at any time if the catalogue is steady. -/
theorem of_steady (hk : k.Steady) (h : k.Makes ns w hs w') (w₁ : ω) :
    ∃ hs' w₂, k.Makes ns w₁ hs' w₂ := by
  induction h generalizing w₁ with
  | nil => exact ⟨[], w₁, .nil w₁⟩
  | @cons n ns handler hs w _ _ hcreate _ ih =>
    obtain ⟨handler', hcreate'⟩ := hk n w w₁ handler (congrArg Prod.fst hcreate)
    obtain ⟨hs', w₂, hmakes⟩ := ih (k.create n w₁).2
    exact ⟨handler' :: hs', w₂, .cons (Prod.ext hcreate' rfl) hmakes⟩

end Catalogue.Makes

namespace Graph

theorem made_map_ok (l : List (NodeSpec × η)) : made (l.map fun x => (x.1, .ok x.2)) = l := by
  simp [made]

theorem creationDefects_map_ok (l : List (NodeSpec × η)) :
    creationDefects (l.map fun x => (x.1, .ok x.2)) = [] := by
  simp [creationDefects]

/-- If no creation is reported as failed, all handlers were made. -/
theorem exists_makes (h : creationDefects (createAll k ns w).1 = []) : ∃ hs w', k.Makes ns w hs w' := by
  induction ns generalizing w with
  | nil => exact ⟨[], w, .nil w⟩
  | cons n ns ih =>
    rcases hcreate : k.create n w with ⟨r, w₁⟩
    cases r with
    | error e => simp [createAll, creationDefects, hcreate] at h
    | ok handler =>
      obtain ⟨hs, w', hmakes⟩ := ih (w := w₁) (by
        simpa [createAll, creationDefects, hcreate] using h)
      exact ⟨handler :: hs, w', .cons hcreate hmakes⟩

end Graph

end Making

/-! ## What compiles -/

namespace Graph

variable {ω η : Type} {k : Catalogue ω η} {p : GraphPayload} {payload : List UInt8} {g : Graph η}
  {w w' : ω}

theorem defects_eq_nil_iff {created : List (NodeSpec × Result η)} :
    defects p created = [] ↔ p.ids.Nodup ∧ creationDefects created = [] ∧
      (∀ c ∈ p.connections, c.source ∈ p.ids ∧ c.target ∈ p.ids) ∧
      (∀ id, p.entry = some id → id ∈ p.ids) ∧ ∀ a, ¬Relation.TransGen p.Leads a a := by
  simp only [defects, List.append_eq_nil_iff, List.map_eq_nil_iff,
    GraphPayload.repeatedAfter_eq_nil_iff, List.flatMap_eq_nil_iff,
    GraphPayload.dangling_eq_nil_iff, GraphPayload.entryDefects_eq_nil_iff,
    Routes.findCycles_eq_nil_iff]
  constructor
  · rintro ⟨⟨⟨⟨⟨hd, -⟩, hcreated⟩, hends⟩, hentry⟩, hacyclic⟩
    rw [GraphPayload.leads_routes hends] at hacyclic
    exact ⟨hd, hcreated, hends, hentry, hacyclic⟩
  · rintro ⟨hd, hcreated, hends, hentry, hacyclic⟩
    rw [GraphPayload.leads_routes hends]
    exact ⟨⟨⟨⟨⟨hd, by simp⟩, hcreated⟩, hends⟩, hentry⟩, hacyclic⟩

/-- A graph is assembled if and only if there are no defects. -/
theorem conclude_eq_ok_iff {created : List (NodeSpec × Result η)} :
    conclude p created = .ok g ↔ defects p created = [] ∧ assemble p (made created) = g := by
  unfold conclude
  split <;> simp_all

/-- The errors of a compilation are the defects, all of them. -/
theorem conclude_eq_error_iff {created : List (NodeSpec × Result η)} {es : List RuleError} :
    conclude p created = .error es ↔ defects p created ≠ [] ∧ (defects p created).map .graph = es := by
  unfold conclude
  split <;> simp_all

/-- A definition with nodes is concluded from what came of making its handlers. -/
theorem fst_compile (k : Catalogue ω η) (w : ω) (hread : GraphPayload.read payload = .ok p)
    (hnodes : p.nodes ≠ []) :
    (compile k payload w).1 = conclude p (createAll k p.distinctNodes w).1 := by
  simp only [compile, hread, if_neg hnodes]
  split <;> simp only [*]

/-- A definition compiles exactly if it is well formed and all its handlers can be made, and then to the
graph that connects them. -/
theorem compile_eq_ok_iff :
    compile k payload w = (.ok g, w') ↔
      ∃ p, GraphPayload.read payload = .ok p ∧ p.WellFormed ∧
        ∃ hs, k.Makes p.nodes w hs w' ∧ g = assemble p (p.nodes.zip hs) := by
  unfold compile
  cases GraphPayload.read payload with
  | error es => simp
  | ok p =>
    simp only [Except.ok.injEq, exists_eq_left']
    by_cases hnodes : p.nodes = []
    · rw [if_pos hnodes]
      refine ⟨fun h => by simp at h, ?_⟩
      rintro ⟨hp, -⟩
      exact absurd hnodes hp.nodes
    rw [if_neg hnodes]
    constructor
    · intro h
      by_cases hdefects : defects p (createAll k p.distinctNodes w).1 = []
      · obtain ⟨hd, hcreated, hends, hentry, hacyclic⟩ := defects_eq_nil_iff.1 hdefects
        rw [GraphPayload.distinctNodes_eq_nodes hd] at h hcreated
        obtain ⟨hs, w₁, hmakes⟩ := exists_makes hcreated
        rw [GraphPayload.distinctNodes_eq_nodes hd, hmakes.createAll_eq] at hdefects
        simp only [hmakes.createAll_eq, conclude, hdefects, made_map_ok, Prod.mk.injEq,
          Except.ok.injEq] at h
        obtain ⟨rfl, rfl⟩ := h
        exact ⟨⟨hnodes, hd, hends, hentry, hacyclic⟩, hs, hmakes, rfl⟩
      · simp [conclude] at h
    · rintro ⟨hp, hs, hmakes, rfl⟩
      have hdefects : defects p ((p.nodes.zip hs).map fun x => (x.1, .ok x.2)) = [] :=
        defects_eq_nil_iff.2
          ⟨hp.distinct, creationDefects_map_ok _, hp.ends, hp.entry, hp.acyclic⟩
      simp only [GraphPayload.distinctNodes_eq_nodes hp.distinct, hmakes.createAll_eq, conclude,
        hdefects, made_map_ok]

/-- What compiled once compiles at any time if the catalogue is steady. -/
theorem exists_compile_of_steady (hk : k.Steady) (h : compile k payload w = (.ok g, w')) (w₁ : ω) :
    ∃ g' w₂, compile k payload w₁ = (.ok g', w₂) := by
  obtain ⟨p, hread, hp, hs, hmakes, -⟩ := compile_eq_ok_iff.1 h
  obtain ⟨hs', w₂, hmakes'⟩ := hmakes.of_steady hk w₁
  exact ⟨_, w₂, compile_eq_ok_iff.2 ⟨p, hread, hp, hs', hmakes', rfl⟩⟩

/-- What came of making some handlers, without the handlers. -/
def outcomes (created : List (NodeSpec × Result η)) : List (NodeSpec × Result Unit) :=
  created.map fun x => (x.1, x.2.map fun _ => ())

/-- Whether handlers can be made does not depend on the surroundings. -/
theorem outcomes_createAll (hk : k.Uniform) (ns : List NodeSpec) (w w' : ω) :
    outcomes (createAll k ns w').1 = outcomes (createAll k ns w).1 := by
  induction ns generalizing w w' with
  | nil => rfl
  | cons n ns ih => exact congrArg₂ List.cons (Prod.ext rfl (hk n w w')) (ih _ _)

/-- The defects of making handlers are read off the outcomes. -/
theorem creationDefects_outcomes (created : List (NodeSpec × Result η)) :
    creationDefects (outcomes created) = creationDefects created := by
  rw [creationDefects, outcomes, List.filterMap_map]
  refine List.filterMap_congr fun x _ => ?_
  rcases x with ⟨n, e | h⟩ <;> rfl

theorem conclude_outcomes (p : GraphPayload) (created : List (NodeSpec × Result η)) :
    (conclude p (outcomes created)).map (fun _ => ()) = (conclude p created).map fun _ => () := by
  have hdefects : defects p (outcomes created) = defects p created := by
    rw [defects, creationDefects_outcomes, defects]
  rw [conclude, hdefects, conclude]
  split <;> rfl

/-- Whether a definition compiles, and what is wrong with it, depends on the definition alone. -/
theorem verdict_compile (hk : k.Uniform) (payload : List UInt8) (w w' : ω) :
    (compile k payload w').1.map (fun _ => ()) = (compile k payload w).1.map fun _ => () := by
  cases hread : GraphPayload.read payload with
  | error es => simp only [compile, hread]
  | ok p =>
    by_cases hnodes : p.nodes = []
    · simp only [compile, hread, if_pos hnodes]
    · rw [fst_compile k w' hread hnodes, fst_compile k w hread hnodes, ← conclude_outcomes,
        outcomes_createAll hk _ w w', conclude_outcomes]

/-! ## To what it compiles -/

/-- The graph of a definition and of the handlers of its nodes: it enters where the definition says, holds
each node once, and leads from a node under a label where the connections lead. -/
structure Represents (p : GraphPayload) (handlers : List η) (g : Graph η) : Prop where
  length : handlers.length = p.nodes.length
  entry : ∀ n ns, p.nodes = n :: ns → g.entry = p.entry.getD n.id
  adaptors : g.adaptors = p.adaptors
  ids : g.nodes.keys.Perm p.ids
  nodes : ∀ n handler, (n, handler) ∈ p.nodes.zip handlers → ∃ node, g.nodes.get? n.id = some node ∧
    node.typeName = n.typeName ∧ node.handler = handler ∧
    ∀ label, node.routes.get? label =
      if Connection.targetsOf p.connections n.id label = [] then none
      else some (Connection.targetsOf p.connections n.id label)

/-- What is assembled from a well-formed definition and its handlers represents it. -/
theorem represents_assemble (hp : p.WellFormed) {hs : List η} (hlength : hs.length = p.nodes.length) :
    Represents p hs (assemble p (p.nodes.zip hs)) := by
  have hids : (p.nodes.zip hs).map (·.1.id) = p.ids := by
    have hfst : (p.nodes.zip hs).map (·.1) = p.nodes := List.map_fst_zip hlength.ge
    rw [GraphPayload.ids]
    nth_rewrite 2 [← hfst]
    rw [List.map_map]
    rfl
  refine ⟨hlength, ?_, rfl, ?_, ?_⟩
  · intro n ns hnodes
    simp [assemble, GraphPayload.entryId, GraphPayload.ids, hnodes]
  · refine (List.perm_ext_iff_of_nodup (Table.nodup_keys _) hp.distinct).2 fun id => ?_
    rw [assemble, Table.mem_keys_ofList, List.map_map, ← hids]
    rfl
  · intro n handler hmem
    refine ⟨_, Table.get?_ofList_of_mem ?_ (List.mem_map_of_mem hmem), rfl, rfl, fun label => ?_⟩
    · rw [List.map_map]
      exact hids ▸ hp.distinct
    · rw [GraphPayload.routes_eq_ofConnections hp.ends]
      exact Routes.get?_edges_ofConnections p.connections n.id label

/-- What compiles without a defect is the graph of the definition. -/
theorem exists_represents_of_compile (h : compile k payload w = (.ok g, w')) :
    ∃ p hs, GraphPayload.read payload = .ok p ∧ p.WellFormed ∧ k.Makes p.nodes w hs w' ∧
      Represents p hs g := by
  obtain ⟨p, hread, hp, hs, hmakes, rfl⟩ := compile_eq_ok_iff.1 h
  exact ⟨p, hs, hread, hp, hmakes, represents_assemble hp hmakes.length_eq⟩

/-- A text of the right shape is read as the definition that it names. -/
theorem read_of_accepts {v : Json.Value} (hparse : Json.parse payload = .ok v)
    (hv : graphShape.Accepts v) : GraphPayload.read payload = .ok (.named v) := by
  simp only [GraphPayload.read, hparse, (Shape.violations_eq_nil_iff _ _ _).2 hv,
    GraphPayload.ofValue_of_accepts (Json.sorted_of_parse hparse) hv]

/-- A text that has the shape of a definition compiles exactly if what it names is well formed and all its
handlers can be made, and then to the graph of what it names. -/
theorem compile_of_accepts (k : Catalogue ω η) (w : ω) {v : Json.Value}
    (hparse : Json.parse payload = .ok v) (hv : graphShape.Accepts v) :
    ((∃ g, (compile k payload w).1 = .ok g) ↔
      (GraphPayload.named v).WellFormed ∧ ∃ hs w', k.Makes (GraphPayload.named v).nodes w hs w') ∧
    ∀ g, (compile k payload w).1 = .ok g →
      ∃ hs w', k.Makes (GraphPayload.named v).nodes w hs w' ∧ Represents (.named v) hs g := by
  have hread := read_of_accepts hparse hv
  constructor
  · constructor
    · rintro ⟨g, hg⟩
      obtain ⟨p, hs, hp, hwell, hmakes, -⟩ := exists_represents_of_compile (Prod.ext hg rfl)
      obtain rfl : GraphPayload.named v = p := Except.ok.inj (hread.symm.trans hp)
      exact ⟨hwell, hs, _, hmakes⟩
    · rintro ⟨hwell, hs, w', hmakes⟩
      exact ⟨_, congrArg Prod.fst (compile_eq_ok_iff.2 ⟨_, hread, hwell, hs, hmakes, rfl⟩)⟩
  · intro g hg
    obtain ⟨p, hs, hp, -, hmakes, hg⟩ := exists_represents_of_compile (Prod.ext hg rfl)
    obtain rfl : GraphPayload.named v = p := Except.ok.inj (hread.symm.trans hp)
    exact ⟨hs, _, hmakes, hg⟩

end Graph

/-- A catalogue whose nodes pass every message on. -/
def Catalogue.relay : Catalogue Unit Unit where
  create _ w := (.ok (), w)
  handle _ _ m := .succeed m
  close _ w := w

/-- A definition of two nodes, the first of which leads to the second. -/
def GraphPayload.pair : GraphPayload where
  nodes := [{ id := "a", typeName := "relay" }, { id := "b", typeName := "relay" }]
  connections := [⟨"a", "b", successLabel⟩]

/-- A definition as the text that stores it. -/
def GraphPayload.text (p : GraphPayload) : List UInt8 := Json.bytesOf p.toJson.render

/-- A definition is known to compile if its compilation can be carried out, and so is what can be decided of the
graph. -/
theorem Graph.exists_compile {ω η : Type} {k : Catalogue ω η} {payload : List UInt8} {w : ω} {p : Graph η → Prop}
    [DecidablePred p] (h : (compile k payload w).1.toOption.any (fun g => p g) = true) :
    ∃ g w', compile k payload w = (.ok g, w') ∧ p g := by
  obtain ⟨g, w', hg, hp⟩ := exists_ok_of_any h
  exact ⟨g, w', hg, of_decide_eq_true hp⟩

theorem Graph.exists_compile_pair :
    ∃ g, compile Catalogue.relay GraphPayload.pair.text () = (.ok g, ()) := by
  obtain ⟨g, w', hg, -⟩ : ∃ g w', compile Catalogue.relay GraphPayload.pair.text () = (.ok g, w') ∧ True :=
    exists_compile (by decide +kernel)
  exact ⟨g, hg⟩

theorem Graph.compile_pair :
    ∃ v g hs w', Json.parse GraphPayload.pair.text = .ok v ∧
      (compile .relay GraphPayload.pair.text ()).1 = .ok g ∧
      Catalogue.relay.Makes (GraphPayload.named v).nodes () hs w' ∧ Represents (.named v) hs g := by
  obtain ⟨v, hparse, hv⟩ : ∃ v, Json.parse GraphPayload.pair.text = .ok v ∧ graphShape.Accepts v :=
    ⟨.object [("adaptors", .array []),
        ("connections", .array [.object
          [("from_id", .string "a"), ("label", .string successLabel), ("to_id", .string "b")]]),
        ("first_rule_node_id", .null),
        ("nodes", .array
          [.object [("config", .object []), ("id", .string "a"), ("name", .string ""),
              ("type", .string "relay")],
            .object [("config", .object []), ("id", .string "b"), ("name", .string ""),
              ("type", .string "relay")]])],
      by decide +kernel, (Shape.violations_eq_nil_iff _ "" _).1 (by decide +kernel)⟩
  obtain ⟨g, hg⟩ := exists_compile_pair
  have hok : (compile Catalogue.relay GraphPayload.pair.text ()).1 = .ok g := congrArg Prod.fst hg
  obtain ⟨hs, w', hmakes, hrep⟩ := (compile_of_accepts .relay () hparse hv).2 g hok
  exact ⟨v, g, hs, w', hparse, hok, hmakes, hrep⟩

end RuleFlow
