import RuleFlow.Node.Registry
import RuleFlow.Proofs.Graph.Format
import RuleFlow.Proofs.Graph.Report

/-!
# The order of connections

A definition lists its connections, but hardly anything depends on how they are listed. The compiler uses them
in three ways. It looks at each of them for its ends, so what is reported of ends is listed as they are. It
searches for cycles, and what it finds depends only on which connections there are
(`Routes.findCycles_ofConnections_congr`). And it collects the targets of each node under each label, whose
order is that of the connections from this node under this label (`Connection.leaving`) and of no others.

So definitions that list the same connections in different orders compile both or fail both, with the same
graph up to the order of targets or with the same defects up to their order, and copies of connections that
are listed already change nothing (`Graph.compile_relisted`).
-/

namespace RuleFlow

open Json (Value)

namespace Connection

variable {cs cs' extra : List Connection}

/-- The connections from a node under a label. -/
def leaving (cs : List Connection) (source label : String) : List Connection :=
  cs.filter fun c => c.source = source ∧ c.label = label

theorem targetsOf_eq (cs : List Connection) (source label : String) :
    targetsOf cs source label = ((leaving cs source label).map (·.target)).eraseDups := rfl

theorem leaving_append (cs extra : List Connection) (source label : String) :
    leaving (cs ++ extra) source label = leaving cs source label ++ leaving extra source label :=
  List.filter_append ..

theorem leaving_filter (q : Connection → Bool) (cs : List Connection) (source label : String) :
    leaving (cs.filter q) source label = (leaving cs source label).filter q :=
  List.filter_comm ..

/-- The order of the connections changes at most the order of the targets. -/
theorem targetsOf_perm (h : ∀ c, c ∈ cs' ↔ c ∈ cs) (source label : String) :
    (targetsOf cs' source label).Perm (targetsOf cs source label) := by
  refine (List.perm_ext_iff_of_nodup (nodup_targetsOf ..) (nodup_targetsOf ..)).2 fun target => ?_
  rw [mem_targetsOf, mem_targetsOf, h]

/-- Copies at the end change no targets. -/
theorem targetsOf_append_of_subset (h : extra ⊆ cs) (source label : String) :
    targetsOf (cs ++ extra) source label = targetsOf cs source label := by
  have hsubset : (leaving extra source label).map (·.target) ⊆ (leaving cs source label).map (·.target) :=
    List.map_subset _ (List.filter_subset _ h)
  have hnew : ((leaving extra source label).map (·.target)).removeAll
      ((leaving cs source label).map (·.target)) = [] := by
    rw [List.removeAll, List.filter_eq_nil_iff]
    intro target htarget
    simpa using hsubset htarget
  rw [targetsOf_eq, leaving_append, List.map_append, List.eraseDups_append, hnew, List.eraseDups_nil,
    List.append_nil, targetsOf_eq]

end Connection

namespace Routes

variable {cs cs' : List Connection}

/-- Which cycles are found depends only on which connections there are. -/
theorem findCycles_ofConnections_congr (h : ∀ c, c ∈ cs' ↔ c ∈ cs) :
    (ofConnections cs').findCycles = (ofConnections cs).findCycles := by
  refine findCycles_congr (fun a => ?_) fun a b => ?_
  · simp only [mem_keys_ofConnections, h]
  · simp only [leads_ofConnections, h]

/-- Connections with the same targets make the same routes. -/
theorem edges_ofConnections_congr
    (h : ∀ source label, Connection.targetsOf cs' source label = Connection.targetsOf cs source label)
    (source : String) : (ofConnections cs').edges source = (ofConnections cs).edges source := by
  refine Table.ext fun label => ?_
  rw [get?_edges_ofConnections, get?_edges_ofConnections, h]

end Routes

/-! ## Definitions with other connections -/

/-- A value holds a list under a key. Another value holds another list there, and what the first one holds
under all other keys. -/
structure Json.Value.Relists (v v' : Value) (key : String) (xs xs' : List Value) : Prop where
  before : v.member? key = some (.array xs)
  after : v'.member? key = some (.array xs')
  others : ∀ other, other ≠ key → v'.member? other = v.member? other

namespace GraphPayload

variable {p : GraphPayload} {cs extra : List Connection}

/-- A definition with other connections in the place of its own. -/
def relist (p : GraphPayload) (cs : List Connection) : GraphPayload := { p with connections := cs }

theorem linked_relist (p : GraphPayload) (cs : List Connection) :
    (p.relist cs).linked = cs.filter fun c => c.source ∈ p.ids ∧ c.target ∈ p.ids := rfl

/-- The order of the connections does not change which of them lie between nodes. -/
theorem mem_linked_relist (h : ∀ c, c ∈ cs ↔ c ∈ p.connections) (c : Connection) :
    c ∈ (p.relist cs).linked ↔ c ∈ p.linked := by
  rw [linked_relist, linked, List.mem_filter, List.mem_filter, h]

theorem routes_eq (p : GraphPayload) : p.routes = .ofConnections p.linked := rfl

/-- The order of the connections does not change which cycles are found, nor in which order. -/
theorem findCycles_relist (h : ∀ c, c ∈ cs ↔ c ∈ p.connections) :
    (p.relist cs).routes.findCycles = p.routes.findCycles := by
  rw [routes_eq, routes_eq]
  exact Routes.findCycles_ofConnections_congr (mem_linked_relist h)

/-- The order of the connections changes at most the order of the targets. -/
theorem targets_relist_perm (h : ∀ c, c ∈ cs ↔ c ∈ p.connections) (source label : String) :
    ((p.relist cs).routes.targets source label).Perm (p.routes.targets source label) := by
  rw [routes_eq, routes_eq, Routes.targets_ofConnections, Routes.targets_ofConnections]
  exact Connection.targetsOf_perm (mem_linked_relist h) source label

/-- The successors of a node stay as they are if its connections under each label keep their order. -/
theorem edges_relist_of_leaving
    (h : ∀ source label, Connection.leaving cs source label = Connection.leaving p.connections source label)
    (source : String) : (p.relist cs).routes.edges source = p.routes.edges source := by
  rw [routes_eq, routes_eq]
  refine Routes.edges_ofConnections_congr (fun source label => ?_) source
  rw [Connection.targetsOf_eq, linked_relist, Connection.leaving_filter, h, ← Connection.leaving_filter,
    ← linked, ← Connection.targetsOf_eq]

/-- The successors of a node stay as they are if connections are listed again. -/
theorem edges_relist_append (h : extra ⊆ p.connections) (source : String) :
    (p.relist (p.connections ++ extra)).routes.edges source = p.routes.edges source := by
  rw [routes_eq, routes_eq]
  refine Routes.edges_ofConnections_congr (fun source label => ?_) source
  have hlinked : (p.relist (p.connections ++ extra)).linked = p.linked ++ (p.relist extra).linked :=
    List.filter_append ..
  rw [hlinked]
  exact Connection.targetsOf_append_of_subset (List.filter_subset _ h) source label

variable {v v' : Value} {xs xs' : List Value}

/-- What describes a graph still describes one after it was given other items of its list of connections. -/
theorem describedBy_relist (hp : p.DescribedBy v) (h : v.Relists v' "connections" xs xs')
    (hsubset : xs' ⊆ xs) :
    p.connections = xs.map .named ∧ (p.relist (xs'.map .named)).DescribedBy v' := by
  obtain ⟨xs₁, hxs₁, hall⟩ | ⟨hnone, -⟩ := hp.connections
  · obtain rfl : xs = xs₁ := Value.array.inj (Option.some.inj (h.before.symm.trans hxs₁))
    obtain ⟨haccepts, hconnections⟩ := Connection.standsFor_connectionShape.forall₂_iff.1 hall
    refine ⟨hconnections, ?_, .inl ⟨xs', h.after, ?_⟩, ?_, ?_⟩
    · rw [h.others "nodes" (by decide)]
      exact hp.nodes
    · exact Connection.standsFor_connectionShape.forall₂_iff.2
        ⟨fun x hx => haccepts x (hsubset hx), rfl⟩
    · rw [h.others "adaptors" (by decide)]
      exact hp.adaptors
    · rw [h.others "first_rule_node_id" (by decide)]
      exact hp.entry
  · cases hnone.symm.trans h.before

/-- A definition with its connections in another order is read so. -/
theorem read_relist {payload : List UInt8} (hparse : Json.parse payload = .ok v') (hv : graphShape.Accepts v)
    (h : v.Relists v' "connections" xs xs') (hsubset : xs' ⊆ xs) :
    (named v).connections = xs.map .named ∧ read payload = .ok ((named v).relist (xs'.map .named)) := by
  obtain ⟨hconnections, hdescribed⟩ := describedBy_relist (describedBy_iff.2 ⟨hv, rfl⟩) h hsubset
  exact ⟨hconnections, (read_eq_ok_iff hparse).2 hdescribed⟩

theorem firstAfter_sublist (seen : List String) (ns : List NodeSpec) :
    (firstAfter seen ns).Sublist ns := by
  induction ns generalizing seen with
  | nil => exact .slnil
  | cons n ns ih =>
    rw [firstAfter]
    split
    · exact (ih seen).cons n
    · exact (ih (n.id :: seen)).cons_cons n

end GraphPayload

/-! ## Defects and graphs -/

/-- The cycle that a defect reports. -/
def GraphDefect.cycle? : GraphDefect → Option (List String)
  | .cycle path => some path
  | _ => none

/-- The cycle that an error reports. -/
def RuleError.cycle? : RuleError → Option (List String)
  | .graph d => d.cycle?
  | _ => none

namespace Graph

variable {ω η : Type} {p : GraphPayload} {cs : List Connection}

/-- The cycles that are reported are those that are found. -/
theorem filterMap_cycle?_defects (p : GraphPayload) (created : List (NodeSpec × Result η)) :
    (defects p created).filterMap (·.cycle?) = p.routes.findCycles := by
  have hcreation : (creationDefects created).filterMap (·.cycle?) = [] := by
    rw [GraphPayload.creationDefects_eq, List.filterMap_eq_nil_iff]
    intro d hd
    obtain ⟨⟨n, e | h⟩, -, hd⟩ := List.mem_flatMap.1 hd
    · rw [List.mem_singleton.1 hd]
      rfl
    · cases hd
  have hends : (p.connections.flatMap p.dangling).filterMap (·.cycle?) = [] := by
    rw [List.filterMap_flatMap, List.flatMap_eq_nil_iff]
    intro c _
    rw [GraphPayload.dangling, List.filterMap_append]
    split <;> split <;> rfl
  have hentry : p.entryDefects.filterMap (·.cycle?) = [] := by
    unfold GraphPayload.entryDefects
    split
    · split <;> rfl
    · rfl
  simp only [defects, List.filterMap_append, hcreation, hends, hentry, List.filterMap_map, List.append_nil]
  simp [GraphDefect.cycle?, Function.comp_def]

/-- The cycles among the errors are those that were found. -/
theorem filterMap_cycle?_errors (p : GraphPayload) (created : List (NodeSpec × Result η)) :
    ((defects p created).map RuleError.graph).filterMap (·.cycle?) = p.routes.findCycles := by
  rw [List.filterMap_map, ← filterMap_cycle?_defects p created]
  rfl

/-- The order of the connections changes at most the order of the defects. -/
theorem defects_relist_perm (h : cs.Perm p.connections) (created : List (NodeSpec × Result η)) :
    (defects (p.relist cs) created).Perm (defects p created) := by
  have hends : (cs.flatMap p.dangling).Perm (p.connections.flatMap p.dangling) := h.flatMap_right _
  have hcycles := GraphPayload.findCycles_relist fun c => h.mem_iff (a := c)
  rw [defects, hcycles, defects]
  exact ((hends.append_left _).append_right _).append_right _

/-- A definition without defects has none in another order. -/
theorem defects_relist_eq_nil (h : ∀ c, c ∈ cs ↔ c ∈ p.connections)
    {created : List (NodeSpec × Result η)} (hp : defects p created = []) :
    defects (p.relist cs) created = [] := by
  have hleads : (p.relist cs).Leads = p.Leads := by
    funext a b
    simp only [GraphPayload.Leads, GraphPayload.relist, h]
  rw [defects_eq_nil_iff] at hp ⊢
  obtain ⟨hdistinct, hcreated, hends, hentry, hacyclic⟩ := hp
  rw [hleads]
  exact ⟨hdistinct, hcreated, fun c hc => hends c ((h c).1 hc), hentry, hacyclic⟩

/-- Two graphs are the same but for the order in which successors under a label are told. -/
structure Resembles (g' g : Graph η) : Prop where
  entry : g'.entry = g.entry
  adaptors : g'.adaptors = g.adaptors
  nodes : (g'.nodes.map fun n => (n.typeName, n.handler)) = g.nodes.map fun n => (n.typeName, n.handler)
  targets : ∀ id label, (g'.targets id label).Perm (g.targets id label)

/-- The nodes of a graph are those whose handlers were made, each with its successors. -/
theorem nodes_assemble (p : GraphPayload) (handlers : List (NodeSpec × η)) :
    (assemble p handlers).nodes = (Table.ofList (handlers.map fun x => (x.1.id, x))).map fun x =>
      ⟨x.1.typeName, x.2, p.routes.edges x.1.id⟩ := by
  rw [Table.map_ofList, List.map_map]
  rfl

/-- The order of the connections changes at most the order of the targets of the graph. -/
theorem resembles_assemble (h : ∀ c, c ∈ cs ↔ c ∈ p.connections) (handlers : List (NodeSpec × η)) :
    (assemble (p.relist cs) handlers).Resembles (assemble p handlers) where
  entry := rfl
  adaptors := rfl
  nodes := by
    refine Table.ext fun id => ?_
    simp only [nodes_assemble, Table.get?_map, Option.map_map]
    rfl
  targets id label := by
    simp only [targets, nodes_assemble, Table.get?_map]
    cases (Table.ofList (handlers.map fun x => (x.1.id, x))).get? id with
    | none => exact .refl _
    | some x =>
      simp only [Option.map_some, Option.bind_some, ← Routes.targets_eq]
      exact GraphPayload.targets_relist_perm h x.1.id label

theorem assemble_relist (h : ∀ source, (p.relist cs).routes.edges source = p.routes.edges source)
    (handlers : List (NodeSpec × η)) : assemble (p.relist cs) handlers = assemble p handlers := by
  simp only [assemble, h]
  rfl

end Graph

/-- What comes of making the handler of a node depends on the node alone. -/
def Catalogue.MakesAlike {ω η : Type} (k : Catalogue ω η) (n : NodeSpec) : Prop :=
  ∀ w w', (k.create n w').1 = (k.create n w).1

/-- The surroundings matter only to nodes that connect to a broker. -/
theorem NodeType.create_eq {type : NodeType} (h : type ≠ .mqtt) (id : String) (config : Value)
    (w w' : World) : type.create id config w' = type.create id config w := by
  cases type with
  | mqtt => exact absurd rfl h
  | _ => rfl

/-- All types but one make handlers without looking at their surroundings. -/
theorem Registry.makesAlike {registry : Registry} {n : NodeSpec}
    (h : ∀ r, registry.get? n.typeName = some r → r.type ≠ .mqtt) : registry.catalogue.MakesAlike n := by
  intro w w'
  simp only [catalogue, create]
  cases hr : registry.get? n.typeName with
  | none => rfl
  | some r => exact NodeType.create_eq (h r hr) ..

namespace Graph

variable {ω η : Type} {k : Catalogue ω η} {p : GraphPayload} {payload : List UInt8}

/-- Handlers that do not depend on the surroundings are made alike. -/
theorem createAll_congr {ns : List NodeSpec} (h : ∀ n ∈ ns, k.MakesAlike n) (w w' : ω) :
    (createAll k ns w').1 = (createAll k ns w).1 := by
  induction ns generalizing w w' with
  | nil => rfl
  | cons n ns ih =>
    obtain ⟨hn, hns⟩ := List.forall_mem_cons.1 h
    exact congrArg₂ List.cons (Prod.ext rfl (hn w w')) (ih hns _ _)

/-! ## Compiling definitions with other connections -/

section Relisted

variable {payload' : List UInt8} {cs : List Connection} {g : Graph η} {es : List RuleError}
  (hread : GraphPayload.read payload = .ok p) (hread' : GraphPayload.read payload' = .ok (p.relist cs))
  (hk : ∀ n ∈ p.nodes, k.MakesAlike n) (w w' : ω)

include hread' hk in
/-- What comes of compiling the connections in another order. -/
theorem fst_compile_relist (hnodes : p.nodes ≠ []) :
    (compile k payload' w').1 = conclude (p.relist cs) (createAll k p.distinctNodes w).1 := by
  have hdistinct : ∀ n ∈ p.distinctNodes, k.MakesAlike n := fun n hn =>
    hk n ((GraphPayload.firstAfter_sublist [] p.nodes).subset hn)
  rw [← createAll_congr hdistinct w w']
  exact fst_compile k w' hread' hnodes

include hread hread' hk in
/-- Errors stay errors in another order, and the cycles stay in their order. -/
theorem exists_error_relist (hperm : cs.Perm p.connections) (h : (compile k payload w).1 = .error es) :
    ∃ es', (compile k payload' w').1 = .error es' ∧ es'.Perm es ∧
      es'.filterMap (·.cycle?) = es.filterMap (·.cycle?) := by
  by_cases hnodes : p.nodes = []
  · simp only [compile, hread, if_pos hnodes] at h
    refine ⟨es, ?_, .refl _, rfl⟩
    simp only [compile, hread', GraphPayload.relist, if_pos hnodes, h]
  · rw [fst_compile k w hread hnodes, conclude_eq_error_iff] at h
    obtain ⟨hne, rfl⟩ := h
    have hdefects := defects_relist_perm hperm (createAll k p.distinctNodes w).1
    refine ⟨_, ?_, hdefects.map _, ?_⟩
    · rw [fst_compile_relist hread' hk w w' hnodes, conclude_eq_error_iff]
      exact ⟨fun hnil => hne (List.nil_perm.1 (hnil ▸ hdefects)), rfl⟩
    · rw [filterMap_cycle?_errors, filterMap_cycle?_errors]
      exact GraphPayload.findCycles_relist fun c => hperm.mem_iff

include hread hread' hk in
/-- A definition that compiles does so in another order, with the same handlers. -/
theorem exists_ok_relist (hmem : ∀ c, c ∈ cs ↔ c ∈ p.connections) (h : (compile k payload w).1 = .ok g) :
    ∃ handlers, assemble p handlers = g ∧
      (compile k payload' w').1 = .ok (assemble (p.relist cs) handlers) := by
  have hnodes : p.nodes ≠ [] := by
    intro hnodes
    simp only [compile, hread, if_pos hnodes] at h
    cases h
  rw [fst_compile k w hread hnodes, conclude_eq_ok_iff] at h
  obtain ⟨hdefects, rfl⟩ := h
  refine ⟨_, rfl, ?_⟩
  rw [fst_compile_relist hread' hk w w' hnodes, conclude_eq_ok_iff]
  exact ⟨defects_relist_eq_nil hmem hdefects, rfl⟩

end Relisted

/-- A definition is compiled twice: as it is, and with another list of connections, where what comes of making
the handlers of its nodes depends on the nodes alone. If the connections are the same in another order, both
fail, with the same errors in some order and the same cycles in the same order, or both compile, to graphs that
resemble each other; and these are equal if the connections from each node under each label are in the same
order. If connections that are listed already are listed again at the end, and the first definition compiles,
the second one compiles to the same graph. -/
theorem compile_relisted {payload' : List UInt8} {v v' : Value} {xs xs' : List Value}
    (hparse : Json.parse payload = .ok v) (hparse' : Json.parse payload' = .ok v')
    (hv : graphShape.Accepts v) (hlisted : v.Relists v' "connections" xs xs')
    (hk : ∀ n ∈ (GraphPayload.named v).nodes, k.MakesAlike n) (w w' : ω) :
    (xs'.Perm xs →
      (∀ es, (compile k payload w).1 = .error es → ∃ es', (compile k payload' w').1 = .error es' ∧
        es'.Perm es ∧ es'.filterMap (·.cycle?) = es.filterMap (·.cycle?)) ∧
      ∀ g, (compile k payload w).1 = .ok g → ∃ g', (compile k payload' w').1 = .ok g' ∧ g'.Resembles g ∧
        ((∀ source label, Connection.leaving (xs'.map .named) source label =
          Connection.leaving (xs.map .named) source label) → g' = g)) ∧
    ∀ extra, extra ⊆ xs → xs' = xs ++ extra → ∀ g, (compile k payload w).1 = .ok g →
      (compile k payload' w').1 = .ok g := by
  have hread := read_of_accepts hparse hv
  have hrelist := GraphPayload.read_relist hparse' hv hlisted
  refine ⟨fun hperm => ?_, fun extra hextra hxs g hg => ?_⟩
  · obtain ⟨hconnections, hread'⟩ := hrelist hperm.subset
    have hperm' : (xs'.map Connection.named).Perm (GraphPayload.named v).connections :=
      hconnections ▸ hperm.map _
    refine ⟨fun es hes => exists_error_relist hread hread' hk w w' hperm' hes, fun g hg => ?_⟩
    obtain ⟨handlers, rfl, hok⟩ := exists_ok_relist hread hread' hk w w' (fun c => hperm'.mem_iff) hg
    refine ⟨_, hok, resembles_assemble (fun c => hperm'.mem_iff) handlers, fun hleaving => ?_⟩
    rw [← hconnections] at hleaving
    exact assemble_relist (GraphPayload.edges_relist_of_leaving hleaving) handlers
  · subst hxs
    obtain ⟨hconnections, hread'⟩ := hrelist (List.append_subset.2 ⟨.refl _, hextra⟩)
    have hsubset : extra.map Connection.named ⊆ (GraphPayload.named v).connections :=
      hconnections ▸ List.map_subset _ hextra
    rw [List.map_append, ← hconnections] at hread'
    have hmem : ∀ c, c ∈ (GraphPayload.named v).connections ++ extra.map .named ↔
        c ∈ (GraphPayload.named v).connections := fun c =>
      List.mem_append.trans (or_iff_left_of_imp (hsubset ·))
    obtain ⟨handlers, rfl, hok⟩ := exists_ok_relist hread hread' hk w w' hmem hg
    rw [hok, assemble_relist (GraphPayload.edges_relist_append hsubset) handlers]

end Graph

/-- Connections from one node to some others. -/
def GraphPayload.spokes (ids : List String) : List Value :=
  ids.map fun id => .object [("from_id", .string "a"), ("label", .string successLabel), ("to_id", .string id)]

/-- A definition of three nodes, where the first one leads to some others. -/
def GraphPayload.fan (ids : List String) : Value :=
  .object [("connections", .array (spokes ids)),
    ("nodes", .array (["a", "b", "c"].map fun id => .object [("id", .string id), ("type", .string "log")]))]

theorem GraphPayload.relists_fan (ids ids' : List String) :
    (fan ids).Relists (fan ids') "connections" (spokes ids) (spokes ids') where
  before := rfl
  after := rfl
  others other h := by simp only [fan, Value.member?, Entries.get?, if_neg h]

theorem GraphPayload.makesAlike_fan (ids : List String) :
    ∀ n ∈ (named (fan ids)).nodes, Registry.builtin.catalogue.MakesAlike n := by
  intro n hn
  refine Registry.makesAlike fun r hr => ?_
  have hnodes : (named (fan ids)).nodes = ["a", "b", "c"].map fun id => { id := id, typeName := "log" } := rfl
  rw [hnodes] at hn
  obtain ⟨id, -, rfl⟩ := List.mem_map.1 hn
  obtain rfl : ⟨.action, .log⟩ = r := Option.some.inj (hr ▸ rfl)
  nofun

theorem Graph.compile_fan : ∃ g g',
    graphShape.Accepts (GraphPayload.fan ["b", "c"]) ∧
      (compile Registry.builtin.catalogue (Json.bytesOf (GraphPayload.fan ["b", "c"]).render) {}).1 = .ok g ∧
      (compile Registry.builtin.catalogue (Json.bytesOf (GraphPayload.fan ["c", "b"]).render) {}).1 = .ok g' ∧
      g'.Resembles g ∧
      (compile Registry.builtin.catalogue
        (Json.bytesOf (GraphPayload.fan ["b", "c", "b"]).render) {}).1 = .ok g := by
  have hv : graphShape.Accepts (GraphPayload.fan ["b", "c"]) :=
    (Shape.violations_eq_nil_iff _ "" _).1 (by decide +kernel)
  have hparse : Json.parse (Json.bytesOf (GraphPayload.fan ["b", "c"]).render) =
      .ok (GraphPayload.fan ["b", "c"]) := by decide +kernel
  have hreordered : Json.parse (Json.bytesOf (GraphPayload.fan ["c", "b"]).render) =
      .ok (GraphPayload.fan ["c", "b"]) := by decide +kernel
  have hrepeated : Json.parse (Json.bytesOf (GraphPayload.fan ["b", "c", "b"]).render) =
      .ok (GraphPayload.fan ["b", "c", "b"]) := by decide +kernel
  obtain ⟨g, w, hg, -⟩ : ∃ g w, compile Registry.builtin.catalogue
      (Json.bytesOf (GraphPayload.fan ["b", "c"]).render) {} = (.ok g, w) ∧ True :=
    exists_compile (by decide +kernel)
  have hg' := congrArg Prod.fst hg
  have hk := GraphPayload.makesAlike_fan ["b", "c"]
  obtain ⟨g', hcompile, hresembles, -⟩ :=
    ((compile_relisted hparse hreordered hv (GraphPayload.relists_fan _ _) hk {} {}).1
      (.swap ..)).2 g hg'
  exact ⟨g, g', hv, hg', hcompile, hresembles,
    (compile_relisted hparse hrepeated hv (GraphPayload.relists_fan _ _) hk {} {}).2
      (GraphPayload.spokes ["b"]) (by simp [GraphPayload.spokes]) rfl g hg'⟩

end RuleFlow
