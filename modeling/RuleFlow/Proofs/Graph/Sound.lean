import RuleFlow.Proofs.Graph.Compile

/-!
# Sound graphs

What a run needs of a graph: its entry and all that its routes lead to are nodes of it, and no node leads
back to itself (`Graph.Sound`). Every compiled graph is sound (`Graph.sound_of_compile`). In a sound graph the
nodes that are handled inside one another are different (`Graph.Nested.cons`), so there are never more of
them than nodes (`Graph.Nested.length_le`).
-/

namespace RuleFlow

namespace Graph

variable {ω η : Type}

/-- Some label of a node leads to another. -/
def Leads (g : Graph η) (a b : String) : Prop := ∃ label, b ∈ g.targets a label

/-- A graph whose entry and whose routes lead to its nodes, and where no node leads back to itself. -/
structure Sound (g : Graph η) : Prop where
  entry : g.entry ∈ g.nodes.keys
  leads : ∀ a b, g.Leads a b → b ∈ g.nodes.keys
  acyclic : ∀ a, ¬Relation.TransGen g.Leads a a

section Compiled

variable {p : GraphPayload} {handlers : List η} {g : Graph η}

theorem Represents.exists_node (h : Represents p handlers g) {id : String} (hid : id ∈ p.ids) :
    ∃ n handler, (n, handler) ∈ p.nodes.zip handlers ∧ n.id = id := by
  have hfst : (p.nodes.zip handlers).map (·.1) = p.nodes := List.map_fst_zip h.length.ge
  rw [GraphPayload.ids, ← hfst, List.map_map] at hid
  obtain ⟨⟨n, handler⟩, hmem, rfl⟩ := List.mem_map.1 hid
  exact ⟨n, handler, hmem, rfl⟩

/-- The successors of a node are the targets of its connections. -/
theorem Represents.targets_eq (h : Represents p handlers g) (hp : p.WellFormed) (id label : String) :
    g.targets id label = Connection.targetsOf p.connections id label := by
  unfold targets
  by_cases hid : id ∈ p.ids
  · obtain ⟨n, handler, hmem, rfl⟩ := h.exists_node hid
    obtain ⟨node, hnode, -, -, hroutes⟩ := h.nodes n handler hmem
    rw [hnode, Option.bind_some, hroutes label]
    split <;> simp_all
  · have hnone : g.nodes.get? id = none :=
      Table.get?_eq_none_iff.2 fun hmem => hid (h.ids.mem_iff.1 hmem)
    rw [hnone, Option.bind_none, Option.getD_none, eq_comm]
    refine List.eq_nil_iff_forall_not_mem.2 fun target hmem => hid ?_
    exact (hp.ends _ (Connection.mem_targetsOf.1 hmem)).1

/-- A successor stands once under a label. -/
theorem Represents.nodup_targets (h : Represents p handlers g) (hp : p.WellFormed) (id label : String) :
    (g.targets id label).Nodup := by
  rw [h.targets_eq hp]
  exact Connection.nodup_targetsOf ..

theorem Represents.leads_iff (h : Represents p handlers g) (hp : p.WellFormed) {a b : String} :
    g.Leads a b ↔ p.Leads a b := by
  simp only [Leads, h.targets_eq hp, Connection.mem_targetsOf]
  constructor
  · rintro ⟨label, hc⟩
    exact ⟨_, hc, rfl, rfl⟩
  · rintro ⟨c, hc, rfl, rfl⟩
    exact ⟨c.label, hc⟩

theorem Represents.entry_mem (h : Represents p handlers g) (hp : p.WellFormed) : g.entry ∈ p.ids := by
  obtain ⟨n, ns, hnodes⟩ := List.exists_cons_of_ne_nil hp.nodes
  rw [h.entry n ns hnodes]
  cases hentry : p.entry with
  | none => simp [GraphPayload.ids, hnodes]
  | some id => exact hp.entry id hentry

theorem Represents.sound (h : Represents p handlers g) (hp : p.WellFormed) : g.Sound where
  entry := h.ids.mem_iff.2 (h.entry_mem hp)
  leads a b hab := by
    obtain ⟨c, hc, -, rfl⟩ := (h.leads_iff hp).1 hab
    exact h.ids.mem_iff.2 (hp.ends c hc).2
  acyclic a := by
    have hleads : g.Leads = p.Leads := funext₂ fun _ _ => propext (h.leads_iff hp)
    rw [hleads]
    exact hp.acyclic a

/-- What compiles is sound. -/
theorem sound_of_compile {k : Catalogue ω η} {payload : List UInt8} {w w' : ω}
    (h : compile k payload w = (.ok g, w')) : g.Sound := by
  obtain ⟨p, hs, -, hp, -, hg⟩ := exists_represents_of_compile h
  exact hg.sound hp

end Compiled

/-- Nodes that are handled inside one another, innermost first: they are different, the outermost is the
entry, and each is told by the one around it. -/
structure Nested (g : Graph η) (stack : List String) : Prop where
  distinct : stack.Nodup
  known : stack ⊆ g.nodes.keys
  steps : stack.IsChain fun inner outer => g.Leads outer inner
  outermost : stack.getLast? = some g.entry

namespace Nested

variable {g : Graph η} {id target : String} {within : List String}

theorem entry (hg : g.Sound) : g.Nested [g.entry] where
  distinct := List.nodup_singleton _
  known := by simpa using hg.entry
  steps := List.isChain_singleton _
  outermost := rfl

/-- The outer nodes lead to the inner ones. -/
theorem reflTransGen (h : g.Nested (id :: within)) {outer : String} (houter : outer ∈ id :: within) :
    Relation.ReflTransGen g.Leads outer id := by
  have hsteps := h.steps
  clear h
  induction within generalizing id with
  | nil => rw [List.mem_singleton.1 houter]
  | cons a within ih =>
    obtain ⟨hstep, hsteps⟩ := List.isChain_cons_cons.1 hsteps
    rcases List.mem_cons.1 houter with rfl | houter
    · exact .refl
    · exact (ih houter hsteps).tail hstep

/-- What a node tells is not among the nodes around it. -/
theorem cons (hg : g.Sound) (h : g.Nested (id :: within)) (hleads : g.Leads id target) :
    g.Nested (target :: id :: within) where
  distinct := by
    refine List.nodup_cons.2 ⟨fun hmem => ?_, h.distinct⟩
    exact hg.acyclic target (.tail' (h.reflTransGen hmem) hleads)
  known := List.cons_subset.2 ⟨hg.leads id target hleads, h.known⟩
  steps := List.isChain_cons_cons.2 ⟨hleads, h.steps⟩
  outermost := by simpa using h.outermost

/-- No more nodes can be inside one another than there are. -/
theorem length_le {stack : List String} (h : g.Nested stack) : stack.length ≤ g.nodes.size := by
  rw [← Table.length_keys]
  exact (h.distinct.subperm h.known).length_le

theorem exists_node (h : g.Nested (id :: within)) : ∃ node, g.nodes.get? id = some node :=
  Table.mem_keys.1 (h.known List.mem_cons_self)

end Nested

end Graph

end RuleFlow
