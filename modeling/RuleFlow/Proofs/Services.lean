import RuleFlow.Proofs.Traversal.Failure

/-!
# Runs of built-in nodes

The built-in nodes heed over any services (`Component.heeds_handleOver`): what goes wrong in a call becomes a
message under the label of failures, and if nobody is told under that label it is dropped. So every run through a
compiled graph of built-in nodes goes well and none is ever reported (`Instance.receives_well_of_builtin`).
-/

namespace RuleFlow

variable {ω : Type}

namespace Instance

variable {η : Type} {k : Catalogue ω η}

/-- A run through nodes that heed goes well. -/
theorem receives_well {i : Instance η}
    (hi : ∀ id node, i.graph.nodes.get? id = some node → ∀ m,
      (k.handle node.handler (i.context id node) m).Heeds)
    {within : List String} {id : String} {m : Message} {j j' : Journey ω} {r : Result Unit}
    (h : Receives k i within id m j r j') : r = .ok () := by
  obtain ⟨xs, hhandles⟩ := h.exists_log
  have hblames := hhandles.blames fun id node hnode m => (hi id node hnode m).obedient
  refine hblames.eq_ok_iff.2 fun x _ => ?_
  cases hnode : i.graph.nodes.get? x.visit.node with
  | none => simp [Execution.error?, hnode]
  | some node =>
    rw [Execution.error?_of_get? hnode]
    exact (hi _ _ hnode _).ownError?_eq_none x.world

theorem failures_traverse_of_ok {i : Instance η} {m : Message} {s : Engine ω η} {j' : Journey ω}
    (h : i.receive k m s.journey = (.ok (), j')) : (s.traverse k ⟨i, m⟩).failures = s.failures := by
  simp only [Engine.traverse, h]

/-- Messages that enter a compiled graph of built-in nodes. Whatever the services answer and whatever is
stored, every run goes well, and however many messages are brought to the graph, nothing is reported. -/
theorem receives_well_of_builtin {k : Catalogue ω Component} {s : Services ω}
    (hk : k.handle = Component.handleOver s) {i : Instance Component} {payload : List UInt8} {w w' : ω}
    (hcompile : Graph.compile k payload w = (.ok i.graph, w'))
    (hi : ∀ node ∈ i.graph.nodes.values, node.handler.isBuiltin = true) :
    (∀ (m : Message) (j : Journey ω), (i.receive k m j).1 = .ok ()) ∧
      ∀ (ms : List Message) (e : Engine ω Component),
        (e.traverseAll k (ms.map (⟨i, ·⟩))).failures = e.failures := by
  have hwell : ∀ m (j : Journey ω), ∃ j', i.receive k m j = (.ok (), j') := by
    intro m j
    obtain ⟨r, j', hreceive, hreceives, -, -⟩ := receive_of_compile hcompile m j
    obtain rfl : r = .ok () := by
      refine receives_well (fun id node hnode m => ?_) hreceives
      rw [hk]
      exact Component.heeds_handleOver (hi node (Table.mem_values.2 ⟨id, hnode⟩)) s _ m
    exact ⟨j', hreceive⟩
  constructor
  · intro m j
    obtain ⟨j', hreceive⟩ := hwell m j
    rw [hreceive]
  · intro ms e
    induction ms generalizing e with
    | nil => rfl
    | cons m ms ih =>
      obtain ⟨j', hreceive⟩ := hwell m e.journey
      exact (ih (e.traverse k ⟨i, m⟩)).trans (failures_traverse_of_ok hreceive)

end Instance

/-- A definition of two nodes that ask for the sender of a message; the second gets what the first failed at. -/
def GraphPayload.familiar : GraphPayload where
  nodes :=
    [{ id := "save", typeName := "save_attributes" },
      { id := "relate", typeName := "create_relation",
        config := .object [("relation_type", .string "knows"), ("entity_id", .string "hall")] }]
  connections := [⟨"save", "relate", failureLabel⟩]

theorem Graph.exists_compile_familiar : ∃ g w',
    compile Registry.builtin.catalogue GraphPayload.familiar.text {} = (.ok g, w') ∧
      (∀ node ∈ g.nodes.values, node.handler.isBuiltin = true) ∧
      ((Instance.ofChain {} g).receive Registry.builtin.catalogue default ⟨{}, [], []⟩).2.visits.map
        (fun v => (v.node, v.message.metadata.keys)) = [("save", []), ("relate", ["error"])] :=
  exists_compile (by decide +kernel)

namespace Instance

theorem receives_well_familiar : ∃ (g : Graph Component) (w' : World),
    Graph.compile Registry.builtin.catalogue GraphPayload.familiar.text {} = (.ok g, w') ∧
      (∀ node ∈ g.nodes.values, node.handler.isBuiltin = true) ∧
      ((ofChain {} g).receive Registry.builtin.catalogue default ⟨{}, [], []⟩).2.visits.map
        (fun v => (v.node, v.message.metadata.keys)) = [("save", []), ("relate", ["error"])] ∧
      ∀ m j, ((ofChain {} g).receive Registry.builtin.catalogue m j).1 = .ok () := by
  obtain ⟨g, w', hg, hbuiltin, hvisits⟩ := Graph.exists_compile_familiar
  have hwell := receives_well_of_builtin (k := Registry.builtin.catalogue) (i := ofChain {} g)
    rfl hg hbuiltin
  exact ⟨g, w', hg, hbuiltin, hvisits, hwell.1⟩

end Instance

end RuleFlow
