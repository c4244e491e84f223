import RuleFlow.Instances
import RuleFlow.Node.Registry
import RuleFlow.Proofs.Graph.Compile

/-!
# What is reported of a definition

A definition with nodes is looked through to its end, whatever is wrong with it. What is to be reported of it
is said here by positions (`GraphPayload.report`): which nodes repeat an id, which of the others could not be
made, which ends of connections and which entry are no nodes, and which cycles the connections between nodes
close. The report is what a compilation that fails answers, so the kinds of defects are found side by side,
and none hides or repeats another. Its first entry is the error with which the chain fails to start
(`Graph.reports_compile`).

The compiler walks along the nodes with the ids that it has seen. That these are the ids at earlier positions
is the invariant of both of its walks (`GraphPayload.repeatedAfter_eq`, `GraphPayload.firstAfter_eq`).
-/

namespace RuleFlow

variable {ω η : Type}

/-- The handlers of some nodes are tried to be made, one after the other, whatever comes of each. -/
inductive Catalogue.Tries (k : Catalogue ω η) : List NodeSpec → ω → List (Result η) → ω → Prop
  | nil (w : ω) : k.Tries [] w [] w
  | cons {n : NodeSpec} {ns : List NodeSpec} {r : Result η} {rs : List (Result η)} {w w₁ w₂ : ω} :
    k.create n w = (r, w₁) → k.Tries ns w₁ rs w₂ → k.Tries (n :: ns) w (r :: rs) w₂

/-- Every list of nodes is tried, one after the other. -/
theorem Graph.exists_tries (k : Catalogue ω η) (ns : List NodeSpec) (w : ω) :
    ∃ rs w', k.Tries ns w rs w' ∧ createAll k ns w = (ns.zip rs, w') := by
  induction ns generalizing w with
  | nil => exact ⟨[], w, .nil w, rfl⟩
  | cons n ns ih =>
    obtain ⟨rs, w', htries, hcreate⟩ := ih (k.create n w).2
    exact ⟨_, w', .cons rfl htries, by simp only [createAll, hcreate, List.zip_cons_cons]⟩

namespace GraphPayload

/-- Whether the id of a node occurs before its position. -/
def IsRepeated (p : GraphPayload) (x : NodeSpec × ℕ) : Prop := x.1.id ∈ p.ids.take x.2

instance (p : GraphPayload) (x : NodeSpec × ℕ) : Decidable (p.IsRepeated x) :=
  inferInstanceAs (Decidable (_ ∈ _))

/-- The nodes whose ids occur before them. -/
def repeats (p : GraphPayload) : List NodeSpec := (p.nodes.zipIdx.filter (p.IsRepeated ·)).map (·.1)

/-- The nodes whose ids do not occur before them: one for each id. -/
def firsts (p : GraphPayload) : List NodeSpec := (p.nodes.zipIdx.filter (¬p.IsRepeated ·)).map (·.1)

/-- The connections from nodes to nodes. -/
def linked (p : GraphPayload) : List Connection :=
  p.connections.filter fun c => c.source ∈ p.ids ∧ c.target ∈ p.ids

/-- A defect, if an id is not that of a node. -/
def unlessNode (p : GraphPayload) (id : String) (d : GraphDefect) : List GraphDefect :=
  if id ∈ p.ids then [] else [d]

/-- What is to be reported of a definition, with the results of trying to make its nodes: every node that
repeats an id, every other node that could not be made, every end of a connection that is no node, an entry
that is no node, and every cycle that is found along the connections between nodes. -/
def report (p : GraphPayload) (rs : List (Result η)) : List GraphDefect :=
  p.repeats.map (.duplicateNode ·.id) ++
    (p.firsts.zip rs).flatMap (fun
      | (n, .error e) => [.creation n.id n.typeName e.message]
      | (_, .ok _) => []) ++
    p.connections.flatMap (fun c =>
      p.unlessNode c.source (.danglingSource c.source c.label c.target) ++
        p.unlessNode c.target (.danglingTarget c.source c.label c.target)) ++
    p.entry.toList.flatMap (fun id => p.unlessNode id (.unknownEntry id)) ++
    (Routes.ofConnections p.linked).findCycles.map .cycle

variable {p : GraphPayload} {before ns : List NodeSpec} {n : NodeSpec} {seen : List String}

/-- The ids that were seen are those of the nodes that were passed. -/
def Passed (before : List NodeSpec) (seen : List String) : Prop :=
  ∀ id, id ∈ seen ↔ id ∈ before.map (·.id)

theorem Passed.old (h : Passed before seen) (hn : n.id ∈ seen) : Passed (before ++ [n]) seen := by
  intro id
  rw [List.map_append, List.mem_append, ← h id]
  refine ⟨.inl, ?_⟩
  rintro (hid | hid)
  · exact hid
  · rwa [List.mem_singleton.1 hid]

theorem Passed.new (h : Passed before seen) : Passed (before ++ [n]) (n.id :: seen) := by
  intro id
  rw [List.map_append, List.mem_append, ← h id, List.mem_cons, or_comm]
  simp

/-- A node is repeated if its id was seen among those passed. -/
theorem Passed.isRepeated_iff (h : Passed before seen) (hp : p.nodes = before ++ n :: ns) :
    p.IsRepeated (n, before.length) ↔ n.id ∈ seen := by
  rw [h n.id, IsRepeated, ids, hp, ← List.map_take, List.take_left]

/-- The repeated ids are those of the repeated nodes, in order. -/
theorem repeatedAfter_eq (hseen : Passed before seen) (hp : p.nodes = before ++ ns) :
    repeatedAfter seen (ns.map (·.id)) =
      ((ns.zipIdx before.length).filter (p.IsRepeated ·)).map (·.1.id) := by
  induction ns generalizing before seen with
  | nil => rfl
  | cons n ns ih =>
    have hp' : p.nodes = before ++ [n] ++ ns := by rw [hp, List.append_assoc, List.singleton_append]
    have hlength : before.length + 1 = (before ++ [n]).length := by simp
    rw [List.map_cons, repeatedAfter, List.zipIdx_cons, List.filter_cons, hlength]
    simp only [decide_eq_true_eq, hseen.isRepeated_iff hp]
    split
    case isTrue hn => rw [List.map_cons, ih (hseen.old hn) hp']
    case isFalse => exact ih hseen.new hp'

/-- The nodes that are made are those that repeat none, in order. -/
theorem firstAfter_eq (hseen : Passed before seen) (hp : p.nodes = before ++ ns) :
    firstAfter seen ns = ((ns.zipIdx before.length).filter (¬p.IsRepeated ·)).map (·.1) := by
  induction ns generalizing before seen with
  | nil => rfl
  | cons n ns ih =>
    have hp' : p.nodes = before ++ [n] ++ ns := by rw [hp, List.append_assoc, List.singleton_append]
    have hlength : before.length + 1 = (before ++ [n]).length := by simp
    rw [firstAfter, List.zipIdx_cons, List.filter_cons, hlength]
    simp only [decide_eq_true_eq, hseen.isRepeated_iff hp, ite_not]
    split
    case isTrue hn => exact ih (hseen.old hn) hp'
    case isFalse hn => rw [List.map_cons, ih hseen.new hp']

theorem passed_nil : Passed [] [] := fun _ => Iff.rfl

theorem repeatedAfter_ids (p : GraphPayload) : repeatedAfter [] p.ids = p.repeats.map (·.id) := by
  rw [ids, repeatedAfter_eq passed_nil rfl, repeats, List.map_map]
  rfl

theorem distinctNodes_eq_firsts (p : GraphPayload) : p.distinctNodes = p.firsts :=
  firstAfter_eq passed_nil rfl

/-! ## The report and the defects -/

theorem entryDefects_eq (p : GraphPayload) :
    p.entryDefects = p.entry.toList.flatMap fun id => p.unlessNode id (.unknownEntry id) := by
  unfold entryDefects
  cases p.entry with
  | none => rfl
  | some id => simp [unlessNode]

/-- The defects of making handlers, as a part of the report. -/
theorem creationDefects_eq (created : List (NodeSpec × Result η)) :
    Graph.creationDefects created = created.flatMap fun
      | (n, .error e) => [.creation n.id n.typeName e.message]
      | (_, .ok _) => [] := by
  rw [Graph.creationDefects, List.filterMap_eq_flatMap_toList]
  refine List.flatMap_congr fun x _ => ?_
  rcases x with ⟨n, e | h⟩ <;> rfl

/-- What the compiler finds is what is to be reported. -/
theorem defects_eq_report (p : GraphPayload) (rs : List (Result η)) :
    Graph.defects p (p.firsts.zip rs) = p.report rs := by
  rw [Graph.defects, repeatedAfter_ids, creationDefects_eq, entryDefects_eq, report, List.map_map]
  rfl

end GraphPayload

namespace Graph

variable {k : Catalogue ω η} {payload : List UInt8} {w : ω} {p : GraphPayload}

/-- A definition with nodes is tried to the end, and fails exactly if there is something to report. -/
theorem exists_tries_compile (k : Catalogue ω η) (w : ω) (hread : GraphPayload.read payload = .ok p)
    (hnodes : p.nodes ≠ []) :
    ∃ rs w', k.Tries p.firsts w rs w' ∧ ∀ es, (compile k payload w).1 = .error es ↔
      es ≠ [] ∧ es = (p.report rs).map .graph := by
  obtain ⟨rs, w', htries, hcreate⟩ := exists_tries k p.firsts w
  refine ⟨rs, w', htries, fun es => ?_⟩
  rw [fst_compile k w hread hnodes, p.distinctNodes_eq_firsts, hcreate, conclude_eq_error_iff,
    p.defects_eq_report]
  constructor
  · rintro ⟨hreport, rfl⟩
    exact ⟨fun hnil => hreport (List.map_eq_nil_iff.1 hnil), rfl⟩
  · rintro ⟨hes, rfl⟩
    exact ⟨fun hnil => hes (List.map_eq_nil_iff.2 hnil), rfl⟩

/-- A text that is refused is refused for something. -/
theorem ne_nil_of_read {es : List RuleError} (h : GraphPayload.read payload = .error es) : es ≠ [] := by
  unfold GraphPayload.read at h
  split at h
  · obtain rfl := Except.error.inj h
    exact List.cons_ne_nil _ _
  · split at h
    · split at h
      · cases h
      · obtain rfl := Except.error.inj h
        exact List.cons_ne_nil _ _
    case h_2 hviolations =>
      obtain rfl := Except.error.inj h
      exact fun hnil => hviolations (List.map_eq_nil_iff.1 hnil)

/-- A compilation that fails says why. -/
theorem ne_nil_of_compile {es : List RuleError} (h : (compile k payload w).1 = .error es) : es ≠ [] := by
  cases hread : GraphPayload.read payload with
  | error es' =>
    simp only [compile, hread, Except.error.injEq] at h
    exact h ▸ ne_nil_of_read hread
  | ok p =>
    by_cases hnodes : p.nodes = []
    · simp only [compile, hread, if_pos hnodes, Except.error.injEq] at h
      subst h
      exact List.cons_ne_nil _ _
    · obtain ⟨rs, w', -, hfails⟩ := exists_tries_compile k w hread hnodes
      exact ((hfails es).1 h).1

end Graph

/-- A chain that does not run and whose definition does not compile fails to start with the first thing that
is reported of it. -/
theorem Instances.start_of_compile_error {k : Catalogue ω η} {c : Chain} {s : Instances η} {w : ω}
    {e : RuleError} {es : List RuleError} (hidle : s.isRunning c.id = false)
    (h : (Graph.compile k c.payload w).1 = .error (e :: es)) : (s.start k c w).1 = .error e := by
  rcases hcompile : Graph.compile k c.payload w with ⟨r, w'⟩
  rw [hcompile] at h
  subst h
  simp only [start, launch, hidle, hcompile, Bool.false_eq_true, if_false, leadingError, List.headD_cons]

/-- A compilation that fails answers at least one error, and the first one is the error with which a chain of
the definition fails to start. Of a text that has the shape of a definition with nodes it answers just what is
to be reported, in its order, and it fails exactly if that is something. -/
theorem Graph.reports_compile (k : Catalogue ω η) (payload : List UInt8) (w : ω) :
    (∀ es, (compile k payload w).1 = .error es → ∃ e rest, es = e :: rest ∧
      ∀ (c : Chain) (s : Instances η), c.payload = payload → s.isRunning c.id = false →
        (s.start k c w).1 = .error e) ∧
    ∀ v, Json.parse payload = .ok v → graphShape.Accepts v → (GraphPayload.named v).nodes ≠ [] →
      ∃ rs w', k.Tries (GraphPayload.named v).firsts w rs w' ∧
        ∀ es, (compile k payload w).1 = .error es ↔
          es ≠ [] ∧ es = ((GraphPayload.named v).report rs).map .graph := by
  refine ⟨fun es h => ?_, fun v hparse hv hnodes => ?_⟩
  · obtain ⟨e, rest, rfl⟩ := List.exists_cons_of_ne_nil (ne_nil_of_compile h)
    refine ⟨e, rest, rfl, ?_⟩
    rintro c s rfl hidle
    exact Instances.start_of_compile_error hidle h
  · exact exists_tries_compile k w (read_of_accepts hparse hv) hnodes

/-- A definition with a defect of every kind. The node on its cycle cannot be made, and no way leads there. -/
def GraphPayload.faulty : GraphPayload where
  entry := some "zz"
  nodes := [{ id := "a", typeName := "log" }, { id := "a", typeName := "log" },
    { id := "b", typeName := "no_such_type" }]
  connections := [⟨"a", "x", successLabel⟩, ⟨"y", "a", successLabel⟩, ⟨"b", "b", successLabel⟩]

/-- What is to be reported of it. -/
def GraphPayload.faults : List GraphDefect :=
  [.duplicateNode "a", .creation "b" "no_such_type" "找不到节点处理器: no_such_type",
    .danglingTarget "a" successLabel "x", .danglingSource "y" successLabel "a", .unknownEntry "zz",
    .cycle ["b", "b"]]

theorem Graph.compile_faulty :
    (compile Registry.builtin.catalogue GraphPayload.faulty.text {}).1 =
      .error (GraphPayload.faults.map .graph) := by
  have hfails : (compile Registry.builtin.catalogue GraphPayload.faulty.text {}).1.map (fun _ => ()) =
      .error (GraphPayload.faults.map .graph) := by
    decide +kernel
  cases h : (compile Registry.builtin.catalogue GraphPayload.faulty.text {}).1 with
  | ok g =>
    rw [h] at hfails
    cases hfails
  | error es =>
    rw [h] at hfails
    exact congrArg _ (Except.error.inj hfails)

theorem Graph.reports_faulty : ∃ v rs w',
    Json.parse GraphPayload.faulty.text = .ok v ∧ graphShape.Accepts v ∧
      (GraphPayload.named v).nodes ≠ [] ∧
      Registry.builtin.catalogue.Tries (GraphPayload.named v).firsts {} rs w' ∧
      ((GraphPayload.named v).report rs).map RuleError.graph = GraphPayload.faults.map .graph ∧
      (({} : Instances Component).start Registry.builtin.catalogue
        { id := "rc", payload := GraphPayload.faulty.text } {}).1 = .error (.graph (.duplicateNode "a")) := by
  obtain ⟨v, u, hparse, hv⟩ := exists_ok_of_any (x := (Json.parse GraphPayload.faulty.text, ()))
    (p := fun v => graphShape.violations "" v = [] && (GraphPayload.named v).nodes ≠ [])
    (by decide +kernel)
  obtain ⟨hshape, hnodes⟩ := Bool.and_eq_true_iff.1 hv
  have hparse' : Json.parse GraphPayload.faulty.text = .ok v := (Prod.mk.inj hparse).1
  have haccepts : graphShape.Accepts v :=
    (Shape.violations_eq_nil_iff _ _ _).1 (of_decide_eq_true hshape)
  have hnodes' : (GraphPayload.named v).nodes ≠ [] := of_decide_eq_true hnodes
  obtain ⟨hfirst, hall⟩ := reports_compile Registry.builtin.catalogue GraphPayload.faulty.text {}
  obtain ⟨rs, w', htries, hreport⟩ := hall v hparse' haccepts hnodes'
  obtain ⟨e, rest, hes, hstart⟩ := hfirst _ compile_faulty
  obtain rfl : .graph (.duplicateNode "a") = e := (List.cons.inj hes).1
  have hidle : ({} : Instances Component).isRunning "rc" = false := rfl
  exact ⟨v, rs, w', hparse', haccepts, hnodes', htries, ((hreport _).1 compile_faulty).2.symm,
    hstart { id := "rc", payload := GraphPayload.faulty.text } {} rfl hidle⟩

end RuleFlow
