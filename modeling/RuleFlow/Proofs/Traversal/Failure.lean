import RuleFlow.Engine
import RuleFlow.Proofs.Plan
import RuleFlow.Proofs.Traversal.Log

/-!
# Which node a failed run names

In an instance whose nodes are obedient a run goes well exactly if no node fails by itself, and else it ends
with the error of the one node that did: the last one of the log, with its name and the words of its own
error, however many nodes it stands inside of (`Instance.Blames`). Such a run is reported once
(`Instance.blames_of_compile`).

The induction is on the run with its log. A plan either fails by itself, with nothing told, or passes on what
the nodes below it answered (`Instance.Answers`); only the first is wrapped when the node is left.
-/

namespace RuleFlow

variable {ω η : Type} {k : Catalogue ω η} {i : Instance η}

/-- An error that is not yet a node's failure is wrapped in one. -/
theorem wrapFailure_of_kind_ne {id typeName : String} {e : RuleError} (h : e.kind ≠ .nodeFailed) :
    wrapFailure id typeName e = .nodeFailed id typeName e.message := by
  cases e with
  | nodeFailed nodeId typeName reason => exact absurd rfl h
  | _ => rfl

namespace Instance

/-- An instance whose nodes answer every message with an obedient plan. -/
def Obedient (k : Catalogue ω η) (i : Instance η) : Prop :=
  ∀ id node, i.graph.nodes.get? id = some node → ∀ m,
    (k.handle node.handler (i.context id node) m).Obedient

end Instance

/-- The error with which the node of an execution failed by itself, if it did. -/
def Execution.error? (k : Catalogue ω η) (i : Instance η) (x : Execution ω) : Option RuleError :=
  (i.graph.nodes.get? x.visit.node).bind fun node =>
    (k.handle node.handler (i.context x.visit.node node) x.visit.message).ownError? x.world

/-- The own error of an execution is that of the plan its handler makes. -/
theorem Execution.error?_of_get? {x : Execution ω} {node : Node η}
    (h : i.graph.nodes.get? x.visit.node = some node) :
    x.error? k i =
      (k.handle node.handler (i.context x.visit.node node) x.visit.message).ownError? x.world := by
  simp [error?, h]

namespace Instance

/-! ## What a log says of its run -/

/-- The run of a log goes well if no node failed by itself, or it ends with the error of the last node, which
is the only one that did. -/
inductive Blames (k : Catalogue ω η) (i : Instance η) : List (Execution ω) → Result Unit → Prop
  | well {xs : List (Execution ω)} : (∀ x ∈ xs, x.error? k i = none) → Blames k i xs (.ok ())
  | last {xs : List (Execution ω)} {x : Execution ω} {node : Node η} {e : RuleError} :
    (∀ y ∈ xs, y.error? k i = none) → i.graph.nodes.get? x.visit.node = some node →
    x.error? k i = some e →
    Blames k i (xs ++ [x]) (.error (.nodeFailed x.visit.node node.typeName e.message))

namespace Blames

variable {xs ys : List (Execution ω)} {r : Result Unit}

/-- Where a run succeeds, no execution had an own error. -/
theorem error?_eq_none (h : Blames k i xs (.ok ())) : ∀ x ∈ xs, x.error? k i = none := by
  cases h with
  | well hnone => exact hnone

/-- Executions without own errors before a run change nothing about whom it blames. -/
theorem append (h : Blames k i ys r) (hxs : ∀ x ∈ xs, x.error? k i = none) :
    Blames k i (xs ++ ys) r := by
  cases h with
  | well hys => exact .well fun x hx => (List.mem_append.1 hx).elim (hxs x) (hys x)
  | last hys hnode he =>
    rw [← List.append_assoc]
    exact .last (fun y hy => (List.mem_append.1 hy).elim (hxs y) (hys y)) hnode he

/-- The error of a run below a node is passed on as it is. -/
theorem leave_eq {o : Outcome} (h : Blames k i xs o.result) (id : String) (node : Node η) (j : Journey ω) :
    (i.leave id node o j).1 = o.result := by
  unfold leave
  generalize o.result = r at h ⊢
  cases h <;> rfl

/-- A run succeeds if and only if no execution had an own error. -/
theorem eq_ok_iff (h : Blames k i xs r) : r = .ok () ↔ ∀ x ∈ xs, x.error? k i = none := by
  cases h with
  | well hnone => exact ⟨fun _ => hnone, fun _ => rfl⟩
  | @last xs x node e hnone hnode he =>
    constructor
    · rintro ⟨⟩
    · intro hall
      rw [hall x (by simp)] at he
      cases he

/-- A run that fails blames the first execution with an own error, and that is the last one. -/
theorem exists_last (h : Blames k i xs r) (hr : r ≠ .ok ()) :
    ∃ before x node e, xs = before ++ [x] ∧ (∀ y ∈ before, y.error? k i = none) ∧
      i.graph.nodes.get? x.visit.node = some node ∧ x.error? k i = some e ∧
      r = .error (.nodeFailed x.visit.node node.typeName e.message) := by
  cases h with
  | well => exact absurd rfl hr
  | last hnone hnode he => exact ⟨_, _, _, _, rfl, hnone, hnode, he, rfl⟩

end Blames

/-- A plan failed by itself, with nothing told, or passes on how the run below it ended. -/
inductive Answers (k : Catalogue ω η) (i : Instance η) :
    Option RuleError → List (Execution ω) → Result Unit → Prop
  | own {e : RuleError} : e.kind ≠ .nodeFailed → Answers k i (some e) [] (.error e)
  | below {xs : List (Execution ω)} {r : Result Unit} : Blames k i xs r → Answers k i none xs r

/-- A plan without an own error answers with what it was told. -/
theorem Answers.blames {xs : List (Execution ω)} {r : Result Unit} (h : Answers k i none xs r) :
    Blames k i xs r := by
  cases h with
  | below hblames => exact hblames

/-- A plan that has ended answers with its own error, if any. -/
theorem Answers.of_outcome {o : Outcome} (h : (.finish o : Plan ω).Obedient) :
    Answers k i o.error? [] o.result := by
  cases o with
  | done => exact .below (.well (by simp))
  | failed e => exact .own (h e rfl)
  | panicked text => exact .own (by simp [RuleError.kind])

theorem leave_of_error {o : Outcome} {e : RuleError} (h : o.result = .error e) (id : String)
    (node : Node η) (j : Journey ω) :
    (i.leave id node o j).1 = .error (wrapFailure id node.typeName e) := by
  unfold leave
  rw [h]

/-- Only the error of a node that failed by itself is wrapped when the node is left. -/
theorem Blames.leave {x : Execution ω} {xs : List (Execution ω)} {node : Node η} {o : Outcome}
    (hnode : i.graph.nodes.get? x.visit.node = some node)
    (h : Answers k i (x.error? k i) xs o.result) (j : Journey ω) :
    Blames k i (x :: xs) (i.leave x.visit.node node o j).1 := by
  generalize hown : x.error? k i = own at h
  generalize hr : o.result = r at h
  cases h with
  | own hkind =>
    rw [leave_of_error hr, wrapFailure_of_kind_ne hkind, ← List.nil_append [x]]
    exact .last (by simp) hnode hown
  | below hblames =>
    subst hr
    rw [hblames.leave_eq, ← List.singleton_append]
    exact hblames.append (by simpa using hown)

/-- After an error a plan that heeds tells nothing more and ends with it. -/
theorem Follows.of_surrenders {within : List String} {id : String} {plan : Plan ω}
    {j j' : Journey ω} {xs : List (Execution ω)} {o : Outcome} {e : RuleError}
    (h : Follows k i within id plan j xs o j') (hplan : plan.Surrenders e) :
    xs = [] ∧ o = .failed e := by
  induction plan generalizing j with
  | finish o =>
    cases h
    exact ⟨rfl, hplan⟩
  | tell label m next => exact hplan.elim
  | reveal e next ih =>
    cases h with
    | reveal hnext => exact ih hnext hplan
  | look next ih =>
    cases h with
    | look hnext => exact ih _ hnext (hplan _)
  | change w next ih =>
    cases h with
    | change hnext => exact ih hnext hplan

/-- What follows a message that was told: the rest of the plan if all went well, and else nothing. -/
theorem Blames.tell {within : List String} {id label : String} {m : Message}
    {next : Result Unit → Plan ω} {j j' : Journey ω} {xs ys : List (Execution ω)} {r : Result Unit}
    {o : Outcome} (h : Blames k i xs r) (hplan : (Plan.tell label m next).Heeds)
    (hfollows : Follows k i within id (next r) j ys o j')
    (hanswers : (next r).Obedient → Answers k i ((next r).ownError? j.world) ys o.result) :
    Blames k i (xs ++ ys) o.result := by
  obtain ⟨hheeds, hsurrenders⟩ := hplan
  cases r with
  | error e =>
    obtain ⟨rfl, rfl⟩ := hfollows.of_surrenders (hsurrenders e)
    rwa [List.append_nil]
  | ok =>
    have hbelow := hanswers hheeds.obedient
    rw [hheeds.ownError?_eq_none] at hbelow
    exact hbelow.blames.append h.error?_eq_none

mutual

/-- A run of a message blames its last execution, or none. -/
theorem Handles.blames (hi : i.Obedient k) {within : List String} {id : String} {m : Message}
    {j j' : Journey ω} {xs : List (Execution ω)} {r : Result Unit}
    (h : Handles k i within id m j xs r j') : Blames k i xs r :=
  match h with
  | .handle hnode hfollows => by
    have hanswers := hfollows.answers hi (hi _ _ hnode m)
    rw [world_enter] at hanswers
    exact .leave hnode (by rwa [Execution.error?_of_get? hnode]) _
termination_by structural h

/-- What is left of a plan answers with its own error, or with the one that it was told. -/
theorem Follows.answers (hi : i.Obedient k) {within : List String} {id : String} {plan : Plan ω}
    {j j' : Journey ω} {xs : List (Execution ω)} {o : Outcome}
    (h : Follows k i within id plan j xs o j') (hplan : plan.Obedient) :
    Answers k i (plan.ownError? j.world) xs o.result :=
  match h with
  | .finish _ _ => .of_outcome hplan
  | .tell hpasses hfollows =>
    .below ((hpasses.blames hi).tell hplan hfollows fun hnext => hfollows.answers hi hnext)
  | .reveal hfollows => (hfollows.answers hi hplan :)
  | .look hfollows => hfollows.answers hi (hplan _)
  | .change hfollows => (hfollows.answers hi hplan :)
termination_by structural h

theorem Passes.blames (hi : i.Obedient k) {within : List String} {id : String}
    {targets : List String} {m : Message} {j j' : Journey ω} {xs : List (Execution ω)}
    {r : Result Unit} (h : Passes k i within id targets m j xs r j') : Blames k i xs r :=
  match h with
  | .done _ _ => .well (by simp)
  | .next hhandles hpasses => (hpasses.blames hi).append (hhandles.blames hi).error?_eq_none
  | .fail hhandles => hhandles.blames hi
termination_by structural h

end

/-! ## Compiled instances -/

/-- A message that enters an instance of obedient nodes. The run goes well exactly if no node of its log
failed by itself. If not, the last node of the log did, and no other; the run ends with its name and the words
of its error, and one report with the same is made of it. -/
theorem blames_of_compile {payload : List UInt8} {w w' : ω}
    (h : Graph.compile k payload w = (.ok i.graph, w')) (hi : i.Obedient k) (m : Message)
    (s : Engine ω η) :
    ∃ xs r j', i.receive k m s.journey = (r, j') ∧
      Handles k i [] i.graph.entry m s.journey xs r j' ∧
      j'.visits = s.journey.visits ++ xs.map (·.visit) ∧
      (r = .ok () ↔ ∀ x ∈ xs, x.error? k i = none) ∧
      (r = .ok () → (s.traverse k ⟨i, m⟩).failures = s.failures) ∧
      (r ≠ .ok () → ∃ before x node e, xs = before ++ [x] ∧ (∀ y ∈ before, y.error? k i = none) ∧
        i.graph.nodes.get? x.visit.node = some node ∧ x.error? k i = some e ∧
        r = .error (.nodeFailed x.visit.node node.typeName e.message) ∧
        (s.traverse k ⟨i, m⟩).failures =
          s.failures.report ⟨i.id, x.visit.node, node.typeName, m.id, e.message⟩) := by
  obtain ⟨r, j', hreceive, hreceives, -, -⟩ := receive_of_compile h m s.journey
  obtain ⟨xs, hhandles⟩ := hreceives.exists_log
  have hblames : Blames k i xs r := hhandles.blames hi
  refine ⟨xs, r, j', hreceive, hhandles, hhandles.visits_eq, hblames.eq_ok_iff, ?_, fun hr => ?_⟩
  · rintro rfl
    simp only [Engine.traverse, hreceive]
  · obtain ⟨before, x, node, e, hxs, hbefore, hnode, hx, rfl⟩ := hblames.exists_last hr
    refine ⟨before, x, node, e, hxs, hbefore, hnode, hx, rfl, ?_⟩
    simp only [Engine.traverse, hreceive, Traversal.failure]

/-- Whatever graph they stand in, components are obedient that are not told to fail in the name of another
node. -/
theorem obedient_of_components {registry : Registry} {i : Instance Component}
    (h : ∀ node ∈ i.graph.nodes.values, node.handler.impersonates = false) :
    i.Obedient registry.catalogue := fun _ node hnode m =>
  Component.obedient_handle (h node (Table.mem_values.2 ⟨_, hnode⟩)) _ m

end Instance

/-- A definition of two probes, the second of which panics. -/
def GraphPayload.explosive : GraphPayload where
  nodes := [{ id := "first", typeName := "recorder" }, { id := "explode", typeName := "panic" }]
  connections := [⟨"first", "explode", successLabel⟩]

/-- An engine in which nothing has run. -/
def Engine.fresh : Engine World Component where
  journey := { world := {} }
  failures := { capacity := 1 }

/-- The report of a run of the two probes. -/
def NodeFailure.explosion : NodeFailure :=
  ⟨"rc", "explode", "panic", (default : Message).id, "节点执行失败: panic: node exploded"⟩

theorem Graph.exists_compile_explosive : ∃ g w',
    compile Registry.withProbes.catalogue GraphPayload.explosive.text {} = (.ok g, w') ∧
      (∀ node ∈ g.nodes.values, node.handler.impersonates = false) ∧
      (Engine.fresh.traverse Registry.withProbes.catalogue
        ⟨.ofChain { id := "rc" } g, default⟩).failures.queue = [.explosion] :=
  exists_compile (by decide +kernel)

namespace Instance

theorem blames_explosive : ∃ (g : Graph Component) (w' : World) (before : List (Execution World))
    (x : Execution World) (r : Result Unit) (j' : Journey World),
    Graph.compile Registry.withProbes.catalogue GraphPayload.explosive.text {} = (.ok g, w') ∧
      (ofChain { id := "rc" } g).Obedient Registry.withProbes.catalogue ∧
      Handles Registry.withProbes.catalogue (ofChain { id := "rc" } g) [] g.entry default
        Engine.fresh.journey (before ++ [x]) r j' ∧
      x.visit.node = "explode" ∧
      r = .error (.nodeFailed "explode" "panic" "节点执行失败: panic: node exploded") := by
  obtain ⟨g, w', hg, hcomponents, hqueue⟩ := Graph.exists_compile_explosive
  have hi : (ofChain { id := "rc" } g).Obedient Registry.withProbes.catalogue :=
    obedient_of_components hcomponents
  obtain ⟨xs, r, j', -, hhandles, -, -, hwell, hfailed⟩ :=
    blames_of_compile (i := ofChain { id := "rc" } g) hg hi default Engine.fresh
  have hr : r ≠ .ok () := fun hr => by
    rw [hwell hr] at hqueue
    cases hqueue
  obtain ⟨before, x, node, e, rfl, -, -, -, rfl, hreport⟩ := hfailed hr
  rw [hreport] at hqueue
  obtain ⟨-, hnode, htype, -, he⟩ := NodeFailure.mk.inj (List.cons.inj hqueue).1
  exact ⟨g, w', before, x, _, j', hg, hi, hhandles, hnode, by rw [hnode, htype, he]⟩

end Instance

end RuleFlow
