import RuleFlow.Proofs.Plan
import RuleFlow.Proofs.Traversal.Run

/-!
# What the debug mode shows

In debug mode the execution of a node shows an event when it begins and one when it ends, well or with an
error. `Instance.Trail` says which events the executions of some visits show: those of a node stand between its
own two, and an execution with an error is the last one among its neighbours.

Read with a stack of the nodes that have begun and not ended, a trail is well nested, and it begins the
executions of the visits in their order (`Instance.Trail.beginnings_eq`). A trail without an error shows no
failure, and one with an error ends with the failures of the node that made it and of all nodes around that one
(`Instance.Trail.exists_failures`).
-/

namespace RuleFlow

variable {ω η : Type}

namespace Event

/-- Whether an event is one of those that the debug mode shows. -/
def isTrace : Event → Bool
  | before .. | after .. | failed .. => true
  | hit .. | line .. => false

/-- Whether an event shows that a node failed. -/
def isFailure : Event → Bool
  | failed .. => true
  | _ => false

/-- Reads events with a stack of the nodes whose executions have begun and not ended, the latest first. Lists
the beginnings, each with the stack that it met, if every end is one of the latest beginning and none is
missing. -/
def beginnings : List String → List Event → Option (List (List String × Event))
  | [], [] => some []
  | within, .before chainId id typeName data :: es =>
    (beginnings (id :: within) es).map ((within, .before chainId id typeName data) :: ·)
  | id :: within, .after _ id' :: es => if id' = id then beginnings within es else none
  | id :: within, .failed _ id' _ :: es => if id' = id then beginnings within es else none
  | _, _ => none

end Event

/-- An error that has left a node stays as it is. -/
theorem wrapFailure_wrapFailure (id typeName id' typeName' : String) (e : RuleError) :
    wrapFailure id typeName (wrapFailure id' typeName' e) = wrapFailure id' typeName' e := by
  cases e <;> rfl

namespace Instance

/-- The event that the execution of a visit begins with, and the nodes around it. -/
def beginning (i : Instance η) (v : Visit) : List String × Event :=
  (v.within, .before i.id v.node (((i.graph.nodes.get? v.node).map (·.typeName)).getD "") v.message.data)

/-! ## Trails -/

/-- What the debug mode shows of the executions of some visits, made inside of others one after the other and up
to the first error. An error is made by a node itself or comes from an execution inside of it. -/
inductive Trail (k : Catalogue ω η) (i : Instance η) :
    List String → List Visit → List Event → Result Unit → Prop
  | done {within : List String} : Trail k i within [] [] (.ok ())
  | well {within : List String} {id : String} {m : Message} {node : Node η} {vs ws : List Visit}
      {es fs : List Event} {r : Result Unit} :
    i.graph.nodes.get? id = some node → Trail k i (id :: within) vs es (.ok ()) →
    Trail k i within ws fs r →
    Trail k i within (⟨within, id, m⟩ :: (vs ++ ws))
      (.before i.id id node.typeName m.data :: (es ++ .after i.id id :: fs)) r
  | makes {within : List String} {id : String} {m : Message} {node : Node η} {vs : List Visit}
      {es : List Event} {e : RuleError} :
    i.graph.nodes.get? id = some node → Trail k i (id :: within) vs es (.ok ()) →
    (k.handle node.handler (i.context id node) m).Makes e →
    Trail k i within (⟨within, id, m⟩ :: vs)
      (.before i.id id node.typeName m.data :: (es ++ [.failed i.id id e]))
      (.error (wrapFailure id node.typeName e))
  | passes {within : List String} {id : String} {m : Message} {node : Node η} {vs : List Visit}
      {es : List Event} {e : RuleError} :
    i.graph.nodes.get? id = some node → Trail k i (id :: within) vs es (.error e) →
    Trail k i within (⟨within, id, m⟩ :: vs)
      (.before i.id id node.typeName m.data :: (es ++ [.failed i.id id e])) (.error e)

namespace Trail

variable {k : Catalogue ω η} {i : Instance η} {within : List String} {vs ws : List Visit}
  {es fs : List Event} {r : Result Unit} {e : RuleError}

/-- Trails one after the other, the first without a failure. -/
theorem append (h : Trail k i within vs es (.ok ())) (h' : Trail k i within ws fs r) :
    Trail k i within (vs ++ ws) (es ++ fs) r := by
  generalize hok : (.ok () : Result Unit) = r₀ at h
  induction h with
  | done => exact h'
  | well hnode hinside _ _ ih =>
    have hrest := ih h' hok
    simpa using Trail.well hnode hinside hrest
  | makes => cases hok
  | passes => cases hok

/-- The error of a trail has been wrapped. -/
theorem wrapFailure_eq (h : Trail k i within vs es (.error e)) (id typeName : String) :
    wrapFailure id typeName e = e := by
  generalize hr : (.error e : Result Unit) = r at h
  induction h with
  | done => cases hr
  | well _ _ _ _ ih => exact ih hr
  | makes =>
    obtain rfl := Except.error.inj hr
    exact wrapFailure_wrapFailure ..
  | passes _ _ ih =>
    obtain rfl := Except.error.inj hr
    exact ih rfl

/-- A trail has events of the debug mode only, all of its chain. -/
theorem isTrace_of_mem (h : Trail k i within vs es r) :
    ∀ e ∈ es, e.isTrace = true ∧ e.chainId = i.id := by
  induction h with
  | done => simp
  | well _ _ _ ihinside ihrest =>
    simp only [List.forall_mem_cons, List.forall_mem_append]
    exact ⟨⟨rfl, rfl⟩, ihinside, ⟨rfl, rfl⟩, ihrest⟩
  | makes _ _ _ ih =>
    simp only [List.forall_mem_cons, List.forall_mem_append]
    exact ⟨⟨rfl, rfl⟩, ih, ⟨rfl, rfl⟩, by simp⟩
  | passes _ _ ih =>
    simp only [List.forall_mem_cons, List.forall_mem_append]
    exact ⟨⟨rfl, rfl⟩, ih, ⟨rfl, rfl⟩, by simp⟩

/-- The beginnings in a trail are those of its visits, in order. -/
theorem beginnings_append (h : Trail k i within vs es r) (rest : List Event) :
    Event.beginnings within (es ++ rest) =
      (Event.beginnings within rest).map (vs.map i.beginning ++ ·) := by
  induction h generalizing rest with
  | done => simp
  | well hnode _ _ ihinside ihrest =>
    simp [Event.beginnings, ihinside, ihrest, beginning, hnode, Function.comp_def]
  | makes hnode _ _ ih => simp [Event.beginnings, ih, beginning, hnode, Function.comp_def]
  | passes hnode _ ih => simp [Event.beginnings, ih, beginning, hnode, Function.comp_def]

/-- A trail is well nested and begins the executions of its visits in their order, each inside of the nodes
around it. -/
theorem beginnings_eq (h : Trail k i [] vs es r) :
    Event.beginnings [] es = some (vs.map i.beginning) := by
  simpa [Event.beginnings] using h.beginnings_append []

/-- A trail of a run that succeeds reports no failure. -/
theorem isFailure_of_mem (h : Trail k i within vs es (.ok ())) : ∀ e ∈ es, e.isFailure = false := by
  generalize hok : (.ok () : Result Unit) = r at h
  induction h with
  | done => simp
  | well _ _ _ ihinside ihrest =>
    simp only [List.forall_mem_cons, List.forall_mem_append]
    exact ⟨rfl, ihinside rfl, rfl, ihrest hok⟩
  | makes => cases hok
  | passes => cases hok

/-- The end of a trail with an error: first the node that made the error shows it as it was made, then each node
around that one shows it as it left it. Nothing failed before, and nothing begins after. -/
theorem exists_failures (h : Trail k i within vs es (.error e)) :
    ∃ before v inner node own,
      es = before ++ .failed i.id v.node own :: inner.map (.failed i.id · e) ∧
      v ∈ vs ∧ v.within = inner ++ within ∧ i.graph.nodes.get? v.node = some node ∧
      (k.handle node.handler (i.context v.node node) v.message).Makes own ∧
      e = wrapFailure v.node node.typeName own ∧ ∀ x ∈ before, x.isFailure = false := by
  generalize hr : (.error e : Result Unit) = r at h
  induction h with
  | done => cases hr
  | @well within id m node vs ws es fs r _ hinside _ _ ih =>
    obtain ⟨before, v, inner, node', own, rfl, hv, hwithin, hnode, hmakes, he, hbefore⟩ := ih hr
    refine ⟨.before i.id id node.typeName m.data :: (es ++ .after i.id id :: before), v, inner, node', own,
      by simp, by simp [hv], hwithin, hnode, hmakes, he, ?_⟩
    simp only [List.forall_mem_cons, List.forall_mem_append]
    exact ⟨rfl, hinside.isFailure_of_mem, rfl, hbefore⟩
  | @makes within id m node vs es own hnode hinside hmakes =>
    obtain rfl := Except.error.inj hr
    refine ⟨.before i.id id node.typeName m.data :: es, ⟨within, id, m⟩, [], node, own, by simp,
      List.mem_cons_self, rfl, hnode, hmakes, rfl, ?_⟩
    exact List.forall_mem_cons.2 ⟨rfl, hinside.isFailure_of_mem⟩
  | @passes within id m node vs es e' _ _ ih =>
    obtain rfl := Except.error.inj hr
    obtain ⟨before, v, inner, node', own, rfl, hv, hwithin, hnode, hmakes, he, hbefore⟩ := ih rfl
    refine ⟨.before i.id id node.typeName m.data :: before, v, inner ++ [id], node', own, by simp,
      List.mem_cons_of_mem _ hv, by simp [hwithin], hnode, hmakes, he, ?_⟩
    exact List.forall_mem_cons.2 ⟨rfl, hbefore⟩

end Trail

end Instance

end RuleFlow
