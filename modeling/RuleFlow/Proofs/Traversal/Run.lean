import RuleFlow.Proofs.Graph.Sound
import RuleFlow.Traversal

/-!
# Runs without a budget

`Instance.Receives` says what it means that a node receives a message and what comes of it, without a bound
on how deep nodes may be nested and only for nodes that are there. In a sound graph every message has such a
run, and `Instance.execute` computes it under every budget that is at least the number of nodes
(`Instance.exists_receives`). There is no other run (`Instance.Receives.receive_eq`). The nodes that are
handled inside one another during a run are nested as in `Graph.Nested` (`Instance.Receives.nested`).
-/

namespace RuleFlow

variable {ω η : Type}

namespace Journey

/-- Between two points of a run some visits were made, all with a property. -/
def Adds (P : Visit → Prop) (j j' : Journey ω) : Prop :=
  ∃ vs, j'.visits = j.visits ++ vs ∧ ∀ v ∈ vs, P v

variable {P : Visit → Prop} {j j₁ j' : Journey ω}

theorem Adds.of_eq (h : j'.visits = j.visits) : Adds P j j' := ⟨[], by simp [h], by simp⟩

theorem Adds.trans (h₁ : Adds P j j₁) (h₂ : Adds P j₁ j') : Adds P j j' := by
  obtain ⟨vs, hvs, hP⟩ := h₁
  obtain ⟨vs', hvs', hP'⟩ := h₂
  refine ⟨vs ++ vs', by rw [hvs', hvs, List.append_assoc], fun v hv => ?_⟩
  exact (List.mem_append.1 hv).elim (hP v) (hP' v)

theorem Adds.imp {Q : Visit → Prop} (h : Adds P j j') (hPQ : ∀ v, P v → Q v) : Adds Q j j' := by
  obtain ⟨vs, hvs, hP⟩ := h
  exact ⟨vs, hvs, fun v hv => hPQ v (hP v hv)⟩

@[simp] theorem visits_reveal (e : Event) (j : Journey ω) : (j.reveal e).visits = j.visits := rfl

@[simp] theorem visits_observe (debugMode : Bool) (e : Event) (j : Journey ω) :
    (j.observe debugMode e).visits = j.visits := by
  cases debugMode <;> rfl

@[simp] theorem visits_visit (v : Visit) (j : Journey ω) : (j.visit v).visits = j.visits ++ [v] := rfl

end Journey

namespace Instance

/-- Where a node of an instance stands. -/
def context (i : Instance η) (id : String) (node : Node η) : Context :=
  ⟨i.id, id, node.typeName, node.routes⟩

/-- The run at the point where a node is about to handle a message. -/
def enter (i : Instance η) (within : List String) (id : String) (node : Node η) (m : Message)
    (j : Journey ω) : Journey ω :=
  (j.visit ⟨within, id, m⟩).observe i.debugMode (.before i.id id node.typeName m.data)

/-- What a node answers when its plan has ended, and the run after it. -/
def leave (i : Instance η) (id : String) (node : Node η) (o : Outcome) (j : Journey ω) :
    Result Unit × Journey ω :=
  match o.result with
  | .ok () => (.ok (), j.observe i.debugMode (.after i.id id))
  | .error e =>
    (.error (wrapFailure id node.typeName e), j.observe i.debugMode (.failed i.id id e))

@[simp] theorem visits_enter (i : Instance η) (within : List String) (id : String) (node : Node η)
    (m : Message) (j : Journey ω) :
    (i.enter within id node m j).visits = j.visits ++ [⟨within, id, m⟩] := by
  simp [enter]

@[simp] theorem visits_leave (i : Instance η) (id : String) (node : Node η) (o : Outcome)
    (j : Journey ω) : (i.leave id node o j).2.visits = j.visits := by
  unfold leave
  split <;> simp

theorem adds_enter {P : Visit → Prop} {i : Instance η} {within : List String} {id : String}
    {node : Node η} {m : Message} {j : Journey ω} (h : P ⟨within, id, m⟩) :
    j.Adds P (i.enter within id node m j) :=
  ⟨[⟨within, id, m⟩], visits_enter .., by simpa using h⟩

/-- A node that exists runs its plan between entering and leaving. -/
theorem execute_of_get? {k : Catalogue ω η} {i : Instance η} {budget : Nat} {within : List String}
    {id : String} {m : Message} {j : Journey ω} {node : Node η}
    (hnode : i.graph.nodes.get? id = some node) :
    i.execute k (budget + 1) within id m j =
      ((k.handle node.handler (i.context id node) m).run
        (fun label m j => deliverAll (i.execute k budget (id :: within)) (i.graph.targets id label) m j)
        (i.enter within id node m j)).map fun x => i.leave id node x.1 x.2 := by
  simp only [execute, hnode, context, enter]
  cases Plan.run (fun label m j => deliverAll (i.execute k budget (id :: within))
    (i.graph.targets id label) m j) (k.handle node.handler ⟨i.id, id, node.typeName, node.routes⟩ m)
    ((j.visit ⟨within, id, m⟩).observe i.debugMode (.before i.id id node.typeName m.data)) with
  | none => rfl
  | some x =>
    simp only [Option.map_some, leave]
    cases x.1.result <;> rfl

/-! ## Runs -/

mutual

/-- A node receives a message inside the handling of others, and what comes of it. -/
inductive Receives (k : Catalogue ω η) (i : Instance η) :
    List String → String → Message → Journey ω → Result Unit → Journey ω → Prop
  | handle {within : List String} {id : String} {m : Message} {j j' : Journey ω} {o : Outcome}
      {node : Node η} :
    i.graph.nodes.get? id = some node →
    Carries k i within id (k.handle node.handler (i.context id node) m) (i.enter within id node m j)
      o j' →
    Receives k i within id m j (i.leave id node o j').1 (i.leave id node o j').2

/-- A node carries out a plan, and how it ends. -/
inductive Carries (k : Catalogue ω η) (i : Instance η) :
    List String → String → Plan ω → Journey ω → Outcome → Journey ω → Prop
  | finish {within : List String} {id : String} (o : Outcome) (j : Journey ω) :
    Carries k i within id (.finish o) j o j
  | tell {within : List String} {id label : String} {m : Message} {next : Result Unit → Plan ω}
      {j j₁ j' : Journey ω} {r : Result Unit} {o : Outcome} :
    Delivers k i within id (i.graph.targets id label) m j r j₁ →
    Carries k i within id (next r) j₁ o j' → Carries k i within id (.tell label m next) j o j'
  | reveal {within : List String} {id : String} {e : Event} {next : Plan ω} {j j' : Journey ω}
      {o : Outcome} :
    Carries k i within id next (j.reveal e) o j' → Carries k i within id (.reveal e next) j o j'
  | look {within : List String} {id : String} {next : ω → Plan ω} {j j' : Journey ω} {o : Outcome} :
    Carries k i within id (next j.world) j o j' → Carries k i within id (.look next) j o j'
  | change {within : List String} {id : String} {w : ω} {next : Plan ω} {j j' : Journey ω}
      {o : Outcome} :
    Carries k i within id next { j with world := w } o j' →
    Carries k i within id (.change w next) j o j'

/-- A node tells a message to some others, one after the other and up to the first error. -/
inductive Delivers (k : Catalogue ω η) (i : Instance η) :
    List String → String → List String → Message → Journey ω → Result Unit → Journey ω → Prop
  | done {within : List String} {id : String} (m : Message) (j : Journey ω) :
    Delivers k i within id [] m j (.ok ()) j
  | next {within : List String} {id target : String} {targets : List String} {m : Message}
      {j j₁ j' : Journey ω} {r : Result Unit} :
    Receives k i (id :: within) target m j (.ok ()) j₁ →
    Delivers k i within id targets m j₁ r j' →
    Delivers k i within id (target :: targets) m j r j'
  | fail {within : List String} {id target : String} {targets : List String} {m : Message}
      {j j' : Journey ω} {e : RuleError} :
    Receives k i (id :: within) target m j (.error e) j' →
    Delivers k i within id (target :: targets) m j (.error e) j'

end

variable {k : Catalogue ω η} {i : Instance η} {within : List String} {id : String}

section Existence

variable {least : Nat}

/-- If all targets can receive, messages can be delivered to them, within the same budgets. -/
theorem exists_delivers {targets : List String}
    (h : ∀ target ∈ targets, ∀ m j, ∃ r j', Receives k i (id :: within) target m j r j' ∧
      ∀ budget, least ≤ budget → i.execute k budget (id :: within) target m j = some (r, j'))
    (m : Message) (j : Journey ω) :
    ∃ r j', Delivers k i within id targets m j r j' ∧ ∀ budget, least ≤ budget →
      deliverAll (i.execute k budget (id :: within)) targets m j = some (r, j') := by
  induction targets generalizing j with
  | nil => exact ⟨.ok (), j, .done m j, fun _ _ => rfl⟩
  | cons target targets ih =>
    obtain ⟨r, j₁, hreceives, hexecute⟩ := h target List.mem_cons_self m j
    cases r with
    | error e =>
      refine ⟨.error e, j₁, .fail hreceives, fun budget hbudget => ?_⟩
      rw [deliverAll, hexecute budget hbudget]
    | ok =>
      obtain ⟨r, j', hdelivers, hall⟩ := ih (fun t ht => h t (List.mem_cons_of_mem _ ht)) j₁
      refine ⟨r, j', .next hreceives hdelivers, fun budget hbudget => ?_⟩
      rw [deliverAll, hexecute budget hbudget]
      exact hall budget hbudget

/-- If all deliveries can be made, any plan can be run, within the same budgets. -/
theorem exists_carries
    (h : ∀ label m j, ∃ r j', Delivers k i within id (i.graph.targets id label) m j r j' ∧
      ∀ budget, least ≤ budget →
        deliverAll (i.execute k budget (id :: within)) (i.graph.targets id label) m j = some (r, j'))
    (plan : Plan ω) (j : Journey ω) :
    ∃ o j', Carries k i within id plan j o j' ∧ ∀ budget, least ≤ budget →
      plan.run (fun label m j =>
        deliverAll (i.execute k budget (id :: within)) (i.graph.targets id label) m j) j =
          some (o, j') := by
  induction plan generalizing j with
  | finish o => exact ⟨o, j, .finish o j, fun _ _ => rfl⟩
  | tell label m next ih =>
    obtain ⟨r, j₁, hdelivers, hall⟩ := h label m j
    obtain ⟨o, j', hcarries, hrun⟩ := ih r j₁
    refine ⟨o, j', .tell hdelivers hcarries, fun budget hbudget => ?_⟩
    simp only [Plan.run, hall budget hbudget, hrun budget hbudget]
  | reveal e next ih =>
    obtain ⟨o, j', hcarries, hrun⟩ := ih (j.reveal e)
    exact ⟨o, j', .reveal hcarries, hrun⟩
  | look next ih =>
    obtain ⟨o, j', hcarries, hrun⟩ := ih j.world j
    exact ⟨o, j', .look hcarries, hrun⟩
  | change w next ih =>
    obtain ⟨o, j', hcarries, hrun⟩ := ih { j with world := w }
    exact ⟨o, j', .change hcarries, hrun⟩

/-- In a sound graph a nested node has a run for every message. The budget counts the nodes that are not yet
around it, and more than that changes nothing. -/
theorem exists_receives (hg : i.graph.Sound) {least : Nat} (hnested : i.graph.Nested (id :: within))
    (hleast : i.graph.nodes.size ≤ least + within.length) (m : Message) (j : Journey ω) :
    ∃ r j', Receives k i within id m j r j' ∧ ∀ budget, least ≤ budget →
      i.execute k budget within id m j = some (r, j') := by
  induction least generalizing within id m j with
  | zero =>
    have hlength := hnested.length_le
    rw [List.length_cons] at hlength
    omega
  | succ least ih =>
    have htargets : ∀ label, ∀ target ∈ i.graph.targets id label, ∀ m j, ∃ r j',
        Receives k i (id :: within) target m j r j' ∧ ∀ budget, least ≤ budget →
          i.execute k budget (id :: within) target m j = some (r, j') := by
      intro label target htarget m j
      refine ih (hnested.cons hg ⟨label, htarget⟩) ?_ m j
      rw [List.length_cons]
      omega
    obtain ⟨node, hnode⟩ := hnested.exists_node
    obtain ⟨o, j', hcarries, hrun⟩ := exists_carries
      (fun label m j => exists_delivers (htargets label) m j)
      (k.handle node.handler (i.context id node) m) (i.enter within id node m j)
    refine ⟨_, _, .handle hnode hcarries, fun budget hbudget => ?_⟩
    obtain ⟨budget, rfl⟩ := Nat.exists_eq_succ_of_ne_zero (show budget ≠ 0 by omega)
    rw [execute_of_get? hnode, hrun budget (by omega)]
    rfl

/-- What comes of a message that enters a sound graph is what comes of its run. -/
theorem receives_receive (hg : i.graph.Sound) (m : Message) (j : Journey ω) :
    Receives k i [] i.graph.entry m j (i.receive k m j).1 (i.receive k m j).2 := by
  obtain ⟨r, j', hreceives, hexecute⟩ :=
    exists_receives (k := k) hg (.entry hg) (Nat.le_add_right i.graph.nodes.size 0) m j
  rw [receive, budget, hexecute _ (Nat.le_refl _), Option.getD_some]
  exact hreceives

end Existence

/-! ## Runs are what is computed -/

mutual

/-- Every run of a message is computed within some budget and all larger ones. -/
theorem Receives.exists_budget {within : List String} {id : String} {m : Message} {j j' : Journey ω}
    {r : Result Unit} (h : Receives k i within id m j r j') :
    ∃ least, ∀ budget, least ≤ budget → i.execute k budget within id m j = some (r, j') :=
  match h with
  | .handle hnode hcarries => by
    obtain ⟨least, hrun⟩ := hcarries.exists_budget
    refine ⟨least + 1, fun budget hbudget => ?_⟩
    obtain ⟨budget, rfl⟩ := Nat.exists_eq_succ_of_ne_zero (show budget ≠ 0 by omega)
    rw [execute_of_get? hnode, hrun budget (by omega)]
    rfl
termination_by structural h

/-- Every run of a plan is computed within some budget and all larger ones. -/
theorem Carries.exists_budget {within : List String} {id : String} {plan : Plan ω} {j j' : Journey ω}
    {o : Outcome} (h : Carries k i within id plan j o j') :
    ∃ least, ∀ budget, least ≤ budget → plan.run (fun label m j =>
      deliverAll (i.execute k budget (id :: within)) (i.graph.targets id label) m j) j = some (o, j') :=
  match h with
  | .finish _ _ => ⟨0, fun _ _ => rfl⟩
  | .tell hdelivers hcarries => by
    obtain ⟨least, hall⟩ := hdelivers.exists_budget
    obtain ⟨least', hrun⟩ := hcarries.exists_budget
    refine ⟨max least least', fun budget hbudget => ?_⟩
    simp only [Plan.run, hall budget (by omega), hrun budget (by omega)]
  | .reveal hcarries => hcarries.exists_budget
  | .look hcarries => hcarries.exists_budget
  | .change hcarries => hcarries.exists_budget
termination_by structural h

/-- All deliveries are computed within some budget and all larger ones. -/
theorem Delivers.exists_budget {within : List String} {id : String} {targets : List String} {m : Message}
    {j j' : Journey ω} {r : Result Unit} (h : Delivers k i within id targets m j r j') :
    ∃ least, ∀ budget, least ≤ budget →
      deliverAll (i.execute k budget (id :: within)) targets m j = some (r, j') :=
  match h with
  | .done _ _ => ⟨0, fun _ _ => rfl⟩
  | .next hreceives hdelivers => by
    obtain ⟨least, hexecute⟩ := hreceives.exists_budget
    obtain ⟨least', hall⟩ := hdelivers.exists_budget
    refine ⟨max least least', fun budget hbudget => ?_⟩
    rw [deliverAll, hexecute budget (by omega)]
    exact hall budget (by omega)
  | .fail hreceives => by
    obtain ⟨least, hexecute⟩ := hreceives.exists_budget
    refine ⟨least, fun budget hbudget => ?_⟩
    rw [deliverAll, hexecute budget hbudget]
termination_by structural h

end

/-- In a sound graph there is one run of a message that enters, and it is the one that is computed. -/
theorem Receives.receive_eq (hg : i.graph.Sound) {m : Message} {j j' : Journey ω} {r : Result Unit}
    (h : Receives k i [] i.graph.entry m j r j') : i.receive k m j = (r, j') := by
  obtain ⟨least, hleast⟩ := h.exists_budget
  obtain ⟨r₀, j₀, -, hsize⟩ :=
    exists_receives (k := k) hg (.entry hg) (Nat.le_add_right i.graph.nodes.size 0) m j
  have hsame : some (r₀, j₀) = some (r, j') := by
    rw [← hsize (max i.graph.nodes.size least) (by omega), hleast _ (by omega)]
  rw [receive, budget, hsize _ (Nat.le_refl _), hsame, Option.getD_some]

/-! ## How nodes are nested -/

mutual

/-- The nodes around every visit of a run lead to one another. -/
theorem Receives.nested (hg : i.graph.Sound) {within : List String} {id : String} {m : Message}
    {j j' : Journey ω} {r : Result Unit} (hnested : i.graph.Nested (id :: within))
    (h : Receives k i within id m j r j') :
    j.Adds (fun v => i.graph.Nested (v.node :: v.within)) j' :=
  match h with
  | .handle _ hcarries =>
    ((adds_enter hnested).trans (hcarries.nested hg hnested)).trans (.of_eq (visits_leave ..))
termination_by structural h

/-- The nodes around every visit of a plan lead to one another. -/
theorem Carries.nested (hg : i.graph.Sound) {within : List String} {id : String} {plan : Plan ω}
    {j j' : Journey ω} {o : Outcome} (hnested : i.graph.Nested (id :: within))
    (h : Carries k i within id plan j o j') :
    j.Adds (fun v => i.graph.Nested (v.node :: v.within)) j' :=
  match h with
  | .finish _ _ => .of_eq rfl
  | .tell hdelivers hcarries =>
    (hdelivers.nested hg hnested fun _ h => ⟨_, h⟩).trans (hcarries.nested hg hnested)
  | .reveal hcarries => (hcarries.nested hg hnested :)
  | .look hcarries => hcarries.nested hg hnested
  | .change hcarries => (hcarries.nested hg hnested :)
termination_by structural h

/-- The nodes around every visit of deliveries lead to one another. -/
theorem Delivers.nested (hg : i.graph.Sound) {within : List String} {id : String}
    {targets : List String} {m : Message} {j j' : Journey ω} {r : Result Unit}
    (hnested : i.graph.Nested (id :: within)) (htargets : ∀ target ∈ targets, i.graph.Leads id target)
    (h : Delivers k i within id targets m j r j') :
    j.Adds (fun v => i.graph.Nested (v.node :: v.within)) j' :=
  match h with
  | .done _ _ => .of_eq rfl
  | .next hreceives hdelivers =>
    (hreceives.nested hg (hnested.cons hg (htargets _ List.mem_cons_self))).trans
      (hdelivers.nested hg hnested fun t ht => htargets t (List.mem_cons_of_mem _ ht))
  | .fail hreceives => hreceives.nested hg (hnested.cons hg (htargets _ List.mem_cons_self))
termination_by structural h

end

/-- A message that enters a compiled graph comes to an end, however deep the budget lets nodes be nested
beyond their number. No node is looked for that is not there, and at every visit the nodes inside one another
are different and each was told by the one around it. -/
theorem receive_of_compile {payload : List UInt8} {w w' : ω}
    (h : Graph.compile k payload w = (.ok i.graph, w')) (m : Message) (j : Journey ω) :
    ∃ r j', i.receive k m j = (r, j') ∧ Receives k i [] i.graph.entry m j r j' ∧
      (∀ budget, i.graph.nodes.size ≤ budget →
        i.execute k budget [] i.graph.entry m j = some (r, j')) ∧
      j.Adds (fun v => i.graph.Nested (v.node :: v.within) ∧
        (v.node :: v.within).length ≤ i.graph.nodes.size) j' := by
  have hg : i.graph.Sound := Graph.sound_of_compile h
  have hentry : i.graph.Nested [i.graph.entry] := .entry hg
  obtain ⟨r, j', hreceives, hexecute⟩ :=
    exists_receives hg hentry (Nat.le_add_right i.graph.nodes.size 0) m j
  refine ⟨r, j', ?_, hreceives, hexecute, ?_⟩
  · rw [receive, budget, hexecute _ le_rfl, Option.getD_some]
  · exact (hreceives.nested hg hentry).imp fun v hv => ⟨hv, hv.length_le⟩

theorem receive_pair : ∃ (g : Graph Unit) (r : Result Unit) (j' : Journey Unit),
    Graph.compile .relay GraphPayload.pair.text () = (.ok g, ()) ∧
      (ofChain default g).receive .relay default ⟨(), [], []⟩ = (r, j') ∧
      Receives .relay (ofChain default g) [] g.entry default ⟨(), [], []⟩ r j' := by
  obtain ⟨g, hg⟩ := Graph.exists_compile_pair
  obtain ⟨r, j', hreceive, hreceives, -, -⟩ :=
    receive_of_compile (i := ofChain default g) hg default ⟨(), [], []⟩
  exact ⟨g, r, j', hg, hreceive, hreceives⟩

end Instance

end RuleFlow
