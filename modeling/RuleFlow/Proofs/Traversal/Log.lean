import RuleFlow.Proofs.Traversal.Run

/-!
# Logs of runs

`Instance.Handles` is `Instance.Receives` together with a log of the run: the executions of nodes in the order
in which they were started, each with the surroundings that the node met. Every run has a log
(`Instance.Receives.exists_log`), and the log says which visits the run added (`Instance.Handles.visits_eq`).
-/

namespace RuleFlow

variable {ω η : Type}

/-- A node that was executed: its visit, and the surroundings that it met. -/
structure Execution (ω : Type) where
  visit : Visit
  world : ω

@[simp] theorem Journey.world_observe (debugMode : Bool) (e : Event) (j : Journey ω) :
    (j.observe debugMode e).world = j.world := by
  cases debugMode <;> rfl

namespace Instance

@[simp] theorem world_enter (i : Instance η) (within : List String) (id : String) (node : Node η)
    (m : Message) (j : Journey ω) : (i.enter within id node m j).world = j.world :=
  Journey.world_observe ..

theorem world_leave (i : Instance η) (id : String) (node : Node η) (o : Outcome) (j : Journey ω) :
    (i.leave id node o j).2.world = j.world := by
  unfold leave
  split <;> exact Journey.world_observe ..

mutual

/-- A node receives a message inside the handling of others, with the log of it and what comes of it. -/
inductive Handles (k : Catalogue ω η) (i : Instance η) : List String → String → Message →
    Journey ω → List (Execution ω) → Result Unit → Journey ω → Prop
  | handle {within : List String} {id : String} {m : Message} {j j' : Journey ω}
      {xs : List (Execution ω)} {o : Outcome} {node : Node η} :
    i.graph.nodes.get? id = some node →
    Follows k i within id (k.handle node.handler (i.context id node) m) (i.enter within id node m j)
      xs o j' →
    Handles k i within id m j (⟨⟨within, id, m⟩, j.world⟩ :: xs) (i.leave id node o j').1
      (i.leave id node o j').2

/-- A node carries out a plan, with the log of what it told, and how it ends. -/
inductive Follows (k : Catalogue ω η) (i : Instance η) : List String → String → Plan ω →
    Journey ω → List (Execution ω) → Outcome → Journey ω → Prop
  | finish {within : List String} {id : String} (o : Outcome) (j : Journey ω) :
    Follows k i within id (.finish o) j [] o j
  | tell {within : List String} {id label : String} {m : Message} {next : Result Unit → Plan ω}
      {j j₁ j' : Journey ω} {xs ys : List (Execution ω)} {r : Result Unit} {o : Outcome} :
    Passes k i within id (i.graph.targets id label) m j xs r j₁ →
    Follows k i within id (next r) j₁ ys o j' →
    Follows k i within id (.tell label m next) j (xs ++ ys) o j'
  | reveal {within : List String} {id : String} {e : Event} {next : Plan ω} {j j' : Journey ω}
      {xs : List (Execution ω)} {o : Outcome} :
    Follows k i within id next (j.reveal e) xs o j' →
    Follows k i within id (.reveal e next) j xs o j'
  | look {within : List String} {id : String} {next : ω → Plan ω} {j j' : Journey ω}
      {xs : List (Execution ω)} {o : Outcome} :
    Follows k i within id (next j.world) j xs o j' → Follows k i within id (.look next) j xs o j'
  | change {within : List String} {id : String} {w : ω} {next : Plan ω} {j j' : Journey ω}
      {xs : List (Execution ω)} {o : Outcome} :
    Follows k i within id next { j with world := w } xs o j' →
    Follows k i within id (.change w next) j xs o j'

/-- A node tells a message to some others up to the first error, with the log of it. -/
inductive Passes (k : Catalogue ω η) (i : Instance η) : List String → String → List String →
    Message → Journey ω → List (Execution ω) → Result Unit → Journey ω → Prop
  | done {within : List String} {id : String} (m : Message) (j : Journey ω) :
    Passes k i within id [] m j [] (.ok ()) j
  | next {within : List String} {id target : String} {targets : List String} {m : Message}
      {j j₁ j' : Journey ω} {xs ys : List (Execution ω)} {r : Result Unit} :
    Handles k i (id :: within) target m j xs (.ok ()) j₁ →
    Passes k i within id targets m j₁ ys r j' →
    Passes k i within id (target :: targets) m j (xs ++ ys) r j'
  | fail {within : List String} {id target : String} {targets : List String} {m : Message}
      {j j' : Journey ω} {xs : List (Execution ω)} {e : RuleError} :
    Handles k i (id :: within) target m j xs (.error e) j' →
    Passes k i within id (target :: targets) m j xs (.error e) j'

end

variable {k : Catalogue ω η} {i : Instance η}

/-! ## Every run has a log -/

mutual

/-- Every run of a message has a log. -/
theorem Receives.exists_log {within : List String} {id : String} {m : Message} {j j' : Journey ω}
    {r : Result Unit} (h : Receives k i within id m j r j') :
    ∃ xs, Handles k i within id m j xs r j' :=
  match h with
  | .handle hnode hcarries =>
    have ⟨xs, hfollows⟩ := hcarries.exists_log
    ⟨_ :: xs, .handle hnode hfollows⟩
termination_by structural h

theorem Carries.exists_log {within : List String} {id : String} {plan : Plan ω} {j j' : Journey ω}
    {o : Outcome} (h : Carries k i within id plan j o j') :
    ∃ xs, Follows k i within id plan j xs o j' :=
  match h with
  | .finish o j => ⟨[], .finish o j⟩
  | .tell hdelivers hcarries =>
    have ⟨xs, hpasses⟩ := hdelivers.exists_log
    have ⟨ys, hfollows⟩ := hcarries.exists_log
    ⟨xs ++ ys, .tell hpasses hfollows⟩
  | .reveal hcarries =>
    have ⟨xs, hfollows⟩ := hcarries.exists_log
    ⟨xs, .reveal hfollows⟩
  | .look hcarries =>
    have ⟨xs, hfollows⟩ := hcarries.exists_log
    ⟨xs, .look hfollows⟩
  | .change hcarries =>
    have ⟨xs, hfollows⟩ := hcarries.exists_log
    ⟨xs, .change hfollows⟩
termination_by structural h

theorem Delivers.exists_log {within : List String} {id : String} {targets : List String}
    {m : Message} {j j' : Journey ω} {r : Result Unit}
    (h : Delivers k i within id targets m j r j') :
    ∃ xs, Passes k i within id targets m j xs r j' :=
  match h with
  | .done m j => ⟨[], .done m j⟩
  | .next hreceives hdelivers =>
    have ⟨xs, hhandles⟩ := hreceives.exists_log
    have ⟨ys, hpasses⟩ := hdelivers.exists_log
    ⟨xs ++ ys, .next hhandles hpasses⟩
  | .fail hreceives =>
    have ⟨xs, hhandles⟩ := hreceives.exists_log
    ⟨xs, .fail hhandles⟩
termination_by structural h

end

mutual

/-- The visits of a run are those in its log. -/
theorem Handles.visits_eq {within : List String} {id : String} {m : Message} {j j' : Journey ω}
    {xs : List (Execution ω)} {r : Result Unit} (h : Handles k i within id m j xs r j') :
    j'.visits = j.visits ++ xs.map (·.visit) :=
  match h with
  | .handle _ hfollows => by
    rw [visits_leave, hfollows.visits_eq, visits_enter, List.append_assoc, List.map_cons,
      List.singleton_append]
termination_by structural h

theorem Follows.visits_eq {within : List String} {id : String} {plan : Plan ω} {j j' : Journey ω}
    {xs : List (Execution ω)} {o : Outcome} (h : Follows k i within id plan j xs o j') :
    j'.visits = j.visits ++ xs.map (·.visit) :=
  match h with
  | .finish _ _ => (List.append_nil _).symm
  | .tell hpasses hfollows => by
    rw [hfollows.visits_eq, hpasses.visits_eq, List.append_assoc, List.map_append]
  | .reveal hfollows => (hfollows.visits_eq :)
  | .look hfollows => hfollows.visits_eq
  | .change hfollows => (hfollows.visits_eq :)
termination_by structural h

theorem Passes.visits_eq {within : List String} {id : String} {targets : List String} {m : Message}
    {j j' : Journey ω} {xs : List (Execution ω)} {r : Result Unit}
    (h : Passes k i within id targets m j xs r j') : j'.visits = j.visits ++ xs.map (·.visit) :=
  match h with
  | .done _ _ => (List.append_nil _).symm
  | .next hhandles hpasses => by
    rw [hpasses.visits_eq, hhandles.visits_eq, List.append_assoc, List.map_append]
  | .fail hhandles => hhandles.visits_eq
termination_by structural h

end

end Instance

end RuleFlow
