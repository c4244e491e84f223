import RuleFlow.Chain
import RuleFlow.Graph.Basic

/-!
# Messages on their way through a graph

An `Instance` is a graph that runs for a chain. A message enters at the entry node; a node receives it, does
what its plan says, and whatever the plan tells under a label is received by each successor under that label,
one after the other and up to the first error, before the plan goes on. An error is wrapped once, at the
node where it arose, and passed on unchanged by the nodes above.

`Instance.execute` takes a budget that bounds how deep nodes may be nested. In a graph without cycles the
number of nodes is enough. A `Journey` keeps what a run has changed, shown and visited.
-/

namespace RuleFlow

/-- A graph that runs for a chain. -/
structure Instance (η : Type) where
  id : String
  name : String
  channel : String
  subTopic : String
  debugMode : Bool
  graph : Graph η

/-- A node that received a message, and the nodes inside whose handling it did, innermost first. -/
structure Visit where
  within : List String
  node : String
  message : Message
  deriving DecidableEq

/-- What a run has changed, shown and visited so far. -/
structure Journey (ω : Type) where
  world : ω
  events : List Event := []
  visits : List Visit := []

namespace Journey

variable {ω : Type}

/-- Shows an event. -/
def reveal (e : Event) (j : Journey ω) : Journey ω := { j with events := j.events ++ [e] }

/-- Shows an event in debug mode. -/
def observe (debugMode : Bool) (e : Event) (j : Journey ω) : Journey ω :=
  if debugMode then j.reveal e else j

/-- Notes a visit. -/
def visit (v : Visit) (j : Journey ω) : Journey ω := { j with visits := j.visits ++ [v] }

end Journey

/-- What comes of a step of a run: an answer and the journey after it, or none if the budget is used up. -/
abbrev Step (ω α : Type) := Option (α × Journey ω)

variable {ω η : Type}

/-- Carries out a plan. `deliver` brings a message to the successors under a label. -/
def Plan.run (deliver : String → Message → Journey ω → Step ω (Result Unit)) :
    Plan ω → Journey ω → Step ω Outcome
  | .finish o, j => some (o, j)
  | .tell label m next, j =>
    match deliver label m j with
    | some (r, j) => (next r).run deliver j
    | none => none
  | .reveal e next, j => next.run deliver (j.reveal e)
  | .look next, j => (next j.world).run deliver j
  | .change w next, j => next.run deliver { j with world := w }

/-- Brings a message to some nodes, one after the other, up to the first error. -/
def deliverAll (receive : String → Message → Journey ω → Step ω (Result Unit)) :
    List String → Message → Journey ω → Step ω (Result Unit)
  | [], _, j => some (.ok (), j)
  | node :: nodes, m, j =>
    match receive node m j with
    | some (.ok (), j) => deliverAll receive nodes m j
    | some (.error e, j) => some (.error e, j)
    | none => none

/-- The error that leaves a node: its own is wrapped with its name, one from below is passed on. -/
def wrapFailure (nodeId typeName : String) (e : RuleError) : RuleError :=
  match e with
  | .nodeFailed .. => e
  | e => .nodeFailed nodeId typeName e.message

namespace Instance

/-- A running graph for a chain. -/
def ofChain (c : Chain) (g : Graph η) : Instance η :=
  { id := c.id, name := c.name, channel := c.channel, subTopic := c.subTopic,
    debugMode := c.debugMode, graph := g }

/-- Whether an instance listens to a channel and sub-topic. -/
def listensTo (i : Instance η) (channel subTopic : String) : Bool :=
  i.channel = channel && i.subTopic = subTopic

/-- Lets a node receive a message, inside the handling of the nodes of `within`. -/
def execute (k : Catalogue ω η) (i : Instance η) :
    Nat → List String → String → Message → Journey ω → Step ω (Result Unit)
  | 0, _, _, _, _ => none
  | budget + 1, within, id, m, j =>
    match i.graph.nodes.get? id with
    | none => some (.error (.graph (.missingNode id)), j)
    | some node =>
      let ctx : Context := ⟨i.id, id, node.typeName, node.routes⟩
      let deliver := fun label m j =>
        deliverAll (execute k i budget (id :: within)) (i.graph.targets id label) m j
      let j := (j.visit ⟨within, id, m⟩).observe i.debugMode
        (.before i.id id node.typeName m.data)
      match (k.handle node.handler ctx m).run deliver j with
      | none => none
      | some (o, j) =>
        match o.result with
        | .ok () => some (.ok (), j.observe i.debugMode (.after i.id id))
        | .error e =>
          some (.error (wrapFailure id node.typeName e),
            j.observe i.debugMode (.failed i.id id e))

/-- A budget that is enough in a graph without cycles. -/
def budget (i : Instance η) : Nat := i.graph.nodes.size

/-- Lets a message enter. -/
def receive (k : Catalogue ω η) (i : Instance η) (m : Message) (j : Journey ω) :
    Result Unit × Journey ω :=
  (i.execute k i.budget [] i.graph.entry m j).getD (.error (.graph (.missingNode i.graph.entry)), j)

/-- An instance as text. -/
def describe (i : Instance η) : String :=
  "RuleChainInstance \x7b id: " ++ Text.quoted i.id ++ ", channel: " ++ Text.quoted i.channel ++
    ", sub_topic: " ++ Text.quoted i.subTopic ++ ", first_rule_node_id: " ++
    Text.quoted i.graph.entry ++ ", nodes: " ++ toString i.graph.nodes.size ++ " \x7d"

end Instance

end RuleFlow
