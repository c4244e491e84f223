import RuleFlow.Failures
import RuleFlow.Instances

/-!
# The engine

An `Engine` runs chains and brings messages to them. `Engine.dispatch` starts one traversal for each running
graph that listens to a channel and sub-topic, `Engine.dispatchFrom` one for each that takes the data of an
adaptor. A traversal that fails is reported with the node that failed; traversals do not disturb one another.
-/

namespace RuleFlow

/-- A message that is to enter a running graph. -/
structure Traversal (η : Type) where
  target : Instance η
  message : Message

/-- The running graphs, what their traversals have done, and the reports of those that failed. -/
structure Engine (ω η : Type) where
  instances : Instances η := {}
  journey : Journey ω
  failures : Failures
  dispatched : Nat := 0

namespace Traversal

variable {ω η : Type}

/-- The report of a failed traversal: it names the node that failed, or else the entry. -/
def failure (t : Traversal η) (e : RuleError) : NodeFailure :=
  match e with
  | .nodeFailed nodeId typeName reason =>
    ⟨t.target.id, nodeId, typeName, t.message.id, reason⟩
  | e =>
    let typeName := ((t.target.graph.nodes.get? t.target.graph.entry).map (·.typeName)).getD ""
    ⟨t.target.id, t.target.graph.entry, typeName, t.message.id, e.message⟩

end Traversal

namespace Engine

variable {ω η : Type}

/-- The surroundings of the nodes. -/
def world (s : Engine ω η) : ω := s.journey.world

/-- The engine with other surroundings. -/
def withWorld (s : Engine ω η) (w : ω) : Engine ω η := { s with journey := { s.journey with world := w } }

/-- Runs a traversal and reports it if it fails. -/
def traverse (k : Catalogue ω η) (s : Engine ω η) (t : Traversal η) : Engine ω η :=
  match t.target.receive k t.message s.journey with
  | (.ok (), j) => { s with journey := j, dispatched := s.dispatched + 1 }
  | (.error e, j) =>
    { s with journey := j, dispatched := s.dispatched + 1, failures := s.failures.report (t.failure e) }

/-- Runs some traversals, one after the other. -/
def traverseAll (k : Catalogue ω η) (ts : List (Traversal η)) (s : Engine ω η) : Engine ω η :=
  ts.foldl (traverse k) s

/-- The traversals of a message that was sent to a channel and sub-topic. -/
def listeners (s : Engine ω η) (channel subTopic : String) (m : Message) : List (Traversal η) :=
  (s.instances.matching channel subTopic).map (⟨·, m⟩)

/-- The traversals of a message from an adaptor. -/
def consumers (s : Engine ω η) (adaptor : String) (m : Message) : List (Traversal η) :=
  (s.instances.consumers adaptor).map (⟨·, m⟩)

/-- Brings a message to all that listen to a channel and sub-topic; says how many these are. -/
def dispatch (k : Catalogue ω η) (channel subTopic : String) (m : Message) (s : Engine ω η) :
    Nat × Engine ω η :=
  let ts := s.listeners channel subTopic m
  (ts.length, s.traverseAll k ts)

/-- Brings a message from an adaptor to all that take its data; says how many these are. -/
def dispatchFrom (k : Catalogue ω η) (adaptor : String) (m : Message) (s : Engine ω η) :
    Nat × Engine ω η :=
  let ts := s.consumers adaptor m
  (ts.length, s.traverseAll k ts)

/-- Starts a chain; a chain that runs is left as it is. -/
def start (k : Catalogue ω η) (c : Chain) (s : Engine ω η) : Result Unit × Engine ω η :=
  let (r, instances, w) := s.instances.start k c s.world
  (r, { s with instances }.withWorld w)

/-- Stops a chain and closes its graph. -/
def stop (k : Catalogue ω η) (id : String) (s : Engine ω η) : Result Unit × Engine ω η :=
  let (r, instances, w) := s.instances.stop k id s.world
  (r, { s with instances }.withWorld w)

/-- Stops a chain if it runs. -/
def delete (k : Catalogue ω η) (id : String) (s : Engine ω η) : Result Unit × Engine ω η :=
  let (r, instances, w) := s.instances.delete k id s.world
  (r, { s with instances }.withWorld w)

/-- Starts several chains at the same time. -/
def race (k : Catalogue ω η) (isSlow : η → Bool) (cs : List Chain) (s : Engine ω η) :
    List (Result Unit) × Engine ω η :=
  let (rs, instances, w) := s.instances.race k isSlow cs s.world
  (rs, { s with instances }.withWorld w)

/-- Compiles the definition of a graph and closes it again; lists its defects. -/
def check (k : Catalogue ω η) (payload : List UInt8) (s : Engine ω η) :
    List RuleError × Engine ω η :=
  match Graph.compile k payload s.world with
  | (.ok g, w) => ([], s.withWorld (g.close k w))
  | (.error es, w) => (es, s.withWorld w)

end Engine

end RuleFlow
