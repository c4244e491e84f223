import RuleFlow.Graph.Cycle
import RuleFlow.Node.Plan

/-!
# Graphs of nodes

A graph holds its nodes by id, each with what handles its messages and with its successors by label. A
`Catalogue` says how handlers of a type `η` are made, what they do and how they are closed, in surroundings
of a type `ω`. Whether a handler can be made may depend on the surroundings.
-/

namespace RuleFlow

/-- A node of a graph that runs. -/
structure Node (η : Type) where
  typeName : String
  handler : η
  routes : Table (List String)

/-- A graph that runs. -/
structure Graph (η : Type) where
  entry : String
  nodes : Table (Node η)
  adaptors : List String

/-- How handlers are made, used and closed. -/
structure Catalogue (ω η : Type) where
  create : NodeSpec → ω → Result η × ω
  handle : η → Context → Message → Plan ω
  close : η → ω → ω

/-- Closes some handlers, one after the other. -/
def Catalogue.closeAll {ω η : Type} (k : Catalogue ω η) (handlers : List η) (w : ω) : ω :=
  handlers.foldl (fun w handler => k.close handler w) w

namespace Graph

variable {ω η : Type}

/-- The handlers of a graph, in the order of their nodes. -/
def handlers (g : Graph η) : List η := g.nodes.values.map (·.handler)

/-- The successors of a node under a label. -/
def targets (g : Graph η) (source label : String) : List String :=
  ((g.nodes.get? source).bind fun node => node.routes.get? label).getD []

/-- Closes all handlers of a graph. -/
def close (k : Catalogue ω η) (g : Graph η) (w : ω) : ω := k.closeAll g.handlers w

end Graph

end RuleFlow
