import RuleFlow.Table

/-!
# Cycles

`findCycles` searches a finite graph depth first, from every node that has successors and along successors
in the order of their names. It reports a cycle whenever it meets a node that is still being explored: the
path from that node back to itself. A node that was explored once is not explored again, so every edge that
closes a cycle is reported once.
-/

namespace RuleFlow

/-- The labelled edges of a graph: the targets by source and label, in the order of their first mention. -/
abbrev Routes := Table (Table (List String))

namespace Routes

/-- The targets of a source under a label. -/
def targets (routes : Routes) (source label : String) : List String :=
  ((routes.get? source).bind (·.get? label)).getD []

/-- The edges of a source. -/
def edges (routes : Routes) (source : String) : Table (List String) :=
  (routes.get? source).getD .empty

/-- Adds an edge unless it is there. -/
def add (routes : Routes) (source label target : String) : Routes :=
  let known := routes.targets source label
  let more := if target ∈ known then known else known ++ [target]
  routes.insert source ((routes.edges source).insert label more)

/-- The successors of a node, each once, in the order of their names. -/
def successors (routes : Routes) (node : String) : List String :=
  (Table.ofList ((routes.edges node).values.flatten.map fun target => (target, ()))).keys

end Routes

namespace Cycle

/-- What a search has found: the nodes it is done with and the cycles, in the order of their discovery. -/
structure Search where
  done : List String := []
  cycles : List (List String) := []

/-- Explores a node along its successors. The path leads to the node from where the search started, and
`budget` bounds how deep it may go. -/
def visit (next : String → List String) : Nat → List String → String → Search → Search
  | 0, _, _, s => s
  | budget + 1, path, node, s =>
    if node ∈ s.done then s
    else if node ∈ path then
      { s with cycles := s.cycles ++ [path.dropWhile (· ≠ node) ++ [node]] }
    else
      let s := (next node).foldl (fun s target => visit next budget (path ++ [node]) target s) s
      { s with done := node :: s.done }

/-- Explores every node of a list. -/
def search (next : String → List String) (budget : Nat) (starts : List String) : Search :=
  starts.foldl (fun s start => visit next budget [] start s) {}

end Cycle

/-- The cycles of a graph, each as a path that ends where it starts. -/
def Routes.findCycles (routes : Routes) : List (List String) :=
  (Cycle.search routes.successors (routes.size + 2) routes.keys).cycles

end RuleFlow
