import RuleFlow.Graph.Basic

/-!
# From the definition of a graph to a graph that runs

`Graph.compile` reads a definition, makes the handlers of its nodes and connects them. It reports every
defect it finds: repeated ids, handlers that cannot be made, connections that lead from or to nowhere, an
entry that is no node, and cycles, in this order. If there is a defect, the handlers that were made are
closed again.
-/

namespace RuleFlow

namespace GraphPayload

/-- Reads the definition of a graph, or lists what is wrong with its text or its shape. -/
def read (payload : List UInt8) : Except (List RuleError) GraphPayload :=
  match Json.parse payload with
  | .error e => .error [.notJson .graph e]
  | .ok v =>
    match graphShape.violations "" v with
    | [] =>
      match decoder.ofValue v with
      | .ok g => .ok g
      | .error cause => .error [.json ⟨cause, none⟩]
    | violations => .error (violations.map fun x => .graph (.shape x.1 x.2))

/-- The ids of a list that occur earlier in it or among those seen before. -/
def repeatedAfter (seen : List String) : List String → List String
  | [] => []
  | id :: ids =>
    if id ∈ seen then id :: repeatedAfter seen ids else repeatedAfter (id :: seen) ids

/-- The nodes of a list whose ids occur for the first time and are not among those seen before. -/
def firstAfter (seen : List String) : List NodeSpec → List NodeSpec
  | [] => []
  | n :: ns =>
    if n.id ∈ seen then firstAfter seen ns else n :: firstAfter (n.id :: seen) ns

/-- The ids of the nodes in the order of the definition. -/
def ids (g : GraphPayload) : List String := g.nodes.map (·.id)

/-- The node under each id that is listed first. -/
def distinctNodes (g : GraphPayload) : List NodeSpec := firstAfter [] g.nodes

/-- The ends of a connection that are no nodes. -/
def dangling (g : GraphPayload) (c : Connection) : List GraphDefect :=
  (if c.source ∈ g.ids then [] else [.danglingSource c.source c.label c.target]) ++
    (if c.target ∈ g.ids then [] else [.danglingTarget c.source c.label c.target])

/-- The successors by node and label, from the connections whose ends are nodes. -/
def routes (g : GraphPayload) : Routes :=
  (g.connections.filter fun c => c.source ∈ g.ids ∧ c.target ∈ g.ids).foldl
    (fun routes c => routes.add c.source c.label c.target) .empty

/-- The entry that is named but is no node. -/
def entryDefects (g : GraphPayload) : List GraphDefect :=
  match g.entry with
  | some id => if id ∈ g.ids then [] else [.unknownEntry id]
  | none => []

/-- Where messages enter: the named node or the first one. -/
def entryId (g : GraphPayload) : String := g.entry.getD ((g.ids.head?).getD "")

end GraphPayload

namespace Graph

variable {ω η : Type}

/-- Makes the handlers of some nodes, one after the other. -/
def createAll (k : Catalogue ω η) : List NodeSpec → ω → List (NodeSpec × Result η) × ω
  | [], w => ([], w)
  | n :: ns, w =>
    let (r, w) := k.create n w
    let (rs, w) := createAll k ns w
    ((n, r) :: rs, w)

/-- The nodes whose handlers could not be made. -/
def creationDefects (created : List (NodeSpec × Result η)) : List GraphDefect :=
  created.filterMap fun
    | (n, .error e) => some (.creation n.id n.typeName e.message)
    | (_, .ok _) => none

/-- The nodes whose handlers were made, each with its handler. -/
def made (created : List (NodeSpec × Result η)) : List (NodeSpec × η) :=
  created.filterMap fun
    | (n, .ok handler) => some (n, handler)
    | (_, .error _) => none

/-- The defects of a definition that has nodes. -/
def defects (g : GraphPayload) (created : List (NodeSpec × Result η)) : List GraphDefect :=
  (GraphPayload.repeatedAfter [] g.ids).map .duplicateNode ++ creationDefects created ++
    g.connections.flatMap g.dangling ++ g.entryDefects ++ g.routes.findCycles.map .cycle

/-- Connects the handlers of a definition. -/
def assemble (g : GraphPayload) (handlers : List (NodeSpec × η)) : Graph η :=
  let routes := g.routes
  { entry := g.entryId
    nodes := Table.ofList (handlers.map fun (n, handler) =>
      (n.id, ⟨n.typeName, handler, routes.edges n.id⟩))
    adaptors := g.adaptors }

/-- The graph of a definition for whose nodes handlers were tried to be made, or all its defects. -/
def conclude (g : GraphPayload) (created : List (NodeSpec × Result η)) :
    Except (List RuleError) (Graph η) :=
  match defects g created with
  | [] => .ok (assemble g (made created))
  | ds => .error (ds.map .graph)

/-- Compiles the definition of a graph, or lists all its defects. -/
def compile (k : Catalogue ω η) (payload : List UInt8) (w : ω) :
    Except (List RuleError) (Graph η) × ω :=
  match GraphPayload.read payload with
  | .error es => (.error es, w)
  | .ok g =>
    if g.nodes = [] then (.error [.graph .noNodes], w)
    else
      let (created, w) := createAll k g.distinctNodes w
      match conclude g created with
      | .ok graph => (.ok graph, w)
      | .error es => (.error es, k.closeAll ((made created).map (·.2)) w)

end Graph

end RuleFlow
