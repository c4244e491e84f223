import RuleFlow.Graph.Compile
import RuleFlow.Traversal

/-!
# The graphs that run

`Instances` holds at most one running graph for a chain, together with an index of the chains that take the
data of an adaptor, in the order in which they were started. Both change together: `Instances.install` adds a
graph unless one runs for its chain, `Instances.remove` takes one away. Starting a chain is a look whether it
runs, then a compilation (`Instances.launch`), then the installation (`Instances.settle`); a graph that comes
too late is closed. `Instances.race` lets several starts look before any of them installs.
-/

namespace RuleFlow

/-- The graphs that run, by chain, and the chains that take the data of an adaptor. -/
structure Instances (η : Type) where
  running : Table (Instance η) := .empty
  adaptors : Table (List String) := .empty

namespace Instances

variable {ω η : Type}

/-- Whether a graph runs for a chain. -/
def isRunning (s : Instances η) (id : String) : Bool := s.running.contains id

/-- The graph that runs for a chain. -/
def get? (s : Instances η) (id : String) : Option (Instance η) := s.running.get? id

/-- The chains for which a graph runs, in increasing order. -/
def runningIds (s : Instances η) : List String := s.running.keys

/-- The running graphs that listen to a channel and sub-topic. -/
def matching (s : Instances η) (channel subTopic : String) : List (Instance η) :=
  s.running.values.filter (·.listensTo channel subTopic)

/-- The running graphs that take the data of an adaptor, in the order in which they were started. -/
def consumers (s : Instances η) (adaptor : String) : List (Instance η) :=
  ((s.adaptors.get? adaptor).getD []).filterMap s.running.get?

/-- Enters a chain under an adaptor, at the end and once. -/
def enlist (id : String) (index : Table (List String)) (adaptor : String) : Table (List String) :=
  let ids := (index.get? adaptor).getD []
  if id ∈ ids then index else index.insert adaptor (ids ++ [id])

/-- Strikes a chain under an adaptor; an adaptor without chains is left out. -/
def delist (id : String) (index : Table (List String)) (adaptor : String) : Table (List String) :=
  match index.get? adaptor with
  | none => index
  | some ids =>
    match ids.filter (· ≠ id) with
    | [] => index.erase adaptor
    | rest => index.insert adaptor rest

/-- Adds a running graph, unless one runs for its chain. -/
def install (i : Instance η) (s : Instances η) : Option (Instances η) :=
  if s.isRunning i.id then none
  else some
    { running := s.running.insert i.id i
      adaptors := i.graph.adaptors.foldl (enlist i.id) s.adaptors }

/-- Takes away the graph that runs for a chain. -/
def remove (id : String) (s : Instances η) : Option (Instance η × Instances η) :=
  (s.running.get? id).map fun i =>
    (i, { running := s.running.erase id, adaptors := i.graph.adaptors.foldl (delist id) s.adaptors })

/-- The error that stands for all that a compilation reports: the first one. -/
def leadingError (es : List RuleError) : RuleError := es.headD (.graph .noNodes)

/-- Compiles the graph of a chain, unless one runs for it. -/
def launch (k : Catalogue ω η) (s : Instances η) (c : Chain) (w : ω) :
    Result (Option (Instance η)) × ω :=
  if s.isRunning c.id then (.ok none, w)
  else
    match Graph.compile k c.payload w with
    | (.ok g, w) => (.ok (some (.ofChain c g)), w)
    | (.error es, w) => (.error (leadingError es), w)

/-- Installs a graph, or closes it if it comes too late. -/
def settle (k : Catalogue ω η) (i : Instance η) (s : Instances η) (w : ω) : Instances η × ω :=
  match s.install i with
  | some s => (s, w)
  | none => (s, i.graph.close k w)

/-- Starts a chain; a chain that runs is left as it is. -/
def start (k : Catalogue ω η) (c : Chain) (s : Instances η) (w : ω) :
    Result Unit × Instances η × ω :=
  match s.launch k c w with
  | (.ok (some i), w) => (.ok (), s.settle k i w)
  | (.ok none, w) => (.ok (), s, w)
  | (.error e, w) => (.error e, s, w)

/-- Stops a chain and closes its graph. -/
def stop (k : Catalogue ω η) (id : String) (s : Instances η) (w : ω) :
    Result Unit × Instances η × ω :=
  match s.remove id with
  | some (i, s) => (.ok (), s, i.graph.close k w)
  | none => (.error (.notRunning id), s, w)

/-- Stops a chain if it runs. -/
def delete (k : Catalogue ω η) (id : String) (s : Instances η) (w : ω) :
    Result Unit × Instances η × ω :=
  match s.stop k id w with
  | (.ok (), s, w) => (.ok (), s, w)
  | (.error e, s, w) => (if e.isNotFound then .ok () else .error e, s, w)

/-- Compiles the graphs of several chains, each as if no other start were going on. -/
def launchAll (k : Catalogue ω η) (s : Instances η) :
    List Chain → ω → List (Result (Option (Instance η))) × ω
  | [], w => ([], w)
  | c :: cs, w =>
    let (r, w) := s.launch k c w
    let (rs, w) := launchAll k s cs w
    (r :: rs, w)

/-- The graphs that were compiled. -/
def launched (rs : List (Result (Option (Instance η)))) : List (Instance η) :=
  rs.filterMap fun
    | .ok i => i
    | .error _ => none

/-- Installs several graphs, one after the other. -/
def settleAll (k : Catalogue ω η) : List (Instance η) → Instances η → ω → Instances η × ω
  | [], s, w => (s, w)
  | i :: is, s, w =>
    let (s, w) := s.settle k i w
    settleAll k is s w

/-- Starts several chains at the same time. A graph with a handler that takes its time is installed after
those without. -/
def race (k : Catalogue ω η) (isSlow : η → Bool) (cs : List Chain) (s : Instances η) (w : ω) :
    List (Result Unit) × Instances η × ω :=
  let (rs, w) := s.launchAll k cs w
  let (late, early) := (launched rs).partition fun i => i.graph.nodes.values.any (isSlow ·.handler)
  (rs.map (·.map fun _ => ()), s.settleAll k (early ++ late) w)

end Instances

end RuleFlow
