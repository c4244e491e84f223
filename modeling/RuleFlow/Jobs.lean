import RuleFlow.Engine

/-!
# Calls at the same time

Callers start, stop, delete and check chains and bring messages to them while others do the same. An `Errand`
is what a caller comes for and a `Job` what is left to do of it; `Job.step` does its next action, which nothing
interrupts: a look at the running graphs, the making or closing of one handler, an installation, a removal,
one traversal. A `Floor` holds the engine, the jobs that are under way and the deeds that were done to
handlers. New callers arrive and jobs go on in any order (`Floor.turns`).
-/

namespace RuleFlow

variable {ω η : Type}

/-- What a caller comes for. -/
inductive Errand where
  | start (c : Chain)
  | stop (id : String)
  /-- To stop a chain if it runs. -/
  | delete (id : String)
  | check (payload : List UInt8)
  | dispatch (channel subTopic : String) (m : Message)
  | dispatchFrom (adaptor : String) (m : Message)

/-- What is left to do of a call. -/
inductive Job (η : Type) where
  /-- To look whether a chain runs before its graph is made. -/
  | start (c : Chain)
  /-- To make a graph and close it again. -/
  | check (payload : List UInt8)
  /-- To make handlers for the remaining nodes of a definition, for a chain or for a check. They are made at
  the same time, so any of them may be the next that is finished. -/
  | make (chain : Option Chain) (g : GraphPayload) (rest : List NodeSpec)
      (created : List (NodeSpec × Result η))
  | install (i : Instance η)
  | stop (id : String)
  | close (handlers : List η)
  /-- To look who listens to a channel and sub-topic. -/
  | dispatch (channel subTopic : String) (m : Message)
  /-- To look who takes the data of an adaptor. -/
  | dispatchFrom (adaptor : String) (m : Message)
  /-- To send traversals on their way. -/
  | send (ts : List (Traversal η))
  | traverse (t : Traversal η)

/-- What was done to a handler. -/
inductive Deed (η : Type) where
  | made (handler : η)
  | used (handler : η)
  | closed (handler : η)
  deriving DecidableEq

namespace Deed

/-- The handler that was made. -/
def made? : Deed η → Option η
  | made handler => some handler
  | _ => none

/-- The handler that was closed. -/
def closed? : Deed η → Option η
  | closed handler => some handler
  | _ => none

end Deed

/-- What an action leaves: the jobs that go on, the deeds, and the engine. -/
structure Progress (ω η : Type) where
  jobs : List (Job η)
  deeds : List (Deed η) := []
  engine : Engine ω η

/-- The handlers that received a message in a traversal, from the visits it added to a journey. -/
def Traversal.used (t : Traversal η) (before after : Journey ω) : List η :=
  (after.visits.drop before.visits.length).filterMap fun v =>
    (t.target.graph.nodes.get? v.node).map (·.handler)

/-- The handlers of the running graphs. -/
def Instances.handlers (s : Instances η) : List η := s.running.values.flatMap (·.graph.handlers)

namespace Job

/-- All that is to do for a caller. Whether a chain did run changes only what a caller is answered who wants
it stopped or deleted. -/
def ofErrand : Errand → Job η
  | .start c => start c
  | .stop id => stop id
  | .delete id => stop id
  | .check payload => check payload
  | .dispatch channel subTopic m => dispatch channel subTopic m
  | .dispatchFrom adaptor m => dispatchFrom adaptor m

/-- The job of making a graph; a definition that cannot be read or has no nodes leaves nothing to do. -/
def ofPayload (chain : Option Chain) (payload : List UInt8) : List (Job η) :=
  match GraphPayload.read payload with
  | .error _ => []
  | .ok g => if g.nodes = [] then [] else [make chain g g.distinctNodes []]

/-- The job when all handlers of a definition were tried: to install the graph of a chain, and to close what
is not needed. -/
def ofCreated (chain : Option Chain) (g : GraphPayload) (created : List (NodeSpec × Result η)) : Job η :=
  match Graph.conclude g created, chain with
  | .ok graph, some c => install (.ofChain c graph)
  | .ok graph, none => close graph.handlers
  | .error _, _ => close ((Graph.made created).map (·.2))

/-- Does the next action of a job. Of the handlers that are still to be made, that at a place is finished
next; there may be none. -/
def step (k : Catalogue ω η) (place : Nat) (s : Engine ω η) : Job η → Progress ω η
  | start c =>
    if s.instances.isRunning c.id then { jobs := [], engine := s }
    else { jobs := ofPayload (some c) c.payload, engine := s }
  | check payload => { jobs := ofPayload none payload, engine := s }
  | make chain g [] created => { jobs := [ofCreated chain g created], engine := s }
  | make chain g (m :: rest) created =>
    match (m :: rest).drop place with
    | [] => { jobs := [make chain g (m :: rest) created], engine := s }
    | n :: later =>
      let (r, w) := k.create n s.world
      { jobs := [make chain g ((m :: rest).take place ++ later) (created ++ [(n, r)])]
        deeds := r.toOption.toList.map .made
        engine := s.withWorld w }
  | install i =>
    match s.instances.install i with
    | some instances => { jobs := [], engine := { s with instances } }
    | none => { jobs := [close i.graph.handlers], engine := s }
  | stop id =>
    match s.instances.remove id with
    | some (i, instances) => { jobs := [close i.graph.handlers], engine := { s with instances } }
    | none => { jobs := [], engine := s }
  | close (handler :: rest) =>
    { jobs := [close rest], deeds := [.closed handler], engine := s.withWorld (k.close handler s.world) }
  | close [] => { jobs := [], engine := s }
  | dispatch channel subTopic m => { jobs := [send (s.listeners channel subTopic m)], engine := s }
  | dispatchFrom adaptor m => { jobs := [send (s.consumers adaptor m)], engine := s }
  | send (t :: ts) => { jobs := [traverse t, send ts], engine := s }
  | send [] => { jobs := [], engine := s }
  | traverse t =>
    let after := s.traverse k t
    { jobs := [], deeds := (t.used s.journey after.journey).map .used, engine := after }

end Job

/-- An engine with the jobs that are under way and the deeds that were done. -/
structure Floor (ω η : Type) where
  engine : Engine ω η
  jobs : List (Job η) := []
  deeds : List (Deed η) := []

namespace Floor

/-- An engine for which nothing runs and nothing is under way. -/
def opened (engine : Engine ω η) : Floor ω η := { engine := { engine with instances := {} } }

/-- What happens next: a caller arrives, or the job at a position goes on, if it makes handlers with that at
a place. -/
inductive Turn where
  | call (errand : Errand)
  | work (position place : Nat)

/-- Takes a turn; there may be no job at a position. -/
def turn (k : Catalogue ω η) (s : Floor ω η) : Turn → Floor ω η
  | .call errand => { s with jobs := s.jobs ++ [.ofErrand errand] }
  | .work position place =>
    match s.jobs[position]? with
    | none => s
    | some job =>
      let p := job.step k place s.engine
      { engine := p.engine
        jobs := s.jobs.take position ++ p.jobs ++ s.jobs.drop (position + 1)
        deeds := s.deeds ++ p.deeds }

/-- Takes turns one after the other. -/
def turns (k : Catalogue ω η) (s : Floor ω η) (ts : List Turn) : Floor ω η :=
  ts.foldl (turn k) s

/-- The handlers that were made, in order. -/
def made (s : Floor ω η) : List η := s.deeds.filterMap Deed.made?

/-- The handlers that were closed, in order. -/
def closed (s : Floor ω η) : List η := s.deeds.filterMap Deed.closed?

/-- The handlers of the running graphs. -/
def running (s : Floor ω η) : List η := s.engine.instances.handlers

end Floor

end RuleFlow
