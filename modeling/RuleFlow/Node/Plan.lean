import RuleFlow.Error
import RuleFlow.Graph.Payload
import RuleFlow.Message

/-!
# What a node does with a message

A node meets a message in a `Context` and answers with a `Plan`: it looks at the surroundings, changes them,
shows an event, tells a message to its successors under a label, and ends with an outcome. A plan is finite,
so a node tells its successors finitely often whatever they answer. What a node tells is carried out where
it stands; the plan goes on with the answer.

What a node cannot do by itself it asks of a service. Such a call is a `Query`, and a plan goes on with what it
is answered (`Query.plan`).
-/

namespace RuleFlow

/-- What a node knows of the place where it stands. -/
structure Context where
  chainId : String
  nodeId : String
  typeName : String
  routes : Table (List String)
  deriving DecidableEq

namespace Context

/-- Whether the node has successors under a label. -/
def hasRoute (ctx : Context) (label : String) : Bool :=
  match ctx.routes.get? label with
  | some targets => !targets.isEmpty
  | none => false

/-- A context as text. -/
def describe (ctx : Context) : String :=
  "NodeContext \x7b chain_id: " ++ Text.quoted ctx.chainId ++ ", node_id: " ++ Text.quoted ctx.nodeId ++
    ", node_type: " ++ Text.quoted ctx.typeName ++ " \x7d"

end Context

/-- What a run shows. -/
inductive Event where
  /-- A node that records its messages has received one. -/
  | hit (ctx : Context) (m : Message) (routes : Option (List Bool)) (showsContext : Bool)
  /-- A node has written a line. -/
  | line (chainId nodeId text : String)
  /-- A node is about to receive a message. -/
  | before (chainId nodeId typeName : String) (data : Json.Value)
  /-- A node and everything below it went well. -/
  | after (chainId nodeId : String)
  /-- A node or something below it failed. -/
  | failed (chainId nodeId : String) (e : RuleError)
  deriving DecidableEq

namespace Event

/-- The chain that an event belongs to. -/
def chainId : Event → String
  | hit ctx .. => ctx.chainId
  | line chainId .. | before chainId .. | after chainId _ | failed chainId .. => chainId

end Event

/-- How a node ends: well, with an error, or by a panic, with its text if it has one. -/
inductive Outcome where
  | done
  | failed (e : RuleError)
  | panicked (text : Option String)
  deriving DecidableEq

namespace Outcome

/-- A panic counts as an error of the node. -/
def result : Outcome → Result Unit
  | done => .ok ()
  | failed e => .error e
  | panicked text => .error (.execution (.panic (text.getD "unknown")))

/-- The outcome of a node that passes on what it was answered. -/
def ofResult : Result Unit → Outcome
  | .ok () => done
  | .error e => failed e

end Outcome

/-- What a node does with a message, in surroundings of type `ω`. -/
inductive Plan (ω : Type) where
  | finish (o : Outcome)
  | tell (label : String) (m : Message) (next : Result Unit → Plan ω)
  | reveal (e : Event) (next : Plan ω)
  | look (next : ω → Plan ω)
  | change (w : ω) (next : Plan ω)

namespace Plan

variable {ω : Type}

/-- Tells a message under a label and ends as that ends. -/
def forward (label : String) (m : Message) : Plan ω :=
  tell label m fun r => finish (.ofResult r)

/-- Forwards a message that was dealt with. -/
def succeed (m : Message) : Plan ω := forward successLabel m

/-- Forwards a message with a note of what went wrong. -/
def divert (m : Message) (e : RuleError) : Plan ω :=
  forward failureLabel (m.note "error" e.message)

/-- Forwards a message under each of some labels, up to the first error. -/
def forwardAll (m : Message) : List String → Plan ω
  | [] => finish .done
  | label :: labels => tell label m fun
    | .ok () => forwardAll m labels
    | .error e => finish (.failed e)

end Plan

/-- A call on a service, in surroundings of type `ω`: it looks at them and changes them, and ends with an answer
or an error. -/
inductive Query (ω α : Type) where
  | answer (r : Result α)
  | look (next : ω → Query ω α)
  | change (w : ω) (next : Query ω α)

namespace Query

variable {ω α β : Type}

/-- Goes on with another call unless the first one ends with an error. -/
def bind (next : α → Query ω β) : Query ω α → Query ω β
  | answer (.ok a) => next a
  | answer (.error e) => answer (.error e)
  | look q => look fun w => (q w).bind next
  | change w q => change w (q.bind next)

/-- The plan that makes a call and goes on with what it is answered. -/
def plan (next : Result α → Plan ω) : Query ω α → Plan ω
  | answer r => next r
  | look q => .look fun w => (q w).plan next
  | change w q => .change w (q.plan next)

/-- The plan that makes a call for a message and goes on with the answer; an error diverts the message. -/
def orDivert (q : Query ω α) (m : Message) (next : α → Plan ω) : Plan ω :=
  q.plan fun
    | .ok a => next a
    | .error e => .divert m e

end Query

end RuleFlow
