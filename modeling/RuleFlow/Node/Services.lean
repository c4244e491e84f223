import RuleFlow.Node.External
import RuleFlow.Node.Log
import RuleFlow.Node.Probe
import RuleFlow.Node.Scripted
import RuleFlow.Node.Store
import RuleFlow.Node.World
import RuleFlow.Script.Evaluate

/-!
# What nodes call on

Nodes leave to `Services` what they cannot do by themselves: to run scripts, to store attributes and relations, to
publish and to request. Each of these is a `Query` in surroundings of any type, so it may answer differently at
different times and may go wrong. What probes do is given along with the services.

A `Script.Runtime` runs scripts and returns texts; how a node reads such a text is not up to it
(`Script.Runtime.engine`). `Services.world` are the services of a `World`: the interpreter, the stores in memory,
and an outside that is played.
-/

namespace RuleFlow

variable {ω α : Type}

/-- What nodes with a script call on: whether a message passes a script, which labels the script gives it, and
which message it makes of it. -/
structure ScriptEngine (ω : Type) where
  filter : Message → String → Query ω Bool
  switch : Message → String → Query ω (List String)
  transform : Message → String → Query ω Message

/-- What components call on, and what probes do. Publications and requests are made by the client of the node that
stands in a context. -/
structure Services (ω : Type) extends ScriptEngine ω where
  saveAttributes : String → Scope → Json.Members → Query ω Unit
  createRelation : Relation → Query ω Bool
  publish : Context → Mqtt.Publication → Query ω Unit
  request : Context → RestNode → Message → Query ω Http.Response
  probe : Probe → Context → Message → Plan ω

/-- The answer of a script. -/
def Query.ofScript (r : Except Script.Fault α) : Query ω α :=
  .answer <| match r with
    | .ok a => .ok a
    | .error fault => .error (.script fault)

/-- The answer of a web service, or why none came. -/
def Query.ofExchange (r : Except Http.Fault Http.Response) : Query ω Http.Response :=
  .answer <| match r with
    | .ok r => .ok r
    | .error fault => .error (.execution (.request fault))

namespace Script

/-- What runs scripts: a call for the text that a script returns for a message. -/
abbrev Runtime (ω : Type) := Message → String → Query ω String

namespace Runtime

/-- Runs scripts in a language, the same way in all surroundings. -/
def ofLanguage (l : Language) : Runtime ω := fun m script => .ofScript (l m script)

/-- Reads what scripts return as the nodes need it. -/
def engine (run : Runtime ω) : ScriptEngine ω where
  filter m script := (run m script).bind fun text => .ofScript (readResult text >>= filterResult)
  switch m script := (run m script).bind fun text => .ofScript (readResult text >>= switchResult)
  transform m script := (run m script).bind fun text => .ofScript (readResult text >>= transformResult m)

end Runtime

end Script

namespace Services

/-- Services with scripts that are run otherwise. -/
def withRuntime (s : Services ω) (run : Script.Runtime ω) : Services ω := { s with toScriptEngine := run.engine }

/-- Services with scripts in another language. -/
def withLanguage (s : Services ω) (l : Script.Language) : Services ω := s.withRuntime (.ofLanguage l)

/-- The services of a world. -/
def world : Services World where
  toScriptEngine := (Script.Runtime.ofLanguage Script.interpreter).engine
  saveAttributes entity scope attributes :=
    .look fun w => .change { w with attributes := w.attributes.save entity scope attributes } (.answer (.ok ()))
  createRelation relation :=
    .look fun w =>
      let (isNew, relations) := w.relations.create relation
      .change { w with relations } (.answer (.ok isNew))
  publish _ p :=
    match Mqtt.publish p with
    | .error fault => .answer (.error (.mqtt fault))
    | .ok p => .look fun w => .change { w with published := w.published ++ [p] } (.answer (.ok ()))
  request _ n m :=
    match n.request m with
    | .error fault => .ofExchange (.error fault)
    | .ok (request, shown) =>
      .look fun w =>
        let (r, network) := Http.exchange w.network request shown
        .change { w with network } (.ofExchange r)
  probe p ctx m := p.handle ctx m

theorem withRuntime_eq_self {s : Services ω} {run : Script.Runtime ω} (h : s.toScriptEngine = run.engine) :
    s.withRuntime run = s := by
  rw [withRuntime, ← h]

/-- The services of a world take scripts in the modelled language. -/
theorem withLanguage_interpreter : world.withLanguage Script.interpreter = world := withRuntime_eq_self rfl

end Services

end RuleFlow
