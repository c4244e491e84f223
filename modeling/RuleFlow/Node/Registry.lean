import RuleFlow.Graph.Basic
import RuleFlow.Node.Services

/-!
# The types of nodes

A `Component` is a node of one of the built-in types or a probe, and `Component.handleOver` is what it does when
the services are given. A `Registry` knows types by name, each with its category; `Registry.create` makes a
component of a type from a configuration, and `Registry.catalogue` is the catalogue from which graphs are compiled
in a `World`.
-/

namespace RuleFlow

/-- A node that was made. -/
inductive Component where
  | log (n : LogNode)
  | saveAttributes (n : SaveAttributesNode)
  | createRelation (n : CreateRelationNode)
  | mqtt (n : MqttNode)
  | rest (n : RestNode)
  | filter (n : ScriptedNode)
  | switch (n : ScriptedNode)
  | transform (n : ScriptedNode)
  | probe (id : String) (p : Probe)
  deriving DecidableEq

namespace Component

/-- How a component presents itself. -/
def descriptor : Component → Descriptor
  | log _ => LogNode.descriptor
  | saveAttributes _ => SaveAttributesNode.descriptor
  | createRelation _ => CreateRelationNode.descriptor
  | mqtt _ => MqttNode.descriptor
  | rest _ => RestNode.descriptor
  | filter _ => ScriptedNode.filterDescriptor
  | switch _ => ScriptedNode.switchDescriptor
  | transform _ => ScriptedNode.transformDescriptor
  | probe .. => Probe.descriptor

/-- What a component does with a message when it calls on given services. -/
def handleOver {ω : Type} (s : Services ω) (c : Component) (ctx : Context) (m : Message) : Plan ω :=
  match c with
  | log n => n.handle ctx m
  | saveAttributes n => n.handle s.saveAttributes m
  | createRelation n => n.handle s.createRelation m
  | mqtt n => n.handle (s.publish ctx) m
  | rest n => n.handle (s.request ctx) m
  | filter n => n.handleFilter s.filter m
  | switch n => n.handleSwitch s.switch ctx m
  | transform n => n.handleTransform s.transform m
  | probe _ p => s.probe p ctx m

/-- What a component does with a message in a world. -/
def handle : Component → Context → Message → Plan World := handleOver .world

/-- Closes a component; a probe is noted. -/
def close (c : Component) (w : World) : World :=
  match c with
  | probe id _ => { w with closed := w.closed ++ [id] }
  | _ => w

/-- Whether a component took its time when it was made. -/
def isSlow : Component → Bool
  | probe _ p => p.isSlow
  | _ => false

end Component

/-- A type of nodes. A probe may have a configuration of its own that replaces the one in the graph. -/
inductive NodeType where
  | log
  | saveAttributes
  | createRelation
  | mqtt
  | rest
  | filter
  | switch
  | transform
  | probe (config : Option Json.Value)

namespace NodeType

/-- Reads the configuration of a node and checks it. -/
def configure {α : Type} (id : String) (d : Json.Decoder α) (check : String → α → Except NodeConfigFault α)
    (config : Json.Value) : Result α :=
  match d.ofValue config with
  | .error cause => .error (.nodeConfig (.unreadable id cause))
  | .ok c => (check id c).mapError .nodeConfig

/-- Connects a node to its broker. -/
def connect (peer : Mqtt.Peer) (n : MqttNode) : Result MqttNode :=
  match Mqtt.connect peer n.broker with
  | .ok () => .ok n
  | .error fault => .error (.mqtt fault)

/-- Makes a node of a type. -/
def create (type : NodeType) (id : String) (config : Json.Value) (w : World) : Result Component :=
  match type with
  | log => (configure id LogNode.decoder (fun _ => .ok) config).map .log
  | saveAttributes =>
    (configure id SaveAttributesNode.decoder (fun _ => .ok) config).map .saveAttributes
  | createRelation =>
    (configure id CreateRelationNode.decoder CreateRelationNode.check config).map .createRelation
  | mqtt => do
    let n ← configure id MqttNode.decoder MqttNode.check config
    .mqtt <$> connect w.broker n
  | rest => (configure id RestNode.decoder RestNode.check config).map .rest
  | filter => (configure id (ScriptedNode.decoder "FilterConfig") ScriptedNode.check config).map .filter
  | switch => (configure id (ScriptedNode.decoder "SwitchConfig") ScriptedNode.check config).map .switch
  | transform =>
    (configure id (ScriptedNode.decoder "TransformConfig") ScriptedNode.check config).map .transform
  | probe own =>
    let p := Probe.ofConfig (own.getD config)
    match p.createError with
    | some e => .error e
    | none => .ok (.probe id p)

end NodeType

/-- A type of nodes in a registry. -/
structure Registration where
  category : Category
  type : NodeType

/-- The types of nodes by name. -/
abbrev Registry := Table Registration

namespace Registry

/-- The built-in types. -/
def builtin : Registry := Table.ofList
  [("log", ⟨.action, .log⟩), ("save_attributes", ⟨.action, .saveAttributes⟩),
    ("create_relation", ⟨.action, .createRelation⟩), ("mqtt", ⟨.external, .mqtt⟩),
    ("rest_api_call", ⟨.external, .rest⟩), ("filter", ⟨.filter, .filter⟩),
    ("switch", ⟨.filter, .switch⟩), ("transform", ⟨.filter, .transform⟩)]

/-- A probe that fails. -/
def failConfig : Json.Value :=
  .object [("fail", .object [("kind", .string "NodeExecutionError"), ("message", .string "always fails")])]

/-- A probe that panics. -/
def panicConfig : Json.Value := .object [("panic", .string "node exploded")]

/-- The built-in types and probes. -/
def withProbes : Registry :=
  (((builtin.insert "probe" ⟨.action, .probe none⟩).insert "recorder"
    ⟨.action, .probe (some (.object []))⟩).insert "fail" ⟨.action, .probe (some failConfig)⟩).insert
    "panic" ⟨.action, .probe (some panicConfig)⟩

/-- Makes a node of a named type. -/
def create (registry : Registry) (typeName id : String) (config : Json.Value) (w : World) :
    Result Component :=
  match registry.get? typeName with
  | some r => r.type.create id config w
  | none => .error (.noHandler typeName)

/-- The category of a named type. -/
def category? (registry : Registry) (typeName : String) : Option Category :=
  (registry.get? typeName).map (·.category)

/-- The types as they present themselves, by name. -/
def descriptors (registry : Registry) : List Descriptor :=
  registry.entries.map fun (name, r) => ⟨name, name, s!"{r.category.name} node", r.category⟩

/-- The catalogue of the types. -/
def catalogue (registry : Registry) : Catalogue World Component where
  create n w := (registry.create n.typeName n.id n.config w, w)
  handle := Component.handle
  close := Component.close

/-- The components of a catalogue call on the services of a world, with scripts in the modelled language. -/
theorem handle_catalogue {registry : Registry} :
    registry.catalogue.handle = Component.handleOver (Services.world.withLanguage Script.interpreter) := by
  rw [Services.withLanguage_interpreter]
  rfl

end Registry

end RuleFlow
