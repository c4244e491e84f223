import Mathlib.Logic.Relation
import RuleFlow.Node.Registry
import RuleFlow.Proofs.Outcome
import RuleFlow.Proofs.Traversal.Run

/-!
# Where messages come from

A node that receives a message got it from the node inside whose handling it does, which told it as a part of
the plan for a message of its own (`Instance.Hands`). Over such steps every message of a run comes from the one
that entered (`Instance.Receives.descends`).

What a component tells for a message is an heir of it (`Message.Heir`): it keeps the id and the timestamp, and
under the label of failures it keeps the metadata apart from the note of what went wrong. This is seen from the
plans of the components, whatever their services answer and whatever runs their scripts
(`Component.tellsOnly_handleOver`). So all that is received in a run of a compiled graph has the id and the
timestamp of the message that entered, and a message that was diverted differs in its metadata from the one that
its node received by that note and nothing else (`Instance.lineage_of_compile`).
-/

namespace RuleFlow

/-- What may be told for a message under a label. -/
structure Message.Heir (m : Message) (label : String) (made : Message) : Prop where
  id : made.id = m.id
  timestamp : made.timestamp = m.timestamp
  metadata : label = failureLabel → ∀ key, key ≠ "error" →
    made.metadata.get? key = m.metadata.get? key

namespace Message.Heir

variable {m made : Message} {label : String}

protected theorem refl (m : Message) (label : String) : m.Heir label m := ⟨rfl, rfl, fun _ _ _ => rfl⟩

/-- A message with a note of an error is an heir under every label. -/
theorem note_error (m : Message) (label text : String) : m.Heir label (m.note "error" text) where
  id := rfl
  timestamp := rfl
  metadata _ _ hkey := (Table.get?_insert ..).trans (if_neg hkey)

theorem of_success (hid : made.id = m.id) (htimestamp : made.timestamp = m.timestamp) :
    m.Heir successLabel made :=
  ⟨hid, htimestamp, fun hlabel => absurd hlabel (by decide)⟩

end Message.Heir

/-- What a node may tell for a message under a label if it changes at most the type: the message, or under the label
of failures the message with a note of an error. -/
def Message.Retyped (m : Message) (label : String) (made : Message) : Prop :=
  ∃ type, made = { m with type } ∨
    label = failureLabel ∧ ∃ e : RuleError, made = ({ m with type } : Message).note "error" e.message

/-- What a script made of a message is an heir of it. -/
theorem Message.Retyped.heir {m made : Message} {label : String} (h : m.Retyped label made) :
    m.Heir label made := by
  obtain ⟨type, rfl | ⟨-, e, rfl⟩⟩ := h
  · exact ⟨rfl, rfl, fun _ _ _ => rfl⟩
  · exact ⟨rfl, rfl, (Heir.note_error { m with type } label e.message).metadata⟩

namespace Script

theorem withMetadata_keeps {m made : Message} {v : Option Json.Value} (h : withMetadata m v = .ok made) :
    made.id = m.id ∧ made.timestamp = m.timestamp := by
  unfold withMetadata at h
  split at h
  · cases h
    exact ⟨rfl, rfl⟩
  · split at h
    · cases h
      exact ⟨rfl, rfl⟩
    · cases h

/-- Whatever a script returns, the message it makes keeps its id and its time. -/
theorem transformResult_keeps {m made : Message} {v : Json.Value} (h : transformResult m v = .ok made) :
    made.id = m.id ∧ made.timestamp = m.timestamp := by
  unfold transformResult at h
  split at h
  · split at h
    · cases h
      exact ⟨rfl, rfl⟩
    · obtain ⟨given, hgiven, h⟩ := bind_eq_ok_iff.1 h
      have hkeeps := withMetadata_keeps hgiven
      split at h
      · cases h
        exact hkeeps
      · cases h
        exact hkeeps
  · cases h
    exact ⟨rfl, rfl⟩

end Script

/-! ## What plans tell -/

variable {ω η α β : Type}

namespace Plan

/-- A plan that tells only messages with a property, whatever it is answered and meets. -/
def TellsOnly (P : String → Message → Prop) : Plan ω → Prop
  | finish _ => True
  | tell label m next => P label m ∧ ∀ r, (next r).TellsOnly P
  | reveal _ next => next.TellsOnly P
  | look next => ∀ w, (next w).TellsOnly P
  | change _ next => next.TellsOnly P

/-- What may be left of a plan when some of it was carried out. -/
inductive Rest : Plan ω → Plan ω → Prop
  | all (p : Plan ω) : Rest p p
  | tell {label : String} {m : Message} {next : Result Unit → Plan ω} {r : Result Unit} {p : Plan ω} :
    Rest (next r) p → Rest (tell label m next) p
  | reveal {e : Event} {next p : Plan ω} : Rest next p → Rest (reveal e next) p
  | look {next : ω → Plan ω} {w : ω} {p : Plan ω} : Rest (next w) p → Rest (look next) p
  | change {w : ω} {next p : Plan ω} : Rest next p → Rest (change w next) p

variable {P Q : String → Message → Prop} {label : String} {m : Message} {p q r : Plan ω}

/-- A plan that tells only messages with a property tells only messages with a weaker one. -/
theorem TellsOnly.imp (h : p.TellsOnly P) (hPQ : ∀ label m, P label m → Q label m) : p.TellsOnly Q := by
  induction p with
  | finish o => trivial
  | tell label m next ih => exact ⟨hPQ label m h.1, fun r => ih r (h.2 r)⟩
  | reveal e next ih => exact ih h
  | look next ih => exact fun w => ih w (h w)
  | change w next ih => exact ih h

theorem Rest.trans (h : Rest p q) (hr : Rest q r) : Rest p r := by
  induction h with
  | all p => exact hr
  | tell _ ih => exact .tell (ih hr)
  | reveal _ ih => exact .reveal (ih hr)
  | look _ ih => exact .look (ih hr)
  | change _ ih => exact .change (ih hr)

theorem Rest.tellsOnly (h : Rest p q) (hp : p.TellsOnly P) : q.TellsOnly P := by
  induction h with
  | all p => exact hp
  | tell _ ih => exact ih (hp.2 _)
  | reveal _ ih => exact ih hp
  | look _ ih => exact ih (hp _)
  | change _ ih => exact ih hp

theorem tellsOnly_forward (h : P label m) : (forward label m : Plan ω).TellsOnly P := ⟨h, fun _ => trivial⟩

theorem tellsOnly_forwardAll (h : ∀ label, P label m) (labels : List String) :
    (forwardAll m labels : Plan ω).TellsOnly P := by
  induction labels with
  | nil => trivial
  | cons label labels ih =>
    refine ⟨h label, fun r => ?_⟩
    cases r with
    | ok => exact ih
    | error e => trivial

theorem tellsOnly_divert (m : Message) (e : RuleError) : (divert m e : Plan ω).TellsOnly m.Heir :=
  tellsOnly_forward (.note_error ..)

theorem tellsOnly_succeed (m : Message) : (succeed m : Plan ω).TellsOnly m.Heir :=
  tellsOnly_forward (.refl ..)

end Plan

namespace Query

/-- A call that is answered, if at all, by something with a property. -/
def Answers (P : α → Prop) : Query ω α → Prop
  | answer r => ∀ a, r = .ok a → P a
  | look q => ∀ w, (q w).Answers P
  | change _ q => q.Answers P

variable {P : α → Prop} {R : β → Prop}

theorem answers_true (q : Query ω α) : q.Answers fun _ => True := by
  induction q with
  | answer r => exact fun _ _ => trivial
  | look q ih => exact ih
  | change w q ih => exact ih

theorem answers_bind {next : α → Query ω β} (h : ∀ a, (next a).Answers R) (q : Query ω α) :
    (q.bind next).Answers R := by
  induction q with
  | answer r =>
    cases r with
    | ok a => exact h a
    | error e => exact nofun
  | look q ih => exact ih
  | change w q ih => exact ih

/-- A script that returns something returns it, and one that fails returns nothing. -/
theorem answers_ofScript {r : Except Script.Fault α} (h : ∀ a, r = .ok a → P a) :
    (ofScript r : Query ω α).Answers P := by
  cases r with
  | ok a =>
    rintro _ ⟨⟩
    exact h a rfl
  | error fault => exact nofun

/-- What is told after a call are heirs if what is told after its answers are. -/
theorem tellsOnly_orDivert {m : Message} {q : Query ω α} {next : α → Plan ω} (hq : q.Answers P)
    (h : ∀ a, P a → (next a).TellsOnly m.Heir) : (q.orDivert m next).TellsOnly m.Heir := by
  induction q with
  | answer r =>
    cases r with
    | ok a => exact h a (hq a rfl)
    | error e => exact Plan.tellsOnly_divert m e
  | look q ih => exact fun w => ih w (hq w)
  | change w q ih => exact ih hq

end Query

/-- Whatever runs the scripts and whatever they return, the messages that they make keep the id and the
timestamp. -/
theorem Script.Runtime.answers_transform (run : Runtime ω) (m : Message) (script : String) :
    (run.engine.transform m script).Answers fun made => made.id = m.id ∧ made.timestamp = m.timestamp := by
  refine Query.answers_bind (fun text => Query.answers_ofScript fun made hmade => ?_) _
  obtain ⟨v, -, hv⟩ := bind_eq_ok_iff.1 hmade
  exact transformResult_keeps hv

/-- A probe changes a message at most in its type. -/
theorem Probe.tellsOnly_handle (p : Probe) (ctx : Context) (m : Message) :
    (p.handle ctx m : Plan ω).TellsOnly m.Retyped := by
  have hsame : ∀ label, m.Retyped label { m with type := p.setType.getD m.type } := fun label => ⟨_, .inl rfl⟩
  simp only [handle, Plan.TellsOnly]
  split
  · trivial
  · trivial
  · unfold pass
    split
    · exact Plan.tellsOnly_forward ⟨_, .inr ⟨rfl, _, rfl⟩⟩
    · exact Plan.tellsOnly_forwardAll hsame _
    · exact Plan.tellsOnly_forward (hsame _)

namespace Component

/-- What components tell for a message are heirs of it, if the probes change it at most in its type. -/
theorem tellsOnly_handleOver {s : Services ω} (hs : ∀ p ctx m, (s.probe p ctx m).TellsOnly m.Retyped)
    (run : Script.Runtime ω) (c : Component) (ctx : Context) (m : Message) :
    (c.handleOver (s.withRuntime run) ctx m).TellsOnly m.Heir := by
  cases c with
  | log n => exact Plan.tellsOnly_succeed m
  | saveAttributes n =>
    simp only [handleOver, SaveAttributesNode.handle]
    split
    · exact Plan.tellsOnly_divert ..
    · exact Query.tellsOnly_orDivert (Query.answers_true _) fun _ _ => Plan.tellsOnly_succeed m
  | createRelation n =>
    simp only [handleOver, CreateRelationNode.handle]
    split
    · exact Plan.tellsOnly_divert ..
    · exact Query.tellsOnly_orDivert (Query.answers_true _) fun _ _ =>
        Plan.tellsOnly_forward (.of_success rfl rfl)
  | mqtt n => exact Query.tellsOnly_orDivert (Query.answers_true _) fun _ _ => Plan.tellsOnly_succeed m
  | rest n =>
    refine Query.tellsOnly_orDivert (Query.answers_true _) fun r _ => ?_
    split
    · exact Plan.tellsOnly_forward (.of_success rfl rfl)
    · exact Plan.tellsOnly_divert ..
  | filter n =>
    refine Query.tellsOnly_orDivert (Query.answers_true _) fun passes _ => ?_
    cases passes <;> exact Plan.tellsOnly_forward (.refl ..)
  | switch n =>
    exact Query.tellsOnly_orDivert (Query.answers_true _) fun labels _ =>
      Plan.tellsOnly_forwardAll (.refl m) _
  | transform n =>
    exact Query.tellsOnly_orDivert (run.answers_transform m n.script) fun made hmade =>
      Plan.tellsOnly_forward (.of_success hmade.1 hmade.2)
  | probe id p => exact (hs p ctx m).imp fun _ _ h => h.heir

end Component

namespace Instance

/-! ## Paths of messages -/

/-- A visit hands on to another: its node stands around the other and tells the message there by what is left
of the plan for its own. -/
structure Hands (k : Catalogue ω η) (i : Instance η) (rest : Plan ω) (u v : Visit) : Prop where
  within : v.within = u.node :: u.within
  plan : ∃ node, i.graph.nodes.get? u.node = some node ∧
    (k.handle node.handler (i.context u.node node) u.message).Rest rest
  told : ∃ label next, rest = .tell label v.message next ∧ v.node ∈ i.graph.targets u.node label

/-- A visit comes from another over any number of steps. -/
def Descends (k : Catalogue ω η) (i : Instance η) : Visit → Visit → Prop :=
  Relation.ReflTransGen fun u v => ∃ rest, Hands k i rest u v

variable {k : Catalogue ω η} {i : Instance η}

mutual

/-- Everything that a run visits descends from the message it received. -/
theorem Receives.descends {within : List String} {id : String} {m : Message} {j j' : Journey ω}
    {r : Result Unit} (h : Receives k i within id m j r j') :
    j.Adds (Descends k i ⟨within, id, m⟩) j' :=
  match h with
  | .handle hnode hcarries =>
    ((adds_enter .refl).trans (hcarries.descends hnode (.all _))).trans (.of_eq (visits_leave ..))
termination_by structural h

/-- Everything that is left to visit of a plan descends from the message of its node. -/
theorem Carries.descends {within : List String} {id : String} {plan : Plan ω} {j j' : Journey ω}
    {o : Outcome} {node : Node η} {m : Message} (hnode : i.graph.nodes.get? id = some node)
    (hrest : (k.handle node.handler (i.context id node) m).Rest plan)
    (h : Carries k i within id plan j o j') : j.Adds (Descends k i ⟨within, id, m⟩) j' :=
  match h with
  | .finish _ _ => .of_eq rfl
  | .tell hdelivers hcarries =>
    (hdelivers.descends fun v hwithin hv hm =>
      ⟨_, hwithin, ⟨node, hnode, hrest⟩, ⟨_, _, by rw [hm], hv⟩⟩).trans
      (hcarries.descends hnode (hrest.trans (.tell (.all _))))
  | .reveal hcarries => (hcarries.descends hnode (hrest.trans (.reveal (.all _))) :)
  | .look hcarries => hcarries.descends hnode (hrest.trans (.look (.all _)))
  | .change hcarries => (hcarries.descends hnode (hrest.trans (.change (.all _))) :)
termination_by structural h

/-- Everything that deliveries visit descends from the message that was handed on. -/
theorem Delivers.descends {within : List String} {id : String} {targets : List String}
    {m : Message} {j j' : Journey ω} {r : Result Unit} {u : Visit}
    (hhands : ∀ v : Visit, v.within = id :: within → v.node ∈ targets → v.message = m →
      ∃ rest, Hands k i rest u v)
    (h : Delivers k i within id targets m j r j') : j.Adds (Descends k i u) j' :=
  match h with
  | .done _ _ => .of_eq rfl
  | .next hreceives hdelivers =>
    (hreceives.descends.imp fun _ => .head (hhands _ rfl List.mem_cons_self rfl)).trans
      (hdelivers.descends fun v hwithin hv => hhands v hwithin (List.mem_cons_of_mem _ hv))
  | .fail hreceives =>
    hreceives.descends.imp fun _ => .head (hhands _ rfl List.mem_cons_self rfl)
termination_by structural h

end

section Heirs

variable {u v : Visit} (hk : ∀ c ctx m, (k.handle c ctx m).TellsOnly m.Heir)

include hk

/-- A node hands on heirs of what it received. -/
theorem Hands.exists_heir {rest : Plan ω} (h : Hands k i rest u v) :
    ∃ label next, rest = .tell label v.message next ∧ u.message.Heir label v.message := by
  obtain ⟨node, -, hplan⟩ := h.plan
  obtain ⟨label, next, rfl, -⟩ := h.told
  exact ⟨label, next, rfl, (hplan.tellsOnly (hk node.handler _ _)).1⟩

/-- The id and the timestamp are kept over any number of steps. -/
theorem Descends.keeps (h : Descends k i u v) :
    v.message.id = u.message.id ∧ v.message.timestamp = u.message.timestamp := by
  induction h with
  | refl => exact ⟨rfl, rfl⟩
  | tail _ hhands ih =>
    obtain ⟨rest, hhands⟩ := hhands
    obtain ⟨label, next, -, hheir⟩ := hhands.exists_heir hk
    exact ⟨hheir.id.trans ih.1, hheir.timestamp.trans ih.2⟩

/-- A message that was diverted has the metadata of the one for which it was told, with the note of the error. -/
theorem Hands.metadata_of_divert {m : Message} {e : RuleError} (h : Hands k i (.divert m e) u v) :
    v.message.metadata = u.message.metadata.insert "error" e.message := by
  obtain ⟨label, next, hrest, hheir⟩ := h.exists_heir hk
  obtain ⟨rfl, hm, -⟩ := Plan.tell.inj hrest
  refine Table.ext fun key => ?_
  rw [Table.get?_insert]
  by_cases hkey : key = "error"
  · rw [if_pos hkey, hkey, ← hm]
    exact Table.get?_insert_self ..
  · rw [if_neg hkey]
    exact hheir.metadata rfl key hkey

end Heirs

/-- A message that enters a compiled graph of built-in nodes, and of probes that change messages at most in their
type. Whatever the services answer and whatever runs the scripts, all that a node receives in the run comes from
this message and has its id and its timestamp. Where a message was diverted, its metadata is that of the message
that the node received, with the note of the error. -/
theorem lineage_of_compile {k : Catalogue ω Component} {s : Services ω} {run : Script.Runtime ω}
    (hk : k.handle = Component.handleOver (s.withRuntime run))
    (hs : ∀ p ctx m, (s.probe p ctx m).TellsOnly m.Retyped)
    {i : Instance Component} {payload : List UInt8} {w w' : ω}
    (h : Graph.compile k payload w = (.ok i.graph, w')) (m : Message) (j : Journey ω) :
    ∃ r j', i.receive k m j = (r, j') ∧
      j.Adds (fun v => Descends k i ⟨[], i.graph.entry, m⟩ v ∧
        v.message.id = m.id ∧ v.message.timestamp = m.timestamp) j' ∧
      ∀ u v m' e, Hands k i (.divert m' e) u v →
        v.message.metadata = u.message.metadata.insert "error" e.message := by
  have hheirs : ∀ c ctx m, (k.handle c ctx m).TellsOnly m.Heir := by
    rw [hk]
    exact Component.tellsOnly_handleOver hs run
  obtain ⟨r, j', hreceive, hreceives, -, -⟩ := receive_of_compile h m j
  refine ⟨r, j', hreceive, ?_, fun _ _ _ _ hhands => hhands.metadata_of_divert hheirs⟩
  exact hreceives.descends.imp fun v hv => ⟨hv, hv.keeps hheirs⟩

end Instance

/-- A definition of a probe that changes the type of messages, a node that asks for their sender, and one that
gets what that fails at. -/
def GraphPayload.retyping : GraphPayload where
  nodes :=
    [{ id := "retype", typeName := "probe", config := .object [("set_type", .string "reading")] },
      { id := "save", typeName := "save_attributes" }, { id := "tell", typeName := "log" }]
  connections := [⟨"retype", "save", successLabel⟩, ⟨"save", "tell", failureLabel⟩]

theorem Graph.exists_compile_retyping : ∃ g w',
    compile Registry.withProbes.catalogue GraphPayload.retyping.text {} = (.ok g, w') ∧
      ((Instance.ofChain {} g).receive Registry.withProbes.catalogue default ⟨{}, [], []⟩).2.visits.map
        (fun v => (v.node, v.message.type, v.message.metadata.keys)) =
          [("retype", "", []), ("save", "reading", []), ("tell", "reading", ["error"])] :=
  exists_compile (by decide +kernel)

namespace Instance

theorem lineage_retyping : ∃ (g : Graph Component) (w' : World) (r : Result Unit) (j' : Journey World),
    Graph.compile Registry.withProbes.catalogue GraphPayload.retyping.text {} = (.ok g, w') ∧
      (ofChain {} g).receive Registry.withProbes.catalogue default ⟨{}, [], []⟩ = (r, j') ∧
      j'.visits.map (fun v => (v.node, v.message.type, v.message.metadata.keys)) =
        [("retype", "", []), ("save", "reading", []), ("tell", "reading", ["error"])] ∧
      ∀ v ∈ j'.visits, v.message.id = (default : Message).id ∧
        v.message.timestamp = (default : Message).timestamp := by
  obtain ⟨g, w', hg, hvisits⟩ := Graph.exists_compile_retyping
  obtain ⟨r, j', hreceive, ⟨vs, hvs, hkept⟩, -⟩ :=
    lineage_of_compile (i := ofChain {} g) Registry.handle_catalogue Probe.tellsOnly_handle hg default
      ⟨{}, [], []⟩
  rw [hreceive] at hvisits
  refine ⟨g, w', r, j', hg, hreceive, hvisits, fun v hv => (hkept v ?_).2⟩
  rwa [hvs] at hv

end Instance

end RuleFlow
