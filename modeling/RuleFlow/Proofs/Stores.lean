import RuleFlow.Node.Registry
import RuleFlow.Proofs.Graph.Routes
import RuleFlow.Proofs.Outcome
import RuleFlow.Proofs.Traversal.Course
import RuleFlow.Proofs.Traversal.Failure

/-!
# What messages leave in the stores

All graphs write to the same two stores, which are a part of the surroundings and kept in memory: saving and
relating do there what they do to the stores, and no other service touches them (`Services.InMemory`). Beyond that
nothing is assumed of scripts, brokers and web services.

Said of a component and a message: the attributes that it saves (`Component.brings?`) and the relation that it asks
for (`Component.asks?`). Whatever a component does, that is what it makes of the stores before it forwards anything,
and then it leaves them alone (`Component.edits_stores`). So the acts of a course hand the stores on, and what
stands in them at any moment is said by the acts that came before: the attributes of an entity in a scope are what
was saved for it, the value that was written last standing under every key (`Engine.attributes_merged`), and the
relations are those that were asked for, each at its first mention (`Engine.relations_distinct`).
-/

namespace RuleFlow

variable {ω : Type}

namespace Json.Members

/-- What is written over sorted members makes the table of all of them. -/
theorem extend_eq_entries {ms : Members} (h : Entries.Sorted ms) (more : Members) :
    ms.extend more = (more.foldl (fun t e => t.insert e.1 e.2) (⟨ms, h⟩ : Table Value)).entries := by
  induction more generalizing ms with
  | nil => rfl
  | cons x more ih => exact ih (Entries.sorted_insert h)

/-- What is found after some objects were written one after the other: nothing if there was none, else sorted
members, under every key the value that was written last. -/
structure Merged (written : List Members) (found : Option Members) : Prop where
  none_iff : found = none ↔ written = []
  sorted : ∀ ms, found = some ms → Entries.Sorted ms
  get?_eq : ∀ ms, found = some ms → ∀ key,
    Entries.get? key ms = Entries.get? key written.flatten.reverse

namespace Merged

variable {written : List Members} {found found' : Option Members}

theorem nil : Merged [] none where
  none_iff := by simp
  sorted := by simp
  get?_eq := by simp

theorem sorted_getD (h : Merged written found) : Entries.Sorted (found.getD []) := by
  cases hfound : found with
  | none => exact .nil
  | some ms => exact h.sorted ms hfound

/-- Under each key the last value is stored that was written there. -/
theorem get?_getD (h : Merged written found) (key : String) :
    Entries.get? key (found.getD []) = Entries.get? key written.flatten.reverse := by
  cases hfound : found with
  | none => rw [h.none_iff.1 hfound]; rfl
  | some ms => exact h.get?_eq ms hfound key

/-- One more object is written over what was found. -/
theorem concat (h : Merged written found) (more : Members) :
    Merged (written ++ [more]) (some ((found.getD []).extend more)) where
  none_iff := by simp
  sorted := by
    rintro _ ⟨⟩
    rw [extend_eq_entries h.sorted_getD]
    exact Table.sorted _
  get?_eq := by
    rintro _ ⟨⟩ key
    rw [extend_eq_entries h.sorted_getD, List.flatten_append, List.flatten_singleton,
      List.reverse_append, Entries.get?_append, ← h.get?_getD]
    exact Table.get?_foldl_insert more ⟨_, h.sorted_getD⟩ key

/-- What was written says what is found. -/
theorem unique (h : Merged written found) (h' : Merged written found') : found = found' := by
  cases hfound : found with
  | none => exact (h'.none_iff.2 (h.none_iff.1 hfound)).symm
  | some ms =>
    cases hfound' : found' with
    | none => exact absurd (h.none_iff.2 (h'.none_iff.1 hfound')) (by simp [hfound])
    | some ms' =>
      exact congrArg some (Entries.eq_of_get? (h.sorted ms hfound) (h'.sorted ms' hfound') fun key =>
        (h.get?_eq ms hfound key).trans (h'.get?_eq ms' hfound' key).symm)

end Merged

end Json.Members

/-- As many items mention something new as there are different things mentioned. -/
theorem length_eraseDups_filterMap {α β : Type} [DecidableEq β] {f : α → Option β} {isNew : α → Bool}
    {xs : List α} (h : ∀ before x after, xs = before ++ x :: after →
      (isNew x = true ↔ ∃ b, f x = some b ∧ b ∉ before.filterMap f)) :
    (xs.filterMap f).eraseDups.length = xs.countP isNew := by
  induction xs using List.reverseRecOn with
  | nil => rfl
  | append_singleton xs x ih =>
    have hx := h xs x [] rfl
    have hxs := ih fun before y after hy => h before y (after ++ [x]) (by simp [hy])
    rw [List.filterMap_append, List.countP_append, List.countP_singleton, ← hxs]
    cases hf : f x with
    | none =>
      have hold : isNew x = false := by simpa [hf] using hx
      simp [hf, hold]
    | some b =>
      rw [List.filterMap_cons_some hf, List.filterMap_nil, eraseDups_concat]
      by_cases hb : b ∈ xs.filterMap f
      · have hold : isNew x = false := by
          refine Bool.eq_false_iff.2 fun hnew => ?_
          obtain ⟨b', hb', hnot⟩ := hx.1 hnew
          exact hnot (Option.some.inj (hf.symm.trans hb') ▸ hb)
        simp [hb, hold]
      · have hnew : isNew x = true := hx.2 ⟨b, hf, hb⟩
        simp [hb, hnew]

/-- A relation that is added to the different ones of a list is new if the list has no mention of it. -/
theorem Relations.create_eraseDups (rs : List Relation) (r : Relation) :
    create rs.eraseDups r = (decide (r ∉ rs), (rs ++ [r]).eraseDups) := by
  rw [create, eraseDups_concat]
  by_cases h : r ∈ rs <;> simp [h]

/-! ## Attributes that are saved -/

namespace SaveAttributesNode

variable {n : SaveAttributesNode} {m : Message}

/-- The entity, the scope and the data that a node saves, if it can tell the entity and the data is an object. -/
def brings? (n : SaveAttributesNode) (m : Message) : Option ((String × Scope) × Json.Members) :=
  match m.data with
  | .object ms => if n.entityOf m = "" then none else some ((n.entityOf m, n.scope), ms)
  | _ => none

/-- A node saves nothing for an entity that it cannot tell or from data that is no object. -/
theorem brings?_of_unusable (h : n.entityOf m = "" ∨ ∀ ms, m.data ≠ .object ms) :
    n.brings? m = none := by
  unfold brings?
  split
  case h_1 ms hdata => exact if_pos (h.resolve_right fun hno => hno ms hdata)
  case h_2 => rfl

/-- A node saves the members of the data for the entity that it can tell. -/
theorem brings?_of_object {ms : Json.Members} (h : n.entityOf m ≠ "") (hdata : m.data = .object ms) :
    n.brings? m = some ((n.entityOf m, n.scope), ms) := by
  simp [brings?, hdata, h]

/-- Why a node saves nothing. -/
def reason (n : SaveAttributesNode) (m : Message) : NodeFault :=
  if n.entityOf m = "" then .noEntity else .notAttributes m.data

/-- A node either diverts the message or saves what it brings. -/
theorem handle_eq (n : SaveAttributesNode) (save : String → Scope → Json.Members → Query ω Unit) (m : Message) :
    n.handle save m = (n.brings? m).elim (.divert m (.execution (n.reason m))) fun x =>
      (save x.1.1 x.1.2 x.2).orDivert m fun _ => .succeed m := by
  unfold handle request brings? reason
  by_cases h : n.entityOf m = ""
  · simp only [if_pos h]
    split <;> rfl
  · simp only [if_neg h]
    cases m.data <;> rfl

end SaveAttributesNode

namespace CreateRelationNode

variable {n : CreateRelationNode} {m : Message}

/-- The relation of a node between the sender of a message and an entity. -/
def between (n : CreateRelationNode) (sender entity : String) : Relation :=
  match n.direction with
  | .fromSender => ⟨sender, entity, n.type⟩
  | .toSender => ⟨entity, sender, n.type⟩

/-- The relation that a node asks for, if the message has a sender and the entity has a name. -/
def asks? (n : CreateRelationNode) (m : Message) : Option Relation :=
  if m.originator?.getD "" = "" ∨ Template.render n.entity m = "" then none
  else some (n.between (m.originator?.getD "") (Template.render n.entity m))

/-- A node asks for no relation if the sender or the entity has no name. -/
theorem asks?_of_nameless (h : m.originator?.getD "" = "" ∨ Template.render n.entity m = "") :
    n.asks? m = none := if_pos h

/-- A node asks for the relation between the sender and the entity. -/
theorem asks?_of_sender (h : m.originator?.getD "" ≠ "") (ht : Template.render n.entity m ≠ "") :
    n.asks? m = some (n.between (m.originator?.getD "") (Template.render n.entity m)) :=
  if_neg (not_or.2 ⟨h, ht⟩)

/-- Why a node asks for nothing. -/
def reason (m : Message) : NodeFault := if m.originator?.getD "" = "" then .noPublisher else .noTarget

/-- A node makes the call that it asks for, or says why it makes none. -/
theorem request_eq (n : CreateRelationNode) (m : Message) :
    n.request m = (n.asks? m).elim (.error (reason m)) .ok := by
  unfold request
  split
  case h_1 hsender | h_2 hsender =>
    have hnone : m.originator?.getD "" = "" := by rw [hsender]; rfl
    rw [asks?_of_nameless (.inl hnone), reason, if_pos hnone, Option.elim_none]
  case h_3 sender hne hsender =>
    have hsome : m.originator?.getD "" = sender := by rw [hsender]; rfl
    by_cases htarget : Template.render n.entity m = ""
    · rw [if_pos htarget, asks?_of_nameless (.inr htarget), reason, hsome, if_neg hne, Option.elim_none]
    · rw [if_neg htarget, asks?_of_sender (by rwa [hsome]) htarget, hsome, between]
      cases n.direction <;> rfl

/-- A node either diverts the message or creates the relation that it asks for. -/
theorem handle_eq (n : CreateRelationNode) (create : Relation → Query ω Bool) (m : Message) :
    n.handle create m = (n.asks? m).elim (.divert m (.execution (reason m))) fun r =>
      (create r).orDivert m fun isNew => .succeed (m.note "relation_created" (toString isNew)) := by
  rw [handle, request_eq]
  cases n.asks? m <;> rfl

end CreateRelationNode

theorem Relations.toString_create (rs : Relations) (r : Relation) :
    toString (rs.create r).1 = if r ∈ rs then "false" else "true" := by
  unfold create
  split <;> rfl

/-! ## What a component makes of the stores -/

/-- The stores with some attributes that are saved and a relation that is asked for. -/
def Stores.put (brought : Option ((String × Scope) × Json.Members)) (asked : Option Relation)
    (stores : Stores) : Stores where
  attributes := brought.elim stores.attributes fun x => stores.attributes.save x.1.1 x.1.2 x.2
  relations := asked.elim stores.relations fun r => (stores.relations.create r).2

/-- Services that keep the stores in memory, as a part of the surroundings. Saving and relating always succeed and
do to the part what they do to stores. All else that is called on, and what probes do, leaves the part alone. -/
structure Services.InMemory (s : Services ω) (stores : ω → Stores) : Prop where
  saveAttributes : ∀ entity scope ms, (s.saveAttributes entity scope ms).Does stores fun a =>
    ((), { a with attributes := a.attributes.save entity scope ms })
  createRelation : ∀ r, (s.createRelation r).Does stores fun a =>
    ((a.relations.create r).1, { a with relations := (a.relations.create r).2 })
  filter : ∀ m script, (s.filter m script).Leaves stores
  switch : ∀ m script, (s.switch m script).Leaves stores
  transform : ∀ m script, (s.transform m script).Leaves stores
  publish : ∀ ctx p, (s.publish ctx p).Leaves stores
  request : ∀ ctx n m, (s.request ctx n m).Leaves stores
  probe : ∀ p ctx m w, (s.probe p ctx m).Edits stores (stores w) w

theorem Probe.edits_handle {σ : Type} {part : ω → σ} (p : Probe) (ctx : Context) (m : Message) (w : ω) :
    (p.handle ctx m).Edits part (part w) w := by
  simp only [handle, Plan.Edits]
  split
  · rfl
  · rfl
  · unfold pass
    split
    · exact Plan.edits_forward ..
    · exact Plan.edits_forwardAll ..
    · exact Plan.edits_forward ..

/-- The services of a world keep the stores in memory, in whatever language the scripts are. -/
theorem Services.inMemory_world (l : Script.Language) : (world.withLanguage l).InMemory World.toStores where
  saveAttributes entity scope ms w := ⟨_, rfl, rfl⟩
  createRelation r w := ⟨_, rfl, rfl⟩
  filter m script := Query.Leaves.bind (fun _ => rfl) fun _ _ => rfl
  switch m script := Query.Leaves.bind (fun _ => rfl) fun _ _ => rfl
  transform m script := Query.Leaves.bind (fun _ => rfl) fun _ _ => rfl
  publish ctx p w := by
    simp only [withLanguage, withRuntime, world]
    cases Mqtt.publish p <;> rfl
  request ctx n m w := by
    simp only [withLanguage, withRuntime, world]
    cases n.request m <;> rfl
  probe p ctx m w := p.edits_handle ctx m w

namespace Component

/-- The entity, the scope and the data that a component saves. -/
def brings? (c : Component) (m : Message) : Option ((String × Scope) × Json.Members) :=
  match c with
  | saveAttributes n => n.brings? m
  | _ => none

/-- The relation that a component asks for. -/
def asks? (c : Component) (m : Message) : Option Relation :=
  match c with
  | createRelation n => n.asks? m
  | _ => none

variable {s : Services ω} {stores : ω → Stores}

/-- Before it forwards anything, a component brings the stores to this state; then it leaves them alone. -/
theorem edits_stores (hs : s.InMemory stores) (c : Component) (ctx : Context) (m : Message) (w : ω) :
    (c.handleOver s ctx m).Edits stores ((stores w).put (c.brings? m) (c.asks? m)) w := by
  cases c with
  | log n => exact Plan.edits_forward successLabel m w
  | saveAttributes n =>
    rw [handleOver, n.handle_eq, brings?]
    cases n.brings? m with
    | none => exact Plan.edits_forward ..
    | some x =>
      obtain ⟨w', hw', -, hedits⟩ := (hs.saveAttributes x.1.1 x.1.2 x.2).exists_orDivert m (fun _ => .succeed m) w
      exact hedits _ ⟨hw', fun _ _ => rfl⟩
  | createRelation n =>
    rw [handleOver, n.handle_eq, asks?]
    cases n.asks? m with
    | none => exact Plan.edits_forward ..
    | some r =>
      obtain ⟨w', hw', -, hedits⟩ := (hs.createRelation r).exists_orDivert m
        (fun isNew => .succeed (m.note "relation_created" (toString isNew))) w
      exact hedits _ ⟨hw', fun _ _ => rfl⟩
  | mqtt n => exact (hs.publish ctx _).edits_orDivert (fun _ w => Plan.edits_forward successLabel m w) w
  | rest n =>
    refine (hs.request ctx n m).edits_orDivert (fun r w => ?_) w
    split <;> exact Plan.edits_forward ..
  | filter n =>
    refine (hs.filter m n.script).edits_orDivert (fun passes w => ?_) w
    cases passes <;> exact Plan.edits_forward ..
  | switch n => exact (hs.switch m n.script).edits_orDivert (fun _ w => Plan.edits_forwardAll m _ w) w
  | transform n =>
    exact (hs.transform m n.script).edits_orDivert (fun made w => Plan.edits_forward successLabel made w) w
  | probe id p => exact hs.probe p ctx m w

end Component

/-! ## Acts -/

namespace Act

/-- The entity, the scope and the data that an act saves. -/
def brings? (a : Act ω Component) : Option ((String × Scope) × Json.Members) :=
  a.handler?.bind (·.brings? a.visit.message)

/-- The relation that an act asks for. -/
def asks? (a : Act ω Component) : Option Relation :=
  a.handler?.bind (·.asks? a.visit.message)

/-- The stores with what an act saves and the relation that it asks for. -/
def leaves (a : Act ω Component) (stores : Stores) : Stores := stores.put a.brings? a.asks?

/-- The objects that some acts save for an entity and a scope. -/
def saved (entity : String) (scope : Scope) (as : List (Act ω Component)) : List Json.Members :=
  as.filterMap fun a => a.brings?.bind fun x => if x.1 = (entity, scope) then some x.2 else none

/-- The relations that some acts ask for. -/
def asked (as : List (Act ω Component)) : List Relation := as.filterMap asks?

variable {k : Catalogue ω Component} {s : Services ω} {stores : ω → Stores} {a : Act ω Component}

/-- Whether an act relates two entities and forwards a note that the relation is new. -/
def reportsNew (k : Catalogue ω Component) (a : Act ω Component) : Bool :=
  match a.handler?, a.onset? k with
  | some (.createRelation _), some (.tell label m _, _) =>
    label = successLabel ∧ m.metadata.get? "relation_created" = some "true"
  | _, _ => false

/-- Of an execution of a known component it can be told what it did before it told anything. -/
theorem exists_onset? (hk : k.handle = Component.handleOver s) {c : Component} (h : a.handler? = some c) :
    ∃ ctx, a.onset? k = some ((c.handleOver s ctx a.visit.message).onset a.world) := by
  obtain ⟨node, hnode, rfl⟩ := Option.map_eq_some_iff.1 h
  exact ⟨a.place.context a.visit.node node, by rw [onset?, hnode, hk]; rfl⟩

/-- What a node that saves attributes does when it first tells something. -/
theorem onset?_saveAttributes (hk : k.handle = Component.handleOver s) (hs : s.InMemory stores)
    {n : SaveAttributesNode} (h : a.handler? = some (.saveAttributes n)) :
    ∃ w, stores w = (stores a.world).put (n.brings? a.visit.message) none ∧
      a.onset? k = some ((n.brings? a.visit.message).elim
        (.divert a.visit.message (.execution (n.reason a.visit.message)), a.world)
        fun _ => (.succeed a.visit.message, w)) := by
  obtain ⟨ctx, honset⟩ := exists_onset? hk h
  rw [Component.handleOver, n.handle_eq] at honset
  rw [honset]
  cases n.brings? a.visit.message with
  | none => exact ⟨a.world, rfl, rfl⟩
  | some x =>
    obtain ⟨w, hw, hcall, -⟩ := (hs.saveAttributes x.1.1 x.1.2 x.2).exists_orDivert a.visit.message
      (fun _ => .succeed a.visit.message) a.world
    exact ⟨w, hw, congrArg some hcall⟩

/-- What a node that creates relations does when it first tells something. -/
theorem onset?_createRelation (hk : k.handle = Component.handleOver s) (hs : s.InMemory stores)
    {n : CreateRelationNode} (h : a.handler? = some (.createRelation n)) :
    ∃ w, stores w = (stores a.world).put none (n.asks? a.visit.message) ∧
      a.onset? k = some ((n.asks? a.visit.message).elim
        (.divert a.visit.message (.execution (CreateRelationNode.reason a.visit.message)), a.world)
        fun r => (.succeed (a.visit.message.note "relation_created"
          (if r ∈ (stores a.world).relations then "false" else "true")), w)) := by
  obtain ⟨ctx, honset⟩ := exists_onset? hk h
  rw [Component.handleOver, n.handle_eq] at honset
  rw [honset]
  cases n.asks? a.visit.message with
  | none => exact ⟨a.world, rfl, rfl⟩
  | some r =>
    obtain ⟨w, hw, hcall, -⟩ := (hs.createRelation r).exists_orDivert a.visit.message
      (fun isNew => .succeed (a.visit.message.note "relation_created" (toString isNew))) a.world
    refine ⟨w, hw, congrArg some (hcall.trans ?_)⟩
    rw [Relations.toString_create]
    rfl

/-- The attributes after some acts are what these saved, one after the other. -/
theorem merged_saved (as : List (Act ω Component)) {start : Stores} (h : start.attributes = [])
    (entity : String) (scope : Scope) :
    Json.Members.Merged (saved entity scope as)
      ((as.foldl (fun stores a => a.leaves stores) start).attributes.get? entity scope) := by
  induction as using List.reverseRecOn with
  | nil =>
    rw [List.foldl_nil, h]
    exact .nil
  | append_singleton as a ih =>
    rw [List.foldl_append, List.foldl_cons, List.foldl_nil, saved, List.filterMap_append]
    cases ha : a.brings? with
    | none => simpa [leaves, Stores.put, ha, saved] using ih
    | some x =>
      obtain ⟨⟨entity', scope'⟩, ms⟩ := x
      by_cases hplace : (entity', scope') = (entity, scope)
      · obtain ⟨rfl, rfl⟩ := Prod.mk.inj hplace
        simpa [leaves, Stores.put, ha, Attributes.get?_save, saved] using ih.concat ms
      · simpa [leaves, Stores.put, ha, Attributes.get?_save, hplace, Ne.symm hplace, saved] using ih

/-- The relations after some acts are those that these asked for, each at its first mention. -/
theorem foldl_leaves_relations (as : List (Act ω Component)) {start : Stores} (h : start.relations = []) :
    (as.foldl (fun stores a => a.leaves stores) start).relations = (asked as).eraseDups := by
  induction as using List.reverseRecOn with
  | nil => exact h
  | append_singleton as a ih =>
    rw [List.foldl_append, List.foldl_cons, List.foldl_nil, asked, List.filterMap_append, leaves,
      Stores.put, ih]
    cases ha : a.asks? with
    | none => simp [ha, asked]
    | some r =>
      rw [List.filterMap_cons_some ha, List.filterMap_nil, Option.elim_some, Relations.create_eraseDups]
      rfl

/-- A note that a relation is new is forwarded exactly for a relation that is not stored. -/
theorem reportsNew_iff (hk : k.handle = Component.handleOver s) (hs : s.InMemory stores) :
    a.reportsNew k = true ↔ ∃ r, a.asks? = some r ∧ r ∉ (stores a.world).relations := by
  unfold reportsNew asks?
  cases hc : a.handler? with
  | none => simp
  | some c =>
    cases c with
    | createRelation n =>
      obtain ⟨w, -, honset⟩ := onset?_createRelation hk hs hc
      rw [honset, Option.bind_some, Component.asks?]
      cases n.asks? a.visit.message with
      | none => simp [Plan.divert, Plan.forward, failureLabel, successLabel]
      | some r =>
        simp only [Option.elim_some, Plan.succeed, Plan.forward, Message.note, Table.get?_insert_self]
        by_cases hr : r ∈ (stores a.world).relations <;> simp [hr]
    | _ => simp [Component.asks?]

end Act

/-- Every act of a course leaves the stores to the next one. -/
theorem Traversal.Course.handsOn_stores {k : Catalogue ω Component} {s : Services ω} {stores : ω → Stores}
    (hk : k.handle = Component.handleOver s) (hs : s.InMemory stores) {ts : List (Traversal Component)}
    {j j' : Journey ω} {as : List (Act ω Component)} (h : Course k ts j as j') :
    HandsOn (fun a => stores a.world) Act.leaves (stores j.world) as (stores j'.world) := by
  refine h.handsOn fun a node hnode => ?_
  rw [Act.leaves, Act.brings?, Act.asks?, Act.handler?, hnode, hk]
  exact node.handler.edits_stores hs ..

/-! ## What is stored -/

namespace Engine

variable {k : Catalogue ω Component} {s : Services ω} {stores : ω → Stores} {ts : List (Traversal Component)}
  {e : Engine ω Component}

/-- Messages that enter compiled graphs one after the other while no attributes are stored. In the end, and
whenever a node is executed, the attributes of an entity in a scope are all that was saved for it by then, the
later value winning key by key. A node that cannot tell the entity or gets no object saves nothing and forwards
the message as a failure with a note of the reason; any other saves the object and forwards the message as it
is. -/
theorem attributes_merged (hk : k.handle = Component.handleOver s) (hs : s.InMemory stores)
    (hts : ∀ t ∈ ts, ∃ payload w w', Graph.compile k payload w = (.ok t.target.graph, w'))
    (he : (stores e.world).attributes = []) :
    ∃ as, Traversal.Course k ts e.journey as (e.traverseAll k ts).journey ∧
      (e.traverseAll k ts).journey.visits = e.journey.visits ++ as.map (·.visit) ∧
      (∀ entity scope, Json.Members.Merged (Act.saved entity scope as)
        ((stores (e.traverseAll k ts).world).attributes.get? entity scope)) ∧
      ∀ before a after, as = before ++ a :: after →
        (∀ entity scope, Json.Members.Merged (Act.saved entity scope before)
          ((stores a.world).attributes.get? entity scope)) ∧
        ∀ n m, a.handler? = some (.saveAttributes n) → a.visit.message = m →
          (n.entityOf m = "" ∨ (∀ ms, m.data ≠ .object ms) → a.brings? = none ∧
            a.Forwards k failureLabel (m.note "error" (RuleError.execution (n.reason m)).message) a.world
              after) ∧
          ∀ ms, n.entityOf m ≠ "" → m.data = .object ms →
            a.brings? = some ((n.entityOf m, n.scope), ms) ∧
              ∃ w, stores w = { stores a.world with
                  attributes := (stores a.world).attributes.save (n.entityOf m) n.scope ms } ∧
                a.Forwards k successLabel m w after := by
  obtain ⟨as, hcourse⟩ := exists_course hts e
  have hstores := hcourse.handsOn_stores hk hs
  have hstart : (stores e.journey.world).attributes = [] := he
  refine ⟨as, hcourse, hcourse.visits_eq, fun entity scope => ?_,
    fun before a after has => ⟨fun entity scope => ?_, ?_⟩⟩
  · have hmerged := Act.merged_saved as hstart entity scope
    rw [← hstores.eq_foldl] at hmerged
    exact hmerged
  · subst has
    have hmerged := Act.merged_saved before hstart entity scope
    rw [← hstores.met_eq] at hmerged
    exact hmerged
  · rintro n m hn rfl
    obtain ⟨w, hw, honset⟩ := Act.onset?_saveAttributes hk hs hn
    have hbrings : a.brings? = n.brings? a.visit.message := by
      rw [Act.brings?, hn]
      rfl
    constructor
    · intro hunusable
      rw [n.brings?_of_unusable hunusable] at honset hbrings
      exact ⟨hbrings, hcourse.forwards has honset⟩
    · intro ms hentity hdata
      rw [n.brings?_of_object hentity hdata] at hw honset hbrings
      exact ⟨hbrings, w, hw, hcourse.forwards has honset⟩

end Engine

/-- A definition of two nodes that save attributes and two that relate the sender of a message to a room, one each
way. Every message goes through all of them, whatever they make of it. -/
def GraphPayload.household : GraphPayload where
  nodes :=
    [{ id := "own", typeName := "save_attributes" },
      { id := "room", typeName := "save_attributes"
        config := .object [("scope", .string "shared"), ("entity_id", .string "$\x7bmetadata.room\x7d")] },
      { id := "there", typeName := "create_relation"
        config := .object [("relation_type", .string "near"),
          ("entity_id", .string "$\x7bmetadata.room\x7d")] },
      { id := "back", typeName := "create_relation"
        config := .object [("relation_type", .string "near"), ("direction", .string "to"),
          ("entity_id", .string "$\x7bmetadata.room\x7d")] }]
  connections :=
    [("own", "room"), ("room", "there"), ("there", "back")].flatMap fun (source, target) =>
      [⟨source, target, successLabel⟩, ⟨source, target, failureLabel⟩]

/-- A lamp tells how it is, a hall names the lamp with nothing to tell, and the lamp tells again without a room. -/
def GraphPayload.householdMessages : List Message :=
  [{ (default : Message) with
      metadata := .ofList [("publisher", "lamp"), ("room", "hall")]
      data := .object [("on", .bool true), ("watts", .string "5")] },
    { (default : Message) with metadata := .ofList [("publisher", "hall"), ("room", "lamp")] },
    { (default : Message) with
      metadata := .ofList [("publisher", "lamp")]
      data := .object [("on", .bool false)] }]

/-- The traversals of these messages through a graph. -/
def Graph.rounds (g : Graph Component) : List (Traversal Component) :=
  GraphPayload.householdMessages.map (⟨Instance.ofChain default g, ·⟩)

theorem Graph.compiled_of_mem_rounds {k : Catalogue World Component} {g : Graph Component}
    {payload : List UInt8} {w w' : World} (hg : compile k payload w = (.ok g, w')) :
    ∀ t ∈ g.rounds, ∃ payload w w', compile k payload w = (.ok t.target.graph, w') := by
  intro t ht
  obtain ⟨m, -, rfl⟩ := List.mem_map.1 ht
  exact ⟨payload, w, w', hg⟩

theorem Graph.exists_compile_household : ∃ g w',
    compile Registry.builtin.catalogue GraphPayload.household.text {} = (.ok g, w') ∧
      (Engine.fresh.traverseAll Registry.builtin.catalogue g.rounds).world.attributes =
        [(("lamp", .server), [("on", .bool false), ("watts", .string "5")]),
          (("hall", .shared), [("on", .bool true), ("watts", .string "5")])] ∧
      (Engine.fresh.traverseAll Registry.builtin.catalogue g.rounds).world.relations =
        [⟨"lamp", "hall", "near"⟩, ⟨"hall", "lamp", "near"⟩] ∧
      (Engine.fresh.traverseAll Registry.builtin.catalogue g.rounds).journey.visits.map (·.node) =
        (List.replicate 3 ["own", "room", "there", "back"]).flatten :=
  exists_compile (by decide +kernel)

namespace Engine

theorem attributes_merged_household : ∃ (g : Graph Component) (w' : World)
    (as : List (Act World Component)),
    Graph.compile Registry.builtin.catalogue GraphPayload.household.text {} = (.ok g, w') ∧
      Traversal.Course Registry.builtin.catalogue g.rounds fresh.journey as
        (fresh.traverseAll Registry.builtin.catalogue g.rounds).journey ∧
      as.map (·.visit.node) = (List.replicate 3 ["own", "room", "there", "back"]).flatten ∧
      Json.Members.Merged (Act.saved "lamp" .server as)
        (some [("on", .bool false), ("watts", .string "5")]) ∧
      Act.saved "hall" .server as = [] := by
  obtain ⟨g, w', hg, hattributes, -, hnodes⟩ := Graph.exists_compile_household
  obtain ⟨as, hcourse, hvisits, hmerged, -⟩ :=
    attributes_merged (e := fresh) Registry.handle_catalogue (Services.inMemory_world Script.interpreter)
      (Graph.compiled_of_mem_rounds hg) rfl
  rw [hvisits, List.map_append, List.map_map] at hnodes
  rw [hattributes] at hmerged
  exact ⟨g, w', as, hg, hcourse, hnodes, hmerged "lamp" .server,
    (hmerged "hall" .server).none_iff.1 (by decide)⟩

variable {k : Catalogue ω Component} {s : Services ω} {stores : ω → Stores} {ts : List (Traversal Component)}
  {e : Engine ω Component}

/-- Messages that enter compiled graphs one after the other while no relations are stored. In the end, and
whenever a node is executed, the relations are those that were asked for by then, each at its first mention, and
as many notes that a relation is new were forwarded as there are relations in the end. A node that gets a message
without a sender or finds no name for the entity asks for nothing and forwards the message as a failure; any other
forwards it with a note whether the relation is new. -/
theorem relations_distinct (hk : k.handle = Component.handleOver s) (hs : s.InMemory stores)
    (hts : ∀ t ∈ ts, ∃ payload w w', Graph.compile k payload w = (.ok t.target.graph, w'))
    (he : (stores e.world).relations = []) :
    ∃ as, Traversal.Course k ts e.journey as (e.traverseAll k ts).journey ∧
      (e.traverseAll k ts).journey.visits = e.journey.visits ++ as.map (·.visit) ∧
      (stores (e.traverseAll k ts).world).relations = (Act.asked as).eraseDups ∧
      (stores (e.traverseAll k ts).world).relations.Nodup ∧
      as.countP (Act.reportsNew k) = (stores (e.traverseAll k ts).world).relations.length ∧
      ∀ before a after, as = before ++ a :: after →
        (stores a.world).relations = (Act.asked before).eraseDups ∧
        ∀ n m sender entity, a.handler? = some (.createRelation n) → a.visit.message = m →
          m.originator?.getD "" = sender → Template.render n.entity m = entity →
          (sender = "" ∨ entity = "" → a.asks? = none ∧
            a.Forwards k failureLabel
              (m.note "error" (RuleError.execution (CreateRelationNode.reason m)).message) a.world
              after) ∧
          ∀ r, sender ≠ "" → entity ≠ "" → n.between sender entity = r → a.asks? = some r ∧
            ∃ w, stores w = { stores a.world with relations := ((stores a.world).relations.create r).2 } ∧
              a.Forwards k successLabel (m.note "relation_created"
                (if r ∈ (stores a.world).relations then "false" else "true")) w after := by
  obtain ⟨as, hcourse⟩ := exists_course hts e
  have hstores := hcourse.handsOn_stores hk hs
  have hstart : (stores e.journey.world).relations = [] := he
  have hlast : (stores (e.traverseAll k ts).world).relations = (Act.asked as).eraseDups := by
    rw [← Act.foldl_leaves_relations as hstart, ← hstores.eq_foldl]
    rfl
  have hmet : ∀ before a after, as = before ++ a :: after →
      (stores a.world).relations = (Act.asked before).eraseDups := by
    rintro before a after rfl
    rw [← Act.foldl_leaves_relations before hstart, ← hstores.met_eq]
  refine ⟨as, hcourse, hcourse.visits_eq, hlast, hlast ▸ nodup_eraseDups _, ?_,
    fun before a after has => ⟨hmet before a after has, ?_⟩⟩
  · rw [hlast]
    refine (length_eraseDups_filterMap fun before a after has => ?_).symm
    rw [Act.reportsNew_iff hk hs, hmet before a after has]
    simp only [List.mem_eraseDups]
    rfl
  · rintro n m sender entity hn rfl rfl rfl
    obtain ⟨w, hw, honset⟩ := Act.onset?_createRelation hk hs hn
    have hasks : a.asks? = n.asks? a.visit.message := by
      rw [Act.asks?, hn]
      rfl
    constructor
    · intro hnameless
      rw [n.asks?_of_nameless hnameless] at honset hasks
      exact ⟨hasks, hcourse.forwards has honset⟩
    · rintro r hsender hentity rfl
      rw [n.asks?_of_sender hsender hentity] at hw honset hasks
      exact ⟨hasks, w, hw, hcourse.forwards has honset⟩

theorem relations_distinct_household : ∃ (g : Graph Component) (w' : World)
    (as : List (Act World Component)),
    Graph.compile Registry.builtin.catalogue GraphPayload.household.text {} = (.ok g, w') ∧
      Traversal.Course Registry.builtin.catalogue g.rounds fresh.journey as
        (fresh.traverseAll Registry.builtin.catalogue g.rounds).journey ∧
      as.map (·.visit.node) = (List.replicate 3 ["own", "room", "there", "back"]).flatten ∧
      (Act.asked as).eraseDups = [⟨"lamp", "hall", "near"⟩, ⟨"hall", "lamp", "near"⟩] ∧
      as.countP (Act.reportsNew Registry.builtin.catalogue) = 2 := by
  obtain ⟨g, w', hg, -, hrelations, hnodes⟩ := Graph.exists_compile_household
  obtain ⟨as, hcourse, hvisits, hasked, -, hcount, -⟩ :=
    relations_distinct (e := fresh) Registry.handle_catalogue (Services.inMemory_world Script.interpreter)
      (Graph.compiled_of_mem_rounds hg) rfl
  rw [hvisits, List.map_append, List.map_map] at hnodes
  rw [hrelations] at hasked hcount
  exact ⟨g, w', as, hg, hcourse, hnodes, hasked.symm, hcount⟩

end Engine

end RuleFlow
