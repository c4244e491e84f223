import RuleFlow.Proofs.Traversal.Debug
import RuleFlow.Proofs.Traversal.Ways

/-!
# A node that fails cuts a run short

Two instances of a graph differ in one node (`Instance.DiffersOnlyAt`), which in the second of them fails as
soon as it is called (`Instance.FailsAt`). From the same surroundings the second run does what the first one does,
up to the first execution of this node, and then nothing more: no further successor, no further label, and nothing
of the nodes around it (`Instance.cutShort_of_compile`).

The induction is on the first run. Beside each part of it there is a part of the second run, which is the same
as long as the node has not been executed, and else ends with an error (`Instance.Shortens`). An error is passed
on by everything around it because plans yield.
-/

namespace RuleFlow

variable {ω η : Type}

namespace Plan

/-- A plan that tells nothing and ends with an error or by a panic. -/
def Fails : Plan ω → Prop
  | finish o => o.result ≠ .ok ()
  | tell .. => False
  | reveal _ next => next.Fails
  | look next => ∀ w, (next w).Fails
  | change _ next => next.Fails

/-- What tells nothing yields. -/
theorem Surrenders.yields {e : RuleError} {p : Plan ω} (h : p.Surrenders e) : p.Yields := by
  induction p with
  | finish o => trivial
  | tell label m next => exact h.elim
  | reveal e' next ih => exact ih h
  | look next ih => exact fun w => ih w (h w)
  | change w next ih => exact ih h

theorem Surrenders.fails {e : RuleError} {p : Plan ω} (h : p.Surrenders e) : p.Fails := by
  induction p with
  | finish o =>
    obtain rfl : o = .failed e := h
    exact nofun
  | tell label m next => exact h.elim
  | reveal e' next ih => exact ih h
  | look next ih => exact fun w => ih w (h w)
  | change w next ih => exact ih h

/-- A plan that yields goes on so, whatever it is answered. -/
theorem yields_next {label : String} {m : Message} {next : Result Unit → Plan ω}
    (h : (tell label m next).Yields) (r : Result Unit) : (next r).Yields := by
  cases r with
  | ok => exact h.1
  | error e => exact (h.2 e).yields

end Plan

namespace Instance

/-- Two instances with the same nodes and the same routes, except that one node may do something else. -/
structure DiffersOnlyAt (n : String) (i i' : Instance η) : Prop where
  id : i'.id = i.id
  entry : i'.graph.entry = i.graph.entry
  nodes : ∀ id, id ≠ n → i'.graph.nodes.get? id = i.graph.nodes.get? id
  routes : (i'.graph.nodes.get? n).map (·.routes) = (i.graph.nodes.get? n).map (·.routes)

/-- An instance with a node that fails by itself whenever it is called. -/
def FailsAt (k : Catalogue ω η) (i : Instance η) (n : String) : Prop :=
  ∀ node, i.graph.nodes.get? n = some node → ∀ m, (k.handle node.handler (i.context n node) m).Fails

namespace DiffersOnlyAt

variable {n : String} {i i' : Instance η}

theorem routes_eq (h : DiffersOnlyAt n i i') (id : String) :
    (i'.graph.nodes.get? id).map (·.routes) = (i.graph.nodes.get? id).map (·.routes) := by
  by_cases hid : id = n
  · rw [hid, h.routes]
  · rw [h.nodes id hid]

theorem targets_eq (h : DiffersOnlyAt n i i') (id label : String) :
    i'.graph.targets id label = i.graph.targets id label := by
  have hbind : ∀ x : Option (Node η),
      (x.bind fun node => node.routes.get? label) = (x.map (·.routes)).bind (·.get? label) := by
    intro x
    cases x <;> rfl
  rw [Graph.targets, Graph.targets, hbind, hbind, h.routes_eq]

theorem exists_node (h : DiffersOnlyAt n i i') {id : String} {node : Node η}
    (hnode : i.graph.nodes.get? id = some node) : ∃ node', i'.graph.nodes.get? id = some node' := by
  have hroutes := h.routes_eq id
  rw [hnode, Option.map_some] at hroutes
  obtain ⟨node', hnode', -⟩ := Option.map_eq_some_iff.1 hroutes
  exact ⟨node', hnode'⟩

theorem sound (h : DiffersOnlyAt n i i') (hg : i.graph.Sound) : i'.graph.Sound := by
  have hkeys : ∀ id, id ∈ i.graph.nodes.keys → id ∈ i'.graph.nodes.keys := fun id hid =>
    Table.mem_keys.2 ((Table.mem_keys.1 hid).elim fun _ hnode => h.exists_node hnode)
  have hleads : i'.graph.Leads = i.graph.Leads := by
    funext a b
    simp only [Graph.Leads, h.targets_eq]
  exact {
    entry := by
      rw [h.entry]
      exact hkeys _ hg.entry
    leads := fun a b hab => hkeys b (hg.leads a b (hleads ▸ hab))
    acyclic := by
      rw [hleads]
      exact hg.acyclic }

end DiffersOnlyAt

/-- The instance with another node in the place of one. -/
def refit (i : Instance η) (n : String) (node : Node η) : Instance η :=
  { i with graph := { i.graph with nodes := i.graph.nodes.insert n node } }

/-- A node with another handler is the only difference. -/
theorem differsOnlyAt_refit {n : String} {i : Instance η} {node : Node η} (h : i.graph.nodes.get? n = some node)
    (handler : η) : DiffersOnlyAt n i (i.refit n { node with handler }) where
  id := rfl
  entry := rfl
  nodes id hid := by rw [refit, Table.get?_insert, if_neg hid]
  routes := by rw [refit, Table.get?_insert_self, h, Option.map_some, Option.map_some]

/-- The visits up to the first one of a node, or all of them if there is none. -/
def upTo (n : String) : List Visit → List Visit
  | [] => []
  | v :: vs => if v.node = n then [v] else v :: upTo n vs

theorem upTo_append_of_forall {n : String} {vs : List Visit} (h : ∀ v ∈ vs, v.node ≠ n) (ws : List Visit) :
    upTo n (vs ++ ws) = vs ++ upTo n ws := by
  induction vs with
  | nil => rfl
  | cons v vs ih =>
    obtain ⟨hv, hvs⟩ := List.forall_mem_cons.1 h
    rw [List.cons_append, upTo, if_neg hv, ih hvs, List.cons_append]

/-- What comes after the first visit of a node is cut off. -/
theorem upTo_append_of_exists {n : String} {vs : List Visit} (h : ∃ v ∈ vs, v.node = n) (ws : List Visit) :
    upTo n (vs ++ ws) = upTo n vs := by
  induction vs with
  | nil => simp at h
  | cons v vs ih =>
    obtain ⟨u, hu, hn⟩ := h
    rw [List.cons_append, upTo, upTo]
    split
    case isTrue => rfl
    case isFalse hv =>
      have hmem : u ∈ vs := (List.mem_cons.1 hu).resolve_left fun he => hv (he ▸ hn)
      rw [ih ⟨u, hmem, hn⟩]

theorem upTo_eq_self {n : String} {vs : List Visit} (h : ∀ v ∈ vs, v.node ≠ n) : upTo n vs = vs := by
  simpa [upTo] using upTo_append_of_forall h []

/-- What a second run may come to beside a part of a first one, which added visits and ended: it adds those up to
the first one of the node. If there is none then it ends alike, and else with an error. `ends` says how the second
run can end, and `bad` what an error is. -/
def Shortens {α : Type} (n : String) (bad : α → Prop) (ends : α → Journey ω → Prop) (j j' : Journey ω) (a : α)
    (j₁ : Journey ω) : Prop :=
  ∃ a' j₁' vs, ends a' j₁' ∧ j₁.visits = j.visits ++ vs ∧ j₁'.visits = j'.visits ++ upTo n vs ∧
    ((∀ v ∈ vs, v.node ≠ n) ∧ a' = a ∧ j₁'.world = j₁.world ∨ (∃ v ∈ vs, v.node = n) ∧ bad a')

namespace Shortens

variable {α β : Type} {n : String} {bad : α → Prop} {bad' : β → Prop} {ends : α → Journey ω → Prop}
  {ends' : β → Journey ω → Prop} {j j' j₁ j₁' j₂ : Journey ω} {a a' : α} {b : β}

theorem same {vs : List Visit} (hends : ends a j₁') (hworld : j₁'.world = j₁.world)
    (hvs : j₁.visits = j.visits ++ vs) (hvs' : j₁'.visits = j'.visits ++ vs) (hnot : ∀ v ∈ vs, v.node ≠ n) :
    Shortens n bad ends j j' a j₁ :=
  ⟨a, j₁', vs, hends, hvs, by rw [hvs', upTo_eq_self hnot], .inl ⟨hnot, rfl, hworld⟩⟩

theorem refl (hends : ends a j') (hworld : j'.world = j.world) : Shortens n bad ends j j' a j :=
  same hends hworld (List.append_nil _).symm (List.append_nil _).symm fun _ hv => absurd hv List.not_mem_nil

/-- At the node the second run stops and the first may go on. -/
theorem cut {v : Visit} {after : List Visit} (hends : ends a' j₁') (hbad : bad a') (hv : v.node = n)
    (hvs : j₁.visits = j.visits ++ v :: after) (hvs' : j₁'.visits = j'.visits ++ [v]) :
    Shortens n bad ends j j' a j₁ :=
  ⟨a', j₁', v :: after, hends, hvs, by rw [hvs', upTo, if_pos hv], .inr ⟨⟨v, List.mem_cons_self, hv⟩, hbad⟩⟩

/-- What follows a part of the two runs. If the second run was cut short, it has to pass on the error. -/
theorem seq (h : Shortens n bad ends j j' a j₁)
    (hsame : ∀ j₁', ends a j₁' → j₁'.world = j₁.world → Shortens n bad' ends' j₁ j₁' b j₂)
    (hcut : ∀ a' j₁', ends a' j₁' → bad a' → ∃ b' j₂', ends' b' j₂' ∧ bad' b' ∧ j₂'.visits = j₁'.visits)
    (hmore : ∃ more, j₂.visits = j₁.visits ++ more) : Shortens n bad' ends' j j' b j₂ := by
  obtain ⟨a', j₁', vs, hends, hvs, hvs', ⟨hnot, rfl, hworld⟩ | ⟨hvisited, hbad⟩⟩ := h
  · obtain ⟨b', j₂', ws, hends', hws, hws', hboth⟩ := hsame j₁' hends hworld
    refine ⟨b', j₂', vs ++ ws, hends', by rw [hws, hvs, List.append_assoc], ?_, ?_⟩
    · rw [hws', hvs', upTo_eq_self hnot, upTo_append_of_forall hnot, List.append_assoc]
    · refine hboth.imp (And.imp_left fun hnot' v hv => ?_) (And.imp_left ?_)
      · exact (List.mem_append.1 hv).elim (hnot v) (hnot' v)
      · exact fun ⟨v, hv, hn⟩ => ⟨v, List.mem_append_right _ hv, hn⟩
  · obtain ⟨b', j₂', hends', hbad', hvisits⟩ := hcut a' j₁' hends hbad
    obtain ⟨more, hmore⟩ := hmore
    refine ⟨b', j₂', vs ++ more, hends', by rw [hmore, hvs, List.append_assoc], ?_, .inr ⟨?_, hbad'⟩⟩
    · rw [hvisits, hvs', upTo_append_of_exists hvisited]
    · exact hvisited.imp fun v => And.imp_left (List.mem_append_left _)

/-- A visit that both runs made before. -/
theorem after {q q' : Journey ω} {v : Visit} (h : Shortens n bad ends q q' a j₁) (hworld : q'.world = q.world)
    (hvs : q.visits = j.visits ++ [v]) (hvs' : q'.visits = j'.visits ++ [v]) (hv : v.node ≠ n) :
    Shortens n bad ends j j' a j₁ := by
  have hfirst : Shortens n (fun _ => False) (fun _ x => x = q') j j' () q :=
    .same rfl hworld hvs hvs' (by simpa using hv)
  refine hfirst.seq (fun x hx _ => hx ▸ h) (fun _ _ _ => False.elim) ?_
  obtain ⟨-, -, vs, -, hvs, -⟩ := h
  exact ⟨vs, hvs⟩

/-- The ends of a part of the second run are ends of more of it. -/
theorem imp {ends' : α → Journey ω → Prop} (h : Shortens n bad ends j j' a j₁)
    (hends : ∀ a j, ends a j → ends' a j) : Shortens n bad ends' j j' a j₁ := by
  obtain ⟨a', j₁', vs, hend, hboth⟩ := h
  exact ⟨a', j₁', vs, hends _ _ hend, hboth⟩

end Shortens

/-! ## The second run beside the first -/

variable {k : Catalogue ω η} {i i' : Instance η} {n : String}

theorem fst_leave (i : Instance η) (id : String) (node : Node η) (o : Outcome) (j : Journey ω) :
    (i.leave id node o j).1 = answer id node o := by
  simp only [leave, answer]
  cases o.result <;> rfl

/-- A node that does not succeed does not answer that it did. -/
theorem answer_ne_ok {id : String} {node : Node η} {o : Outcome} (h : o.result ≠ .ok ()) :
    answer id node o ≠ .ok () := by
  unfold answer
  cases hresult : o.result with
  | ok => exact absurd hresult h
  | error e => exact nofun

/-- A plan that fails visits nothing. -/
theorem exists_carries_of_fails (k : Catalogue ω η) (i : Instance η) (within : List String) (id : String)
    {plan : Plan ω} (h : plan.Fails) (j : Journey ω) :
    ∃ o j₁, Carries k i within id plan j o j₁ ∧ o.result ≠ .ok () ∧ j₁.visits = j.visits := by
  induction plan generalizing j with
  | finish o => exact ⟨o, j, .finish o j, h, rfl⟩
  | tell label m next => exact h.elim
  | reveal e next ih =>
    obtain ⟨o, j₁, hcarries, hfails, hvisits⟩ := ih h (j.reveal e)
    exact ⟨o, j₁, .reveal hcarries, hfails, hvisits⟩
  | look next ih =>
    obtain ⟨o, j₁, hcarries, hfails, hvisits⟩ := ih j.world (h j.world) j
    exact ⟨o, j₁, .look hcarries, hfails, hvisits⟩
  | change w next ih =>
    obtain ⟨o, j₁, hcarries, hfails, hvisits⟩ := ih h { j with world := w }
    exact ⟨o, j₁, .change hcarries, hfails, hvisits⟩

section

variable {within : List String} {id : String} {j j₁ : Journey ω}

/-- A run of a node is its plan between entering and leaving. -/
theorem Carries.receives {m : Message} {node : Node η} {o : Outcome}
    (hnode : i.graph.nodes.get? id = some node)
    (h : Carries k i within id (k.handle node.handler (i.context id node) m) (i.enter within id node m j) o j₁) :
    Receives k i within id m j (answer id node o) (i.leave id node o j₁).2 := by
  rw [← fst_leave i id node o j₁]
  exact .handle hnode h

theorem Carries.exists_visits {plan : Plan ω} {o : Outcome} (h : Carries k i within id plan j o j₁) :
    ∃ more, j₁.visits = j.visits ++ more :=
  h.exists_log.elim fun _ hfollows => ⟨_, hfollows.visits_eq⟩

theorem Delivers.exists_visits {targets : List String} {m : Message} {r : Result Unit}
    (h : Delivers k i within id targets m j r j₁) : ∃ more, j₁.visits = j.visits ++ more :=
  h.exists_log.elim fun _ hpasses => ⟨_, hpasses.visits_eq⟩

end

mutual

/-- The second run of a message is the first up to the node. -/
theorem Receives.shortens (hd : DiffersOnlyAt n i i') (hi : i.Yields k) (hf : i'.FailsAt k n)
    {within : List String} {id : String} {m : Message} {j j₁ : Journey ω} {r : Result Unit}
    (h : Receives k i within id m j r j₁) {j' : Journey ω} (hworld : j'.world = j.world) :
    Shortens n (· ≠ .ok ()) (Receives k i' within id m j') j j' r j₁ :=
  match h with
  | @Receives.handle _ _ _ _ _ _ _ _ _ _ node hnode hcarries => by
    rw [fst_leave]
    by_cases hid : id = n
    · subst hid
      obtain ⟨node', hnode'⟩ := hd.exists_node hnode
      obtain ⟨o', j₁', hcarries', hfails, hvisits'⟩ :=
        exists_carries_of_fails k i' within id (hf node' hnode' m) (i'.enter within id node' m j')
      obtain ⟨more, hmore⟩ := hcarries.exists_visits
      rw [visits_enter, List.append_assoc, List.singleton_append] at hmore
      rw [visits_enter] at hvisits'
      exact .cut (hcarries'.receives hnode') (answer_ne_ok hfails) rfl ((visits_leave ..).trans hmore)
        ((visits_leave ..).trans hvisits')
    · have hnode' : i'.graph.nodes.get? id = some node := by rw [hd.nodes id hid, hnode]
      have hcontext : i'.context id node = i.context id node := by rw [context, context, hd.id]
      have hentered : (i'.enter within id node m j').world = (i.enter within id node m j).world := by
        rw [world_enter, world_enter, hworld]
      have hplan := hcarries.shortens hd hi hf (hi id node hnode m) hentered
      rw [← hcontext] at hplan
      refine .after (hplan.seq (fun j₁' hcarries' hworld' => ?_) (fun o' j₁' hcarries' ho' => ?_)
        ⟨[], by simp⟩) hentered (visits_enter ..) (visits_enter ..) hid
      · refine .same (hcarries'.receives hnode') ?_ ((visits_leave ..).trans (List.append_nil _).symm)
          ((visits_leave ..).trans (List.append_nil _).symm) fun _ hv => absurd hv List.not_mem_nil
        rw [world_leave, world_leave, hworld']
      · exact ⟨_, _, hcarries'.receives hnode', answer_ne_ok ho', visits_leave ..⟩
termination_by structural h

/-- The second run of a plan is the first up to the node. -/
theorem Carries.shortens (hd : DiffersOnlyAt n i i') (hi : i.Yields k) (hf : i'.FailsAt k n)
    {within : List String} {id : String} {plan : Plan ω} {j j₁ : Journey ω} {o : Outcome}
    (h : Carries k i within id plan j o j₁) (hplan : plan.Yields) {j' : Journey ω}
    (hworld : j'.world = j.world) :
    Shortens n (·.result ≠ .ok ()) (Carries k i' within id plan j') j j' o j₁ :=
  match h with
  | .finish o j => .refl (.finish o j') hworld
  | .tell hdelivers hcarries => by
    have htold := hdelivers.shortens hd hi hf hworld
    rw [← hd.targets_eq] at htold
    refine htold.seq (fun j₁' hdelivers' hworld' => ?_) (fun r' j₁' hdelivers' hr' => ?_)
      hcarries.exists_visits
    · exact (hcarries.shortens hd hi hf (Plan.yields_next hplan _) hworld').imp
        fun o' j₂' hcarries' => .tell hdelivers' hcarries'
    · cases r' with
      | ok => exact absurd rfl hr'
      | error e =>
        obtain ⟨o', j₂', hcarries', hfails, hvisits⟩ :=
          exists_carries_of_fails k i' within id (hplan.2 e).fails j₁'
        exact ⟨o', j₂', .tell hdelivers' hcarries', hfails, hvisits⟩
  | @Carries.reveal _ _ _ _ _ _ e _ j _ _ hcarries => by
    have hrevealed : (j'.reveal e).world = (j.reveal e).world := hworld
    exact (hcarries.shortens hd hi hf hplan hrevealed).imp fun o' j₁' => .reveal
  | .look hcarries => by
    have hnext := hcarries.shortens hd hi hf (hplan _) hworld
    rw [← hworld] at hnext
    exact hnext.imp fun o' j₁' => .look
  | @Carries.change _ _ _ _ _ _ w _ j _ _ hcarries => by
    have hchanged : { j' with world := w }.world = { j with world := w }.world := rfl
    exact (hcarries.shortens hd hi hf hplan hchanged).imp fun o' j₁' => .change
termination_by structural h

/-- The second run of deliveries is the first up to the node. -/
theorem Delivers.shortens (hd : DiffersOnlyAt n i i') (hi : i.Yields k) (hf : i'.FailsAt k n)
    {within : List String} {id : String} {targets : List String} {m : Message} {j j₁ : Journey ω}
    {r : Result Unit} (h : Delivers k i within id targets m j r j₁) {j' : Journey ω}
    (hworld : j'.world = j.world) :
    Shortens n (· ≠ .ok ()) (Delivers k i' within id targets m j') j j' r j₁ :=
  match h with
  | .done m j => .refl (.done m j') hworld
  | .next hreceives hdelivers => by
    refine (hreceives.shortens hd hi hf hworld).seq (fun j₁' hreceives' hworld' => ?_)
      (fun r' j₁' hreceives' hr' => ?_) hdelivers.exists_visits
    · exact (hdelivers.shortens hd hi hf hworld').imp fun r' j₂' => .next hreceives'
    · cases r' with
      | ok => exact absurd rfl hr'
      | error e => exact ⟨.error e, j₁', .fail hreceives', nofun, rfl⟩
  | .fail (e := e) hreceives => by
    refine (hreceives.shortens hd hi hf hworld).seq (fun j₁' hreceives' hworld' => ?_)
      (fun r' j₁' hreceives' hr' => ?_) ⟨[], by simp⟩
    · exact .refl (.fail hreceives') hworld'
    · cases r' with
      | ok => exact absurd rfl hr'
      | error e => exact ⟨.error e, j₁', .fail hreceives', nofun, rfl⟩
termination_by structural h

end

/-! ## Compiled graphs -/

/-- A message enters two instances of a compiled graph from the same surroundings. Their nodes end with the first
error that they are answered, and one node fails by itself in the second instance as soon as it is called. The
second run makes the visits of the first one up to the first visit of this node, all of them if there is none, in
which case it also ends alike and leaves the same surroundings. Else it ends with an error. -/
theorem cutShort_of_compile {payload : List UInt8} {w w' : ω}
    (h : Graph.compile k payload w = (.ok i.graph, w')) (hd : DiffersOnlyAt n i i') (hi : i.Yields k)
    (hf : i'.FailsAt k n) (m : Message) {j j' : Journey ω} (hworld : j'.world = j.world) :
    ∃ vs r j₁ r' j₁', i.receive k m j = (r, j₁) ∧ i'.receive k m j' = (r', j₁') ∧
      j₁.visits = j.visits ++ vs ∧ j₁'.visits = j'.visits ++ upTo n vs ∧
      ((∀ v ∈ vs, v.node ≠ n) → r' = r ∧ j₁'.world = j₁.world) ∧
      ((∃ v ∈ vs, v.node = n) → r' ≠ .ok ()) := by
  have hg : i.graph.Sound := Graph.sound_of_compile h
  obtain ⟨r', j₁', vs, hreceives, hvs, hvs', hboth⟩ := (receives_receive hg m j).shortens hd hi hf hworld
  rw [← hd.entry] at hreceives
  refine ⟨vs, _, _, r', j₁', rfl, hreceives.receive_eq (hd.sound hg), hvs, hvs', fun hnot => ?_,
    fun hvisited => ?_⟩
  · obtain ⟨-, hsame⟩ | ⟨⟨v, hv, hn⟩, -⟩ := hboth
    · exact hsame
    · exact absurd hn (hnot v hv)
  · obtain ⟨hnot, -⟩ | ⟨-, hfails⟩ := hboth
    · obtain ⟨v, hv, hn⟩ := hvisited
      exact absurd hn (hnot v hv)
    · exact hfails

end Instance

/-- A probe that panics. -/
def Component.exploding : Component := .probe "join" { panic := some (some "node exploded") }

/-- A join that is reached three times, and what is left if it fails. -/
theorem Graph.exists_compile_join : ∃ g w',
    compile Registry.withProbes.catalogue GraphPayload.forked.text {} = (.ok g, w') ∧
      ∃ node ∈ g.nodes.get? "join",
        ((Instance.ofChain default g).receive Registry.withProbes.catalogue default
          ⟨{}, [], []⟩).2.visits.map (·.node) = ["fork", "left", "join", "right", "join", "join"] ∧
        (((Instance.ofChain default g).refit "join" { node with handler := .exploding }).receive
          Registry.withProbes.catalogue default ⟨{}, [], []⟩).2.visits.map (·.node) =
            ["fork", "left", "join"] :=
  exists_compile (by decide +kernel)

namespace Instance

theorem cutShort_join : ∃ (g : Graph Component) (w' : World) (node : Node Component) (vs : List Visit)
    (r' : Result Unit) (j₁' : Journey World),
    Graph.compile Registry.withProbes.catalogue GraphPayload.forked.text {} = (.ok g, w') ∧
      ((ofChain default g).refit "join" { node with handler := .exploding }).FailsAt
        Registry.withProbes.catalogue "join" ∧
      ((ofChain default g).refit "join" { node with handler := .exploding }).receive
        Registry.withProbes.catalogue default ⟨{}, [], []⟩ = (r', j₁') ∧
      vs.map (·.node) = ["fork", "left", "join", "right", "join", "join"] ∧
      j₁'.visits = upTo "join" vs ∧ j₁'.visits.map (·.node) = ["fork", "left", "join"] ∧ r' ≠ .ok () := by
  obtain ⟨g, w', hg, node, hnode, hrun, hrun'⟩ := Graph.exists_compile_join
  have hd := differsOnlyAt_refit (i := ofChain default g) hnode Component.exploding
  have hf : ((ofChain default g).refit "join" { node with handler := .exploding }).FailsAt
      Registry.withProbes.catalogue "join" := by
    intro node' hnode' m
    rw [refit, Table.get?_insert_self, Option.some.injEq] at hnode'
    subst hnode'
    exact nofun
  have hyields := yields_of_components Registry.withProbes (ofChain default g)
  have hworld : (⟨{}, [], []⟩ : Journey World).world = (⟨{}, [], []⟩ : Journey World).world := rfl
  obtain ⟨vs, r, j₁, r', j₁', hreceive, hreceive', hvs, hvs', -, hfails⟩ :=
    cutShort_of_compile hg hd hyields hf default hworld
  rw [hreceive, hvs, List.nil_append] at hrun
  rw [hreceive'] at hrun'
  refine ⟨g, w', node, vs, r', j₁', hg, hf, hreceive', hrun, hvs', hrun', hfails ?_⟩
  have hmem : "join" ∈ vs.map (·.node) := by simp [hrun]
  exact List.mem_map.1 hmem

end Instance

end RuleFlow
