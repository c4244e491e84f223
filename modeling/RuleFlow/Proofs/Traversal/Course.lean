import RuleFlow.Proofs.Traversal.Entrance
import RuleFlow.Proofs.Traversal.Log

/-!
# What several traversals do to the surroundings

Messages enter graphs one after the other, and each run goes on in the surroundings that the one before has
left (`Traversal.Course`). All nodes that are executed in such a course, in whatever graph, are listed as
`Act`s in the order in which they were started (`Engine.exists_course`).

Suppose that every plan brings a part of the surroundings to a new state before it tells anything, and leaves
that part alone from then on (`Plan.Edits`). Then the acts of a course hand this part from one to the next
(`HandsOn`, `Traversal.Course.handsOn`), however deep they are nested: what an act meets is what the acts before
it have made of it. What an act forwards is received right after it (`Act.Forwards`).
-/

namespace RuleFlow

variable {ω η σ : Type}

/-- Met in some surroundings, a plan brings a part of them to a state before it tells anything or ends, and
leaves that part alone from then on. -/
def Plan.Edits (part : ω → σ) : Plan ω → σ → ω → Prop
  | finish _, a, w => part w = a
  | tell _ _ next, a, w => part w = a ∧ ∀ r w', (next r).Edits part (part w') w'
  | reveal _ next, a, w => next.Edits part a w
  | look next, a, w => (next w).Edits part a w
  | change w' next, a, _ => next.Edits part a w'

namespace Plan

variable {part : ω → σ}

theorem edits_forward (label : String) (m : Message) (w : ω) :
    (forward label m).Edits part (part w) w := ⟨rfl, fun _ _ => rfl⟩

/-- Handing a message on under several labels edits nothing. -/
theorem edits_forwardAll (m : Message) (labels : List String) (w : ω) :
    (forwardAll m labels).Edits part (part w) w := by
  induction labels generalizing w with
  | nil => rfl
  | cons label labels ih =>
    refine ⟨rfl, fun r w' => ?_⟩
    cases r with
    | ok => exact ih w'
    | error e => rfl

/-- What is left of a plan when it first tells something or ends, and the surroundings then. -/
def onset : Plan ω → ω → Plan ω × ω
  | finish o, w => (finish o, w)
  | tell label m next, w => (tell label m next, w)
  | reveal _ next, w => next.onset w
  | look next, w => (next w).onset w
  | change w' next, _ => next.onset w'

end Plan

namespace Query

variable {α β : Type} {part : ω → σ} {q : Query ω α} {m : Message} {next : α → Plan ω}

/-- What a call answers in some surroundings, and what it makes of them. -/
def run : Query ω α → ω → Result α × ω
  | answer r, w => (r, w)
  | look q, w => (q w).run w
  | change w q, _ => q.run w

/-- What a query and the plan after it edit together. -/
theorem edits_plan {next : Result α → Plan ω} {a : σ} {w : ω}
    (h : (next (q.run w).1).Edits part a (q.run w).2) : (q.plan next).Edits part a w := by
  induction q generalizing w with
  | answer r => exact h
  | look q ih => exact ih w h
  | change w' q ih => exact ih h

theorem onset_plan {next : Result α → Plan ω} {w : ω} :
    (q.plan next).onset w = (next (q.run w).1).onset (q.run w).2 := by
  induction q generalizing w with
  | answer r => rfl
  | look q ih => exact ih w
  | change w' q ih => exact ih

/-- A call that leaves a part of the surroundings alone, whatever it is answered. -/
def Leaves (part : ω → σ) (q : Query ω α) : Prop := ∀ w, part (q.run w).2 = part w

/-- A call that is answered by a function of a part of the surroundings, which says also what becomes of the
part. -/
def Does (part : ω → σ) (f : σ → α × σ) (q : Query ω α) : Prop :=
  ∀ w, ∃ w', q.run w = (.ok (f (part w)).1, w') ∧ part w' = (f (part w)).2

/-- Queries that leave a part alone do so one after the other. -/
theorem Leaves.bind {next : α → Query ω β} (h : q.Leaves part) (hnext : ∀ a, (next a).Leaves part) :
    (q.bind next).Leaves part := by
  intro w
  rw [← h w]
  clear h
  induction q generalizing w with
  | answer r =>
    cases r with
    | ok a => exact hnext a w
    | error e => rfl
  | look q ih => exact ih w w
  | change w' q ih => exact ih w'

/-- A node that makes such a call leaves the part alone if it does so with every answer. -/
theorem Leaves.edits_orDivert (h : q.Leaves part) (hnext : ∀ a w, (next a).Edits part (part w) w) (w : ω) :
    (q.orDivert m next).Edits part (part w) w := by
  refine edits_plan ?_
  rw [← h w]
  cases (q.run w).1 with
  | ok a => exact hnext a _
  | error e => exact Plan.edits_forward ..

/-- What a node does that makes such a call is what it does with the answer, the part being what became of it. -/
theorem Does.exists_orDivert {f : σ → α × σ} (h : q.Does part f) (m : Message) (next : α → Plan ω) (w : ω) :
    ∃ w', part w' = (f (part w)).2 ∧ (q.orDivert m next).onset w = (next (f (part w)).1).onset w' ∧
      ∀ a, (next (f (part w)).1).Edits part a w' → (q.orDivert m next).Edits part a w := by
  obtain ⟨w', hrun, hpart⟩ := h w
  refine ⟨w', hpart, ?_, fun a ha => edits_plan ?_⟩
  · rw [orDivert, onset_plan, hrun]
  · rwa [hrun]

end Query

/-! ## Handing on -/

/-- Some items meet and change a state one after the other, from its first to its last form. -/
def HandsOn {α : Type} (met : α → σ) (change : α → σ → σ) : σ → List α → σ → Prop
  | a, [], b => a = b
  | a, x :: xs, b => met x = a ∧ HandsOn met change (change x a) xs b

namespace HandsOn

variable {α β : Type} {met : α → σ} {change : α → σ → σ} {a b c : σ} {xs ys : List α}

/-- What one part of a run hands on to the next is handed on by the whole. -/
theorem append (h : HandsOn met change a xs b) (h' : HandsOn met change b ys c) :
    HandsOn met change a (xs ++ ys) c := by
  induction xs generalizing a with
  | nil =>
    obtain rfl : a = b := h
    exact h'
  | cons x xs ih => exact ⟨h.1, ih h.2⟩

theorem map (g : β → α) {ys : List β} (h : HandsOn (met ∘ g) (fun y => change (g y)) a ys b) :
    HandsOn met change a (ys.map g) b := by
  induction ys generalizing a with
  | nil => exact h
  | cons y ys ih => exact ⟨h.1, ih h.2⟩

/-- At its end the state is what all items have made of it. -/
theorem eq_foldl (h : HandsOn met change a xs b) : b = xs.foldl (fun a x => change x a) a := by
  induction xs generalizing a with
  | nil => exact h.symm
  | cons x xs ih => exact ih h.2

/-- What an item meets is what those before it have made of the state. -/
theorem met_eq {before after : List α} {x : α} (h : HandsOn met change a (before ++ x :: after) b) :
    met x = before.foldl (fun a x => change x a) a := by
  induction before generalizing a with
  | nil => exact h.1
  | cons y before ih => exact ih h.2

end HandsOn

namespace Instance

variable {k : Catalogue ω η} {i : Instance η}

section HandsOn

variable {part : ω → σ} {change : Execution ω → σ → σ}

mutual

/-- In a run each execution meets what the one before it made of the part, whatever is told in between. -/
theorem Handles.handsOn
    (hi : ∀ (x : Execution ω) (node : Node η), i.graph.nodes.get? x.visit.node = some node →
      (k.handle node.handler (i.context x.visit.node node) x.visit.message).Edits part
        (change x (part x.world)) x.world)
    {within : List String} {id : String} {m : Message} {j j' : Journey ω} {xs : List (Execution ω)}
    {r : Result Unit} (h : Handles k i within id m j xs r j') :
    HandsOn (fun x => part x.world) change (part j.world) xs (part j'.world) :=
  match h with
  | .handle hnode hfollows => by
    rw [world_leave]
    refine ⟨rfl, hfollows.handsOn hi ?_⟩
    rw [world_enter]
    exact hi ⟨⟨within, id, m⟩, j.world⟩ _ hnode
termination_by structural h

/-- What is left of a plan and the runs inside it hand on what they make of the part. -/
theorem Follows.handsOn
    (hi : ∀ (x : Execution ω) (node : Node η), i.graph.nodes.get? x.visit.node = some node →
      (k.handle node.handler (i.context x.visit.node node) x.visit.message).Edits part
        (change x (part x.world)) x.world)
    {within : List String} {id : String} {plan : Plan ω} {j j' : Journey ω} {xs : List (Execution ω)}
    {o : Outcome} {a : σ} (h : Follows k i within id plan j xs o j') (hplan : plan.Edits part a j.world) :
    HandsOn (fun x => part x.world) change a xs (part j'.world) :=
  match h with
  | .finish _ _ => hplan.symm
  | .tell hpasses hfollows => hplan.1 ▸ (hpasses.handsOn hi).append (hfollows.handsOn hi (hplan.2 _ _))
  | .reveal hfollows => (hfollows.handsOn hi hplan :)
  | .look hfollows => hfollows.handsOn hi hplan
  | .change hfollows => (hfollows.handsOn hi hplan :)
termination_by structural h

/-- Deliveries one after the other hand on what they make of the part. -/
theorem Passes.handsOn
    (hi : ∀ (x : Execution ω) (node : Node η), i.graph.nodes.get? x.visit.node = some node →
      (k.handle node.handler (i.context x.visit.node node) x.visit.message).Edits part
        (change x (part x.world)) x.world)
    {within : List String} {id : String} {targets : List String} {m : Message} {j j' : Journey ω}
    {xs : List (Execution ω)} {r : Result Unit} (h : Passes k i within id targets m j xs r j') :
    HandsOn (fun x => part x.world) change (part j.world) xs (part j'.world) :=
  match h with
  | .done _ _ => rfl
  | .next hhandles hpasses => (hhandles.handsOn hi).append (hpasses.handsOn hi)
  | .fail hhandles => hhandles.handsOn hi
termination_by structural h

end

end HandsOn

/-! ## Runs inside a run -/

/-- Every execution of a log starts a run of its own, whose log follows right after it. -/
def Nests (k : Catalogue ω η) (i : Instance η) (xs : List (Execution ω)) : Prop :=
  ∀ before x after, xs = before ++ x :: after → ∃ inner rest j r j', after = inner ++ rest ∧
    j.world = x.world ∧
      Handles k i x.visit.within x.visit.node x.visit.message j (x :: inner) r j'

namespace Nests

variable {xs ys : List (Execution ω)}

theorem nil : Nests k i [] := by
  intro before x after h
  simp at h

theorem append (hxs : Nests k i xs) (hys : Nests k i ys) : Nests k i (xs ++ ys) := by
  intro before x after h
  rcases List.append_eq_append_iff.1 h with ⟨more, rfl, hmore⟩ | ⟨more, rfl, hmore⟩
  · exact hys more x after hmore
  · cases more with
    | nil => exact hys [] x after hmore.symm
    | cons y more =>
      obtain ⟨rfl, rfl⟩ := List.cons.inj hmore
      obtain ⟨inner, rest, j, r, j', rfl, hrun⟩ := hxs before x more rfl
      exact ⟨inner, rest ++ ys, j, r, j', by simp, hrun⟩

/-- A run has its own execution first and then the runs inside it. -/
theorem cons {x : Execution ω} {j j' : Journey ω} {r : Result Unit} (hworld : j.world = x.world)
    (h : Handles k i x.visit.within x.visit.node x.visit.message j (x :: xs) r j') (hxs : Nests k i xs) :
    Nests k i (x :: xs) := by
  intro before y after heq
  cases before with
  | nil =>
    obtain ⟨rfl, rfl⟩ := List.cons.inj heq
    exact ⟨xs, [], j, r, j', (List.append_nil _).symm, hworld, h⟩
  | cons z before => exact hxs before y after (List.cons.inj heq).2

end Nests

mutual

/-- The executions of a run are runs inside one another. -/
theorem Handles.nests {within : List String} {id : String} {m : Message} {j j' : Journey ω}
    {xs : List (Execution ω)} {r : Result Unit} (h : Handles k i within id m j xs r j') : Nests k i xs :=
  match h with
  | .handle hnode hfollows => .cons rfl (.handle hnode hfollows) hfollows.nests
termination_by structural h

/-- The executions of a plan are runs inside one another. -/
theorem Follows.nests {within : List String} {id : String} {plan : Plan ω} {j j' : Journey ω}
    {xs : List (Execution ω)} {o : Outcome} (h : Follows k i within id plan j xs o j') : Nests k i xs :=
  match h with
  | .finish _ _ => .nil
  | .tell hpasses hfollows => hpasses.nests.append hfollows.nests
  | .reveal hfollows => hfollows.nests
  | .look hfollows => hfollows.nests
  | .change hfollows => hfollows.nests
termination_by structural h

/-- The executions of deliveries are runs inside one another. -/
theorem Passes.nests {within : List String} {id : String} {targets : List String} {m : Message}
    {j j' : Journey ω} {xs : List (Execution ω)} {r : Result Unit}
    (h : Passes k i within id targets m j xs r j') : Nests k i xs :=
  match h with
  | .done _ _ => .nil
  | .next hhandles hpasses => hhandles.nests.append hpasses.nests
  | .fail hhandles => hhandles.nests
termination_by structural h

end

/-- What comes after the first execution is what the plan of its node brings about. -/
theorem Handles.exists_follows {within : List String} {id : String} {m : Message} {j j' : Journey ω}
    {x : Execution ω} {xs : List (Execution ω)} {r : Result Unit}
    (h : Handles k i within id m j (x :: xs) r j') :
    ∃ node o j₁, i.graph.nodes.get? id = some node ∧
      Follows k i within id (k.handle node.handler (i.context id node) m) (i.enter within id node m j)
        xs o j₁ := by
  cases h with
  | handle hnode hfollows => exact ⟨_, _, _, hnode, hfollows⟩

/-- Nothing is executed before a plan first tells something. -/
theorem Follows.onset {within : List String} {id : String} {plan : Plan ω} {j j' : Journey ω}
    {xs : List (Execution ω)} {o : Outcome} (h : Follows k i within id plan j xs o j') :
    ∃ j₁ : Journey ω, j₁.world = (plan.onset j.world).2 ∧
      Follows k i within id (plan.onset j.world).1 j₁ xs o j' := by
  induction plan generalizing j with
  | finish => exact ⟨j, rfl, h⟩
  | tell => exact ⟨j, rfl, h⟩
  | reveal e next ih =>
    cases h with
    | reveal hfollows => exact ih (j := j.reveal e) hfollows
  | look next ih =>
    cases h with
    | look hfollows => exact ih _ hfollows
  | change w next ih =>
    cases h with
    | change hfollows => exact ih (j := { j with world := w }) hfollows

/-- A plan that forwards a message does nothing else. -/
theorem Follows.of_forward {within : List String} {id label : String} {m : Message} {j j' : Journey ω}
    {xs : List (Execution ω)} {o : Outcome} (h : Follows k i within id (.forward label m) j xs o j') :
    ∃ r, Passes k i within id (i.graph.targets id label) m j xs r j' := by
  cases h with
  | tell hpasses hfollows =>
    cases hfollows with
    | finish => exact ⟨_, by rwa [List.append_nil]⟩

end Instance

/-! ## Several traversals -/

/-- A node that was executed in an instance. -/
structure Act (ω η : Type) extends Execution ω where
  place : Instance η

namespace Act

/-- What handled the message. -/
def handler? (a : Act ω η) : Option η := (a.place.graph.nodes.get? a.visit.node).map (·.handler)

/-- What the node is about to do with the message when it first tells something or ends, and the surroundings
then. -/
def onset? (k : Catalogue ω η) (a : Act ω η) : Option (Plan ω × ω) :=
  (a.place.graph.nodes.get? a.visit.node).map fun node =>
    (k.handle node.handler (a.place.context a.visit.node node) a.visit.message).onset a.world

/-- All that the node tells is a message under a label, in some surroundings, and what its successors do with it
comes right after it among the acts that follow. -/
def Forwards (k : Catalogue ω η) (a : Act ω η) (label : String) (m : Message) (w : ω)
    (following : List (Act ω η)) : Prop :=
  a.onset? k = some (.forward label m, w) ∧
    ∃ inner rest j r j', following = inner.map (Act.mk · a.place) ++ rest ∧ j.world = w ∧
      Instance.Passes k a.place a.visit.within a.visit.node (a.place.graph.targets a.visit.node label) m j
        inner r j'

end Act

/-- Traversals that run one after the other, with the acts of all of them. -/
inductive Traversal.Course (k : Catalogue ω η) :
    List (Traversal η) → Journey ω → List (Act ω η) → Journey ω → Prop
  | done (j : Journey ω) : Course k [] j [] j
  | next {t : Traversal η} {ts : List (Traversal η)} {j j₁ j' : Journey ω} {xs : List (Execution ω)}
      {as : List (Act ω η)} {r : Result Unit} :
    Instance.Handles k t.target [] t.target.graph.entry t.message j xs r j₁ → Course k ts j₁ as j' →
    Course k (t :: ts) j (xs.map (Act.mk · t.target) ++ as) j'

namespace Traversal.Course

variable {k : Catalogue ω η} {ts : List (Traversal η)} {j j' : Journey ω} {as : List (Act ω η)}

/-- The acts of a course are its visits. -/
theorem visits_eq (h : Course k ts j as j') : j'.visits = j.visits ++ as.map (·.visit) := by
  induction h with
  | done j => exact (List.append_nil _).symm
  | next hhandles _ ih =>
    rw [ih, hhandles.visits_eq, List.append_assoc, List.map_append, List.map_map]
    rfl

/-- What every plan edits is handed from act to act. -/
theorem handsOn {part : ω → σ} {change : Act ω η → σ → σ}
    (hk : ∀ (a : Act ω η) (node : Node η), a.place.graph.nodes.get? a.visit.node = some node →
      (k.handle node.handler (a.place.context a.visit.node node) a.visit.message).Edits part
        (change a (part a.world)) a.world)
    (h : Course k ts j as j') :
    HandsOn (fun a => part a.world) change (part j.world) as (part j'.world) := by
  induction h with
  | done j => rfl
  | @next t ts _ _ _ _ _ _ hhandles _ ih =>
    exact (HandsOn.map (Act.mk · t.target) (hhandles.handsOn fun x => hk ⟨x, t.target⟩)).append ih

/-- Every act starts a run, whose acts follow right after it. -/
theorem exists_handles (h : Course k ts j as j') {before after : List (Act ω η)} {a : Act ω η}
    (has : as = before ++ a :: after) :
    ∃ inner rest j r j', after = inner.map (Act.mk · a.place) ++ rest ∧ j.world = a.world ∧
      Instance.Handles k a.place a.visit.within a.visit.node a.visit.message j
        (a.toExecution :: inner) r j' := by
  induction h generalizing before with
  | done j => simp at has
  | @next t ts _ _ _ xs as r hhandles _ ih =>
    rcases List.append_eq_append_iff.1 has with ⟨more, rfl, hmore⟩ | ⟨more, hxs, hmore⟩
    · exact ih hmore
    · cases more with
      | nil =>
        have hafter : as = [] ++ a :: after := hmore.symm
        exact ih hafter
      | cons b more =>
        obtain ⟨rfl, rfl⟩ := List.cons.inj hmore
        obtain ⟨ys, zs, rfl, rfl, hzs⟩ := List.map_eq_append_iff.1 hxs
        obtain ⟨x, after, rfl, rfl, rfl⟩ := List.map_eq_cons_iff.1 hzs
        obtain ⟨inner, rest, j, r, j', rfl, hrun⟩ := hhandles.nests ys x after rfl
        exact ⟨inner, rest.map (Act.mk · t.target) ++ as, j, r, j', by simp, hrun⟩

/-- An act whose plan comes to forwarding a message forwards it. -/
theorem forwards (h : Course k ts j as j') {before after : List (Act ω η)} {a : Act ω η}
    (has : as = before ++ a :: after) {label : String} {m : Message} {w : ω}
    (honset : a.onset? k = some (.forward label m, w)) : a.Forwards k label m w after := by
  obtain ⟨inner, rest, j₁, r, j₂, hafter, hworld, hhandles⟩ := h.exists_handles has
  obtain ⟨node, o, j₂, hnode, hfollows⟩ := hhandles.exists_follows
  obtain ⟨j₃, hj₃, hfollows⟩ := hfollows.onset
  have hplan : (k.handle node.handler (a.place.context a.visit.node node) a.visit.message).onset
      a.world = (.forward label m, w) := by
    simpa [Act.onset?, hnode] using honset
  rw [Instance.world_enter, hworld, hplan] at hj₃ hfollows
  obtain ⟨r', hpasses⟩ := hfollows.of_forward
  exact ⟨honset, inner, rest, j₃, r', _, hafter, hj₃, hpasses⟩

end Traversal.Course

namespace Engine

variable {k : Catalogue ω η}

/-- The traversals of compiled graphs that an engine runs are a course. -/
theorem exists_course {ts : List (Traversal η)}
    (hts : ∀ t ∈ ts, ∃ payload w w', Graph.compile k payload w = (.ok t.target.graph, w'))
    (s : Engine ω η) : ∃ as, Traversal.Course k ts s.journey as (s.traverseAll k ts).journey := by
  induction ts generalizing s with
  | nil => exact ⟨[], .done _⟩
  | cons t ts ih =>
    obtain ⟨⟨_, _, _, ht⟩, hts⟩ := List.forall_mem_cons.1 hts
    obtain ⟨xs, hhandles⟩ :=
      (Instance.receives_receive (k := k) (Graph.sound_of_compile ht) t.message s.journey).exists_log
    obtain ⟨as, hcourse⟩ := ih hts (s.traverse k t)
    rw [← journey_traverse] at hhandles
    exact ⟨_, .next hhandles hcourse⟩

end Engine

end RuleFlow
