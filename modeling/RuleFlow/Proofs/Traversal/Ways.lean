import Mathlib.Data.Set.Card
import RuleFlow.Node.Registry
import RuleFlow.Proofs.Outcome
import RuleFlow.Proofs.Traversal.Run

/-!
# Executions along ways

Where every node forwards its messages under fixed labels (`Plan.Forwards`), what a run does can be said of
the graph alone. A `Graph.Way` takes at each node one label of the node's list and one of its successors under
this label, both by their positions, and `Graph.descend` follows it. A run executes each node once for every
way that leads there, and in the lexicographic order of the ways: what lies below one successor comes before
the next successor, and that before the next label (`Instance.depthFirst_of_compile`).

The induction is on the run. What is added while a plan is carried out, or while a message is told to some
targets, are the executions along the ways that begin there (`Graph.Tour`), and tours that follow one another
in the order of ways are put together by `Graph.Tour.append`.
-/

namespace RuleFlow

variable {ω η : Type}

namespace Plan

/-- A plan that tells messages under some labels, one after the other, and ends well if all of it goes
well. -/
def Forwards : Plan ω → List String → Prop
  | finish o, labels => o = .done ∧ labels = []
  | tell label _ next, labels => ∃ rest, labels = label :: rest ∧ (next (.ok ())).Forwards rest
  | reveal _ next, labels => next.Forwards labels
  | look next, labels => ∀ w, (next w).Forwards labels
  | change _ next, labels => next.Forwards labels

/-- A node that hands the message on forwards it once. -/
theorem forwards_succeed (m : Message) : (succeed m : Plan ω).Forwards [successLabel] :=
  ⟨[], rfl, rfl, rfl⟩

/-- A node that hands the message on under several labels forwards it once for each. -/
theorem forwards_forwardAll (m : Message) (labels : List String) :
    (forwardAll m labels : Plan ω).Forwards labels := by
  induction labels with
  | nil => exact ⟨rfl, rfl⟩
  | cons label labels ih => exact ⟨labels, rfl, ih⟩

end Plan

/-- A log node forwards every message once. -/
theorem LogNode.forwards_handle (n : LogNode) (ctx : Context) (m : Message) :
    (n.handle ctx m : Plan ω).Forwards [successLabel] :=
  Plan.forwards_succeed m

/-- A probe that is told neither to panic nor to fail forwards under the labels that it is given. -/
theorem Probe.forwards_handle {p : Probe} (hpanic : p.panic = none) (hfailure : p.failure = none)
    (htell : p.tellFailure = none) (ctx : Context) (m : Message) :
    (p.handle ctx m : Plan ω).Forwards (p.emit.getD [successLabel]) := by
  simp only [handle, pass, hpanic, hfailure, htell, Plan.Forwards]
  cases p.emit with
  | none => exact Plan.forwards_succeed _
  | some labels => exact Plan.forwards_forwardAll _ labels

/-- An instance whose nodes answer every message with a plan that forwards it under the labels of the node. -/
def Instance.Forwards (k : Catalogue ω η) (labels : String → List String) (i : Instance η) : Prop :=
  ∀ id node, i.graph.nodes.get? id = some node → ∀ m,
    (k.handle node.handler (i.context id node) m).Forwards (labels id)

/-! ## Ways -/

namespace Graph

/-- Steps from node to node: each takes a label at a position of the node's list, and a successor at a
position of those under this label. -/
abbrev Way := List (ℕ × ℕ)

namespace Way

/-- The order of a depth-first walk: a way comes before those that go on from it, and where two ways part, the
earlier label and then the earlier successor comes first. -/
def Before : Way → Way → Prop := List.Lex (Prod.Lex (· < ·) (· < ·))

/-- A way whose first step takes a label at a position or later. -/
def From (n : ℕ) : Way → Prop
  | [] => False
  | step :: _ => n ≤ step.1

/-- A way whose first step takes the label at a position, and a successor at a position or later. -/
def Under (n t : ℕ) : Way → Prop
  | [] => False
  | step :: _ => step.1 = n ∧ t ≤ step.2

theorem Before.irrefl (way : Way) : ¬way.Before way :=
  List.lex_irrefl (fun _ h => by simp [Prod.lex_iff] at h) way

/-- A way from the `n`-th label on begins under it or from the next one on. -/
theorem from_iff {n : ℕ} {way : Way} : way.From n ↔ way.Under n 0 ∨ way.From (n + 1) := by
  cases way with
  | nil => simp [From, Under]
  | cons step way =>
    simp only [From, Under]
    omega

/-- A way under a label from the `t`-th target on goes there or to a later one. -/
theorem under_iff {n t : ℕ} {way : Way} :
    way.Under n t ↔ (∃ rest, way = (n, t) :: rest) ∨ way.Under n (t + 1) := by
  cases way with
  | nil => simp [Under]
  | cons step way =>
    obtain ⟨n', t'⟩ := step
    simp only [Under, List.cons.injEq, Prod.mk.injEq, exists_and_left, exists_eq', and_true]
    omega

theorem eq_nil_or_from (way : Way) : way = [] ∨ way.From 0 := by
  cases way with
  | nil => exact .inl rfl
  | cons step way => exact .inr (Nat.zero_le _)

theorem before_of_nil {n : ℕ} {way : Way} (h : way.From n) : Before [] way := by
  cases way with
  | nil => exact h.elim
  | cons step way => exact .nil

/-- Ways to a target are before those to the later targets of the label. -/
theorem before_of_under {n t : ℕ} {rest way : Way} (h : way.Under n (t + 1)) :
    Before ((n, t) :: rest) way := by
  cases way with
  | nil => exact h.elim
  | cons step way =>
    obtain ⟨n', t'⟩ := step
    obtain ⟨rfl, ht⟩ := h
    exact .rel (.right _ ht)

/-- Ways under a label are before those under later labels. -/
theorem before_of_from {n t : ℕ} {way way' : Way} (h : way.Under n t) (h' : way'.From (n + 1)) :
    way.Before way' := by
  cases way with
  | nil => exact h.elim
  | cons step way =>
    cases way' with
    | nil => exact h'.elim
    | cons step' way' =>
      obtain ⟨n', t'⟩ := step
      obtain ⟨rfl, -⟩ := h
      exact .rel (.left _ _ h')

end Way

/-- The node to which a step leads. -/
def next? (g : Graph η) (labels : String → List String) (id : String) (step : ℕ × ℕ) : Option String :=
  (labels id)[step.1]?.bind fun label => (g.targets id label)[step.2]?

/-- Where a way leads from a node inside others, if it can be gone: the node at its end, and the nodes around
that one, innermost first. -/
def descend (g : Graph η) (labels : String → List String) :
    List String → String → Way → Option (List String × String)
  | within, id, [] => some (within, id)
  | within, id, step :: way =>
    (g.next? labels id step).bind fun target => g.descend labels (id :: within) target way

variable {g : Graph η} {labels : String → List String} {within : List String} {id target : String}

theorem next?_of_getElem? {label : String} {n t : ℕ} (hlabel : (labels id)[n]? = some label)
    (htarget : (g.targets id label)[t]? = some target) : g.next? labels id (n, t) = some target := by
  rw [next?, hlabel, Option.bind_some, htarget]

theorem leads_of_next? {step : ℕ × ℕ} (h : g.next? labels id step = some target) : g.Leads id target := by
  obtain ⟨label, -, htarget⟩ := Option.bind_eq_some_iff.1 h
  exact ⟨label, List.mem_of_getElem? htarget⟩

/-- A way leads along routes. -/
theorem reflTransGen_of_descend {way : Way} {x : List String × String}
    (h : g.descend labels within id way = some x) : Relation.ReflTransGen g.Leads id x.2 := by
  induction way generalizing within id with
  | nil =>
    obtain rfl := Option.some.inj h
    exact .refl
  | cons step way ih =>
    obtain ⟨target, hnext, hway⟩ := Option.bind_eq_some_iff.1 h
    exact .head (leads_of_next? hnext) (ih hway)

/-- In a sound graph only the empty way leads from a node to itself. -/
theorem eq_nil_of_descend (hg : g.Sound) {way : Way} {within' : List String}
    (h : g.descend labels within id way = some (within', id)) : way = [] := by
  cases way with
  | nil => rfl
  | cons step way =>
    obtain ⟨target, hnext, hway⟩ := Option.bind_eq_some_iff.1 h
    exact absurd (.head' (leads_of_next? hnext) (reflTransGen_of_descend hway)) (hg.acyclic id)

/-- No way begins with a successor behind the last one under its label. -/
theorem descend_of_under {label : String} {n t : ℕ} (hlabel : (labels id)[n]? = some label)
    (ht : (g.targets id label).length ≤ t) {way : Way} (hway : way.Under n t) :
    g.descend labels within id way = none := by
  cases way with
  | nil => exact hway.elim
  | cons step way =>
    obtain ⟨rfl, hstep⟩ := hway
    have hnext : g.next? labels id step = none := by
      rw [next?, hlabel, Option.bind_some, List.getElem?_eq_none (ht.trans hstep)]
    rw [descend, hnext, Option.bind_none]

/-- No way begins with a label behind the last one of its node. -/
theorem descend_of_from {n : ℕ} (hn : (labels id).length ≤ n) {way : Way} (hway : way.From n) :
    g.descend labels within id way = none := by
  cases way with
  | nil => exact hway.elim
  | cons step way =>
    have hnext : g.next? labels id step = none := by
      rw [next?, List.getElem?_eq_none (hn.trans hway), Option.bind_none]
    rw [descend, hnext, Option.bind_none]

theorem getElem?_and_drop_of_drop_eq {l rest : List String} {n : ℕ} {a : String}
    (h : l.drop n = a :: rest) : l[n]? = some a ∧ l.drop (n + 1) = rest := by
  constructor
  · rw [← List.head?_drop, h, List.head?_cons]
  · rw [← List.tail_drop, h, List.tail_cons]

/-! ## Tours -/

/-- Visits along the ways of a kind from a node inside others: one at the end of each such way that can be
gone, in the order of the ways. -/
structure Tour (g : Graph η) (labels : String → List String) (within : List String) (id : String)
    (kind : Way → Prop) (ways : List Way) (vs : List Visit) : Prop where
  ordered : ways.Pairwise Way.Before
  complete : ∀ way, way ∈ ways ↔ kind way ∧ (g.descend labels within id way).isSome
  ends : List.Forall₂ (fun way v => g.descend labels within id way = some (v.within, v.node)) ways vs

namespace Tour

variable {kind kind' : Way → Prop} {ways ways' : List Way} {vs vs' : List Visit}

/-- A tour is described by which ways it takes, however that is said. -/
theorem congr (h : g.Tour labels within id kind ways vs) (hkind : ∀ way, kind' way ↔ kind way) :
    g.Tour labels within id kind' ways vs where
  ordered := h.ordered
  complete way := by rw [hkind, h.complete]
  ends := h.ends

theorem nil (h : ∀ way, kind way → g.descend labels within id way = none) :
    g.Tour labels within id kind [] [] where
  ordered := .nil
  complete way := by simpa using fun hkind => h way hkind
  ends := .nil

/-- The one visit of a node, before it tells anything. -/
theorem single (m : Message) : g.Tour labels within id (· = []) [[]] [⟨within, id, m⟩] where
  ordered := List.pairwise_singleton _ _
  complete way := by
    rw [List.mem_singleton]
    exact ⟨fun h => ⟨h, by rw [h]; rfl⟩, And.left⟩
  ends := .cons rfl .nil

/-- Two tours, all ways of the first before those of the second. -/
theorem append (h : g.Tour labels within id kind ways vs) (h' : g.Tour labels within id kind' ways' vs')
    (hbefore : ∀ way way', kind way → kind' way' → way.Before way') :
    g.Tour labels within id (fun way => kind way ∨ kind' way) (ways ++ ways') (vs ++ vs') where
  ordered := List.pairwise_append.2 ⟨h.ordered, h'.ordered, fun way hway way' hway' =>
    hbefore way way' ((h.complete way).1 hway).1 ((h'.complete way').1 hway').1⟩
  complete way := by rw [List.mem_append, h.complete, h'.complete, or_and_right]
  ends := List.rel_append h.ends h'.ends

/-- The visits below a node are those along the ways that begin with the step to it. -/
theorem cons {step : ℕ × ℕ} (hnext : g.next? labels id step = some target)
    (h : g.Tour labels (id :: within) target (fun _ => True) ways vs) :
    g.Tour labels within id (fun way => ∃ rest, way = step :: rest) (ways.map (step :: ·)) vs where
  ordered := List.pairwise_map.2 (h.ordered.imp .cons)
  complete way := by
    rw [List.mem_map]
    constructor
    · rintro ⟨rest, hrest, rfl⟩
      refine ⟨⟨rest, rfl⟩, ?_⟩
      rw [descend, hnext, Option.bind_some]
      exact ((h.complete rest).1 hrest).2
    · rintro ⟨⟨rest, rfl⟩, hgone⟩
      rw [descend, hnext, Option.bind_some] at hgone
      exact ⟨rest, (h.complete rest).2 ⟨trivial, hgone⟩, rfl⟩
  ends := by
    rw [List.forall₂_map_left_iff]
    refine h.ends.imp fun rest v hrest => ?_
    rw [descend, hnext, Option.bind_some, hrest]

/-- No way is taken twice. -/
theorem nodup (h : g.Tour labels within id kind ways vs) : ways.Nodup := by
  refine List.Pairwise.imp ?_ h.ordered
  rintro way _ hbefore rfl
  exact Way.Before.irrefl way hbefore

/-- A node is visited once for each way that leads to it. -/
theorem countP_eq (h : g.Tour labels within id (fun _ => True) ways vs) (node : String) :
    vs.countP (·.node = node) =
      {way | ∃ around, g.descend labels within id way = some (around, node)}.ncard := by
  let leadsTo (way : Way) : Bool := (g.descend labels within id way).any (·.2 = node)
  have hcount : vs.countP (·.node = node) = ways.countP leadsTo := by
    have hends := h.ends
    clear h
    induction hends with
    | nil => rfl
    | cons hway _ ih => simp [List.countP_cons, ih, leadsTo, hway]
  have hset : {way | ∃ around, g.descend labels within id way = some (around, node)} =
      ↑(ways.filter leadsTo).toFinset := by
    ext way
    simp only [Set.mem_ofPred_eq, List.coe_toFinset, List.mem_filter, h.complete, true_and, leadsTo,
      Option.any_eq_true, decide_eq_true_eq]
    constructor
    · rintro ⟨around, hway⟩
      exact ⟨by simp [hway], _, hway, rfl⟩
    · rintro ⟨-, ⟨around, end'⟩, hway, rfl⟩
      exact ⟨around, hway⟩
  rw [hset, Set.ncard_coe_finset, List.toFinset_card_of_nodup (h.nodup.filter _), hcount,
    List.countP_eq_length_filter]

end Tour

/-- Visits of a whole graph depth first: one at the end of each way from the entry, with the nodes of the way
around it, in the order of the ways. So a node is visited as often as ways lead to it, the entry once, and no
node that cannot be reached. -/
structure DepthFirst (g : Graph η) (labels : String → List String) (vs : List Visit) : Prop where
  ways : ∃ ways : List Way, ways.Pairwise Way.Before ∧
    (∀ way, way ∈ ways ↔ (g.descend labels [] g.entry way).isSome) ∧
    List.Forall₂ (fun way v => g.descend labels [] g.entry way = some (v.within, v.node)) ways vs
  count : ∀ node, vs.countP (·.node = node) =
    {way | ∃ around, g.descend labels [] g.entry way = some (around, node)}.ncard
  entry : vs.countP (·.node = g.entry) = 1
  reachable : ∀ v ∈ vs, Relation.ReflTransGen g.Leads g.entry v.node

/-- A tour of all ways from the entry goes depth first. -/
theorem Tour.depthFirst (hg : g.Sound) {ways : List Way} {vs : List Visit}
    (h : g.Tour labels [] g.entry (fun _ => True) ways vs) : g.DepthFirst labels vs where
  ways := ⟨ways, h.ordered, fun way => by simp [h.complete way], h.ends⟩
  count := h.countP_eq
  entry := by
    rw [h.countP_eq, Set.ncard_eq_one]
    refine ⟨[], Set.eq_singleton_iff_unique_mem.2 ⟨⟨[], rfl⟩, ?_⟩⟩
    rintro way ⟨around, hway⟩
    exact eq_nil_of_descend hg hway
  reachable := by
    have hends : List.Forall₂ (fun v (_ : Way) => Relation.ReflTransGen g.Leads g.entry v.node ∧ True) vs
        ways := h.ends.flip.imp fun v way hway => ⟨reflTransGen_of_descend hway, trivial⟩
    exact ((List.forall₂_and_left vs ways).1 hends).1

end Graph

/-! ## Runs -/

namespace Instance

variable {k : Catalogue ω η} {i : Instance η} {labels : String → List String}

open RuleFlow.Graph (Tour Way)

mutual

theorem Receives.tour (hi : i.Forwards k labels) {within : List String} {id : String} {m : Message}
    {j j' : Journey ω} {r : Result Unit} (h : Receives k i within id m j r j') :
    r = .ok () ∧ ∃ ways vs, j'.visits = j.visits ++ vs ∧
      i.graph.Tour labels within id (fun _ => True) ways vs :=
  match h with
  | .handle hnode hcarries => by
    obtain ⟨ho, ways, vs, hvs, htour⟩ := hcarries.tour hi 0 List.drop_zero (hi _ _ hnode m)
    refine ⟨by rw [ho]; rfl, _, _, ?_, ((Tour.single m).append htour ?_).congr fun way => ?_⟩
    · rw [visits_leave, hvs, visits_enter, List.append_assoc]
    · rintro _ way rfl hway
      exact Way.before_of_nil hway
    · exact iff_of_true trivial way.eq_nil_or_from
termination_by structural h

/-- What is left of a plan tours the ways under the labels that are left. -/
theorem Carries.tour (hi : i.Forwards k labels) {within : List String} {id : String} {plan : Plan ω}
    {j j' : Journey ω} {o : Outcome} {left : List String} (h : Carries k i within id plan j o j') (n : ℕ)
    (hleft : (labels id).drop n = left) (hplan : plan.Forwards left) :
    o = .done ∧ ∃ ways vs, j'.visits = j.visits ++ vs ∧
      i.graph.Tour labels within id (Way.From n) ways vs :=
  match h with
  | .finish _ _ => by
    obtain ⟨ho, rfl⟩ := hplan
    exact ⟨ho, [], [], (List.append_nil _).symm, .nil fun way hway =>
      Graph.descend_of_from (List.drop_eq_nil_iff.1 hleft) hway⟩
  | .tell hdelivers hcarries => by
    obtain ⟨rest, rfl, hnext⟩ := hplan
    obtain ⟨hlabel, hrest⟩ := Graph.getElem?_and_drop_of_drop_eq hleft
    obtain ⟨hr, ways, vs, hvs, htold⟩ := hdelivers.tour hi hlabel 0 List.drop_zero
    obtain ⟨ho, ways', vs', hvs', htour⟩ := hcarries.tour hi (n + 1) hrest (hr ▸ hnext)
    refine ⟨ho, _, _, ?_, (htold.append htour ?_).congr fun way => Way.from_iff⟩
    · rw [hvs', hvs, List.append_assoc]
    · exact fun way way' => Way.before_of_from
  | .reveal hcarries => (hcarries.tour hi n hleft hplan :)
  | .look hcarries => hcarries.tour hi n hleft (hplan _)
  | .change hcarries => (hcarries.tour hi n hleft hplan :)
termination_by structural h

/-- Deliveries tour the ways to the targets that are left. -/
theorem Delivers.tour (hi : i.Forwards k labels) {within : List String} {id label : String}
    {targets : List String} {m : Message} {j j' : Journey ω} {r : Result Unit} {n : ℕ}
    (h : Delivers k i within id targets m j r j') (hlabel : (labels id)[n]? = some label) (t : ℕ)
    (htargets : (i.graph.targets id label).drop t = targets) :
    r = .ok () ∧ ∃ ways vs, j'.visits = j.visits ++ vs ∧
      i.graph.Tour labels within id (Way.Under n t) ways vs :=
  match h with
  | .done _ _ =>
    ⟨rfl, [], [], (List.append_nil _).symm, .nil fun way hway =>
      Graph.descend_of_under hlabel (List.drop_eq_nil_iff.1 htargets) hway⟩
  | .next hreceives hdelivers => by
    obtain ⟨htarget, hrest⟩ := Graph.getElem?_and_drop_of_drop_eq htargets
    have hnext := Graph.next?_of_getElem? hlabel htarget
    obtain ⟨-, ways, vs, hvs, hbelow⟩ := hreceives.tour hi
    obtain ⟨hr, ways', vs', hvs', htour⟩ := hdelivers.tour hi hlabel (t + 1) hrest
    refine ⟨hr, _, _, ?_, ((hbelow.cons hnext).append htour ?_).congr fun way => Way.under_iff⟩
    · rw [hvs', hvs, List.append_assoc]
    · rintro _ way ⟨rest, rfl⟩ hway
      exact Way.before_of_under hway
  | .fail hreceives => nomatch (hreceives.tour hi).1
termination_by structural h

end

/-- A message enters a compiled graph whose nodes forward under fixed labels. All goes well, and the visits
that are made are those of the graph depth first. A successor stands once under a label, so different ways take
different labels or successors. -/
theorem depthFirst_of_compile {payload : List UInt8} {w w' : ω}
    (h : Graph.compile k payload w = (.ok i.graph, w')) (hi : i.Forwards k labels) (m : Message)
    (j : Journey ω) :
    ∃ vs j', i.receive k m j = (.ok (), j') ∧ j'.visits = j.visits ++ vs ∧
      i.graph.DepthFirst labels vs ∧ ∀ id label, (i.graph.targets id label).Nodup := by
  obtain ⟨p, hs, -, hp, -, hg⟩ := Graph.exists_represents_of_compile h
  have hsound : i.graph.Sound := hg.sound hp
  obtain ⟨hr, ways, vs, hvs, htour⟩ := (receives_receive hsound m j).tour hi
  exact ⟨vs, _, Prod.ext hr rfl, hvs, htour.depthFirst hsound, hg.nodup_targets hp⟩

end Instance

namespace Component

/-- The labels under which a component forwards every message, if that does not depend on the message. -/
def labels? : Component → Option (List String)
  | log _ => some [successLabel]
  | probe _ p =>
    if p.panic = none ∧ p.failure = none ∧ p.tellFailure = none then some (p.emit.getD [successLabel])
    else none
  | _ => none

/-- A component with known labels forwards under them, whatever the message is. -/
theorem forwards_handle {c : Component} {labels : List String} (h : c.labels? = some labels)
    (ctx : Context) (m : Message) : (c.handle ctx m).Forwards labels := by
  cases c with
  | log n =>
    obtain rfl := Option.some.inj h
    exact n.forwards_handle ctx m
  | probe id p =>
    rw [labels?] at h
    split at h
    case isTrue htold =>
      obtain rfl := Option.some.inj h
      exact Probe.forwards_handle htold.1 htold.2.1 htold.2.2 ctx m
    case isFalse => cases h
  | _ => cases h

end Component

/-- The labels under which the nodes of a graph of components forward. -/
def Graph.labels (g : Graph Component) (id : String) : List String :=
  ((g.nodes.get? id).bind (·.handler.labels?)).getD []

/-- Whatever graph they stand in, components forward under fixed labels if none of them chooses its labels by
the message. -/
theorem Instance.forwards_of_components {registry : Registry} {i : Instance Component}
    (h : ∀ node ∈ i.graph.nodes.values, node.handler.labels?.isSome = true) :
    i.Forwards registry.catalogue i.graph.labels := by
  intro id node hnode m
  obtain ⟨labels, hlabels⟩ := Option.isSome_iff_exists.1 (h node (Table.mem_values.2 ⟨id, hnode⟩))
  rw [Graph.labels, hnode, Option.bind_some, hlabels]
  exact Component.forwards_handle hlabels _ m

/-- A definition whose entry forwards under two labels, and with several ways to its last node. -/
def GraphPayload.forked : GraphPayload where
  nodes :=
    [{ id := "fork", typeName := "probe"
       config := .object [("emit", .array [.string successLabel, .string failureLabel])] },
      { id := "left", typeName := "log" }, { id := "right", typeName := "log" },
      { id := "join", typeName := "log" }]
  connections :=
    [⟨"fork", "join", failureLabel⟩, ⟨"fork", "left", successLabel⟩, ⟨"fork", "right", successLabel⟩,
      ⟨"left", "join", successLabel⟩, ⟨"right", "join", successLabel⟩]

/-- A fork whose branches join again. -/
theorem Graph.exists_compile_forked : ∃ g w',
    compile Registry.withProbes.catalogue GraphPayload.forked.text {} = (.ok g, w') ∧
      (∀ node ∈ g.nodes.values, node.handler.labels?.isSome = true) ∧
      ((Instance.ofChain default g).receive Registry.withProbes.catalogue default
        ⟨{}, [], []⟩).2.visits.map (·.node) = ["fork", "left", "join", "right", "join", "join"] :=
  exists_compile (by decide +kernel)

theorem Instance.depthFirst_forked : ∃ (g : Graph Component) (w' : World) (vs : List Visit),
    Graph.compile Registry.withProbes.catalogue GraphPayload.forked.text {} = (.ok g, w') ∧
      (ofChain default g).Forwards Registry.withProbes.catalogue g.labels ∧ g.DepthFirst g.labels vs ∧
      vs.map (·.node) = ["fork", "left", "join", "right", "join", "join"] ∧
      {way | ∃ around, g.descend g.labels [] g.entry way = some (around, "join")}.ncard = 3 := by
  obtain ⟨g, w', hg, hcomponents, hrun⟩ := Graph.exists_compile_forked
  have hi : (ofChain default g).Forwards Registry.withProbes.catalogue g.labels :=
    forwards_of_components hcomponents
  obtain ⟨vs, j', hreceive, hvisits, hvs, -⟩ :=
    depthFirst_of_compile (i := ofChain default g) hg hi default ⟨{}, [], []⟩
  rw [hreceive, hvisits, List.nil_append] at hrun
  have hcount : vs.countP (·.node = "join") = 3 := by
    have hmap := List.countP_map (l := vs) (p := (· = "join")) (f := Visit.node)
    rw [hrun] at hmap
    exact hmap.symm
  exact ⟨g, w', vs, hg, hi, hvs, hrun, (hvs.count "join").symm.trans hcount⟩

end RuleFlow
