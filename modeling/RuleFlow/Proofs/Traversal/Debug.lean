import Mathlib.Data.List.Forall2
import RuleFlow.Proofs.Traversal.Entrance
import RuleFlow.Proofs.Traversal.Failure
import RuleFlow.Proofs.Traversal.Trail

/-!
# Runs with and without the debug mode

The debug mode shows events and does nothing else. Two runs of the same graph from the same surroundings, one of
them in debug mode, are followed side by side (`Beside`): whenever the run in debug mode answers, the other one
gives the same answer, and both have added the same visits and come to the same surroundings. An `Account` says
what a part of the runs has added; the events that are only there in debug mode form a `Trail`.

The induction is on the budget, and inside of it on the plan of the node and on the targets of a message. Plans
are supposed to yield, so that an error ends all executions around it and shows once in each of them
(`Instance.beside_execute`). `Instance.tells_of_compile` says what this means for messages that enter a compiled
graph one after the other.
-/

namespace RuleFlow

variable {ω η : Type}

/-- A list is made of two others, each in its order. -/
inductive Interleaves {α : Type} : List α → List α → List α → Prop
  | nil : Interleaves [] [] []
  | left {x : α} {xs ys zs : List α} : Interleaves xs ys zs → Interleaves (x :: xs) ys (x :: zs)
  | right {y : α} {xs ys zs : List α} : Interleaves xs ys zs → Interleaves xs (y :: ys) (y :: zs)

namespace Interleaves

variable {α : Type} {xs ys zs xs' ys' zs' : List α}

theorem append (h : Interleaves xs ys zs) (h' : Interleaves xs' ys' zs') :
    Interleaves (xs ++ xs') (ys ++ ys') (zs ++ zs') := by
  induction h with
  | nil => exact h'
  | left _ ih => exact .left ih
  | right _ ih => exact .right ih

/-- What was interleaved is told apart by a property that the one side has and the other has not. -/
theorem filter_eq {p : α → Bool} (h : Interleaves xs ys zs) (hxs : ∀ x ∈ xs, p x = false)
    (hys : ∀ y ∈ ys, p y = true) : zs.filter p = ys := by
  induction h with
  | nil => rfl
  | left _ ih =>
    obtain ⟨hx, hxs⟩ := List.forall_mem_cons.1 hxs
    rw [List.filter_cons_of_neg (by simp [hx]), ih hxs hys]
  | right _ ih =>
    obtain ⟨hy, hys⟩ := List.forall_mem_cons.1 hys
    rw [List.filter_cons_of_pos hy, ih hxs hys]

end Interleaves

/-- What a part of a run adds: its visits, the events of the nodes, those of the debug mode, and all of these
events as the debug mode shows them. -/
structure Account where
  visits : List Visit := []
  own : List Event := []
  trail : List Event := []
  shown : List Event := []

namespace Account

instance : Append Account :=
  ⟨fun p p' => ⟨p.visits ++ p'.visits, p.own ++ p'.own, p.trail ++ p'.trail, p.shown ++ p'.shown⟩⟩

@[simp] theorem visits_append (p p' : Account) : (p ++ p').visits = p.visits ++ p'.visits := rfl

@[simp] theorem own_append (p p' : Account) : (p ++ p').own = p.own ++ p'.own := rfl

@[simp] theorem shown_append (p p' : Account) : (p ++ p').shown = p.shown ++ p'.shown := rfl

@[simp] theorem trail_append (p p' : Account) : (p ++ p').trail = p.trail ++ p'.trail := rfl

/-- Several accounts in one. -/
def total (ps : List Account) : Account :=
  ⟨ps.flatMap (·.visits), ps.flatMap (·.own), ps.flatMap (·.trail), ps.flatMap (·.shown)⟩

/-- From the same surroundings two runs have added the same, and their surroundings are the same again; the
second one was in debug mode. -/
structure Between (p : Account) (q q' l l' : Journey ω) : Prop where
  world : q'.world = l'.world
  visits : q'.visits = q.visits ++ p.visits
  visits_debug : l'.visits = l.visits ++ p.visits
  own : q'.events = q.events ++ p.own
  shown : l'.events = l.events ++ p.shown
  mixed : Interleaves p.own p.trail p.shown

variable {p p' : Account} {q q₁ q' l l₁ l' : Journey ω}

theorem Between.refl (h : q.world = l.world) : ({} : Account).Between q q l l :=
  ⟨h, by simp, by simp, by simp, by simp, .nil⟩

theorem Between.trans (h : p.Between q q₁ l l₁) (h' : p'.Between q₁ q' l₁ l') :
    (p ++ p').Between q q' l l' where
  world := h'.world
  visits := by rw [h'.visits, h.visits, List.append_assoc, visits_append]
  visits_debug := by rw [h'.visits_debug, h.visits_debug, List.append_assoc, visits_append]
  own := by rw [h'.own, h.own, List.append_assoc, own_append]
  shown := by rw [h'.shown, h.shown, List.append_assoc, shown_append]
  mixed := h.mixed.append h'.mixed

theorem Between.reveal (h : q.world = l.world) (e : Event) :
    ({ own := [e], shown := [e] } : Account).Between q (q.reveal e) l (l.reveal e) :=
  ⟨h, by simp, by simp, rfl, rfl, .left .nil⟩

/-- Entering a node is a visit in both runs and is traced in the second. -/
theorem Between.enter (h : q.world = l.world) (v : Visit) (e : Event) :
    ({ visits := [v], trail := [e], shown := [e] } : Account).Between q (q.visit v) l
      ((l.visit v).reveal e) :=
  ⟨h, rfl, rfl, by simp [Journey.visit], rfl, .right .nil⟩

theorem Between.leave (h : q.world = l.world) (e : Event) :
    ({ trail := [e], shown := [e] } : Account).Between q q l (l.reveal e) :=
  ⟨h, by simp, by simp, by simp, rfl, .right .nil⟩

theorem Between.change (q l : Journey ω) (w : ω) :
    ({} : Account).Between q { q with world := w } l { l with world := w } :=
  ⟨rfl, by simp, by simp, by simp, by simp, .nil⟩

end Account

/-- Whenever the second of two steps answers, so does the first one from the same surroundings. The answers are
the same, and what both add has a property. -/
def Beside {α : Type} (P : Account → α → Prop) (f g : Journey ω → Step ω α) : Prop :=
  ∀ q l a l', q.world = l.world → g l = some (a, l') →
    ∃ p q', f q = some (a, q') ∧ p.Between q q' l l' ∧ P p a

namespace Beside

variable {α β : Type} {P Q : Account → α → Prop} {f g : Journey ω → Step ω α}

theorem pure {a : α} (h : P {} a) : Beside P (fun j : Journey ω => some (a, j)) fun j => some (a, j) := by
  intro q l a' l' hworld ha
  obtain ⟨rfl, rfl⟩ := Prod.mk.inj (Option.some.inj ha)
  exact ⟨{}, q, rfl, .refl hworld, h⟩

theorem mono (h : Beside P f g) (hPQ : ∀ p a, P p a → Q p a) : Beside Q f g := by
  intro q l a l' hworld ha
  obtain ⟨p, q', hq, hbetween, hP⟩ := h q l a l' hworld ha
  exact ⟨p, q', hq, hbetween, hPQ p a hP⟩

/-- Steps that start a little later in both runs. -/
theorem after {first : Account} {s t : Journey ω → Journey ω}
    (hfirst : ∀ q l : Journey ω, q.world = l.world → first.Between q (s q) l (t l))
    (h : Beside (fun p a => P (first ++ p) a) f g) : Beside P (fun j => f (s j)) fun j => g (t j) := by
  intro q l a l' hworld ha
  have hstart := hfirst q l hworld
  obtain ⟨p, q', hq, hbetween, hP⟩ := h (s q) (t l) a l' hstart.world ha
  exact ⟨first ++ p, q', hq, hstart.trans hbetween, hP⟩

/-- Steps that go on with the answer of others. -/
theorem bind {R : Account → β → Prop} {f' g' : α → Journey ω → Step ω β} (h : Beside P f g)
    (h' : ∀ p a, P p a → Beside (fun p' b => R (p ++ p') b) (f' a) (g' a)) :
    Beside R (fun j => (f j).bind fun x => f' x.1 x.2) fun j => (g j).bind fun x => g' x.1 x.2 := by
  intro q l b l' hworld hb
  obtain ⟨⟨a, l₁⟩, ha, hb⟩ := Option.bind_eq_some_iff.1 hb
  obtain ⟨p, q₁, hq, hbetween, hP⟩ := h q l a l₁ hworld ha
  obtain ⟨p', q', hq', hbetween', hR⟩ := h' p a hP q₁ l₁ b l' hbetween.world hb
  have hboth : (f q).bind (fun x => f' x.1 x.2) = some (b, q') := by
    rw [hq, Option.bind_some, hq']
  exact ⟨p ++ p', q', hboth, hbetween.trans hbetween', hR⟩

end Beside

namespace Instance

/-- An instance whose nodes answer every message with a plan that yields. -/
def Yields (k : Catalogue ω η) (i : Instance η) : Prop :=
  ∀ id node, i.graph.nodes.get? id = some node → ∀ m,
    (k.handle node.handler (i.context id node) m).Yields

/-- The instance without its debug mode. -/
def quiet (i : Instance η) : Instance η := { i with debugMode := false }

/-- The instance in debug mode. -/
def loud (i : Instance η) : Instance η := { i with debugMode := true }

variable {k : Catalogue ω η} {i : Instance η} {within : List String} {id : String}

/-! ## Plans -/

/-- How the trail of a plan goes with its outcome: all went well that it told, and it ends well or with an error
that it makes; or it ends with an error from below. -/
inductive Concludes (k : Catalogue ω η) (i : Instance η) (within : List String) (plan : Plan ω)
    (p : Account) (o : Outcome) : Prop
  | well : Trail k i within p.visits p.trail (.ok ()) → o.result = .ok () → Concludes k i within plan p o
  | makes {e : RuleError} : Trail k i within p.visits p.trail (.ok ()) → o.result = .error e →
    plan.Makes e → Concludes k i within plan p o
  | passes {e : RuleError} : Trail k i within p.visits p.trail (.error e) → o.result = .error e →
    Concludes k i within plan p o

/-- A plan that reveals more and has a longer trail concludes as before. -/
theorem Concludes.imp {plan plan' : Plan ω} {p p' : Account} {o : Outcome}
    (h : Concludes k i within plan p o)
    (htrail : ∀ r, Trail k i within p.visits p.trail r → Trail k i within p'.visits p'.trail r)
    (hmakes : ∀ e, plan.Makes e → plan'.Makes e) : Concludes k i within plan' p' o := by
  cases h with
  | well ht hr => exact .well (htrail _ ht) hr
  | makes ht hr he => exact .makes (htrail _ ht) hr (hmakes _ he)
  | passes ht hr => exact .passes (htrail _ ht) hr

section Plan

variable {deliver deliver' : String → Message → Journey ω → Step ω (Result Unit)}

section

variable {P : Account → Outcome → Prop} {next : Plan ω}

/-- Two runs of a plan that tells are two deliveries and two runs of what is left. -/
theorem beside_tell {Q : Account → Result Unit → Prop} {label : String} {m : Message}
    {next : Result Unit → Plan ω} (h : Beside Q (deliver label m) (deliver' label m))
    (hnext : ∀ p r, Q p r →
      Beside (fun p' o => P (p ++ p') o) ((next r).run deliver) ((next r).run deliver')) :
    Beside P ((Plan.tell label m next).run deliver) ((Plan.tell label m next).run deliver') := by
  have hrun : ∀ deliver : String → Message → Journey ω → Step ω (Result Unit),
      (Plan.tell label m next).run deliver =
        fun j => (deliver label m j).bind fun x => (next x.1).run deliver x.2 := by
    intro deliver
    funext j
    rw [Plan.run]
    cases deliver label m j <;> rfl
  rw [hrun, hrun]
  exact h.bind hnext

theorem beside_reveal {e : Event}
    (h : Beside (fun p o => P ({ own := [e], shown := [e] } ++ p) o) (next.run deliver)
      (next.run deliver')) :
    Beside P ((Plan.reveal e next).run deliver) ((Plan.reveal e next).run deliver') :=
  Beside.after (s := (·.reveal e)) (t := (·.reveal e)) (fun _ _ hworld => .reveal hworld e) h

theorem beside_change {w : ω} (h : Beside P (next.run deliver) (next.run deliver')) :
    Beside P ((Plan.change w next).run deliver) ((Plan.change w next).run deliver') :=
  Beside.after (s := ({ · with world := w })) (t := ({ · with world := w })) (fun q l _ => .change q l w) h

/-- Two runs of a plan that looks see the same, for their surroundings are the same. -/
theorem beside_look {next : ω → Plan ω}
    (h : ∀ w, Beside P ((next w).run deliver) ((next w).run deliver')) :
    Beside P ((Plan.look next).run deliver) ((Plan.look next).run deliver') := by
  intro q l o l' hworld ho
  rw [Plan.run, ← hworld] at ho
  exact h q.world q l o l' hworld ho

end

/-- After an error a plan that yields tells nothing more. -/
theorem beside_of_surrenders {plan : Plan ω} {e : RuleError} (hplan : plan.Surrenders e) :
    Beside (fun p o => p.visits = [] ∧ p.trail = [] ∧ o = .failed e) (plan.run deliver)
      (plan.run deliver') := by
  induction plan with
  | finish o => exact .pure ⟨rfl, rfl, hplan⟩
  | tell label m next => exact hplan.elim
  | reveal e' next ih => exact beside_reveal (ih hplan)
  | look next ih => exact beside_look fun w => ih w (hplan w)
  | change w next ih => exact beside_change (ih hplan)

/-- Two runs of a plan go side by side if the deliveries do. -/
theorem beside_run (hdeliver : ∀ label m, Beside (fun p r => Trail k i within p.visits p.trail r)
      (deliver label m) (deliver' label m)) {plan : Plan ω} (hplan : plan.Yields) :
    Beside (Concludes k i within plan) (plan.run deliver) (plan.run deliver') := by
  induction plan with
  | finish o =>
    refine .pure ?_
    cases hresult : o.result with
    | ok => exact .well .done hresult
    | error e => exact .makes .done hresult hresult
  | tell label m next ih =>
    obtain ⟨hok, herror⟩ := hplan
    refine beside_tell (hdeliver label m) fun p r htrail => ?_
    cases r with
    | ok =>
      exact (ih (.ok ()) hok).mono fun p' o h => h.imp (fun _ h' => htrail.append h') fun _ he => he
    | error e =>
      refine (beside_of_surrenders (herror e)).mono fun p' o h => ?_
      obtain ⟨hvisits, hevents, rfl⟩ := h
      refine .passes (e := e) ?_ rfl
      simpa [hvisits, hevents] using htrail
  | reveal e next ih =>
    exact beside_reveal ((ih hplan).mono fun p o h => h.imp (fun _ h' => h') fun _ he => he)
  | look next ih =>
    exact beside_look fun w => (ih w (hplan w)).mono fun p o h => h.imp (fun _ h' => h') fun _ he => ⟨w, he⟩
  | change w next ih =>
    exact beside_change ((ih hplan).mono fun p o h => h.imp (fun _ h' => h') fun _ he => he)

end Plan

/-! ## Nodes -/

/-- Deliveries one after the other go side by side if each does. -/
theorem beside_deliverAll {receive receive' : String → Message → Journey ω → Step ω (Result Unit)}
    {targets : List String}
    (h : ∀ target ∈ targets, ∀ m, Beside (fun p r => Trail k i within p.visits p.trail r)
      (receive target m) (receive' target m)) (m : Message) :
    Beside (fun p r => Trail k i within p.visits p.trail r) (deliverAll receive targets m)
      (deliverAll receive' targets m) := by
  induction targets with
  | nil => exact .pure .done
  | cons target targets ih =>
    obtain ⟨htarget, htargets⟩ := List.forall_mem_cons.1 h
    intro q l r l' hworld hall
    rw [deliverAll] at hall
    cases hreceive : receive' target m l with
    | none => simp [hreceive] at hall
    | some x =>
      obtain ⟨r₁, l₁⟩ := x
      obtain ⟨p, q₁, hq, hbetween, htrail⟩ := htarget m q l r₁ l₁ hworld hreceive
      simp only [hreceive] at hall
      cases r₁ with
      | error e =>
        obtain ⟨rfl, rfl⟩ := Prod.mk.inj (Option.some.inj hall)
        exact ⟨p, q₁, by rw [deliverAll, hq], hbetween, htrail⟩
      | ok =>
        obtain ⟨p', q', hq', hbetween', htrail'⟩ := ih htargets q₁ l₁ r l' hbetween.world hall
        exact ⟨p ++ p', q', by rw [deliverAll, hq]; exact hq', hbetween.trans hbetween',
          htrail.append htrail'⟩

/-- The event that the execution of a node ends with. -/
def ending (i : Instance η) (id : String) (o : Outcome) : Event :=
  match o.result with
  | .ok () => .after i.id id
  | .error e => .failed i.id id e

/-- What a node answers when its plan has ended. -/
def answer (id : String) (node : Node η) (o : Outcome) : Result Unit :=
  match o.result with
  | .ok () => .ok ()
  | .error e => .error (wrapFailure id node.typeName e)

theorem leave_quiet (i : Instance η) (id : String) (node : Node η) (o : Outcome) (j : Journey ω) :
    i.quiet.leave id node o j = (answer id node o, j) := by
  simp only [leave, answer]
  cases o.result <;> rfl

theorem leave_loud (i : Instance η) (id : String) (node : Node η) (o : Outcome) (j : Journey ω) :
    i.loud.leave id node o j = (answer id node o, j.reveal (i.ending id o)) := by
  simp only [leave, answer, ending]
  cases o.result <;> rfl

/-- The two events of an execution around what its plan shows. -/
theorem Concludes.trail {m : Message} {node : Node η} {p : Account} {o : Outcome}
    (hnode : i.graph.nodes.get? id = some node)
    (h : Concludes k i (id :: within) (k.handle node.handler (i.context id node) m) p o) :
    Trail k i within (⟨within, id, m⟩ :: p.visits)
      (.before i.id id node.typeName m.data :: (p.trail ++ [i.ending id o])) (answer id node o) := by
  cases h with
  | well ht hr =>
    simp only [ending, answer, hr]
    simpa using Trail.well (m := m) hnode ht .done
  | makes ht hr he =>
    simp only [ending, answer, hr]
    exact .makes hnode ht he
  | passes ht hr =>
    simp only [ending, answer, hr, ht.wrapFailure_eq]
    exact .passes hnode ht

theorem beside_leave {P : Account → Result Unit → Prop} {node : Node η} {o : Outcome}
    (h : P { trail := [i.ending id o], shown := [i.ending id o] } (answer id node o)) :
    Beside P (fun j : Journey ω => some (i.quiet.leave id node o j))
      fun j => some (i.loud.leave id node o j) := by
  intro q l r l' hworld hr
  simp only [leave_loud] at hr
  obtain ⟨rfl, rfl⟩ := Prod.mk.inj (Option.some.inj hr)
  exact ⟨_, q, congrArg some (leave_quiet ..), .leave hworld (i.ending id o), h⟩

/-- A node runs its plan between entering and leaving. -/
theorem execute_eq_bind {i : Instance η} {budget : Nat} {m : Message} {node : Node η}
    (hnode : i.graph.nodes.get? id = some node) :
    i.execute k (budget + 1) within id m = fun j =>
      ((k.handle node.handler (i.context id node) m).run
        (fun label m j => deliverAll (i.execute k budget (id :: within)) (i.graph.targets id label) m j)
        (i.enter within id node m j)).bind fun x => some (i.leave id node x.1 x.2) := by
  funext j
  rw [execute_of_get? hnode, Option.map_eq_bind]
  rfl

/-- Within any budget two runs of a node go side by side. -/
theorem beside_execute (hg : i.graph.Sound) (hi : i.Yields k) (budget : Nat)
    (hid : id ∈ i.graph.nodes.keys) (m : Message) :
    Beside (fun p r => Trail k i within p.visits p.trail r) (i.quiet.execute k budget within id m)
      (i.loud.execute k budget within id m) := by
  induction budget generalizing within id m with
  | zero =>
    intro q l r l' _ hexecute
    cases hexecute
  | succ budget ih =>
    obtain ⟨node, hnode⟩ := Table.mem_keys.1 hid
    have hdeliver : ∀ label m, Beside (fun p r => Trail k i (id :: within) p.visits p.trail r)
        (fun j => deliverAll (i.quiet.execute k budget (id :: within)) (i.graph.targets id label) m j)
        (fun j => deliverAll (i.loud.execute k budget (id :: within)) (i.graph.targets id label) m j) :=
      fun label => beside_deliverAll fun target htarget m => ih (hg.leads _ _ ⟨label, htarget⟩) m
    have hrun := beside_run hdeliver (hi id node hnode m)
    have hleave : ∀ p o, Concludes k i (id :: within) (k.handle node.handler (i.context id node) m) p o →
        Beside
          (fun p' r => Trail k i within (⟨within, id, m⟩ :: (p ++ p').visits)
            (.before i.id id node.typeName m.data :: (p ++ p').trail) r)
          (fun j : Journey ω => some (i.quiet.leave id node o j))
          fun j => some (i.loud.leave id node o j) :=
      fun p o h => beside_leave (by simpa using h.trail hnode)
    rw [execute_eq_bind (i := i.quiet) hnode, execute_eq_bind (i := i.loud) hnode]
    exact Beside.after (P := fun p r => Trail k i within p.visits p.trail r)
      (s := i.quiet.enter within id node m) (t := i.loud.enter within id node m)
      (fun q l hworld => .enter hworld ⟨within, id, m⟩ (.before i.id id node.typeName m.data))
      (hrun.bind hleave)

/-! ## Messages -/

/-- What the run of one message shows: it enters at the entry, and all else that it visits is inside of a node.
The debug mode adds the events of its trail to those of the nodes. The trail is well nested and begins the
executions of the visits in their order. If the run goes well then no node failed. If not, then one node made an
error: the trail ends with this error as it was made, and for each node around that one, from the inside out,
with the error that the run ends with. -/
structure Tells (k : Catalogue ω η) (i : Instance η) (m : Message) (r : Result Unit) (p : Account) : Prop where
  starts : ∃ inside, p.visits = ⟨[], i.graph.entry, m⟩ :: inside ∧ ∀ v ∈ inside, v.within ≠ []
  mixed : Interleaves p.own p.trail p.shown
  sifted : (∀ e ∈ p.own, e.isTrace = false) → p.shown.filter (·.isTrace) = p.trail
  chain : ∀ e ∈ p.trail, e.chainId = i.id
  nested : Event.beginnings [] p.trail = some (p.visits.map i.beginning)
  well : r = .ok () → ∀ e ∈ p.trail, e.isFailure = false
  failed : ∀ e, r = .error e → ∃ before v node own,
    p.trail = before ++ .failed i.id v.node own :: v.within.map (.failed i.id · e) ∧
    (∀ x ∈ before, x.isFailure = false) ∧ v ∈ p.visits ∧ i.graph.nodes.get? v.node = some node ∧
    (k.handle node.handler (i.context v.node node) v.message).Makes own ∧
    e = wrapFailure v.node node.typeName own

/-- What the second run shows is what the first one shows, and the trail in between. -/
theorem Trail.tells {m : Message} {r : Result Unit} {p : Account}
    (h : Trail k i [] p.visits p.trail r) (hmixed : Interleaves p.own p.trail p.shown)
    (hstarts : ∃ inside, p.visits = ⟨[], i.graph.entry, m⟩ :: inside ∧ ∀ v ∈ inside, v.within ≠ []) :
    i.Tells k m r p where
  starts := hstarts
  mixed := hmixed
  sifted hown := hmixed.filter_eq hown fun e he => (h.isTrace_of_mem e he).1
  chain e he := (h.isTrace_of_mem e he).2
  nested := h.beginnings_eq
  well hr := by
    subst hr
    exact h.isFailure_of_mem
  failed e hr := by
    subst hr
    obtain ⟨before, v, inner, node, own, htrail, hv, hwithin, hnode, hmakes, he, hbefore⟩ :=
      h.exists_failures
    rw [List.append_nil] at hwithin
    subst hwithin
    exact ⟨before, v, node, own, htrail, hbefore, hv, hnode, hmakes, he⟩

/-- One message with and without the debug mode. -/
theorem exists_tells {payload : List UInt8} {w w' : ω} (h : Graph.compile k payload w = (.ok i.graph, w'))
    (hi : i.Yields k) (m : Message) {q l : Journey ω} (hworld : q.world = l.world) :
    ∃ r q' l' p, i.quiet.receive k m q = (r, q') ∧ i.loud.receive k m l = (r, l') ∧
      p.Between q q' l l' ∧ i.Tells k m r p := by
  have hg : i.graph.Sound := Graph.sound_of_compile h
  obtain ⟨r, l', hloud, hreceives, hexecute, -⟩ := receive_of_compile (i := i.loud) h m l
  obtain ⟨p, q', hq, hbetween, htrail⟩ := beside_execute hg hi i.graph.nodes.size hg.entry m q l r l' hworld
    (hexecute _ (Nat.le_refl _))
  have hquiet : i.quiet.receive k m q = (r, q') := by
    have hexecute' : i.quiet.execute k i.quiet.budget [] i.quiet.graph.entry m q = some (r, q') := hq
    rw [receive, hexecute', Option.getD_some]
  refine ⟨r, q', l', p, hquiet, hloud, hbetween, htrail.tells hbetween.mixed ?_⟩
  obtain ⟨l₁, henter, inside, hl', hinside⟩ := hreceives.inside
  rw [henter, List.append_assoc, hbetween.visits_debug] at hl'
  exact ⟨inside, List.append_cancel_left hl', hinside⟩

/-- Lets several messages enter, one after the other. -/
def receiveAll (k : Catalogue ω η) (i : Instance η) : List Message → Journey ω → List (Result Unit) × Journey ω
  | [], j => ([], j)
  | m :: ms, j =>
    let (r, j) := i.receive k m j
    let (rs, j) := receiveAll k i ms j
    (r :: rs, j)

theorem exists_tellsAll {payload : List UInt8} {w w' : ω}
    (h : Graph.compile k payload w = (.ok i.graph, w')) (hi : i.Yields k) (ms : List Message)
    {q l : Journey ω} (hworld : q.world = l.world) :
    ∃ (parts : List (Result Unit × Account)) (q' l' : Journey ω),
      i.quiet.receiveAll k ms q = (parts.map (·.1), q') ∧
      i.loud.receiveAll k ms l = (parts.map (·.1), l') ∧
      (Account.total (parts.map (·.2))).Between q q' l l' ∧
      List.Forall₂ (fun m part => i.Tells k m part.1 part.2) ms parts := by
  induction ms generalizing q l with
  | nil => exact ⟨[], q, l, rfl, rfl, .refl hworld, .nil⟩
  | cons m ms ih =>
    obtain ⟨r, q₁, l₁, p, hquiet, hloud, hbetween, htells⟩ := exists_tells h hi m hworld
    obtain ⟨parts, q', l', hquiets, hlouds, hbetweens, htellsAll⟩ := ih hbetween.world
    refine ⟨(r, p) :: parts, q', l', ?_, ?_, hbetween.trans hbetweens, .cons htells htellsAll⟩
    · simp [receiveAll, hquiet, hquiets]
    · simp [receiveAll, hloud, hlouds]

/-- Messages enter the graph of a compiled chain, whose nodes end with the first error that they are answered.
With and without the debug mode the runs have the same results, make the same visits and leave the same
surroundings. What the debug mode adds to the events of the nodes is told message by message. -/
theorem tells_of_compile {c : Chain} {g : Graph η} {w w' : ω}
    (h : Graph.compile k c.payload w = (.ok g, w')) (hg : (ofChain c g).Yields k) (ms : List Message)
    (j : Journey ω) :
    ∃ (parts : List (Result Unit × Account)) (world : ω),
      List.Forall₂ (fun m part => (ofChain c g).Tells k m part.1 part.2) ms parts ∧
      (ofChain { c with debugMode := false } g).receiveAll k ms j =
        (parts.map (·.1), ⟨world, j.events ++ parts.flatMap (·.2.own),
          j.visits ++ parts.flatMap (·.2.visits)⟩) ∧
      (ofChain { c with debugMode := true } g).receiveAll k ms j =
        (parts.map (·.1), ⟨world, j.events ++ parts.flatMap (·.2.shown),
          j.visits ++ parts.flatMap (·.2.visits)⟩) := by
  obtain ⟨parts, q', l', hquiet, hloud, hbetween, htells⟩ :=
    exists_tellsAll (i := ofChain c g) h hg ms (q := j) (l := j) rfl
  obtain ⟨world, events, visits⟩ := q'
  obtain ⟨world', events', visits'⟩ := l'
  obtain ⟨hworld, hvisits, hvisits', hown, hshown, -⟩ := hbetween
  simp only [Account.total, List.flatMap_map] at hworld hvisits hvisits' hown hshown
  subst hworld hvisits hvisits' hown hshown
  exact ⟨parts, world, htells, hquiet, hloud⟩

end Instance

/-- The chain of two probes, the second of which panics. -/
def Chain.explosive : Chain := { id := "rc", payload := GraphPayload.explosive.text }

/-- What the debug mode shows of a message that enters there. -/
def Event.explosion : List Event :=
  [.before "rc" "first" "recorder" (default : Message).data, .before "rc" "explode" "panic" (default : Message).data,
    .failed "rc" "explode" (.execution (.panic "node exploded")),
    .failed "rc" "first" (.nodeFailed "explode" "panic" "节点执行失败: panic: node exploded")]

/-- What the debug mode shows of a node that panics inside another. -/
theorem Graph.exists_shown_explosive : ∃ g w',
    compile Registry.withProbes.catalogue Chain.explosive.payload {} = (.ok g, w') ∧
      (∀ e ∈ ((Instance.ofChain { Chain.explosive with debugMode := false } g).receiveAll
        Registry.withProbes.catalogue [default] ⟨{}, [], []⟩).2.events, e.isTrace = false) ∧
      ((Instance.ofChain { Chain.explosive with debugMode := true } g).receiveAll
        Registry.withProbes.catalogue [default] ⟨{}, [], []⟩).2.events.filter (·.isTrace) =
          Event.explosion :=
  exists_compile (by decide +kernel)

namespace Instance

theorem yields_of_components (registry : Registry) (i : Instance Component) :
    i.Yields registry.catalogue := fun id node _ m => Component.yields_handle node.handler (i.context id node) m

theorem tells_explosive : ∃ (g : Graph Component) (w' : World) (r : Result Unit) (p : Account),
    Graph.compile Registry.withProbes.catalogue Chain.explosive.payload {} = (.ok g, w') ∧
      (ofChain Chain.explosive g).Yields Registry.withProbes.catalogue ∧
      (ofChain Chain.explosive g).Tells Registry.withProbes.catalogue default r p ∧
      p.trail = Event.explosion := by
  obtain ⟨g, w', hg, hquiet, hloud⟩ := Graph.exists_shown_explosive
  have hyields := yields_of_components Registry.withProbes (ofChain Chain.explosive g)
  obtain ⟨parts, world, htells, hquiets, hlouds⟩ := tells_of_compile hg hyields [default] ⟨{}, [], []⟩
  cases htells with
  | @cons _ part _ _ htold hnone =>
    cases hnone
    rw [hquiets] at hquiet
    rw [hlouds] at hloud
    simp only [List.flatMap_cons, List.flatMap_nil, List.append_nil, List.nil_append] at hquiet hloud
    exact ⟨g, w', part.1, part.2, hg, hyields, htold, (htold.sifted hquiet).symm.trans hloud⟩

end Instance

end RuleFlow
