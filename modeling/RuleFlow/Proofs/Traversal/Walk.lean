import RuleFlow.Engine
import RuleFlow.Proofs.Traversal.Run

/-!
# Traversals step by step

A traversal under way that others may interrupt is a `Walk`: what it does next, and the nodes that wait for an
answer, innermost first. In one step a node receives its message and begins to handle it, or does the next thing
of its plan, or an answer goes to the node that waits for it (`Walk.step`). Between two steps the surroundings
may be changed by others.

A walk that nobody interrupts comes to its end with the answer and the journey of the run
(`Walk.leads_of_receives`), so walks cut traversals into steps and change nothing else about them
(`Walk.leads_start`).
-/

namespace RuleFlow

variable {ω η : Type}

/-- What a walk does next. -/
inductive Stage (ω η : Type) where
  /-- A node receives a message inside the handling of others. -/
  | receive (within : List String) (id : String) (m : Message)
  /-- A node does the next thing of what is left of its plan. -/
  | carry (within : List String) (id : String) (node : Node η) (plan : Plan ω)
  /-- An answer goes to the node that waits for it. -/
  | answer (r : Result Unit)

/-- A node that tells a message to others and waits for the answer, with those that are still to be told and
what it does then. -/
structure Waiting (ω η : Type) where
  within : List String
  id : String
  node : Node η
  targets : List String
  message : Message
  next : Result Unit → Plan ω

/-- A traversal under way. -/
structure Walk (ω η : Type) where
  traversal : Traversal η
  stage : Stage ω η
  waiting : List (Waiting ω η) := []

namespace Walk

/-- A traversal whose message is about to enter. -/
def start (t : Traversal η) : Walk ω η where
  traversal := t
  stage := .receive [] t.target.graph.entry t.message

/-- The answer of a walk that is over. -/
def result? (w : Walk ω η) : Option (Result Unit) :=
  match w.stage, w.waiting with
  | .answer r, [] => some r
  | _, _ => none

/-- Lets a node tell the next of its successors, or go on when all were told. -/
def deliver (t : Traversal η) (x : Waiting ω η) (waiting : List (Waiting ω η)) : Walk ω η :=
  match x.targets with
  | [] => ⟨t, .carry x.within x.id x.node (x.next (.ok ())), waiting⟩
  | target :: targets =>
    ⟨t, .receive (x.id :: x.within) target x.message, { x with targets } :: waiting⟩

/-- Does the next step of a walk; one that is over stays as it is. -/
def step (k : Catalogue ω η) : Walk ω η → Journey ω → Walk ω η × Journey ω
  | ⟨t, .receive within id m, waiting⟩, j =>
    match t.target.graph.nodes.get? id with
    | none => (⟨t, .answer (.error (.graph (.missingNode id))), waiting⟩, j)
    | some node =>
      (⟨t, .carry within id node (k.handle node.handler (t.target.context id node) m), waiting⟩,
        t.target.enter within id node m j)
  | ⟨t, .carry _ id node (.finish o), waiting⟩, j =>
    (⟨t, .answer (t.target.leave id node o j).1, waiting⟩, (t.target.leave id node o j).2)
  | ⟨t, .carry within id node (.tell label m next), waiting⟩, j =>
    (deliver t ⟨within, id, node, t.target.graph.targets id label, m, next⟩ waiting, j)
  | ⟨t, .carry within id node (.reveal e next), waiting⟩, j =>
    (⟨t, .carry within id node next, waiting⟩, j.reveal e)
  | ⟨t, .carry within id node (.look next), waiting⟩, j =>
    (⟨t, .carry within id node (next j.world), waiting⟩, j)
  | ⟨t, .carry within id node (.change world next), waiting⟩, j =>
    (⟨t, .carry within id node next, waiting⟩, { j with world })
  | ⟨t, .answer (.ok ()), x :: waiting⟩, j => (deliver t x waiting, j)
  | ⟨t, .answer (.error e), x :: waiting⟩, j =>
    (⟨t, .carry x.within x.id x.node (x.next (.error e)), waiting⟩, j)
  | ⟨t, .answer r, []⟩, j => (⟨t, .answer r, []⟩, j)

/-- Does some steps of a walk that nobody interrupts. -/
def steps (k : Catalogue ω η) : Nat → Walk ω η → Journey ω → Walk ω η × Journey ω
  | 0, w, j => (w, j)
  | n + 1, w, j => steps k n (w.step k j).1 (w.step k j).2

theorem traversal_deliver (t : Traversal η) (x : Waiting ω η) (waiting : List (Waiting ω η)) :
    (deliver t x waiting).traversal = t := by
  unfold deliver
  split <;> rfl

/-- A step leaves the traversal as it is and adds at most one visit. -/
theorem step_keeps (k : Catalogue ω η) (w : Walk ω η) (j : Journey ω) :
    (w.step k j).1.traversal = w.traversal ∧ ∃ vs, (w.step k j).2.visits = j.visits ++ vs := by
  have hnone : ∃ vs, j.visits = j.visits ++ vs := ⟨[], (List.append_nil _).symm⟩
  fun_cases step k w j with
  | case1 => exact ⟨rfl, hnone⟩
  | case2 => exact ⟨rfl, _, Instance.visits_enter ..⟩
  | case3 => exact ⟨rfl, [], by simp⟩
  | case4 => exact ⟨traversal_deliver .., hnone⟩
  | case8 => exact ⟨traversal_deliver .., hnone⟩
  | _ => exact ⟨rfl, hnone⟩

/-! ## Walks that nobody interrupts -/

/-- A walk comes to another over some steps that nobody interrupts. -/
def Leads (k : Catalogue ω η) (w : Walk ω η) (j : Journey ω) (w' : Walk ω η) (j' : Journey ω) : Prop :=
  ∃ n, w.steps k n j = (w', j')

namespace Leads

variable {k : Catalogue ω η} {w w₁ w' : Walk ω η} {j j₁ j' : Journey ω}

protected theorem refl (w : Walk ω η) (j : Journey ω) : Leads k w j w j := ⟨0, rfl⟩

theorem head (hstep : w.step k j = (w₁, j₁)) (h : Leads k w₁ j₁ w' j') : Leads k w j w' j' := by
  obtain ⟨n, hn⟩ := h
  refine ⟨n + 1, ?_⟩
  rw [steps, hstep]
  exact hn

theorem trans (h₁ : Leads k w j w₁ j₁) (h₂ : Leads k w₁ j₁ w' j') : Leads k w j w' j' := by
  obtain ⟨n, hn⟩ := h₁
  induction n generalizing w j with
  | zero =>
    obtain ⟨rfl, rfl⟩ := Prod.mk.inj hn
    exact h₂
  | succ n ih => exact head rfl (ih hn)

end Leads

end Walk

namespace Instance

variable {k : Catalogue ω η} {t : Traversal η}

open Walk (Leads)

mutual

/-- A node that received a message answers, and whoever waited before waits still. -/
theorem Receives.leads {within : List String} {id : String} {m : Message} {j j' : Journey ω}
    {r : Result Unit} (waiting : List (Waiting ω η)) (h : Receives k t.target within id m j r j') :
    Leads k ⟨t, .receive within id m, waiting⟩ j ⟨t, .answer r, waiting⟩ j' :=
  match h with
  | .handle hnode hcarries =>
    .head (by simp only [Walk.step, hnode]) (hcarries.leads _ waiting)
termination_by structural h

theorem Carries.leads {within : List String} {id : String} {plan : Plan ω} {j j' : Journey ω}
    {o : Outcome} (node : Node η) (waiting : List (Waiting ω η))
    (h : Carries k t.target within id plan j o j') :
    Leads k ⟨t, .carry within id node plan, waiting⟩ j
      ⟨t, .answer (t.target.leave id node o j').1, waiting⟩ (t.target.leave id node o j').2 :=
  match h with
  | .finish _ _ => .head rfl (.refl ..)
  | .tell hdelivers hcarries =>
    .head rfl ((hdelivers.leads node _ waiting).trans (hcarries.leads node waiting))
  | .reveal hcarries => .head rfl (hcarries.leads node waiting)
  | .look hcarries => .head rfl (hcarries.leads node waiting)
  | .change hcarries => .head rfl (hcarries.leads node waiting)
termination_by structural h

/-- A walk leads through deliveries, one after the other. -/
theorem Delivers.leads {within : List String} {id : String} {targets : List String} {m : Message}
    {j j' : Journey ω} {r : Result Unit} (node : Node η) (next : Result Unit → Plan ω)
    (waiting : List (Waiting ω η)) (h : Delivers k t.target within id targets m j r j') :
    Leads k (Walk.deliver t ⟨within, id, node, targets, m, next⟩ waiting) j
      ⟨t, .carry within id node (next r), waiting⟩ j' :=
  match h with
  | .done _ _ => .refl ..
  | .next hreceives hdelivers =>
    (hreceives.leads _).trans (.head rfl (hdelivers.leads node next waiting))
  | .fail hreceives => (hreceives.leads _).trans (.head rfl (.refl ..))
termination_by structural h

end

end Instance

namespace Walk

/-- A traversal of a sound graph that goes on step by step and is never interrupted ends as it does at once. -/
theorem leads_start {k : Catalogue ω η} {t : Traversal η} (ht : t.target.graph.Sound) (j : Journey ω) :
    Leads k (start t) j ⟨t, .answer (t.target.receive k t.message j).1, []⟩
      (t.target.receive k t.message j).2 :=
  (Instance.receives_receive ht t.message j).leads []

end Walk

end RuleFlow
