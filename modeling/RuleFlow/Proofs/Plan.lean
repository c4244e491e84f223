import RuleFlow.Node.Registry

/-!
# Nodes that heed what they are told

A plan heeds if it tells messages up to the first error that it is answered, ends with that error, and ends
well if there is none (`Plan.Heeds`). A node that is obedient may also fail by itself, but only before it has
told anything and not in the name of another node (`Plan.Obedient`). `Plan.ownError?` is the error with which
a plan fails by itself in given surroundings; a plan that heeds has none.

The built-in nodes heed, whatever the services are that they call on (`Component.heeds_handleOver`): an error of
a service becomes a message under the label of failures. Probes are obedient unless they are told to fail in the
name of another node (`Component.obedient_handle`).

A plan that only ends with the first error that it is answered yields (`Plan.Yields`): it may also fail after it
has told messages, with any error, which is then one that it makes itself (`Plan.Makes`). Every component does so
(`Component.yields_handle`).
-/

namespace RuleFlow

variable {ω : Type}

/-- The error of a node that ends so, if it is one. -/
def Outcome.error? (o : Outcome) : Option RuleError :=
  match o.result with
  | .ok () => none
  | .error e => some e

namespace Plan

/-- The error with which a plan ends before it has told anything, if it does in these surroundings. -/
def ownError? : Plan ω → ω → Option RuleError
  | finish o, _ => o.error?
  | tell .., _ => none
  | reveal _ next, w => next.ownError? w
  | look next, w => (next w).ownError? w
  | change w next, _ => next.ownError? w

/-- A plan that tells nothing and ends with an error. -/
def Surrenders (e : RuleError) : Plan ω → Prop
  | finish o => o = .failed e
  | tell .. => False
  | reveal _ next => next.Surrenders e
  | look next => ∀ w, (next w).Surrenders e
  | change _ next => next.Surrenders e

/-- A plan that tells messages up to the first error, and ends with it or, without one, well. -/
def Heeds : Plan ω → Prop
  | finish o => o = .done
  | tell _ _ next => (next (.ok ())).Heeds ∧ ∀ e, (next (.error e)).Surrenders e
  | reveal _ next => next.Heeds
  | look next => ∀ w, (next w).Heeds
  | change _ next => next.Heeds

/-- A plan that heeds from its first message on. Before that it may fail by itself, by a panic or with an
error that does not already name a node. -/
def Obedient : Plan ω → Prop
  | finish o => ∀ e, o = .failed e → e.kind ≠ .nodeFailed
  | tell label m next => (tell label m next).Heeds
  | reveal _ next => next.Obedient
  | look next => ∀ w, (next w).Obedient
  | change _ next => next.Obedient

/-- A plan that ends with the first error that it is answered. Of its own it may end as it likes, also after
it has told messages. -/
def Yields : Plan ω → Prop
  | finish _ => True
  | tell _ _ next => (next (.ok ())).Yields ∧ ∀ e, (next (.error e)).Surrenders e
  | reveal _ next => next.Yields
  | look next => ∀ w, (next w).Yields
  | change _ next => next.Yields

/-- A plan that may end with an error of its own, if all goes well that it tells. -/
def Makes (e : RuleError) : Plan ω → Prop
  | finish o => o.result = .error e
  | tell _ _ next => (next (.ok ())).Makes e
  | reveal _ next => next.Makes e
  | look next => ∃ w, (next w).Makes e
  | change _ next => next.Makes e

/-- A plan that heeds what it is told yields to errors. -/
theorem Heeds.yields {p : Plan ω} (h : p.Heeds) : p.Yields := by
  induction p with
  | finish o => trivial
  | tell label m next ih => exact ⟨ih _ h.1, h.2⟩
  | reveal e next ih => exact ih h
  | look next ih => exact fun w => ih w (h w)
  | change w next ih => exact ih h

theorem Heeds.obedient {p : Plan ω} (h : p.Heeds) : p.Obedient := by
  induction p with
  | finish o =>
    rintro e rfl
    cases h
  | tell label m next => exact h
  | reveal e next ih => exact ih h
  | look next ih => exact fun w => ih w (h w)
  | change w next ih => exact ih h

/-- A plan that heeds what it is told makes no error of its own. -/
theorem Heeds.ownError?_eq_none {p : Plan ω} (h : p.Heeds) (w : ω) : p.ownError? w = none := by
  induction p generalizing w with
  | finish o =>
    cases h
    rfl
  | tell label m next => rfl
  | reveal e next ih => exact ih h w
  | look next ih => exact ih w (h w) w
  | change w' next ih => exact ih h w'

@[simp] theorem heeds_forward (label : String) (m : Message) : (forward label m : Plan ω).Heeds :=
  ⟨rfl, fun _ => rfl⟩

@[simp] theorem heeds_succeed (m : Message) : (succeed m : Plan ω).Heeds := heeds_forward ..

@[simp] theorem heeds_divert (m : Message) (e : RuleError) : (divert m e : Plan ω).Heeds :=
  heeds_forward ..

@[simp] theorem heeds_forwardAll (m : Message) (labels : List String) :
    (forwardAll m labels : Plan ω).Heeds := by
  induction labels with
  | nil => rfl
  | cons label labels ih => exact ⟨ih, fun _ => rfl⟩

end Plan

namespace Query

variable {α : Type}

/-- A query heeds what it is told if all that follows does. -/
theorem heeds_plan {next : Result α → Plan ω} (h : ∀ r, (next r).Heeds) (q : Query ω α) :
    (q.plan next).Heeds := by
  induction q with
  | answer r => exact h r
  | look q ih => exact fun w => ih w
  | change w q ih => exact ih

/-- Whether a call for a message is answered or goes wrong, the node heeds. -/
theorem heeds_orDivert {next : α → Plan ω} (h : ∀ a, (next a).Heeds) (q : Query ω α) (m : Message) :
    (q.orDivert m next).Heeds := by
  refine heeds_plan (fun r => ?_) q
  cases r with
  | ok a => exact h a
  | error e => exact Plan.heeds_divert m e

end Query

/-! ## Components -/

/-- A probe is obedient unless it is told to fail in the name of another node. -/
theorem Probe.obedient_handle {p : Probe} (h : ∀ e, p.failure = some e → e.kind ≠ .nodeFailed)
    (ctx : Context) (m : Message) : (p.handle ctx m : Plan ω).Obedient := by
  simp only [handle, Plan.Obedient]
  split
  · rintro e ⟨⟩
  · rename_i e _ hfailure
    rintro _ ⟨⟩
    exact h e hfailure
  · refine Plan.Heeds.obedient ?_
    unfold pass
    split <;> simp

/-- Whatever a probe is told to do, it ends with the first error that it is answered. -/
theorem Probe.yields_handle (p : Probe) (ctx : Context) (m : Message) : (p.handle ctx m : Plan ω).Yields := by
  simp only [handle, Plan.Yields]
  split
  · trivial
  · trivial
  · refine Plan.Heeds.yields ?_
    unfold pass
    split <;> simp

namespace Component

/-- Whether a component is of a built-in type. -/
def isBuiltin : Component → Bool
  | probe .. => false
  | _ => true

theorem exists_probe {c : Component} (h : c.isBuiltin = false) : ∃ id p, c = .probe id p := by
  cases c with
  | probe id p => exact ⟨id, p, rfl⟩
  | _ => cases h

/-- The built-in nodes heed over any services: what goes wrong in their own work is forwarded as a failure. -/
theorem heeds_handleOver {c : Component} (h : c.isBuiltin = true) (s : Services ω) (ctx : Context)
    (m : Message) : (c.handleOver s ctx m).Heeds := by
  cases c with
  | log n => exact Plan.heeds_succeed m
  | saveAttributes n =>
    simp only [handleOver, SaveAttributesNode.handle]
    split
    · exact Plan.heeds_divert ..
    · exact Query.heeds_orDivert (fun _ => Plan.heeds_succeed m) _ m
  | createRelation n =>
    simp only [handleOver, CreateRelationNode.handle]
    split
    · exact Plan.heeds_divert ..
    · exact Query.heeds_orDivert (fun _ => Plan.heeds_succeed _) _ m
  | mqtt n => exact Query.heeds_orDivert (fun _ => Plan.heeds_succeed m) _ m
  | rest n =>
    refine Query.heeds_orDivert (fun r => ?_) _ m
    split
    · exact Plan.heeds_succeed _
    · exact Plan.heeds_divert ..
  | filter n =>
    refine Query.heeds_orDivert (fun b => ?_) _ m
    cases b <;> exact Plan.heeds_forward ..
  | switch n => exact Query.heeds_orDivert (fun _ => Plan.heeds_forwardAll ..) _ m
  | transform n => exact Query.heeds_orDivert (fun made => Plan.heeds_succeed made) _ m
  | probe id p => cases h

theorem heeds_handle {c : Component} (h : c.isBuiltin = true) (ctx : Context) (m : Message) :
    (c.handle ctx m).Heeds := heeds_handleOver h .world ctx m

/-- Whether a component is a probe that is told to fail in the name of another node. -/
def impersonates : Component → Bool
  | probe _ p => p.failure.any (·.kind = .nodeFailed)
  | _ => false

/-- Components are obedient unless they are such probes. -/
theorem obedient_handle {c : Component} (h : c.impersonates = false) (ctx : Context) (m : Message) :
    (c.handle ctx m).Obedient := by
  cases hc : c.isBuiltin with
  | true => exact (heeds_handle hc ctx m).obedient
  | false =>
    obtain ⟨id, p, rfl⟩ := exists_probe hc
    refine Probe.obedient_handle (fun e he => ?_) ctx m
    simpa [impersonates, he] using h

/-- All components end with the first error that they are answered. -/
theorem yields_handle (c : Component) (ctx : Context) (m : Message) : (c.handle ctx m).Yields := by
  cases hc : c.isBuiltin with
  | true => exact (heeds_handle hc ctx m).yields
  | false =>
    obtain ⟨id, p, rfl⟩ := exists_probe hc
    exact p.yields_handle ctx m

end Component

end RuleFlow
