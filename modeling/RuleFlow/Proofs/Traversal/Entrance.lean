import RuleFlow.Engine
import RuleFlow.Proofs.Traversal.Run

/-!
# Where messages enter

A traversal of a sound graph is seen in the visits of a run: its message is received once inside of no other
node, at the entry, and everything else that it visits is inside of some node (`Instance.Receives.inside`).
So the visits that are inside of no node list the traversals that an engine has run, each at its entry and in
order (`Engine.entrances_traverseAll`).
-/

namespace RuleFlow

variable {ω η : Type}

/-- The visits that are inside of no node. -/
def Journey.entrances (j : Journey ω) : List Visit := j.visits.filter (·.within = [])

/-- The visit with which a traversal starts. -/
def Traversal.entrance (t : Traversal η) : Visit := ⟨[], t.target.graph.entry, t.message⟩

namespace Instance

variable {k : Catalogue ω η} {i : Instance η}

mutual

/-- A message is received at its node first; all later visits are inside another. -/
theorem Receives.inside {within : List String} {id : String} {m : Message} {j j' : Journey ω}
    {r : Result Unit} (h : Receives k i within id m j r j') :
    ∃ j₁ : Journey ω, j₁.visits = j.visits ++ [⟨within, id, m⟩] ∧
      j₁.Adds (fun v => v.within ≠ []) j' :=
  match h with
  | .handle _ hcarries =>
    ⟨_, visits_enter .., hcarries.inside.trans (.of_eq (visits_leave ..))⟩
termination_by structural h

theorem Carries.inside {within : List String} {id : String} {plan : Plan ω} {j j' : Journey ω}
    {o : Outcome} (h : Carries k i within id plan j o j') : j.Adds (fun v => v.within ≠ []) j' :=
  match h with
  | .finish _ _ => .of_eq rfl
  | .tell hdelivers hcarries => hdelivers.inside.trans hcarries.inside
  | .reveal hcarries => (hcarries.inside :)
  | .look hcarries => hcarries.inside
  | .change hcarries => (hcarries.inside :)
termination_by structural h

/-- What deliveries visit is inside the node that delivers. -/
theorem Delivers.inside {within : List String} {id : String} {targets : List String} {m : Message}
    {j j' : Journey ω} {r : Result Unit} (h : Delivers k i within id targets m j r j') :
    j.Adds (fun v => v.within ≠ []) j' :=
  match h with
  | .done _ _ => .of_eq rfl
  | .next hreceives hdelivers =>
    have ⟨_, henter, hinside⟩ := hreceives.inside
    (Journey.Adds.trans ⟨_, henter, by simp⟩ hinside).trans hdelivers.inside
  | .fail hreceives =>
    have ⟨_, henter, hinside⟩ := hreceives.inside
    .trans ⟨_, henter, by simp⟩ hinside
termination_by structural h

end

end Instance

/-- Visits inside others are no entrances. -/
theorem Journey.Adds.entrances_eq {j j' : Journey ω} (h : j.Adds (fun v => v.within ≠ []) j') :
    j'.entrances = j.entrances := by
  obtain ⟨vs, hvs, hinside⟩ := h
  have hnone : vs.filter (·.within = []) = [] := by simpa using hinside
  rw [entrances, hvs, List.filter_append, hnone, List.append_nil, entrances]

namespace Engine

variable {k : Catalogue ω η}

/-- A traversal is a run of its graph. -/
theorem journey_traverse (s : Engine ω η) (t : Traversal η) :
    (s.traverse k t).journey = (t.target.receive k t.message s.journey).2 := by
  unfold traverse
  split <;> simp [*]

theorem entrances_traverse {t : Traversal η} (ht : t.target.graph.Sound) (s : Engine ω η) :
    (s.traverse k t).journey.entrances = s.journey.entrances ++ [t.entrance] := by
  obtain ⟨j₁, henter, hinside⟩ := (Instance.receives_receive (k := k) ht t.message s.journey).inside
  rw [journey_traverse, hinside.entrances_eq, Journey.entrances, henter, List.filter_append]
  rfl

/-- The traversals of sound graphs that an engine runs enter one after the other, each at its entry. -/
theorem entrances_traverseAll {ts : List (Traversal η)} (hts : ∀ t ∈ ts, t.target.graph.Sound)
    (s : Engine ω η) :
    (s.traverseAll k ts).journey.entrances = s.journey.entrances ++ ts.map (·.entrance) := by
  induction ts generalizing s with
  | nil => simp [traverseAll]
  | cons t ts ih =>
    obtain ⟨ht, hts⟩ := List.forall_mem_cons.1 hts
    have hrest := ih hts (s.traverse k t)
    rwa [entrances_traverse ht, List.append_assoc, List.singleton_append] at hrest

end Engine

end RuleFlow
