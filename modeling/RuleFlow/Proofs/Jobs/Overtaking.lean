import RuleFlow.Proofs.Jobs.Concourse
import RuleFlow.Proofs.Traversal.Failure

/-!
# Traversals that a stop overtakes

A stop takes the graph of a chain away from the graphs that run and closes its handlers, and it asks nobody. A
traversal to that graph that was looked up before is not called back: it waits for its permit, starts and goes on
from node to node as if nothing had happened, and so a handler may be used after it was closed
(`Concourse.used_closed_late`).

This is the only way. A look finds running graphs alone, and while a graph runs none of its handlers is closed,
so a handler that was closed is used only if a stop has overtaken the traversal: its graph was taken away while
the traversal was bound for it (`Concourse.overtaken_of_closed`). The invariant is about the traversals that are
bound for graphs: the graph of each runs, or a stop has overtaken the traversal
(`Concourse.running_or_overtaken`). It holds because a turn only ends traversals and binds others for graphs that
run (`Concourse.exchanges_turn`).
-/

namespace RuleFlow

variable {ω η : Type} {k : Catalogue ω η}

theorem Traversal.mem_handlers_of_mem_used (t : Traversal η) {j j' : Journey ω} {handler : η}
    (h : handler ∈ t.used j j') : handler ∈ t.target.graph.handlers := by
  obtain ⟨v, -, hv⟩ := List.mem_filterMap.1 h
  obtain ⟨node, hnode, rfl⟩ := Option.map_eq_some_iff.1 hv
  exact List.mem_map_of_mem (Table.mem_values.2 ⟨_, hnode⟩)

/-- What becomes of some traversals if some of them end and others come in, each of these with a property. -/
def Traversal.Exchanges (P : Traversal η → Prop) (before after : List (Traversal η)) : Prop :=
  ∃ kept ended entering, before.Perm (kept ++ ended) ∧ after.Perm (kept ++ entering) ∧ ∀ v ∈ entering, P v

namespace Traversal.Exchanges

variable {P Q : Traversal η → Prop} {vs vs' : List (Traversal η)}

theorem of_perm (h : vs.Perm vs') : Exchanges P vs vs' := ⟨vs', [], [], by simpa using h, by simp, by simp⟩

theorem of_eq (h : vs = vs') : Exchanges P vs vs' := of_perm (.of_eq h)

theorem ends (vs : List (Traversal η)) : Exchanges P vs [] := ⟨[], vs, [], .refl _, .refl _, by simp⟩

theorem enters (h : ∀ v ∈ vs, P v) : Exchanges P [] vs := ⟨[], [], vs, .refl _, .refl _, h⟩

/-- What happens to some of the traversals happens among all of them. -/
theorem around (h : Exchanges P vs vs') (before after : List (Traversal η)) :
    Exchanges P (before ++ vs ++ after) (before ++ vs' ++ after) := by
  obtain ⟨kept, ended, entering, hbefore, hafter, hP⟩ := h
  have hlast : ∀ us us' : List (Traversal η),
      (before ++ (us ++ us') ++ after).Perm (before ++ us ++ after ++ us') := by
    intro us us'
    rw [← List.append_assoc, List.append_assoc _ us', List.append_assoc _ after]
    exact List.perm_append_comm.append_left _
  exact ⟨before ++ kept ++ after, ended, entering,
    ((hbefore.append_left before).append_right after).trans (hlast ..),
    ((hafter.append_left before).append_right after).trans (hlast ..), hP⟩

/-- What enters for one reason enters for a weaker one. -/
theorem imp (h : Exchanges P vs vs') (hPQ : ∀ v, P v → Q v) : Exchanges Q vs vs' := by
  obtain ⟨kept, ended, entering, hbefore, hafter, hP⟩ := h
  exact ⟨kept, ended, entering, hbefore, hafter, fun v hv => hPQ v (hP v hv)⟩

/-- What is there afterwards was there before or has entered. -/
theorem mem (h : Exchanges P vs vs') {v : Traversal η} (hv : v ∈ vs') : v ∈ vs ∨ P v := by
  obtain ⟨kept, ended, entering, hbefore, hafter, hP⟩ := h
  obtain hkept | hentering := List.mem_append.1 (hafter.mem_iff.1 hv)
  · exact .inl (hbefore.mem_iff.2 (List.mem_append_left _ hkept))
  · exact .inr (hP v hentering)

end Traversal.Exchanges

/-- The traversals of a job that are bound for graphs. -/
def Job.bound : Job η → List (Traversal η)
  | send ts => ts
  | traverse t => [t]
  | _ => []

theorem Job.delivers_of_mem_bound {job : Job η} {v : Traversal η} (h : v ∈ job.bound) : job.Delivers := by
  cases job <;> first | exact trivial | simp [bound] at h

/-- A job that brings no messages binds no traversals, and neither do those that go on from it. -/
theorem Job.flatMap_bound_step {k : Catalogue ω η} {place : Nat} {e : Engine ω η} {job : Job η}
    (h : ¬job.Delivers) : (job.step k place e).jobs.flatMap bound = [] := by
  refine List.flatMap_eq_nil_iff.2 fun job' hjob' => List.eq_nil_iff_forall_not_mem.2 fun v hv => ?_
  exact h ((delivers_of_mem_bound hv).of_step hjob')

/-- Whoever looks for graphs finds some that run. -/
theorem Engine.mem_values_of_listener {s : Engine ω η} {channel subTopic : String} {m : Message}
    {t : Traversal η} (h : t ∈ s.listeners channel subTopic m) :
    t.target ∈ s.instances.running.values := by
  obtain ⟨i, hi, rfl⟩ := List.mem_map.1 h
  exact (List.mem_filter.1 hi).1

theorem Engine.mem_values_of_consumer {s : Engine ω η} {adaptor : String} {m : Message}
    {t : Traversal η} (h : t ∈ s.consumers adaptor m) : t.target ∈ s.instances.running.values := by
  obtain ⟨i, hi, rfl⟩ := List.mem_map.1 h
  obtain ⟨id, -, hget⟩ := List.mem_filterMap.1 hi
  exact Table.mem_values.2 ⟨id, hget⟩

namespace Job

variable {place : Nat} {e : Engine ω η} {job : Job η}

/-- An action ends traversals of its job, or binds some for graphs that run. -/
theorem exchanges_step (k : Catalogue ω η) (place : Nat) (e : Engine ω η) (job : Job η) :
    Traversal.Exchanges (fun v => v.target ∈ e.instances.running.values ∧
        (job.step k place e).engine.instances = e.instances)
      job.bound ((job.step k place e).jobs.flatMap bound) := by
  cases job with
  | dispatch channel subTopic m =>
    refine .enters fun v hv => ⟨?_, rfl⟩
    simp only [step, List.flatMap_singleton, bound] at hv
    exact Engine.mem_values_of_listener hv
  | dispatchFrom adaptor m =>
    refine .enters fun v hv => ⟨?_, rfl⟩
    simp only [step, List.flatMap_singleton, bound] at hv
    exact Engine.mem_values_of_consumer hv
  | send ts =>
    cases ts with
    | nil => exact .ends _
    | cons t ts => exact .of_eq (by simp [step, bound])
  | traverse t => exact .ends _
  | _ => exact .of_eq (flatMap_bound_step id).symm

/-- What an action uses is a handler of a graph for which a traversal of its job is bound. -/
theorem exists_bound_of_used {handler : η} (h : .used handler ∈ (job.step k place e).deeds) :
    ∃ v ∈ job.bound, handler ∈ v.target.graph.handlers := by
  cases job with
  | traverse t =>
    obtain ⟨_, hused, ⟨⟩⟩ := List.mem_map.1 h
    exact ⟨t, List.mem_singleton_self _, t.mem_handlers_of_mem_used hused⟩
  | start c =>
    rw [step] at h
    split at h <;> simp at h
  | make chain p rest created =>
    cases rest with
    | nil => simp [step] at h
    | cons m rest =>
      rw [step] at h
      split at h <;> simp at h
  | install i =>
    rw [step] at h
    split at h <;> simp at h
  | stop id =>
    rw [step] at h
    split at h <;> simp at h
  | close handlers => cases handlers <;> simp [step] at h
  | send ts => cases ts <;> simp [step] at h
  | _ => simp [step] at h

end Job

namespace Concourse

variable {s : Concourse ω η} {t : Turn} {i : Instance η} {v : Traversal η}

/-- The traversals that were looked up and have not ended: those that wait for a permit, those that were sent and
those that are on their way through a graph. -/
def bound (s : Concourse ω η) : List (Traversal η) :=
  s.jobs.flatMap Job.bound ++ s.walks.map (·.traversal)

/-- A traversal is bound if a job or a walk is on its way with it. -/
theorem mem_bound : v ∈ s.bound ↔ (∃ job ∈ s.jobs, v ∈ job.bound) ∨ ∃ w ∈ s.walks, w.traversal = v := by
  simp [bound]

/-- The traversals that are bound, with those of one job in their place. -/
theorem bound_of_getElem? {position : Nat} {job : Job η} (h : s.jobs[position]? = some job) :
    s.bound = (s.jobs.take position).flatMap Job.bound ++ job.bound ++
      ((s.jobs.drop (position + 1)).flatMap Job.bound ++ s.walks.map (·.traversal)) := by
  conv_lhs => rw [bound, eq_take_append_of_getElem? h, List.flatMap_append, List.flatMap_cons]
  simp only [List.append_assoc]

/-- The traversals that are bound after a job has acted. -/
theorem bound_act {position : Nat} {job : Job η} (h : s.jobs[position]? = some job) (place : Nat) :
    (s.act k position place).bound =
      (s.jobs.take position).flatMap Job.bound ++ (job.step k place s.engine).jobs.flatMap Job.bound ++
        ((s.jobs.drop (position + 1)).flatMap Job.bound ++ s.walks.map (·.traversal)) := by
  rw [act_of_getElem? h]
  simp only [bound, List.flatMap_append, List.append_assoc]

/-- A turn ends some traversals, and binds others for graphs that it finds running. -/
theorem exchanges_turn (k : Catalogue ω η) (s : Concourse ω η) (t : Turn) :
    Traversal.Exchanges (fun v => v.target ∈ s.engine.instances.running.values ∧
        (s.turn k t).engine.instances = s.engine.instances) s.bound (s.turn k t).bound := by
  have htakes := takes_turn k s t
  generalize s.turn k t = s' at htakes ⊢
  cases htakes with
  | idle => exact .of_eq rfl
  | call errand =>
    have herrand : (Job.ofErrand errand : Job η).bound = [] := by cases errand <;> rfl
    exact .of_eq (by simp [bound, Floor.turn, herrand])
  | @act position place job hjob =>
    rw [bound_of_getElem? hjob, bound_act hjob, act_of_getElem? hjob]
    exact (job.exchanges_step k place s.engine).around ..
  | @launch position place t hjob =>
    have hafter : (s.launch position t).bound = (s.jobs.take position).flatMap Job.bound ++
        (((s.jobs.drop (position + 1)).flatMap Job.bound ++ s.walks.map (·.traversal)) ++ [t]) := by
      simp [bound, launch, Walk.start]
    rw [bound_of_getElem? hjob, hafter, List.append_assoc]
    exact .of_perm (List.perm_append_comm.append_left _)
  | @retire position w r hwalk =>
    have hbefore : s.bound = s.jobs.flatMap Job.bound ++ (s.walks.take position).map (·.traversal) ++
        [w.traversal] ++ (s.walks.drop (position + 1)).map (·.traversal) := by
      conv_lhs => rw [bound, eq_take_append_of_getElem? hwalk, List.map_append, List.map_cons]
      simp
    have hafter : (s.retire position w r).bound = s.jobs.flatMap Job.bound ++
        (s.walks.take position).map (·.traversal) ++ [] ++ (s.walks.drop (position + 1)).map (·.traversal) := by
      simp [bound, retire, List.eraseIdx_eq_take_drop_succ]
    rw [hbefore, hafter]
    exact (Traversal.Exchanges.ends _).around ..
  | @advance position w hwalk =>
    refine .of_eq ?_
    have hmap : (s.walks.map (·.traversal))[position]? = some w.traversal := by simp [hwalk]
    obtain ⟨hposition, hget⟩ := List.getElem?_eq_some_iff.1 hmap
    rw [bound, bound, walks_advance, List.map_set, (Walk.step_keeps k w _).1, ← hget, List.set_getElem_self]
    rfl

/-- What a turn uses is a handler of a graph for which a traversal is bound. -/
theorem exists_bound_of_used {handler : η} (h : .used handler ∈ s.deedsOf k t) :
    ∃ v ∈ s.bound, handler ∈ v.target.graph.handlers := by
  have htakes := takes_turn k s t
  rw [deedsOf] at h
  generalize s.turn k t = s' at h htakes
  cases htakes with
  | idle => simp at h
  | call errand => simp [Floor.turn] at h
  | @act position place job hjob =>
    rw [act_of_getElem? hjob, List.drop_left] at h
    obtain ⟨v, hv, hhandler⟩ := Job.exists_bound_of_used h
    exact ⟨v, mem_bound.2 (.inl ⟨job, List.mem_of_getElem? hjob, hv⟩), hhandler⟩
  | launch => simp [launch] at h
  | retire => simp [retire] at h
  | @advance position w hwalk =>
    rw [advance, List.drop_left] at h
    obtain ⟨_, hused, ⟨⟩⟩ := List.mem_map.1 h
    exact ⟨w.traversal, mem_bound.2 (.inr ⟨w, List.mem_of_getElem? hwalk, rfl⟩),
      w.traversal.mem_handlers_of_mem_used hused⟩

/-! ## Stops that overtake -/

/-- A turn is the one in which a stop takes away a graph. -/
def Removes (s : Concourse ω η) (t : Turn) (i : Instance η) : Prop :=
  ∃ position place id, t = .work position place ∧ s.jobs[position]? = some (.stop id) ∧
    s.engine.instances.get? id = some i

/-- In the course of some turns a stop took away the graph of a traversal while this was bound for it. -/
def Overtaken (k : Catalogue ω η) (s : Concourse ω η) (ts : List Turn) (v : Traversal η) : Prop :=
  ∃ before t after, ts = before ++ t :: after ∧ (s.turns k before).Removes t v.target ∧
    v ∈ (s.turns k before).bound

/-- A graph that runs goes on to run, unless a stop takes it away. -/
theorem running_turn (h : i ∈ s.engine.instances.running.values) (t : Turn) :
    i ∈ (s.turn k t).engine.instances.running.values ∨ s.Removes t i := by
  have htakes := takes_turn k s t
  generalize s.turn k t = s' at htakes ⊢
  cases htakes with
  | idle => exact .inl h
  | call errand => exact .inl h
  | @act position place job hjob =>
    rw [act_of_getElem? hjob]
    obtain hsame | ⟨i', -, hidle, hadded⟩ | ⟨id, i', rfl, hget, hremoved⟩ :=
      Job.instances_step k place s.engine job
    · exact .inl (hsame ▸ h)
    · refine .inl ?_
      have hperm := Table.values_insert_perm i' hidle
      exact hadded ▸ hperm.mem_iff.2 (List.mem_cons_of_mem _ h)
    · have hperm := Table.values_perm_erase hget
      obtain rfl | hrest := List.mem_cons.1 (hperm.mem_iff.1 h)
      · exact .inr ⟨position, place, id, rfl, hjob, hget⟩
      · exact .inl (hremoved ▸ hrest)
  | launch => exact .inl h
  | retire =>
    refine .inl ?_
    rwa [retire, Engine.instances_conclude]
  | advance => exact .inl h

theorem bound_opened (e : Engine ω η) (permits : Nat) : (opened e permits).bound = [] := rfl

theorem Overtaken.concat {ts : List Turn} (h : Overtaken k s ts v) (t : Turn) :
    Overtaken k s (ts ++ [t]) v := by
  obtain ⟨before, t', after, rfl, hremoves, hbound⟩ := h
  exact ⟨before, t', after ++ [t], by simp, hremoves, hbound⟩

/-- The graph for which a traversal is bound runs, or a stop has overtaken the traversal. -/
theorem running_or_overtaken (e : Engine ω η) (permits : Nat) (ts : List Turn)
    (h : v ∈ ((opened e permits).turns k ts).bound) :
    v.target ∈ ((opened e permits).turns k ts).engine.instances.running.values ∨
      Overtaken k (opened e permits) ts v := by
  induction ts using List.reverseRecOn with
  | nil => simp [turns, bound_opened] at h
  | append_singleton ts t ih =>
    rw [turns_concat] at h ⊢
    obtain hbound | ⟨hrunning, hsame⟩ := (exchanges_turn k _ t).mem h
    · obtain hrunning | hovertaken := ih hbound
      · obtain hrunning | hremoves := running_turn (k := k) hrunning t
        · exact .inl hrunning
        · exact .inr ⟨ts, t, [], rfl, hremoves, hbound⟩
      · exact .inr (hovertaken.concat t)
    · exact .inl (hsame ▸ hrunning)

/-- No handler of a graph that runs was closed, if every handler that was made is a new one. -/
theorem not_mem_closed_of_running {s : Concourse ω η} (hs : s.Balanced) (hmade : s.made.Nodup)
    (hi : i ∈ s.engine.instances.running.values) {handler : η} (h : handler ∈ i.graph.handlers) :
    handler ∉ s.closed := by
  have hrunning : handler ∈ s.running := List.mem_flatMap.2 ⟨i, hi, h⟩
  have hnodup := hs.balance.nodup_iff.1 hmade
  have hdisjoint := (List.nodup_append.1 (List.nodup_append.1 hnodup).1).2.2
  exact fun hclosed => hdisjoint _ hclosed _ hrunning rfl

/-- Chains are started and stopped and messages are brought to them in any order of actions, on an engine where
every handler that is made is a new one. Whoever looks for graphs finds none with a handler that was closed, and
whatever happens next, the traversals that are bound then are those from before that have not ended, and new ones
for graphs that run. So a handler that was closed is used only in a traversal that was bound for its graph when a
stop took the graph away. -/
theorem overtaken_of_closed (e : Engine ω η) (permits : Nat) (ts : List Turn)
    (hmade : ((opened e permits).turns k ts).made.Nodup) :
    (∀ i ∈ ((opened e permits).turns k ts).engine.instances.running.values,
      ∀ handler ∈ i.graph.handlers, handler ∉ ((opened e permits).turns k ts).closed) ∧
    ∀ t : Turn,
      Traversal.Exchanges (fun v => v.target ∈ ((opened e permits).turns k ts).engine.instances.running.values)
        ((opened e permits).turns k ts).bound (((opened e permits).turns k ts).turn k t).bound ∧
      ∀ handler ∈ ((opened e permits).turns k ts).closed,
        .used handler ∈ ((opened e permits).turns k ts).deedsOf k t →
        ∃ v ∈ ((opened e permits).turns k ts).bound, handler ∈ v.target.graph.handlers ∧
          Overtaken k (opened e permits) ts v := by
  have hbalanced : ((opened e permits).turns k ts).Balanced :=
    balanced_turns (Floor.balanced_opened e) ts
  have hrunning := fun i => not_mem_closed_of_running (i := i) hbalanced hmade
  refine ⟨fun i hi handler => hrunning i hi, fun t => ⟨?_, fun handler hclosed hused => ?_⟩⟩
  · exact (exchanges_turn k _ t).imp fun v hv => hv.1
  · obtain ⟨v, hbound, hhandler⟩ := exists_bound_of_used hused
    refine ⟨v, hbound, hhandler, ?_⟩
    obtain hruns | hovertaken := running_or_overtaken e permits ts hbound
    · exact absurd hclosed (hrunning v.target hruns hhandler)
    · exact hovertaken

end Concourse

/-! ## A handler that is used after it was closed -/

/-- A definition of one probe. -/
def GraphPayload.lone : GraphPayload where
  nodes := [{ id := "hear", typeName := "recorder" }]

namespace Concourse

/-- A chain is started, a message is brought to it and its traversal is sent on its way; before that starts, the
chain is stopped and its graph is closed. -/
def lateTurns : List Turn :=
  .call (.start { id := "rc", channel := "c", subTopic := "t", payload := GraphPayload.lone.text }) ::
    List.replicate 4 (.work 0 0) ++
  .call (.dispatch "c" "t" default) :: List.replicate 2 (.work 0 0) ++
  .call (.stop "rc") :: List.replicate 2 (.work 2 0) ++ [.work 0 0]

/-- The moment at which the traversal has started and is about to enter the graph. -/
def late : Concourse World Component := (opened .fresh 1).turns Registry.withProbes.catalogue lateTurns

/-- The handler of the probe. -/
def hear : Component := .probe "hear" (.ofConfig (.object []))

theorem ran_late : late.made = [hear] ∧ late.closed = [hear] ∧
    late.deedsOf Registry.withProbes.catalogue (.walk 0) = [.used hear] := by
  decide +kernel

/-- Handlers may be used after they were closed. -/
theorem used_closed_late : late.made.Nodup ∧ hear ∈ late.closed ∧
    .used hear ∈ late.deedsOf Registry.withProbes.catalogue (.walk 0) := by
  obtain ⟨hmade, hclosed, hdeeds⟩ := ran_late
  rw [hmade, hclosed, hdeeds]
  simp

theorem overtaken_late : ∃ v ∈ late.bound, hear ∈ v.target.graph.handlers ∧
    Overtaken Registry.withProbes.catalogue (opened .fresh 1) lateTurns v := by
  obtain ⟨hmade, hclosed, hdeeds⟩ := ran_late
  have hnew : late.made.Nodup := hmade ▸ List.nodup_singleton hear
  have hbefore : hear ∈ late.closed := hclosed ▸ List.mem_singleton_self hear
  have hused : .used hear ∈ late.deedsOf Registry.withProbes.catalogue (.walk 0) :=
    hdeeds ▸ List.mem_singleton_self _
  exact ((overtaken_of_closed .fresh 1 lateTurns hnew).2 (.walk 0)).2 hear hbefore hused

end Concourse

end RuleFlow
