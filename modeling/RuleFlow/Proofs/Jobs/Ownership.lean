import Mathlib.Algebra.Order.Group.Multiset
import Mathlib.Tactic.Abel
import RuleFlow.Jobs
import RuleFlow.Proofs.Graph.Compile
import RuleFlow.Proofs.Instances
import RuleFlow.Proofs.Table

/-!
# Every handler is closed once

While callers start, stop, delete and check chains at the same time, a handler that was made is held by
exactly one party: by a job that has made it or taken it away (`Job.held`), by a graph that runs, or by
nobody any more because it was closed. One action moves handlers from one party to another and neither loses
nor doubles one (`Job.balances_step`), so the account is balanced at all times (`Floor.Balanced.turns`). When
all jobs that are left only bring messages, what was made and not closed is what runs
(`Floor.accounted_turns`).
-/

namespace RuleFlow

variable {ω η : Type}

namespace GraphPayload

theorem nodup_firstAfter (seen : List String) (ns : List NodeSpec) :
    ((firstAfter seen ns).map (·.id)).Nodup ∧ ∀ n ∈ firstAfter seen ns, n.id ∉ seen := by
  induction ns generalizing seen with
  | nil => simp [firstAfter]
  | cons n ns ih =>
    rw [firstAfter]
    split
    case isTrue => exact ih seen
    case isFalse hn =>
      obtain ⟨hd, hnew⟩ := ih (n.id :: seen)
      constructor
      · rw [List.map_cons, List.nodup_cons]
        refine ⟨fun hmem => ?_, hd⟩
        obtain ⟨m, hm, hid⟩ := List.mem_map.1 hmem
        exact hnew m hm (hid ▸ List.mem_cons_self)
      · intro m hm
        rcases List.mem_cons.1 hm with rfl | hm
        · exact hn
        · exact fun hmem => hnew m hm (List.mem_cons_of_mem _ hmem)

theorem nodup_distinctNodes (p : GraphPayload) : (p.distinctNodes.map (·.id)).Nodup :=
  (nodup_firstAfter [] p.nodes).1

end GraphPayload

namespace Graph

theorem made_append (created : List (NodeSpec × Result η)) (n : NodeSpec) (r : Result η) :
    made (created ++ [(n, r)]) = made created ++ r.toOption.toList.map (n, ·) := by
  rw [made, List.filterMap_append, ← made]
  cases r <;> rfl

/-- The nodes whose handlers were made are among those that were tried, in order. -/
theorem ids_made_sublist (created : List (NodeSpec × Result η)) :
    ((made created).map (·.1.id)).Sublist (created.map (·.1.id)) := by
  induction created with
  | nil => exact .refl _
  | cons x created ih =>
    obtain ⟨n, e | handler⟩ := x
    · exact ih.trans (List.sublist_cons_self ..)
    · exact ih.cons_cons _

/-- A graph holds each handler that it was assembled from, if they belong to different nodes. -/
theorem handlers_assemble_perm (p : GraphPayload) {hs : List (NodeSpec × η)}
    (hd : (hs.map (·.1.id)).Nodup) : (assemble p hs).handlers.Perm (hs.map (·.2)) := by
  rw [handlers, assemble]
  refine ((Table.values_ofList_perm ?_).map _).trans (.of_eq ?_)
  · rw [List.map_map]
    exact hd
  · rw [List.map_map, List.map_map]
    rfl

end Graph

/-! ## Who holds a handler -/

namespace Job

/-- The handlers that a job has made or taken away and has not given up yet. -/
def held : Job η → List η
  | make _ _ _ created => (Graph.made created).map (·.2)
  | install i => i.graph.handlers
  | close handlers => handlers
  | _ => []

/-- Handlers are made for different nodes. -/
def Distinct : Job η → Prop
  | make _ _ rest created => (created.map (·.1.id) ++ rest.map (·.id)).Nodup
  | _ => True

/-- A job only brings messages to graphs. -/
def Delivers : Job η → Prop
  | dispatch .. | dispatchFrom .. | send _ | traverse _ => True
  | _ => False

theorem Delivers.held_eq {job : Job η} (h : job.Delivers) : job.held = [] := by
  cases job <;> first | rfl | exact h.elim

theorem held_ofErrand (errand : Errand) : (ofErrand errand : Job η).held = [] := by
  cases errand <;> rfl

theorem distinct_ofErrand (errand : Errand) : (ofErrand errand : Job η).Distinct := by
  cases errand <;> exact trivial

theorem held_of_mem_ofPayload {chain : Option Chain} {payload : List UInt8} {job : Job η}
    (h : job ∈ ofPayload chain payload) : job.held = [] ∧ job.Distinct := by
  unfold ofPayload at h
  split at h
  · simp at h
  case h_2 p _ =>
    split at h
    · simp at h
    · obtain rfl := List.mem_singleton.1 h
      exact ⟨rfl, GraphPayload.nodup_distinctNodes p⟩

/-- Whatever comes of a definition, the job that goes on holds all handlers that were made for it. -/
theorem held_ofCreated_perm (chain : Option Chain) (p : GraphPayload)
    {created : List (NodeSpec × Result η)} (hd : (created.map (·.1.id)).Nodup) :
    (ofCreated chain p created).held.Perm ((Graph.made created).map (·.2)) := by
  unfold ofCreated
  cases hconclude : Graph.conclude p created with
  | error es => exact .refl _
  | ok g =>
    have hg : Graph.assemble p (Graph.made created) = g := by
      unfold Graph.conclude at hconclude
      split at hconclude
      · exact Except.ok.inj hconclude
      · simp at hconclude
    have hperm : g.handlers.Perm ((Graph.made created).map (·.2)) :=
      hg ▸ Graph.handlers_assemble_perm p (hd.sublist (Graph.ids_made_sublist created))
    cases chain with
    | none => exact hperm
    | some c => exact hperm

theorem distinct_ofCreated (chain : Option Chain) (p : GraphPayload)
    (created : List (NodeSpec × Result η)) : (ofCreated chain p created).Distinct := by
  unfold ofCreated
  cases Graph.conclude p created with
  | error es => exact trivial
  | ok g => cases chain <;> exact trivial

end Job

/-! ## One action -/

namespace Instances

theorem install_eq_some {i : Instance η} {s s' : Instances η} (h : s.install i = some s') :
    s.get? i.id = none ∧ s' = s.added i := by
  unfold install at h
  split at h
  · simp at h
  case isFalse hidle =>
    exact ⟨isRunning_eq_false_iff.1 (Bool.eq_false_iff.2 hidle), (Option.some.inj h).symm⟩

theorem remove_eq_some {id : String} {i : Instance η} {s s' : Instances η}
    (h : s.remove id = some (i, s')) : s.get? id = some i ∧ s' = s.removed id i := by
  obtain ⟨i', hi', hpair⟩ := Option.map_eq_some_iff.1 h
  obtain ⟨rfl, rfl⟩ := Prod.mk.inj hpair
  exact ⟨hi', rfl⟩

/-- The handlers of an instance that is added are owned with the others. -/
theorem handlers_added {i : Instance η} {s : Instances η} (h : s.get? i.id = none) :
    (s.added i).handlers.Perm (i.graph.handlers ++ s.handlers) :=
  (Table.values_insert_perm i h).flatMap_right _

/-- The handlers of an instance that is removed are no longer owned. -/
theorem handlers_removed {id : String} {i : Instance η} {s : Instances η} (h : s.get? id = some i) :
    s.handlers.Perm (i.graph.handlers ++ (s.removed id i).handlers) :=
  (Table.values_perm_erase h).flatMap_right _

end Instances

/-- An action gives the handlers that it finds and makes to the graphs that run and to the jobs that go on,
or closes them. -/
def Progress.Balances (job : Job η) (s : Engine ω η) (p : Progress ω η) : Prop :=
  (p.engine.instances.handlers + p.jobs.flatMap Job.held + p.deeds.filterMap Deed.closed? : Multiset η) =
    s.instances.handlers + job.held + p.deeds.filterMap Deed.made?

namespace Job

variable {k : Catalogue ω η} {place : Nat} {s : Engine ω η} {job : Job η}

/-- An action that lets one job go on with what the job before it held, and leaves what runs. -/
theorem balances_of_perm {job' : Job η} {e : Engine ω η} (he : e.instances = s.instances)
    (h : job'.held.Perm job.held) : Progress.Balances job s { jobs := [job'], engine := e } := by
  simp [Progress.Balances, he, Multiset.coe_eq_coe.2 h]

/-- An action that is the last one of a job that holds nothing, and leaves what runs. -/
theorem balances_of_held_eq {e : Engine ω η} (he : e.instances = s.instances) (h : job.held = []) :
    Progress.Balances job s { jobs := [], engine := e } := by
  simp [Progress.Balances, he, h]

theorem balances_ofPayload (chain : Option Chain) (payload : List UInt8) (h : job.held = []) :
    Progress.Balances job s { jobs := ofPayload chain payload, engine := s } := by
  have hheld : (ofPayload chain payload : List (Job η)).flatMap held = [] :=
    List.flatMap_eq_nil_iff.2 fun job' hjob' => (held_of_mem_ofPayload hjob').1
  simp [Progress.Balances, hheld, h]

/-- Installing hands the handlers of a job over to the instances, or to a job that closes them. -/
theorem balances_install (i : Instance η) :
    Progress.Balances (.install i) s ((install i).step k place s) := by
  rw [step]
  cases hinstall : s.instances.install i with
  | none => exact balances_of_perm rfl (.refl _)
  | some instances =>
    obtain ⟨hidle, rfl⟩ := Instances.install_eq_some hinstall
    have hadded := Multiset.coe_eq_coe.2 (Instances.handlers_added hidle)
    simp only [Progress.Balances, held, List.flatMap_nil, List.filterMap_nil, Multiset.coe_nil,
      add_zero, hadded, ← Multiset.coe_add]
    exact add_comm _ _

/-- Stopping hands the handlers of an instance over to a job that closes them. -/
theorem balances_stop (id : String) :
    Progress.Balances (.stop id) s ((stop id).step k place s) := by
  rw [step]
  rcases hremove : s.instances.remove id with - | ⟨i, instances⟩
  · exact balances_of_held_eq rfl rfl
  · obtain ⟨hi, rfl⟩ := Instances.remove_eq_some hremove
    have hremoved := Multiset.coe_eq_coe.2 (Instances.handlers_removed hi)
    simp only [Progress.Balances, held, List.flatMap_singleton, List.filterMap_nil, Multiset.coe_nil,
      add_zero, hremoved, ← Multiset.coe_add]
    exact add_comm _ _

/-- A handler that is made is held by the job that made it. -/
theorem balances_make (chain : Option Chain) (p : GraphPayload) (rest : List NodeSpec)
    (created : List (NodeSpec × Result η)) (hd : (make chain p rest created).Distinct) :
    Progress.Balances (make chain p rest created) s ((make chain p rest created).step k place s) := by
  cases rest with
  | nil =>
    refine balances_of_perm rfl (held_ofCreated_perm chain p ?_)
    simpa [Distinct] using hd
  | cons m rest =>
    rw [step]
    split
    · exact balances_of_perm rfl (.refl _)
    case h_2 n later _ =>
      have hmade : ∀ r : Result η, (r.toOption.toList.map Deed.made).filterMap Deed.made? =
          r.toOption.toList := by
        rintro (e | handler) <;> rfl
      have hclosed : ∀ r : Result η, (r.toOption.toList.map Deed.made).filterMap Deed.closed? = [] := by
        rintro (e | handler) <;> rfl
      simp only [Progress.Balances, held, List.flatMap_singleton, Graph.made_append, List.map_append,
        List.map_map, hmade, hclosed, ← Multiset.coe_add]
      simp [Engine.withWorld, Function.comp_def]

/-- A traversal makes and closes no handler. -/
theorem balances_traverse (t : Traversal η) :
    Progress.Balances (.traverse t) s ((traverse t).step k place s) := by
  have hsame : (s.traverse k t).instances = s.instances := Engine.instances_traverseAll k [t] s
  have hmade : ∀ hs : List η, (hs.map Deed.used).filterMap Deed.made? = [] := by
    simp [Deed.made?]
  have hclosed : ∀ hs : List η, (hs.map Deed.used).filterMap Deed.closed? = [] := by
    simp [Deed.closed?]
  simp only [Progress.Balances, step, held, hsame, hmade, hclosed, List.flatMap_nil]

/-- No action loses a handler or doubles one. -/
theorem balances_step (k : Catalogue ω η) (place : Nat) (s : Engine ω η) (hd : job.Distinct) :
    Progress.Balances job s (job.step k place s) := by
  cases job with
  | start c =>
    rw [step]
    split
    · exact balances_of_held_eq rfl rfl
    · exact balances_ofPayload _ _ rfl
  | check payload => exact balances_ofPayload none payload rfl
  | make chain p rest created => exact balances_make chain p rest created hd
  | install i => exact balances_install i
  | stop id => exact balances_stop id
  | close handlers =>
    cases handlers with
    | nil => exact balances_of_held_eq rfl rfl
    | cons handler rest =>
      simp only [Progress.Balances, step, held, Engine.withWorld, List.flatMap_singleton,
        List.filterMap_cons, List.filterMap_nil, Deed.closed?, Deed.made?, Multiset.coe_nil, add_zero,
        ← Multiset.cons_coe, ← Multiset.singleton_add]
      abel
  | dispatch channel subTopic m => exact balances_of_perm rfl (.refl _)
  | dispatchFrom adaptor m => exact balances_of_perm rfl (.refl _)
  | send ts =>
    cases ts with
    | nil => exact balances_of_held_eq rfl rfl
    | cons t ts => rfl
  | traverse t => exact balances_traverse t

/-- The nodes for which a job makes handlers stay different. -/
theorem distinct_step (k : Catalogue ω η) (place : Nat) (s : Engine ω η) (hd : job.Distinct) :
    ∀ job' ∈ (job.step k place s).jobs, job'.Distinct := by
  cases job with
  | start c =>
    rw [step]
    split
    · simp
    · exact fun job' hjob' => (held_of_mem_ofPayload hjob').2
  | check payload => exact fun job' hjob' => (held_of_mem_ofPayload hjob').2
  | make chain p rest created =>
    cases rest with
    | nil => simpa [step] using distinct_ofCreated chain p created
    | cons m rest =>
      rw [step]
      split
      · simpa using hd
      case h_2 n later hdrop =>
        simp only [List.mem_singleton, forall_eq]
        have hrest : (m :: rest).take place ++ n :: later = m :: rest :=
          hdrop ▸ List.take_append_drop place (m :: rest)
        rw [Distinct, ← hrest] at hd
        refine hd.perm ?_
        simp only [List.map_append, List.map_cons, List.map_nil, List.append_assoc]
        exact (List.perm_middle.append_left _).trans (.of_eq (by simp))
  | install i =>
    rw [step]
    split <;> simp [Distinct]
  | stop id =>
    rw [step]
    split <;> simp [Distinct]
  | close handlers => cases handlers <;> simp [step, Distinct]
  | send ts => cases ts <;> simp [step, Distinct]
  | _ => simp [step, Distinct]

/-- An action leaves the graphs that run, adds the one that it installs, or takes away the one that it stops. -/
theorem instances_step (k : Catalogue ω η) (place : Nat) (s : Engine ω η) (job : Job η) :
    (job.step k place s).engine.instances = s.instances ∨
      (∃ i, job = install i ∧ s.instances.get? i.id = none ∧
        (job.step k place s).engine.instances = s.instances.added i) ∨
      ∃ id i, job = stop id ∧ s.instances.get? id = some i ∧
        (job.step k place s).engine.instances = s.instances.removed id i := by
  cases job with
  | install i =>
    rw [step]
    cases hinstall : s.instances.install i with
    | none => exact .inl rfl
    | some instances =>
      obtain ⟨hidle, rfl⟩ := Instances.install_eq_some hinstall
      exact .inr (.inl ⟨i, rfl, hidle, rfl⟩)
  | stop id =>
    rw [step]
    rcases hremove : s.instances.remove id with - | ⟨i, instances⟩
    · exact .inl rfl
    · obtain ⟨hi, rfl⟩ := Instances.remove_eq_some hremove
      exact .inr (.inr ⟨id, i, rfl, hi, rfl⟩)
  | start c =>
    rw [step]
    split <;> exact .inl rfl
  | make chain p rest created =>
    cases rest with
    | nil => exact .inl rfl
    | cons m rest =>
      rw [step]
      split <;> exact .inl rfl
  | close handlers => cases handlers <;> exact .inl rfl
  | send ts => cases ts <;> exact .inl rfl
  | traverse t => exact .inl (Engine.instances_traverseAll k [t] s)
  | _ => exact .inl rfl

theorem keyed_step (k : Catalogue ω η) (place : Nat) (hkeyed : s.instances.Keyed) :
    (job.step k place s).engine.instances.Keyed := by
  obtain hsame | ⟨i, -, -, hadded⟩ | ⟨id, i, -, -, hremoved⟩ := instances_step k place s job
  · exact hsame ▸ hkeyed
  · exact hadded ▸ hkeyed.added i
  · exact hremoved ▸ hkeyed.removed id i

end Job

/-! ## Any interleaving -/

namespace Floor

variable {k : Catalogue ω η} {s : Floor ω η}

/-- Every handler that was made was closed, runs, or is held by a job, each in one place. -/
structure Balanced (s : Floor ω η) : Prop where
  keyed : s.engine.instances.Keyed
  distinct : ∀ job ∈ s.jobs, job.Distinct
  balance : s.made.Perm (s.closed ++ s.running ++ s.jobs.flatMap Job.held)

theorem balanced_opened (e : Engine ω η) : (opened e).Balanced where
  keyed := Instances.keyed_empty
  distinct := by simp [opened]
  balance := .refl _

theorem Balanced.call (h : s.Balanced) (errand : Errand) : (s.turn k (.call errand)).Balanced where
  keyed := h.keyed
  distinct job hjob := by
    rcases List.mem_append.1 hjob with hjob | hjob
    · exact h.distinct job hjob
    · obtain rfl := List.mem_singleton.1 hjob
      exact Job.distinct_ofErrand errand
  balance := by
    have hheld : (s.turn k (.call errand)).jobs.flatMap Job.held = s.jobs.flatMap Job.held := by
      rw [turn, List.flatMap_append, List.flatMap_singleton, Job.held_ofErrand, List.append_nil]
    rw [hheld]
    exact h.balance

/-- A job may be replaced by what goes on after an action that balances. -/
theorem Balanced.progress (h : s.Balanced) {before after : List (Job η)} {job : Job η}
    {p : Progress ω η} (hjobs : s.jobs = before ++ job :: after) (hp : p.Balances job s.engine)
    (hkeyed : p.engine.instances.Keyed) (hdistinct : ∀ job' ∈ p.jobs, job'.Distinct) :
    Balanced { engine := p.engine, jobs := before ++ p.jobs ++ after, deeds := s.deeds ++ p.deeds } where
  keyed := hkeyed
  distinct job' hjob' := by
    have hold := h.distinct
    simp only [hjobs, List.mem_append, List.mem_cons] at hold hjob'
    obtain (hjob' | hjob') | hjob' := hjob'
    · exact hold job' (.inl hjob')
    · exact hdistinct job' hjob'
    · exact hold job' (.inr (.inr hjob'))
  balance := by
    have hbalance := Multiset.coe_eq_coe.2 h.balance
    rw [Progress.Balances] at hp
    simp only [hjobs, made, closed, running, List.filterMap_append, List.flatMap_append,
      List.flatMap_cons, ← Multiset.coe_add, ← Multiset.coe_eq_coe] at hbalance ⊢
    rw [hbalance]
    generalize (s.deeds.filterMap Deed.closed? : Multiset η) = closed,
      (before.flatMap Job.held : Multiset η) = earlier,
      (after.flatMap Job.held : Multiset η) = later
    calc closed + s.engine.instances.handlers + (earlier + (job.held + later)) +
          p.deeds.filterMap Deed.made?
        = closed + earlier + later + (s.engine.instances.handlers + job.held +
            p.deeds.filterMap Deed.made?) := by abel
      _ = closed + earlier + later + (p.engine.instances.handlers + p.jobs.flatMap Job.held +
            p.deeds.filterMap Deed.closed?) := by rw [hp]
      _ = closed + p.deeds.filterMap Deed.closed? + p.engine.instances.handlers +
            (earlier + p.jobs.flatMap Job.held + later) := by abel

theorem Balanced.work (h : s.Balanced) (position place : Nat) :
    (s.turn k (.work position place)).Balanced := by
  rw [turn]
  cases hjob : s.jobs[position]? with
  | none => exact h
  | some job =>
    obtain ⟨hposition, rfl⟩ := List.getElem?_eq_some_iff.1 hjob
    have hdistinct := h.distinct _ (List.getElem_mem hposition)
    have hjobs : s.jobs = s.jobs.take position ++ s.jobs[position] :: s.jobs.drop (position + 1) := by
      rw [List.getElem_cons_drop, List.take_append_drop]
    exact h.progress hjobs (Job.balances_step k place s.engine hdistinct)
      (Job.keyed_step k place h.keyed) (Job.distinct_step k place s.engine hdistinct)

theorem Balanced.turn (h : s.Balanced) (t : Turn) : (s.turn k t).Balanced := by
  cases t with
  | call errand => exact h.call errand
  | work position place => exact h.work position place

theorem Balanced.turns (h : s.Balanced) (ts : List Turn) : (s.turns k ts).Balanced := by
  unfold Floor.turns
  induction ts generalizing s with
  | nil => exact h
  | cons t ts ih => exact ih (h.turn t)

/-- What is owed to the handlers: none is closed more often than it was made or while it runs, and none is
forgotten once everybody who starts, stops or checks is served. If every handler that is made is a new one,
this says of each by itself that it is closed once at most, and in the end unless it runs. -/
structure Accounted (s : Floor ω η) : Prop where
  single : (s.engine.instances.running.values.map (·.id)).Nodup
  once : (s.closed ++ s.running).Subperm s.made
  settled : (∀ job ∈ s.jobs, job.Delivers) → s.made.Perm (s.closed ++ s.running)
  nodup_closed : s.made.Nodup → s.closed.Nodup
  mem_running_iff : s.made.Nodup → (∀ job ∈ s.jobs, job.Delivers) →
    ∀ handler, handler ∈ s.running ↔ handler ∈ s.made ∧ handler ∉ s.closed

/-- Where the books are in balance every handler is accounted for. -/
theorem Balanced.accounted (h : s.Balanced) : s.Accounted := by
  have hsettled : (∀ job ∈ s.jobs, job.Delivers) → s.made.Perm (s.closed ++ s.running) := by
    intro hdelivers
    have hheld : s.jobs.flatMap Job.held = [] :=
      List.flatMap_eq_nil_iff.2 fun job hjob => (hdelivers job hjob).held_eq
    simpa [hheld] using h.balance
  have honce : (s.closed ++ s.running).Subperm s.made :=
    (List.sublist_append_left ..).subperm.trans h.balance.symm.subperm
  refine ⟨h.keyed.nodup_ids, honce, hsettled, fun hmade => ?_, fun hmade hdelivers handler => ?_⟩
  · exact (List.nodup_append.1 (h.balance.nodup_iff.1 hmade |>.sublist
      (List.sublist_append_left ..))).1
  · have hperm := hsettled hdelivers
    have hdisjoint := (List.nodup_append.1 (hperm.nodup_iff.1 hmade)).2.2
    rw [hperm.mem_iff, List.mem_append]
    constructor
    · exact fun hrunning => ⟨.inr hrunning, fun hclosed => hdisjoint _ hclosed _ hrunning rfl⟩
    · rintro ⟨hclosed | hrunning, hnot⟩
      · exact absurd hclosed hnot
      · exact hrunning

/-- Whoever comes, and in whatever order the actions of all jobs follow one another, the handlers are
accounted for. -/
theorem accounted_turns (k : Catalogue ω η) (e : Engine ω η) (ts : List Turn) :
    ((opened e).turns k ts).Accounted :=
  ((balanced_opened e).turns ts).accounted

end Floor

/-- A catalogue that numbers its handlers and cannot make some. -/
def Catalogue.serial : Catalogue Nat Nat where
  create n next := if n.typeName = "broken" then (.error .unauthorized, next) else (.ok next, next + 1)
  handle _ _ m := .succeed m
  close _ next := next

/-- A definition of which one node cannot be made. -/
def GraphPayload.halfBroken : GraphPayload where
  nodes := [{ id := "a", typeName := "relay" }, { id := "b", typeName := "broken" }]

namespace Floor

/-- Two callers start one chain and look whether it runs before either has made its graph; a third starts a
chain that cannot be made, a fourth checks a definition, and a fifth stops the first chain for a sixth to
start it again. -/
def rush : Floor Nat Nat :=
  (opened { journey := ⟨0, [], []⟩, failures := { capacity := 1 } }).turns .serial <|
    [.call (.start { id := "pair", payload := GraphPayload.pair.text }),
      .call (.start { id := "pair", payload := GraphPayload.pair.text }),
      .call (.start { id := "half", payload := GraphPayload.halfBroken.text }),
      .call (.check GraphPayload.pair.text),
      .work 0 0, .work 1 0, .work 2 0, .work 3 0, .work 1 1, .work 0 0, .work 3 1, .work 2 1, .work 1 0,
      .work 1 0, .work 1 0] ++
    List.replicate 16 (.work 0 0) ++ [.call (.stop "pair")] ++ List.replicate 4 (.work 0 0) ++
    [.call (.start { id := "pair", payload := GraphPayload.pair.text })] ++
    List.replicate 5 (.work 0 0)

theorem accounted_rush :
    rush.jobs.length = 0 ∧ rush.made = [0, 1, 2, 3, 4, 5, 6, 7, 8] ∧
      rush.closed = [1, 4, 5, 6, 2, 3, 0] ∧ rush.running = [7, 8] ∧ rush.Accounted :=
  ⟨by decide +kernel, by decide +kernel, by decide +kernel, by decide +kernel,
    accounted_turns Catalogue.serial _ _⟩

end Floor

end RuleFlow
