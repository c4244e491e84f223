import Mathlib.Data.List.Induction
import RuleFlow.Graph.Compile
import RuleFlow.Proofs.Graph.Cycle

/-!
# Routes from connections

`GraphPayload.routes` adds the connections one after the other. What comes of it is said without the order in
which tables are filled: the successors of a node under a label are the targets of its connections with this
label, each at its first mention (`Connection.targetsOf`), and there is no entry where there is no connection
(`Routes.get?_edges_ofConnections`).
-/

namespace RuleFlow

/-- One more element is kept if it is the first of its kind. -/
theorem eraseDups_concat {α : Type} [DecidableEq α] (l : List α) (a : α) :
    (l ++ [a]).eraseDups = if a ∈ l then l.eraseDups else l.eraseDups ++ [a] := by
  rw [List.eraseDups_append, List.removeAll]
  by_cases h : a ∈ l <;> simp [h, List.eraseDups_cons]

theorem nodup_eraseDups {α : Type} [DecidableEq α] (l : List α) : l.eraseDups.Nodup := by
  induction l using List.reverseRecOn with
  | nil => exact .nil
  | append_singleton l a ih =>
    rw [eraseDups_concat]
    split
    case isTrue => exact ih
    case isFalse h =>
      rw [← List.concat_eq_append]
      exact ih.concat fun hmem => h (List.mem_eraseDups.1 hmem)

/-- The targets of the connections from a node under a label, each at its first mention. -/
def Connection.targetsOf (cs : List Connection) (source label : String) : List String :=
  ((cs.filter fun c => c.source = source ∧ c.label = label).map (·.target)).eraseDups

/-- The routes of some connections. -/
def Routes.ofConnections (cs : List Connection) : Routes :=
  cs.foldl (fun routes c => routes.add c.source c.label c.target) .empty

namespace Connection

/-- The targets of a node under a label are those of the connections. -/
theorem mem_targetsOf {cs : List Connection} {source label target : String} :
    target ∈ targetsOf cs source label ↔ ⟨source, target, label⟩ ∈ cs := by
  simp only [targetsOf, List.mem_eraseDups, List.mem_map, List.mem_filter, decide_eq_true_eq]
  constructor
  · rintro ⟨c, ⟨hc, rfl, rfl⟩, rfl⟩
    exact hc
  · intro hc
    exact ⟨_, ⟨hc, rfl, rfl⟩, rfl⟩

theorem nodup_targetsOf (cs : List Connection) (source label : String) :
    (targetsOf cs source label).Nodup :=
  nodup_eraseDups _

/-- One more connection adds its target at the end, unless it is there. -/
theorem targetsOf_concat (cs : List Connection) (c : Connection) (source label : String) :
    targetsOf (cs ++ [c]) source label =
      if c.source = source ∧ c.label = label then
        if c.target ∈ targetsOf cs source label then targetsOf cs source label
        else targetsOf cs source label ++ [c.target]
      else targetsOf cs source label := by
  simp only [targetsOf, List.mem_eraseDups]
  rw [List.filter_append, List.map_append]
  by_cases h : c.source = source ∧ c.label = label
  · rw [if_pos h, ← eraseDups_concat]
    simp [h]
  · simp [h]

end Connection

namespace Routes

theorem targets_eq (routes : Routes) (source label : String) :
    routes.targets source label = ((routes.edges source).get? label).getD [] := by
  unfold targets edges
  cases routes.get? source <;> simp

/-- Adding a route puts its target at the end of those under its label, unless it is there. -/
theorem get?_edges_add (routes : Routes) (source label target source' label' : String) :
    ((routes.add source label target).edges source').get? label' =
      if source = source' ∧ label = label' then
        some (if target ∈ routes.targets source label then routes.targets source label
          else routes.targets source label ++ [target])
      else (routes.edges source').get? label' := by
  have hedges : (routes.add source label target).edges source' =
      if source' = source then
        (routes.edges source).insert label (if target ∈ routes.targets source label
          then routes.targets source label else routes.targets source label ++ [target])
      else routes.edges source' := by
    rw [edges, add, Table.get?_insert]
    by_cases h : source' = source <;> simp [h, edges]
  rw [hedges]
  by_cases hs : source' = source
  · subst hs
    rw [if_pos rfl, Table.get?_insert]
    by_cases hl : label' = label
    · simp [hl]
    · simp [hl, Ne.symm hl]
  · simp [hs, Ne.symm hs]

/-- The routes of connections have under each label the targets in order of first mention. -/
theorem get?_edges_ofConnections (cs : List Connection) (source label : String) :
    ((ofConnections cs).edges source).get? label =
      if Connection.targetsOf cs source label = [] then none
      else some (Connection.targetsOf cs source label) := by
  induction cs using List.reverseRecOn generalizing source label with
  | nil => simp [ofConnections, edges, Connection.targetsOf]
  | append_singleton cs c ih =>
    have hknown : (ofConnections cs).targets c.source c.label =
        Connection.targetsOf cs c.source c.label := by
      rw [targets_eq, ih]
      split <;> simp_all
    rw [ofConnections, List.foldl_append, List.foldl_cons, List.foldl_nil, ← ofConnections,
      get?_edges_add, hknown, ih, Connection.targetsOf_concat]
    by_cases h : c.source = source ∧ c.label = label
    · obtain ⟨rfl, rfl⟩ := h
      by_cases hmem : c.target ∈ Connection.targetsOf cs c.source c.label
      · simp [hmem, List.ne_nil_of_mem hmem]
      · simp [hmem]
    · simp [h]

theorem mem_keys_ofConnections {cs : List Connection} {a : String} :
    a ∈ (ofConnections cs).keys ↔ ∃ c ∈ cs, c.source = a := by
  induction cs using List.reverseRecOn with
  | nil => simp [ofConnections, Table.mem_keys]
  | append_singleton cs c ih =>
    rw [ofConnections, List.foldl_append, List.foldl_cons, List.foldl_nil, ← ofConnections, add,
      Table.mem_keys, Table.get?_insert]
    rw [Table.mem_keys] at ih
    by_cases h : a = c.source
    · simp [h]
    · simp [h, Ne.symm h, ih]

theorem targets_ofConnections (cs : List Connection) (source label : String) :
    (ofConnections cs).targets source label = Connection.targetsOf cs source label := by
  rw [targets_eq, get?_edges_ofConnections]
  split <;> simp_all

/-- The routes of connections lead where a connection does. -/
theorem leads_ofConnections {cs : List Connection} {a b : String} :
    (ofConnections cs).Leads a b ↔ ∃ c ∈ cs, c.source = a ∧ c.target = b := by
  simp only [Leads, targets_ofConnections, Connection.mem_targetsOf]
  constructor
  · rintro ⟨label, hc⟩
    exact ⟨_, hc, rfl, rfl⟩
  · rintro ⟨c, hc, rfl, rfl⟩
    exact ⟨c.label, hc⟩

end Routes

end RuleFlow
