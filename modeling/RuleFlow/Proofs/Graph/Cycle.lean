import Mathlib.Data.List.Chain
import Mathlib.Data.List.Perm.Subperm
import Mathlib.Logic.Relation
import RuleFlow.Graph.Cycle
import RuleFlow.Proofs.Table

/-!
# What the search for cycles finds

The search is compared with the relation of its successor function. Everything it reports is a cycle
(`Cycle.isCycle_of_mem_search`). For the other direction the nodes it is done with are kept in the order in
which they were finished: every edge of such a node leads to one that was finished before it or closes a
reported cycle (`Cycle.Settled`). If no cycle is reported, the nodes are in topological order, so there is
none (`Cycle.not_transGen_of_settled`).

The budget is enough because a path consists of different nodes that have successors. `Routes.findCycles` is
an instance: it finds nothing exactly if the edges have no cycle (`Routes.findCycles_eq_nil_iff`).
-/

namespace RuleFlow

namespace Cycle

/-- The edges of a successor function. -/
def Edge (next : String → List String) (a b : String) : Prop := b ∈ next a

/-- A walk along edges that ends where it starts and meets no other node twice. -/
def IsCycle (next : String → List String) (c : List String) : Prop :=
  ∃ v vs, c = v :: (vs ++ [v]) ∧ (v :: vs).Nodup ∧ c.IsChain (Edge next)

/-- Some reported cycle ends with the edge from one node to another. -/
def Closes (cycles : List (List String)) (a b : String) : Prop :=
  ∃ walk, walk ++ [a, b] ∈ cycles

/-- Every node of the list has its edges to later nodes of the list, except for those that close a
reported cycle. -/
def Settled (next : String → List String) (cycles : List (List String)) : List String → Prop
  | [] => True
  | n :: ns => (∀ t ∈ next n, t ∈ ns ∨ Closes cycles n t) ∧ Settled next cycles ns

variable {next : String → List String}

theorem transGen_of_isChain {R : String → String → Prop} {a b : String} {l : List String}
    (h : (a :: (l ++ [b])).IsChain R) : Relation.TransGen R a b := by
  induction l generalizing a with
  | nil => exact .single (List.isChain_pair.1 h)
  | cons x l ih =>
    rw [List.cons_append, List.isChain_cons_cons] at h
    exact .head h.1 (ih h.2)

theorem IsCycle.transGen {c : List String} (h : IsCycle next c) :
    ∃ a, Relation.TransGen (Edge next) a a := by
  obtain ⟨v, vs, rfl, -, hc⟩ := h
  exact ⟨v, transGen_of_isChain hc⟩

/-- What closes a cycle among some closes it among more. -/
theorem Closes.mono {cycles cycles' : List (List String)} {a b : String}
    (h : Closes cycles a b) (hs : cycles ⊆ cycles') : Closes cycles' a b := by
  obtain ⟨walk, hw⟩ := h
  exact ⟨walk, hs hw⟩

theorem Settled.mono {cycles cycles' : List (List String)} {ns : List String}
    (h : Settled next cycles ns) (hs : cycles ⊆ cycles') : Settled next cycles' ns := by
  induction ns with
  | nil => trivial
  | cons n ns ih => exact ⟨fun t ht => (h.1 t ht).imp_right (·.mono hs), ih h.2⟩

/-- The edges that close no reported cycle. -/
def OpenEdge (next : String → List String) (cycles : List (List String)) (a b : String) : Prop :=
  Edge next a b ∧ ¬Closes cycles a b

/-- Edges that close no known cycle stay among settled nodes. -/
theorem Settled.mem_of_openEdge {cycles : List (List String)} {ns : List String}
    (h : Settled next cycles ns) {a b : String} (ha : a ∈ ns) (hab : OpenEdge next cycles a b) :
    b ∈ ns := by
  induction ns with
  | nil => simp at ha
  | cons n ns ih =>
    rcases List.mem_cons.1 ha with rfl | ha
    · exact List.mem_cons_of_mem _ ((h.1 b hab.1).resolve_right hab.2)
    · exact List.mem_cons_of_mem _ (ih h.2 ha)

/-- Paths of edges that close no known cycle stay among settled nodes. -/
theorem Settled.mem_of_reflTransGen {cycles : List (List String)} {ns : List String}
    (h : Settled next cycles ns) {a b : String}
    (hab : Relation.ReflTransGen (OpenEdge next cycles) a b) (ha : a ∈ ns) : b ∈ ns := by
  induction hab with
  | refl => exact ha
  | tail _ hstep ih => exact h.mem_of_openEdge ih hstep

/-- Settled nodes are on no cycle once the closing edges of the reported cycles are taken away. -/
theorem not_transGen_of_settled {cycles : List (List String)} {ns : List String}
    (h : Settled next cycles ns) {a : String} (ha : a ∈ ns) :
    ¬Relation.TransGen (OpenEdge next cycles) a a := by
  induction ns with
  | nil => simp at ha
  | cons n ns ih =>
    by_cases hmem : a ∈ ns
    · exact ih h.2 hmem
    obtain rfl : a = n := (List.mem_cons.1 ha).resolve_right hmem
    intro hcycle
    -- The first step leads behind `a` in the list, and no further step leads back.
    obtain ⟨b, hab, hba⟩ := Relation.TransGen.head'_iff.1 hcycle
    have hb : b ∈ ns := (h.1 b hab.1).resolve_right hab.2
    exact hmem (h.2.mem_of_reflTransGen hba hb)

/-! ## What is reported -/

/-- Dropping up to an element of a list leaves it in front. -/
theorem exists_dropWhile_eq {l : List String} {a : String} (hm : a ∈ l) :
    ∃ before rest, l = before ++ a :: rest ∧ l.dropWhile (· ≠ a) = a :: rest := by
  obtain ⟨before, rest, rfl, ha⟩ := List.eq_append_cons_of_mem hm
  refine ⟨before, rest, rfl, ?_⟩
  rw [List.dropWhile_append_of_pos]
  · simp
  · intro b hb
    have hne : b ≠ a := fun e => ha (e ▸ hb)
    simpa using hne

/-- A path that meets itself again holds a cycle from there on. -/
theorem isCycle_dropWhile {path : List String} {node : String} (hd : path.Nodup)
    (hc : (path ++ [node]).IsChain (Edge next)) (hm : node ∈ path) :
    IsCycle next (path.dropWhile (· ≠ node) ++ [node]) := by
  obtain ⟨before, rest, rfl, hdrop⟩ := exists_dropWhile_eq hm
  rw [hdrop]
  refine ⟨node, rest, by simp, (List.nodup_append.1 hd).2.1, ?_⟩
  rw [List.append_assoc] at hc
  exact hc.right_of_append

/-- If each exploration of a list reports what was reported before or what has a property, so do all. -/
theorem mem_cycles_foldl {f : Search → String → Search} {P : Prop} {c : List String}
    {ts : List String} (hf : ∀ t ∈ ts, ∀ s, c ∈ (f s t).cycles → c ∈ s.cycles ∨ P) (s : Search)
    (h : c ∈ (ts.foldl f s).cycles) : c ∈ s.cycles ∨ P := by
  induction ts generalizing s with
  | nil => exact .inl h
  | cons t ts ih =>
    rcases ih (fun t' ht' => hf t' (List.mem_cons_of_mem _ ht')) (f s t) h with h | h
    · exact hf t List.mem_cons_self s h
    · exact .inr h

/-- What a visit reports is a cycle. -/
theorem isCycle_of_mem_visit (budget : Nat) (path : List String) (node : String) (s : Search)
    (hd : path.Nodup) (hc : (path ++ [node]).IsChain (Edge next)) {c : List String}
    (h : c ∈ (visit next budget path node s).cycles) : c ∈ s.cycles ∨ IsCycle next c := by
  induction budget generalizing path node s with
  | zero => exact .inl h
  | succ budget ih =>
    rw [visit] at h
    split at h
    · exact .inl h
    split at h
    case isTrue hmem =>
      rcases List.mem_append.1 h with h | h
      · exact .inl h
      · rw [List.mem_singleton.1 h]
        exact .inr (isCycle_dropWhile hd hc hmem)
    case isFalse hmem =>
      have hd' : (path ++ [node]).Nodup := by
        rw [List.nodup_append_comm]
        exact List.nodup_cons.2 ⟨hmem, hd⟩
      refine mem_cycles_foldl (fun t ht s h => ih (path ++ [node]) t s hd' ?_ h) s h
      rw [List.append_assoc, List.singleton_append, List.isChain_split]
      exact ⟨hc, List.isChain_pair.2 ht⟩

/-- Only cycles are reported. -/
theorem isCycle_of_mem_search {budget : Nat} {starts : List String} {c : List String}
    (h : c ∈ (search next budget starts).cycles) : IsCycle next c := by
  refine (mem_cycles_foldl (fun start _ s h => ?_) {} h).resolve_left (by simp)
  exact isCycle_of_mem_visit budget [] start s List.nodup_nil (List.isChain_singleton _) h

/-! ## What is left out -/

/-- What an exploration adds: it loses nothing, keeps the finished nodes settled, and is done with its node
or has met it on the path. -/
structure Explored (next : String → List String) (path : List String) (node : String)
    (s s' : Search) : Prop where
  done : s.done ⊆ s'.done
  cycles : s.cycles ⊆ s'.cycles
  settled : Settled next s'.cycles s'.done
  reached : node ∈ s'.done ∨ node ∈ path ∧ path.dropWhile (· ≠ node) ++ [node] ∈ s'.cycles

/-- The exploration of a target behind the last node of a path, in terms of the edge to it. -/
theorem Explored.closes {path : List String} {node target : String} {s s' : Search}
    (h : Explored next (path ++ [node]) target s s') :
    target ∈ s'.done ∨ Closes s'.cycles node target := by
  refine h.reached.imp_right ?_
  rintro ⟨hm, hc⟩
  -- What is left of the path from `target` on still ends with `node`.
  obtain ⟨before, rest, hsplit, hdrop⟩ := exists_dropWhile_eq hm
  rw [hdrop] at hc
  obtain ⟨walk, last, hlast⟩ := (List.eq_nil_or_concat (target :: rest)).resolve_left (by simp)
  have hnode : node = last := by
    rw [hlast, List.concat_eq_append, ← List.append_assoc] at hsplit
    simpa using (List.append_inj' hsplit rfl).2
  refine ⟨walk, ?_⟩
  rw [hlast, List.concat_eq_append, List.append_assoc, ← hnode] at hc
  exact hc

/-- Explorations one after the other add what each of them adds. -/
theorem explored_foldl {f : Search → String → Search} {path ts : List String}
    (hf : ∀ t ∈ ts, ∀ s, Settled next s.cycles s.done → Explored next path t s (f s t)) (s : Search)
    (hs : Settled next s.cycles s.done) :
    s.done ⊆ (ts.foldl f s).done ∧ s.cycles ⊆ (ts.foldl f s).cycles ∧
      Settled next (ts.foldl f s).cycles (ts.foldl f s).done ∧
      ∀ t ∈ ts, Explored next path t s (ts.foldl f s) := by
  induction ts generalizing s with
  | nil => exact ⟨fun _ => id, fun _ => id, hs, by simp⟩
  | cons t ts ih =>
    have hfirst := hf t List.mem_cons_self s hs
    obtain ⟨hdone, hcycles, hsettled, hrest⟩ :=
      ih (fun t' ht' => hf t' (List.mem_cons_of_mem _ ht')) (f s t) hfirst.settled
    have hdone' := List.Subset.trans hfirst.done hdone
    have hcycles' := List.Subset.trans hfirst.cycles hcycles
    refine ⟨hdone', hcycles', hsettled, fun t' ht' => ⟨hdone', hcycles', hsettled, ?_⟩⟩
    rcases List.mem_cons.1 ht' with rfl | ht'
    · exact hfirst.reached.imp (hdone ·) (And.imp_right (hcycles ·))
    · exact (hrest t' ht').reached

/-- A visit with a budget for all nodes explores what it can reach. -/
theorem explored_visit {keys : List String} (hkeys : ∀ n t, t ∈ next n → n ∈ keys) (budget : Nat)
    (path : List String) (node : String) (s : Search) (hd : path.Nodup) (hp : path ⊆ keys)
    (hb : keys.length < budget + path.length) (hs : Settled next s.cycles s.done) :
    Explored next path node s (visit next budget path node s) := by
  induction budget generalizing path node s with
  | zero =>
    have := (hd.subperm hp).length_le
    omega
  | succ budget ih =>
    rw [visit]
    split
    case isTrue hdone => exact ⟨fun _ => id, fun _ => id, hs, .inl hdone⟩
    case isFalse hdone =>
      split
      case isTrue hmem =>
        refine ⟨fun _ => id, List.subset_append_left _ _, hs.mono (List.subset_append_left _ _), ?_⟩
        exact .inr ⟨hmem, by simp⟩
      case isFalse hmem =>
        have hd' : (path ++ [node]).Nodup := by
          rw [List.nodup_append_comm]
          exact List.nodup_cons.2 ⟨hmem, hd⟩
        have hstep : ∀ t ∈ next node, ∀ s, Settled next s.cycles s.done →
            Explored next (path ++ [node]) t s (visit next budget (path ++ [node]) t s) := by
          intro t ht s hs
          have hp' : path ++ [node] ⊆ keys :=
            List.append_subset.2 ⟨hp, List.cons_subset.2 ⟨hkeys node t ht, List.nil_subset _⟩⟩
          have hb' : keys.length < budget + (path ++ [node]).length := by
            simp only [List.length_append, List.length_singleton]
            omega
          exact ih (path ++ [node]) t s hd' hp' hb' hs
        obtain ⟨hdone, hcycles, hsettled, hexplored⟩ := explored_foldl hstep s hs
        -- After all successors, each is done or on the path, and then its edge closes a cycle.
        have hcloses := fun t ht => (hexplored t ht).closes
        exact ⟨fun x hx => List.mem_cons_of_mem _ (hdone hx), hcycles, ⟨hcloses, hsettled⟩,
          .inl List.mem_cons_self⟩

/-- If every node that has successors is a start and the budget exceeds their number, the search is done
with all of them, and they are settled. -/
theorem settled_search {budget : Nat} {starts : List String}
    (hstarts : ∀ n t, t ∈ next n → n ∈ starts) (hb : starts.length < budget) :
    let s := search next budget starts
    Settled next s.cycles s.done ∧ starts ⊆ s.done := by
  have hstep : ∀ start ∈ starts, ∀ s, Settled next s.cycles s.done →
      Explored next [] start s (visit next budget [] start s) := by
    intro start _ s hs
    have hb' : starts.length < budget + ([] : List String).length := by simpa using hb
    exact explored_visit hstarts budget [] start s List.nodup_nil (List.nil_subset _) hb' hs
  obtain ⟨-, -, hsettled, hexplored⟩ := explored_foldl hstep {} trivial
  exact ⟨hsettled, fun start hstart => (hexplored start hstart).reached.resolve_right (by simp)⟩

/-- Without the closing edges of the reported cycles there is no cycle. -/
theorem not_transGen_openEdge {budget : Nat} {starts : List String}
    (hstarts : ∀ n t, t ∈ next n → n ∈ starts) (hb : starts.length < budget) (a : String) :
    ¬Relation.TransGen (OpenEdge next (search next budget starts).cycles) a a := by
  intro h
  obtain ⟨hs, hdone⟩ := settled_search hstarts hb
  obtain ⟨b, hab, -⟩ := Relation.TransGen.head'_iff.1 h
  exact not_transGen_of_settled hs (hdone (hstarts a b hab.1)) h

/-- The search finds nothing exactly if there is no cycle. -/
theorem search_cycles_eq_nil_iff {budget : Nat} {starts : List String}
    (hstarts : ∀ n t, t ∈ next n → n ∈ starts) (hb : starts.length < budget) :
    (search next budget starts).cycles = [] ↔ ∀ a, ¬Relation.TransGen (Edge next) a a := by
  constructor
  · intro hnil a h
    have hopen : ∀ x y, Edge next x y → OpenEdge next (search next budget starts).cycles x y := by
      refine fun x y hxy => ⟨hxy, ?_⟩
      rintro ⟨walk, hw⟩
      simp [hnil] at hw
    exact not_transGen_openEdge hstarts hb a (Relation.TransGen.mono hopen _ _ h)
  · intro hacyclic
    refine List.eq_nil_iff_forall_not_mem.2 fun c hc => ?_
    obtain ⟨a, ha⟩ := (isCycle_of_mem_search hc).transGen
    exact hacyclic a ha

end Cycle

/-! ## Routes -/

namespace Routes

/-- Some label of a node lists another. -/
def Leads (routes : Routes) (a b : String) : Prop := ∃ label, b ∈ routes.targets a label

theorem mem_edges_values {routes : Routes} {a b : String} :
    b ∈ (routes.edges a).values.flatten ↔ routes.Leads a b := by
  simp only [List.mem_flatten, Table.mem_values, Leads, targets, edges]
  cases routes.get? a with
  | none => simp
  | some edges =>
    constructor
    · rintro ⟨l, ⟨label, hl⟩, hb⟩
      refine ⟨label, ?_⟩
      simp only [Option.getD_some] at hl
      simp [hl, hb]
    · rintro ⟨label, hb⟩
      cases hl : edges.get? label with
      | none => simp [hl] at hb
      | some l => exact ⟨l, ⟨label, hl⟩, by simpa [hl] using hb⟩

/-- The successors of a node are the nodes that it leads to. -/
theorem mem_successors {routes : Routes} {a b : String} :
    b ∈ routes.successors a ↔ routes.Leads a b := by
  rw [successors, Table.mem_keys_ofList, List.map_map, ← mem_edges_values]
  simp

theorem edge_successors (routes : Routes) : Cycle.Edge routes.successors = routes.Leads := by
  funext a b
  exact propext mem_successors

theorem mem_keys_of_leads {routes : Routes} {a b : String} (h : routes.Leads a b) :
    a ∈ routes.keys := by
  obtain ⟨label, hb⟩ := h
  rw [Table.mem_keys]
  cases ha : routes.get? a with
  | none => simp [targets, ha] at hb
  | some edges => exact ⟨edges, rfl⟩

/-- What is found depends only on which nodes have successors and on which these are. -/
theorem findCycles_congr {routes routes' : Routes} (hkeys : ∀ a, a ∈ routes'.keys ↔ a ∈ routes.keys)
    (hleads : ∀ a b, routes'.Leads a b ↔ routes.Leads a b) : routes'.findCycles = routes.findCycles := by
  have hstarts : routes'.keys = routes.keys := Table.keys_eq_of_mem_iff hkeys
  have hsize : routes'.size = routes.size := by rw [← Table.length_keys, hstarts, Table.length_keys]
  have hnext : routes'.successors = routes.successors := by
    funext a
    refine Table.keys_eq_of_mem_iff fun b => ?_
    exact mem_successors.trans ((hleads a b).trans mem_successors.symm)
  rw [findCycles, hnext, hsize, hstarts, findCycles]

/-- Nothing is found exactly if no node leads back to itself. -/
theorem findCycles_eq_nil_iff (routes : Routes) :
    routes.findCycles = [] ↔ ∀ a, ¬Relation.TransGen routes.Leads a a := by
  rw [findCycles, ← edge_successors]
  refine Cycle.search_cycles_eq_nil_iff (fun n t ht => ?_) ?_
  · exact mem_keys_of_leads (mem_successors.1 ht)
  · rw [Table.length_keys]
    omega

end Routes

end RuleFlow
