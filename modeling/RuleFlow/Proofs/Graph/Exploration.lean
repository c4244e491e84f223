import RuleFlow.Proofs.Graph.Cycle

/-!
# Explorations without a budget

`Cycle.Visits` says what the exploration of a node finds, without a bound on how deep it goes. There is at most
one outcome (`Cycle.Visits.unique`), and `Cycle.visit` computes it under every budget that exceeds the number
of nodes with successors (`Cycle.visits_visit`), so the search comes to an end by itself.

A node is finished once and has each of its edges taken once, on the way there. So the edges that close the
reported cycles differ (`Cycle.Visits.reports`): each of them starts at a node that is finished in between, or
at the end of the path to a target that is not taken again. What a report of cycles is to be is put together
in `Routes.Reported`, and `Routes.reported_findCycles` says that the search makes such a report of every
finite graph.
-/

namespace RuleFlow

namespace Cycle

mutual

/-- The exploration of a node at the end of a path, and what has been found after it. -/
inductive Visits (next : String → List String) : List String → String → Search → Search → Prop
  | known {path : List String} {node : String} {s : Search} :
    node ∈ s.done → Visits next path node s s
  | closes {path : List String} {node : String} {s : Search} :
    node ∉ s.done → node ∈ path →
    Visits next path node s { s with cycles := s.cycles ++ [path.dropWhile (· ≠ node) ++ [node]] }
  | passes {path : List String} {node : String} {s s' : Search} :
    node ∉ s.done → node ∉ path → VisitsEach next (path ++ [node]) (next node) s s' →
    Visits next path node s { s' with done := node :: s'.done }

/-- The explorations of some nodes, one after the other, each at the end of the same path. -/
inductive VisitsEach (next : String → List String) :
    List String → List String → Search → Search → Prop
  | nil {path : List String} {s : Search} : VisitsEach next path [] s s
  | cons {path : List String} {t : String} {ts : List String} {s s₁ s' : Search} :
    Visits next path t s s₁ → VisitsEach next path ts s₁ s' → VisitsEach next path (t :: ts) s s'

end

variable {next : String → List String}

mutual

/-- A visit has one result. -/
theorem Visits.unique {path : List String} {node : String} {s s₁ s₂ : Search}
    (h₁ : Visits next path node s s₁) (h₂ : Visits next path node s s₂) : s₁ = s₂ :=
  match h₁, h₂ with
  | .known _, .known _ => rfl
  | .known hdone, .closes hopen _ => absurd hdone hopen
  | .known hdone, .passes hopen _ _ => absurd hdone hopen
  | .closes hopen _, .known hdone => absurd hdone hopen
  | .closes _ _, .closes _ _ => rfl
  | .closes _ hmem, .passes _ hnew _ => absurd hmem hnew
  | .passes hopen _ _, .known hdone => absurd hdone hopen
  | .passes _ hnew _, .closes _ hmem => absurd hmem hnew
  | .passes _ _ hrest₁, .passes _ _ hrest₂ => by rw [hrest₁.unique hrest₂]
termination_by structural h₁

theorem VisitsEach.unique {path ts : List String} {s s₁ s₂ : Search}
    (h₁ : VisitsEach next path ts s s₁) (h₂ : VisitsEach next path ts s s₂) : s₁ = s₂ :=
  match h₁, h₂ with
  | .nil, .nil => rfl
  | .cons hfirst₁ hrest₁, .cons hfirst₂ hrest₂ => by
    obtain rfl := hfirst₁.unique hfirst₂
    exact hrest₁.unique hrest₂
termination_by structural h₁

end

theorem visitsEach_foldl {f : Search → String → Search} {path ts : List String}
    (h : ∀ t ∈ ts, ∀ s, Visits next path t s (f s t)) (s : Search) :
    VisitsEach next path ts s (ts.foldl f s) := by
  induction ts generalizing s with
  | nil => exact .nil
  | cons t ts ih =>
    exact .cons (h t List.mem_cons_self s) (ih (fun t' ht' => h t' (List.mem_cons_of_mem _ ht')) _)

/-- A budget that exceeds the number of nodes with successors is never used up: the path holds each of them
once at most. -/
theorem visits_visit {keys : List String} (hkeys : ∀ n t, t ∈ next n → n ∈ keys) (budget : Nat)
    (path : List String) (node : String) (s : Search) (hd : path.Nodup) (hp : path ⊆ keys)
    (hb : keys.length < budget + path.length) :
    Visits next path node s (visit next budget path node s) := by
  induction budget generalizing path node s with
  | zero =>
    have := (hd.subperm hp).length_le
    omega
  | succ budget ih =>
    rw [visit]
    split
    case isTrue hdone => exact .known hdone
    case isFalse hopen =>
      split
      case isTrue hmem => exact .closes hopen hmem
      case isFalse hnew =>
        refine .passes hopen hnew (visitsEach_foldl (fun t ht s => ?_) s)
        have hd' : (path ++ [node]).Nodup := List.nodup_append_comm.1 (List.nodup_cons.2 ⟨hnew, hd⟩)
        have hp' : path ++ [node] ⊆ keys :=
          List.append_subset.2 ⟨hp, List.cons_subset.2 ⟨hkeys node t ht, List.nil_subset _⟩⟩
        refine ih (path ++ [node]) t s hd' hp' ?_
        simp only [List.length_append, List.length_singleton]
        omega

/-- A search with a budget for all nodes is a visit from each start. -/
theorem visitsEach_search {budget : Nat} {starts : List String}
    (hstarts : ∀ n t, t ∈ next n → n ∈ starts) (hb : starts.length < budget) :
    VisitsEach next [] starts {} (search next budget starts) :=
  visitsEach_foldl (fun start _ s =>
    visits_visit hstarts budget [] start s List.nodup_nil (List.nil_subset _) hb) {}

/-! ## Closing edges -/

/-- The edge with which a cycle closes: its last two nodes. -/
def closing (c : List String) : List String := c.drop (c.length - 2)

theorem closing_append (walk : List String) (a b : String) : closing (walk ++ [a, b]) = [a, b] := by
  simp [closing]

theorem closing_eq_of_concat {l : List String} {a b : String} (h : l.getLast? = some a) :
    closing (l ++ [b]) = [a, b] := by
  obtain ⟨walk, rfl⟩ := List.getLast?_eq_some_iff.1 h
  rw [List.append_assoc]
  exact closing_append walk a b

/-- A path that meets one of its nodes again closes from its own last node. -/
theorem exists_closing_dropWhile {path : List String} {node : String} (h : node ∈ path) :
    ∃ a, path.getLast? = some a ∧ closing (path.dropWhile (· ≠ node) ++ [node]) = [a, node] := by
  obtain ⟨before, rest, hpath, hdrop⟩ := exists_dropWhile_eq h
  have hlast : (node :: rest).getLast? = some (rest.getLast?.getD node) := List.getLast?_cons
  refine ⟨_, ?_, hdrop ▸ closing_eq_of_concat hlast⟩
  rw [hpath, List.getLast?_append, hlast, Option.some_or]

/-- An edge that may close a cycle while nodes are explored behind a path: it starts at a node that is finished
in between, or leads from the last node of the path to one of the targets. -/
def MayClose (path ts : List String) (s s' : Search) (edge : List String) : Prop :=
  (∃ a b, edge = [a, b] ∧ a ∈ s'.done ∧ a ∉ s.done ∧ a ∉ path) ∨
    ∃ a t, edge = [a, t] ∧ path.getLast? = some a ∧ t ∈ ts

/-- What the exploration of some targets behind a path reports: cycles whose closing edges differ. The nodes of
the path stay unfinished. -/
structure Reports (path ts : List String) (s s' : Search) : Prop where
  done : s.done ⊆ s'.done
  unfinished : ∀ x ∈ path, x ∉ s'.done
  cycles : ∃ cs, s'.cycles = s.cycles ++ cs ∧ (cs.map closing).Nodup ∧
    ∀ c ∈ cs, MayClose path ts s s' (closing c)

namespace Reports

variable {path ts : List String} {t node : String} {s s₁ s' : Search}

theorem refl (hpath : ∀ x ∈ path, x ∉ s.done) : Reports path ts s s :=
  ⟨fun _ => id, hpath, [], by simp, by simp, by simp⟩

theorem closes (hpath : ∀ x ∈ path, x ∉ s.done) (hmem : node ∈ path) :
    Reports path [node] s { s with cycles := s.cycles ++ [path.dropWhile (· ≠ node) ++ [node]] } := by
  obtain ⟨a, ha, hclosing⟩ := exists_closing_dropWhile hmem
  refine ⟨fun _ => id, hpath, _, rfl, List.nodup_singleton _, ?_⟩
  rintro c hc
  obtain rfl := List.mem_singleton.1 hc
  exact .inr ⟨a, node, hclosing, ha, List.mem_singleton_self node⟩

/-- Of two explorations behind one path the closing edges differ: what the first one finishes is not explored
again, and the edges from the last node of the path lead to different targets. -/
theorem cons (hfirst : Reports path [t] s s₁) (hrest : Reports path ts s₁ s') (ht : t ∉ ts) :
    Reports path (t :: ts) s s' := by
  obtain ⟨cs, hcs, hd, hclose⟩ := hfirst.cycles
  obtain ⟨cs', hcs', hd', hclose'⟩ := hrest.cycles
  refine ⟨List.Subset.trans hfirst.done hrest.done, hrest.unfinished, cs ++ cs', ?_, ?_, ?_⟩
  · rw [hcs', hcs, List.append_assoc]
  · rw [List.map_append, List.nodup_append]
    refine ⟨hd, hd', ?_⟩
    simp only [List.forall_mem_map]
    intro c hc c' hc' heq
    obtain ⟨a, b, hab, ha, -, hpath⟩ | ⟨a, b, hab, hlast, hb⟩ := hclose c hc <;>
      obtain ⟨a', b', hab', ha', hnew', hpath'⟩ | ⟨a', b', hab', hlast', hb'⟩ := hclose' c' hc' <;>
      rw [hab, hab', List.cons.injEq, List.cons.injEq] at heq <;>
      obtain ⟨rfl, rfl, -⟩ := heq
    · exact hnew' ha
    · exact hpath (List.mem_of_getLast? hlast')
    · exact hpath' (List.mem_of_getLast? hlast)
    · exact ht (List.mem_singleton.1 hb ▸ hb')
  · intro c hc
    rcases List.mem_append.1 hc with hc | hc
    · obtain ⟨a, b, hab, ha, hnew, hpath⟩ | ⟨a, b, hab, hlast, hb⟩ := hclose c hc
      · exact .inl ⟨a, b, hab, hrest.done ha, hnew, hpath⟩
      · exact .inr ⟨a, b, hab, hlast, List.mem_singleton.1 hb ▸ List.mem_cons_self⟩
    · obtain ⟨a, b, hab, ha, hnew, hpath⟩ | ⟨a, b, hab, hlast, hb⟩ := hclose' c hc
      · exact .inl ⟨a, b, hab, ha, fun hdone => hnew (hfirst.done hdone), hpath⟩
      · exact .inr ⟨a, b, hab, hlast, List.mem_cons_of_mem _ hb⟩

/-- When all successors of a node are explored, the node is finished, and with it the edges from it. -/
theorem passes (h : Reports (path ++ [node]) ts s s') (hopen : node ∉ s.done) (hnew : node ∉ path) :
    Reports path [node] s { s' with done := node :: s'.done } := by
  obtain ⟨cs, hcs, hd, hclose⟩ := h.cycles
  refine ⟨fun x hx => List.mem_cons_of_mem _ (h.done hx), fun x hx => ?_, cs, hcs, hd, fun c hc => .inl ?_⟩
  · rw [List.mem_cons, not_or]
    exact ⟨fun hxnode => hnew (hxnode ▸ hx), h.unfinished x (List.mem_append_left _ hx)⟩
  · obtain ⟨a, b, hab, ha, hold, hpath⟩ | ⟨a, b, hab, hlast, -⟩ := hclose c hc
    · exact ⟨a, b, hab, List.mem_cons_of_mem _ ha, hold, fun hmem => hpath (List.mem_append_left _ hmem)⟩
    · rw [List.getLast?_concat, Option.some.injEq] at hlast
      subst hlast
      exact ⟨node, b, hab, List.mem_cons_self, hopen, hnew⟩

end Reports

mutual

/-- A visit reports each edge that closes a cycle once. -/
theorem Visits.reports (hnext : ∀ n, (next n).Nodup) {path : List String} {node : String} {s s' : Search}
    (h : Visits next path node s s') (hpath : ∀ x ∈ path, x ∉ s.done) : Reports path [node] s s' :=
  match h with
  | .known _ => .refl hpath
  | .closes _ hmem => .closes hpath hmem
  | .passes hopen hnew hrest =>
    have hpath' : ∀ x ∈ path ++ [node], x ∉ s.done :=
      List.forall_mem_append.2 ⟨hpath, List.forall_mem_singleton.2 hopen⟩
    (hrest.reports hnext (hnext node) hpath').passes hopen hnew
termination_by structural h

/-- Visits to different nodes report each edge that closes a cycle once. -/
theorem VisitsEach.reports (hnext : ∀ n, (next n).Nodup) {path ts : List String} {s s' : Search}
    (h : VisitsEach next path ts s s') (hts : ts.Nodup) (hpath : ∀ x ∈ path, x ∉ s.done) :
    Reports path ts s s' :=
  match h with
  | .nil => .refl hpath
  | .cons hfirst hrest =>
    have hreports := hfirst.reports hnext hpath
    hreports.cons (hrest.reports hnext (List.nodup_cons.1 hts).2 hreports.unfinished)
      (List.nodup_cons.1 hts).1
termination_by structural h

end

/-- An edge that closes a reported cycle is the closing edge of one. -/
theorem Closes.mem_closing {cycles : List (List String)} {a b : String} (h : Closes cycles a b) :
    [a, b] ∈ cycles.map closing := by
  obtain ⟨walk, hwalk⟩ := h
  exact List.mem_map.2 ⟨_, hwalk, closing_append walk a b⟩

end Cycle

/-! ## Routes -/

namespace Routes

/-- What a report of the cycles of a graph is to be: the outcome of the one search along successors in their
order, from every node that has some, which comes to an end; empty exactly if there is no cycle; each cycle a
way along edges that meets no node twice before it is back; no edge closing two of them; and enough that
without the closing edges no cycle is left. -/
structure Reported (routes : Routes) (cycles : List (List String)) : Prop where
  outcome : ∃ s, Cycle.VisitsEach routes.successors [] routes.keys {} s ∧
    (∀ s', Cycle.VisitsEach routes.successors [] routes.keys {} s' → s' = s) ∧ s.cycles = cycles
  eq_nil_iff : cycles = [] ↔ ∀ a, ¬Relation.TransGen routes.Leads a a
  cycle : ∀ c ∈ cycles, ∃ v vs, c = v :: (vs ++ [v]) ∧ (v :: vs).Nodup ∧ c.IsChain routes.Leads
  once : (cycles.map Cycle.closing).Nodup
  acyclic : ∀ a, ¬Relation.TransGen
    (fun a b => routes.Leads a b ∧ [a, b] ∉ cycles.map Cycle.closing) a a

theorem mem_keys_of_mem_successors {routes : Routes} (a b : String) (h : b ∈ routes.successors a) :
    a ∈ routes.keys :=
  mem_keys_of_leads (mem_successors.1 h)

/-- The budget of a search is larger than the number of nodes with successors. -/
theorem length_keys_lt (routes : Routes) : routes.keys.length < routes.size + 2 := by
  rw [Table.length_keys]
  omega

/-- Whatever the graph, the search ends and reports its cycles. -/
theorem reported_findCycles (routes : Routes) : routes.Reported routes.findCycles where
  outcome :=
    have hvisits := Cycle.visitsEach_search routes.mem_keys_of_mem_successors routes.length_keys_lt
    ⟨_, hvisits, fun _ hvisits' => hvisits'.unique hvisits, rfl⟩
  eq_nil_iff := routes.findCycles_eq_nil_iff
  cycle c hc := by
    obtain ⟨v, vs, hc, hd, hchain⟩ := Cycle.isCycle_of_mem_search hc
    exact ⟨v, vs, hc, hd, routes.edge_successors ▸ hchain⟩
  once := by
    have hvisits := Cycle.visitsEach_search routes.mem_keys_of_mem_successors routes.length_keys_lt
    have hreports := hvisits.reports (fun n => Table.nodup_keys _) routes.nodup_keys (by simp)
    obtain ⟨cs, hcs, hd, -⟩ := hreports.cycles
    have hfound : routes.findCycles = cs := hcs
    rwa [hfound]
  acyclic a h := by
    have hopen : ∀ x y, routes.Leads x y ∧ [x, y] ∉ routes.findCycles.map Cycle.closing →
        Cycle.OpenEdge routes.successors routes.findCycles x y :=
      fun x y hxy => ⟨mem_successors.2 hxy.1, fun hcloses => hxy.2 hcloses.mem_closing⟩
    exact Cycle.not_transGen_openEdge routes.mem_keys_of_mem_successors routes.length_keys_lt a
      (Relation.TransGen.mono hopen _ _ h)

end Routes

end RuleFlow
