import Mathlib.Data.List.Forall2
import RuleFlow.Proofs.Instances
import RuleFlow.Proofs.Jobs.Alone
import RuleFlow.Proofs.Table

/-!
# Who takes the data of an adaptor

The chains that run after some errands can be told from the errands and their answers alone (`standing`): a
start that goes well adds its definition at the end unless the chain runs, a stop strikes it. The running
graphs and the index of adaptors both follow this list (`Instances.Follow`), whatever definitions are started,
stopped and started anew. So under each adaptor stand the running chains whose definitions name it, each once
and in the order in which they were installed, and the data of the adaptor reach just these
(`Engine.mirrors_serveAll`).
-/

namespace RuleFlow

variable {ω η : Type}

/-- Whether the definition of a chain names an adaptor. -/
def Chain.names (c : Chain) (adaptor : String) : Bool :=
  match GraphPayload.read c.payload with
  | .ok p => adaptor ∈ p.adaptors
  | .error _ => false

/-- A graph is compiled with the adaptors that its definition names. -/
theorem Instance.BuiltFrom.names_iff {k : Catalogue ω η} {c : Chain} {i : Instance η}
    (h : i.BuiltFrom k c) {a : String} : c.names a = true ↔ a ∈ i.graph.adaptors := by
  obtain ⟨g, w, w', hcompile, rfl⟩ := h
  obtain ⟨p, hs, hread, -, -, hrep⟩ := Graph.exists_represents_of_compile hcompile
  have hadaptors : (ofChain c g).graph.adaptors = p.adaptors := hrep.adaptors
  rw [hadaptors, Chain.names, hread]
  exact decide_eq_true_iff

/-- What is answered to an errand. -/
def Errand.answer (k : Catalogue ω η) (e : Engine ω η) : Errand → Result Unit
  | start c => (e.start k c).1
  | stop id => (e.stop k id).1
  | delete id => (e.delete k id).1
  | check _ | dispatch .. | dispatchFrom .. => .ok ()

/-- Serves errands one after the other, and notes them with their answers. -/
def Engine.serveAll (k : Catalogue ω η) :
    List Errand → Engine ω η → List (Errand × Result Unit) × Engine ω η
  | [], e => ([], e)
  | errand :: errands, e =>
    let (log, e') := serveAll k errands (errand.serve k e)
    ((errand, errand.answer k e) :: log, e')

/-- The definitions that stand after an errand with its answer, if some did before: a start that went well
adds a definition at the end unless one stands for its chain, a stop strikes that of a chain. -/
def stand (cs : List Chain) : Errand × Result Unit → List Chain
  | (.start c, .ok ()) => if c.id ∈ cs.map (·.id) then cs else cs ++ [c]
  | (.stop id, _) | (.delete id, _) => cs.filter (·.id ≠ id)
  | _ => cs

/-- The definitions by which chains run after some errands, in the order in which they were installed. -/
def standing (log : List (Errand × Result Unit)) : List Chain := log.foldl stand []

namespace Instances

/-- An index under which no adaptor stands without chains. -/
def Tidy (index : Table (List String)) : Prop := ∀ a, index.get? a ≠ some []

/-- Listing a chain leaves no list empty and none with repetitions. -/
theorem Tidy.enlist {index : Table (List String)} (h : Tidy index) (id a : String) :
    Tidy (enlist id index a) := by
  intro b
  unfold Instances.enlist
  dsimp only
  split
  · exact h b
  · rw [Table.get?_insert]
    split
    · simp
    · exact h b

theorem Tidy.delist {index : Table (List String)} (h : Tidy index) (id a : String) :
    Tidy (delist id index a) := by
  intro b
  unfold Instances.delist
  split
  · exact h b
  · split
    · rw [Table.get?_erase]
      split
      · simp
      · exact h b
    case h_2 hrest =>
      rw [Table.get?_insert]
      split
      · exact fun hnil => hrest (Option.some.inj hnil)
      · exact h b

/-- Steps that keep an index tidy keep it so one after the other. -/
theorem Tidy.foldl {f : Table (List String) → String → Table (List String)}
    (hf : ∀ index a, Tidy index → Tidy (f index a)) (as : List String) {index : Table (List String)}
    (h : Tidy index) : Tidy (as.foldl f index) := by
  induction as generalizing index with
  | nil => exact h
  | cons a as ih => exact ih (hf index a h)

/-! ## Following a list of definitions -/

/-- Just the chains of a list run, each by the definition in the list, and the index names under each
adaptor those of them that name it, in the order of the list. -/
structure Follow (k : Catalogue ω η) (cs : List Chain) (s : Instances η) : Prop where
  distinct : (cs.map (·.id)).Nodup
  built : ∀ c ∈ cs, ∃ i, s.get? c.id = some i ∧ i.BuiltFrom k c
  known : ∀ id i, s.get? id = some i → id ∈ cs.map (·.id)
  listed : ∀ a, s.listed a = (cs.filter (·.names a)).map (·.id)
  tidy : Tidy s.adaptors

theorem follow_empty (k : Catalogue ω η) : Follow k [] ({} : Instances η) where
  distinct := .nil
  built := by simp
  known id i hi := by simp [get?] at hi
  listed _ := rfl
  tidy := by simp [Tidy]

namespace Follow

variable {k : Catalogue ω η} {cs : List Chain} {s : Instances η} {c : Chain} {i : Instance η}
  {id : String}

theorem mem_ids_iff (h : Follow k cs s) : id ∈ cs.map (·.id) ↔ ∃ i, s.get? id = some i := by
  constructor
  · intro hid
    obtain ⟨c, hc, rfl⟩ := List.mem_map.1 hid
    obtain ⟨i, hi, -⟩ := h.built c hc
    exact ⟨i, hi⟩
  · rintro ⟨i, hi⟩
    exact h.known id i hi

/-- A chain that starts is added at the end of the list. -/
theorem added (h : Follow k cs s) (hidle : s.get? c.id = none) (hbuilt : i.BuiltFrom k c) :
    Follow k (cs ++ [c]) (s.added i) := by
  have hnew : c.id ∉ cs.map (·.id) := by
    rw [h.mem_ids_iff, hidle]
    simp
  refine ⟨?_, fun c' hc' => ?_, fun id i' hi' => ?_, fun a => ?_, ?_⟩
  · rw [List.map_append, List.map_singleton, ← List.concat_eq_append]
    exact h.distinct.concat hnew
  · rw [get?_added, hbuilt.id_eq]
    rcases List.mem_append.1 hc' with hc' | hc'
    · have hne : c'.id ≠ c.id := fun hid => hnew (hid ▸ List.mem_map_of_mem hc')
      rw [if_neg hne]
      exact h.built c' hc'
    · obtain rfl := List.mem_singleton.1 hc'
      exact ⟨i, if_pos rfl, hbuilt⟩
  · rw [get?_added, hbuilt.id_eq] at hi'
    rw [List.map_append, List.mem_append]
    split at hi'
    case isTrue hid => exact .inr (by simp [hid])
    case isFalse => exact .inl (h.known id i' hi')
  · have hunlisted : c.id ∉ s.listed a := by
      rw [h.listed]
      exact fun hmem => hnew ((List.filter_sublist.map _).subset hmem)
    rw [Instances.listed, Instances.added, listedIn_foldl_enlist, hbuilt.id_eq, ← Instances.listed,
      List.filter_append, List.map_append, ← h.listed]
    by_cases ha : a ∈ i.graph.adaptors
    · rw [if_pos ⟨ha, hunlisted⟩]
      simp [hbuilt.names_iff.2 ha]
    · rw [if_neg fun hboth => ha hboth.1]
      simp [mt hbuilt.names_iff.1 ha]
  · exact Tidy.foldl (fun index a htidy => htidy.enlist i.id a) i.graph.adaptors h.tidy

theorem removed (h : Follow k cs s) (hi : s.get? id = some i) :
    Follow k (cs.filter (·.id ≠ id)) (s.removed id i) := by
  refine ⟨h.distinct.sublist (List.filter_sublist.map _), fun c hc => ?_, fun id' i' hi' => ?_,
    fun a => ?_, ?_⟩
  · obtain ⟨hc, hne⟩ := List.mem_filter.1 hc
    rw [get?_removed, if_neg (by simpa using hne)]
    exact h.built c hc
  · rw [get?_removed] at hi'
    split at hi'
    · simp at hi'
    case isFalse hne =>
      obtain ⟨c, hc, rfl⟩ := List.mem_map.1 (h.known id' i' hi')
      exact List.mem_map_of_mem (List.mem_filter.2 ⟨hc, by simpa using hne⟩)
  · have hfilter : ((cs.filter (·.id ≠ id)).filter (·.names a)).map (·.id) =
        ((cs.filter (·.names a)).map (·.id)).filter (· ≠ id) := by
      rw [List.filter_comm, List.filter_map]
      rfl
    rw [hfilter, ← h.listed, Instances.listed, Instances.removed, listedIn_foldl_delist,
      ← Instances.listed]
    split
    · rfl
    case isFalse ha =>
      -- the chain is not under this adaptor, since its definition does not name it
      refine (List.filter_eq_self.2 fun id' hid' => ?_).symm
      rw [h.listed] at hid'
      obtain ⟨c, hc, rfl⟩ := List.mem_map.1 hid'
      obtain ⟨hc, hnames⟩ := List.mem_filter.1 hc
      obtain ⟨i', hi', hbuilt⟩ := h.built c hc
      rw [decide_eq_true_iff]
      rintro rfl
      obtain rfl := Option.some.inj (hi.symm.trans hi')
      exact ha (hbuilt.names_iff.1 hnames)
  · exact Tidy.foldl (fun index a htidy => htidy.delist id a) i.graph.adaptors h.tidy

/-- Nothing is struck for a chain that does not run. -/
theorem filter_of_idle (h : Follow k cs s) (hid : s.get? id = none) :
    cs.filter (·.id ≠ id) = cs := by
  refine List.filter_eq_self.2 fun c hc => ?_
  obtain ⟨i, hi, -⟩ := h.built c hc
  rw [decide_eq_true_iff]
  rintro rfl
  simp [hid] at hi

/-- A start is followed by the list, be it successful or not. -/
theorem start {e : Engine ω η} (h : Follow k cs e.instances) (c : Chain) :
    Follow k (stand cs (.start c, (e.start k c).1)) (e.start k c).2.instances := by
  cases hstart : (e.start k c).1 with
  | error err =>
    rw [(Engine.instances_start_of_error hstart).2.1]
    exact h
  | ok =>
    rw [stand]
    obtain ⟨i, hi, hsame⟩ | ⟨i, hidle, hbuilt, hadded⟩ := Engine.instances_start_of_ok hstart
    · rw [if_pos (h.mem_ids_iff.2 ⟨i, hi⟩), hsame]
      exact h
    · have hnew : c.id ∉ cs.map (·.id) := by
        rw [h.mem_ids_iff, hidle]
        simp
      rw [if_neg hnew, hadded]
      exact h.added hidle hbuilt

/-- A stop is followed by the list, be it successful or not. -/
theorem stop {e : Engine ω η} (h : Follow k cs e.instances) (id : String) :
    Follow k (cs.filter (·.id ≠ id)) (e.stop k id).2.instances := by
  cases hstop : (e.stop k id).1 with
  | error err =>
    obtain ⟨hidle, hsame⟩ := Engine.instances_stop_of_error hstop
    rw [h.filter_of_idle hidle, hsame]
    exact h
  | ok =>
    obtain ⟨i, hi, hremoved⟩ := Engine.instances_stop_of_ok hstop
    rw [hremoved]
    exact h.removed hi

theorem serve {e : Engine ω η} (h : Follow k cs e.instances) (errand : Errand) :
    Follow k (stand cs (errand, errand.answer k e)) (errand.serve k e).instances := by
  cases errand with
  | start c => exact h.start c
  | stop id => exact h.stop id
  | delete id =>
    rw [Errand.serve, Job.delete_snd]
    exact h.stop id
  | check payload =>
    rw [Errand.serve, Engine.instances_check]
    exact h
  | dispatch channel subTopic m =>
    rw [Errand.serve, Engine.dispatch, Engine.instances_traverseAll]
    exact h
  | dispatchFrom adaptor m =>
    rw [Errand.serve, Engine.dispatchFrom, Engine.instances_traverseAll]
    exact h

/-- All errands are followed by the list, one after the other. -/
theorem serveAll {e : Engine ω η} (h : Follow k cs e.instances) (errands : List Errand) :
    Follow k ((e.serveAll k errands).1.foldl stand cs) (e.serveAll k errands).2.instances := by
  induction errands generalizing e cs with
  | nil => exact h
  | cons errand errands ih => exact ih (h.serve errand)

end Follow

/-! ## Running chains and index -/

/-- The running chains and the index of adaptors are mirror images of one another: the chains of a list run,
each by its definition there; an adaptor has an entry just if a running chain names it, and then the entry
holds the chains that do, each once; and to these, in the order of the list, go the data of the adaptor. -/
structure Mirrors (k : Catalogue ω η) (cs : List Chain) (s : Instances η) : Prop where
  keyed : s.Keyed
  distinct : (cs.map (·.id)).Nodup
  running : ∀ id, s.isRunning id = true ↔ ∃ c ∈ cs, c.id = id
  indexed : ∀ a id, (∃ ids, s.adaptors.get? a = some ids ∧ id ∈ ids) ↔
    ∃ i c, s.get? id = some i ∧ c ∈ cs ∧ i.BuiltFrom k c ∧ c.names a = true
  neat : ∀ a ids, s.adaptors.get? a = some ids → ids ≠ [] ∧ ids.Nodup
  consumers : ∀ a, List.Forall₂ (fun i c => s.get? c.id = some i ∧ i.BuiltFrom k c)
    (s.consumers a) (cs.filter (·.names a))

namespace Follow

variable {k : Catalogue ω η} {cs : List Chain} {s : Instances η}

theorem keyed (h : Follow k cs s) : s.Keyed := by
  intro id i hi
  obtain ⟨c, hc, rfl⟩ := List.mem_map.1 (h.known id i hi)
  obtain ⟨i', hi', hbuilt⟩ := h.built c hc
  obtain rfl := Option.some.inj (hi.symm.trans hi')
  exact hbuilt.id_eq

theorem isRunning_iff (h : Follow k cs s) (id : String) :
    s.isRunning id = true ↔ ∃ c ∈ cs, c.id = id := by
  rw [← List.mem_map, h.mem_ids_iff, Instances.isRunning, Table.contains, Option.isSome_iff_exists]
  rfl

/-- An entry of the index holds the chains that are listed under its adaptor. -/
theorem get?_adaptors (h : Follow k cs s) {a : String} {ids : List String}
    (hids : s.adaptors.get? a = some ids) : ids = (cs.filter (·.names a)).map (·.id) := by
  rw [← h.listed, Instances.listed, listedIn, hids, Option.getD_some]

/-- A chain is listed under an adaptor if it runs and its definition names the adaptor. -/
theorem indexed (h : Follow k cs s) (a id : String) :
    (∃ ids, s.adaptors.get? a = some ids ∧ id ∈ ids) ↔
      ∃ i c, s.get? id = some i ∧ c ∈ cs ∧ i.BuiltFrom k c ∧ c.names a = true := by
  have hlisted : (∃ ids, s.adaptors.get? a = some ids ∧ id ∈ ids) ↔ id ∈ s.listed a := by
    rw [Instances.listed, listedIn]
    cases s.adaptors.get? a <;> simp
  rw [hlisted, h.listed, List.mem_map]
  constructor
  · rintro ⟨c, hmem, rfl⟩
    obtain ⟨hc, hnames⟩ := List.mem_filter.1 hmem
    obtain ⟨i, hi, hbuilt⟩ := h.built c hc
    exact ⟨i, c, hi, hc, hbuilt, hnames⟩
  · rintro ⟨i, c, hi, hc, hbuilt, hnames⟩
    exact ⟨c, List.mem_filter.2 ⟨hc, hnames⟩, hbuilt.id_eq.symm.trans (h.keyed id i hi)⟩

theorem neat (h : Follow k cs s) (a : String) (ids : List String)
    (hids : s.adaptors.get? a = some ids) : ids ≠ [] ∧ ids.Nodup := by
  refine ⟨?_, ?_⟩
  · rintro rfl
    exact h.tidy a hids
  · rw [h.get?_adaptors hids]
    exact h.distinct.sublist (List.filter_sublist.map _)

/-- What runs for some chains of the list, in their order. -/
theorem forall₂_filterMap {cs' : List Chain}
    (hbuilt : ∀ c ∈ cs', ∃ i, s.get? c.id = some i ∧ i.BuiltFrom k c) :
    List.Forall₂ (fun i c => s.get? c.id = some i ∧ i.BuiltFrom k c)
      ((cs'.map (·.id)).filterMap s.get?) cs' := by
  induction cs' with
  | nil => exact .nil
  | cons c cs' ih =>
    obtain ⟨i, hi, hc⟩ := hbuilt c List.mem_cons_self
    rw [List.map_cons, List.filterMap_cons_some hi]
    exact .cons ⟨hi, hc⟩ (ih fun c' hc' => hbuilt c' (List.mem_cons_of_mem c hc'))

/-- A list of definitions that is followed is mirrored in what runs and in the index. -/
theorem mirrors (h : Follow k cs s) : Mirrors k cs s where
  keyed := h.keyed
  distinct := h.distinct
  running := h.isRunning_iff
  indexed := h.indexed
  neat := h.neat
  consumers a := by
    have hconsumers : s.consumers a = (s.listed a).filterMap s.get? := rfl
    rw [hconsumers, h.listed]
    exact forall₂_filterMap fun c hc => h.built c (List.mem_filter.1 hc).1

end Follow

end Instances

/-- However chains are started, stopped and deleted from none running, with whatever definitions and
outcomes: the running chains and the index of adaptors mirror one another, by the definitions that stand
after the errands. So a message from an adaptor sets out once for each running chain that names the adaptor,
in the order in which they were installed, and for no other. -/
theorem Engine.mirrors_serveAll (k : Catalogue ω η) (e : Engine ω η) (errands : List Errand) :
    let (log, e') := ({ e with instances := {} } : Engine ω η).serveAll k errands
    e'.instances.Mirrors k (standing log) ∧
      ∀ a m, ∃ ts, e'.dispatchFrom k a m = (ts.length, e'.traverseAll k ts) ∧
        List.Forall₂ (fun t c => t.message = m ∧ e'.instances.get? c.id = some t.target ∧
          t.target.BuiltFrom k c) ts ((standing log).filter (·.names a)) := by
  have hmirrors := ((Instances.follow_empty k).serveAll
    (e := { e with instances := {} }) errands).mirrors
  refine ⟨hmirrors, fun a m => ⟨_, rfl, ?_⟩⟩
  rw [Engine.consumers, List.forall₂_map_left_iff]
  exact (hmirrors.consumers a).imp fun i c hi => ⟨rfl, hi⟩

end RuleFlow
