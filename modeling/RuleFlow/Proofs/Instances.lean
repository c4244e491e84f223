import RuleFlow.Engine
import RuleFlow.Proofs.Graph.Compile

/-!
# What starting and stopping do to the running graphs

The index of adaptors is seen through `Instances.listed`, the chains under an adaptor in their order. Two
changes occur: a graph is added (`Instances.added`) or taken away (`Instances.removed`). `Engine.Starts` and
`Engine.Stops` list what a start and a stop can do, each outcome with what led to it; whoever calls them cites
these and looks no further.

`Instance.BuiltFrom` says that a running graph was made from the definition of a chain, and
`Instances.Indexed` that the index names under each adaptor the running chains that take its data.
-/

namespace RuleFlow

variable {ω η : Type}

/-- A running graph was compiled from the definition of a chain, at some time. -/
def Instance.BuiltFrom (k : Catalogue ω η) (c : Chain) (i : Instance η) : Prop :=
  ∃ g w w', Graph.compile k c.payload w = (.ok g, w') ∧ i = .ofChain c g

namespace Instance.BuiltFrom

variable {k : Catalogue ω η} {c c' : Chain} {i i' : Instance η}

theorem id_eq (h : i.BuiltFrom k c) : i.id = c.id := by
  obtain ⟨g, w, w', -, rfl⟩ := h
  rfl

/-- Two instances of one definition take the data of the same adaptors. -/
theorem adaptors_eq (h : i.BuiltFrom k c) (h' : i'.BuiltFrom k c) :
    i.graph.adaptors = i'.graph.adaptors := by
  obtain ⟨g, w₁, w₂, hcompile, rfl⟩ := h
  obtain ⟨g', w₃, w₄, hcompile', rfl⟩ := h'
  obtain ⟨p, hs, hread, -, -, hrep⟩ := Graph.exists_represents_of_compile hcompile
  obtain ⟨p', hs', hread', -, -, hrep'⟩ := Graph.exists_represents_of_compile hcompile'
  obtain rfl : p = p' := Except.ok.inj (hread.symm.trans hread')
  exact hrep.adaptors.trans hrep'.adaptors.symm

end Instance.BuiltFrom

namespace Instances

/-! ## The index of adaptors -/

/-- The chains under an adaptor, in the order in which they were entered. -/
def listedIn (index : Table (List String)) (adaptor : String) : List String :=
  (index.get? adaptor).getD []

/-- The running chains that are entered under an adaptor. -/
def listed (s : Instances η) (adaptor : String) : List String := listedIn s.adaptors adaptor

/-- A chain is listed behind the others, unless it is listed already. -/
theorem listedIn_enlist (id : String) (index : Table (List String)) (a b : String) :
    listedIn (enlist id index a) b =
      if b = a ∧ id ∉ listedIn index b then listedIn index b ++ [id] else listedIn index b := by
  have henlist : enlist id index a =
      if id ∈ listedIn index a then index else index.insert a (listedIn index a ++ [id]) := rfl
  rw [henlist]
  by_cases hb : b = a
  · subst hb
    by_cases hid : id ∈ listedIn index b
    · simp [hid]
    · rw [if_neg hid, if_pos ⟨rfl, hid⟩, listedIn, Table.get?_insert_self, Option.getD_some]
  · have hne : ¬(b = a ∧ id ∉ listedIn index b) := fun h => hb h.1
    rw [if_neg hne]
    split
    · rfl
    · rw [listedIn, Table.get?_insert, if_neg hb, listedIn]

theorem listedIn_foldl_enlist (id : String) (as : List String) (index : Table (List String))
    (b : String) :
    listedIn (as.foldl (enlist id) index) b =
      if b ∈ as ∧ id ∉ listedIn index b then listedIn index b ++ [id] else listedIn index b := by
  induction as generalizing index with
  | nil => simp
  | cons a as ih =>
    rw [List.foldl_cons, ih, listedIn_enlist]
    by_cases hid : id ∈ listedIn index b
    · simp [hid]
    · by_cases hb : b = a
      · subst hb
        simp [hid]
      · simp [hb, hid]

theorem listedIn_delist (id : String) (index : Table (List String)) (a b : String) :
    listedIn (delist id index a) b =
      if b = a then (listedIn index b).filter (· ≠ id) else listedIn index b := by
  unfold delist listedIn
  by_cases hb : b = a
  · subst hb
    rw [if_pos rfl]
    cases hget : index.get? b with
    | none => simp [hget]
    | some ids =>
      simp only [Option.getD_some]
      cases hrest : ids.filter (· ≠ id) with
      | nil => simp
      | cons x xs => simp
  · rw [if_neg hb]
    cases hget : index.get? a with
    | none => rfl
    | some ids =>
      simp only
      cases ids.filter (· ≠ id) with
      | nil => simp [Table.get?_erase, hb]
      | cons x xs => simp [Table.get?_insert, hb]

/-- A chain is taken from the lists of several adaptors. -/
theorem listedIn_foldl_delist (id : String) (as : List String) (index : Table (List String))
    (b : String) :
    listedIn (as.foldl (delist id) index) b =
      if b ∈ as then (listedIn index b).filter (· ≠ id) else listedIn index b := by
  induction as generalizing index with
  | nil => simp
  | cons a as ih =>
    rw [List.foldl_cons, ih, listedIn_delist]
    by_cases hb : b = a <;> by_cases hmem : b ∈ as <;> simp [hb, hmem, List.filter_filter]

/-- The running graphs and one more. -/
def added (i : Instance η) (s : Instances η) : Instances η :=
  { running := s.running.insert i.id i
    adaptors := i.graph.adaptors.foldl (enlist i.id) s.adaptors }

/-- The running graphs without the one of a chain. -/
def removed (id : String) (i : Instance η) (s : Instances η) : Instances η :=
  { running := s.running.erase id
    adaptors := i.graph.adaptors.foldl (delist id) s.adaptors }

theorem get?_added (i : Instance η) (s : Instances η) (id : String) :
    (s.added i).get? id = if id = i.id then some i else s.get? id := Table.get?_insert ..

/-- An instance that is removed does not run; the others stay. -/
theorem get?_removed (id : String) (i : Instance η) (s : Instances η) (id' : String) :
    (s.removed id i).get? id' = if id' = id then none else s.get? id' := Table.get?_erase ..

/-- What is added and taken away again leaves the graphs that ran before. -/
theorem get?_removed_added {id : String} {i : Instance η} {s : Instances η} (hi : i.id = id)
    (hidle : s.get? id = none) (id' : String) :
    ((s.added i).removed id i).get? id' = s.get? id' := by
  rw [get?_removed, get?_added, hi]
  by_cases hid : id' = id
  · rw [if_pos hid, hid, hidle]
  · rw [if_neg hid, if_neg hid]

/-- An instance that is added is listed under its adaptors. -/
theorem mem_listed_added {i : Instance η} {s : Instances η} {a id : String} :
    id ∈ (s.added i).listed a ↔ id ∈ s.listed a ∨ id = i.id ∧ a ∈ i.graph.adaptors := by
  rw [listed, added, listedIn_foldl_enlist, ← listed]
  split
  case isTrue h => simp [h.1]
  case isFalse h =>
    refine (or_iff_left_of_imp ?_).symm
    rintro ⟨rfl, ha⟩
    exact not_not.1 fun hid => h ⟨ha, hid⟩

/-- An instance that is removed is taken from the lists of its adaptors. -/
theorem mem_listed_removed {id : String} {i : Instance η} {s : Instances η} {a id' : String} :
    id' ∈ (s.removed id i).listed a ↔ id' ∈ s.listed a ∧ ¬(id' = id ∧ a ∈ i.graph.adaptors) := by
  rw [listed, removed, listedIn_foldl_delist, ← listed]
  by_cases ha : a ∈ i.graph.adaptors <;> simp [ha]

theorem isRunning_iff {s : Instances η} {id : String} :
    s.isRunning id = true ↔ ∃ i, s.get? id = some i := Table.contains_iff

theorem isRunning_eq_false_iff {s : Instances η} {id : String} :
    s.isRunning id = false ↔ s.get? id = none := Table.contains_eq_false_iff

/-! ## What holds of every set of instances -/

/-- Every graph that runs does so under the id of its chain. -/
def Keyed (s : Instances η) : Prop := ∀ id i, s.get? id = some i → i.id = id

theorem keyed_empty : Keyed ({} : Instances η) := by
  intro id i hi
  simp [get?] at hi

theorem Keyed.added {s : Instances η} (h : s.Keyed) (i : Instance η) : (s.added i).Keyed := by
  intro id i' hi'
  rw [get?_added] at hi'
  split at hi'
  case isTrue hid => rw [← Option.some.inj hi', hid]
  case isFalse => exact h id i' hi'

theorem Keyed.removed {s : Instances η} (h : s.Keyed) (id : String) (i : Instance η) :
    (s.removed id i).Keyed := by
  intro id' i' hi'
  rw [get?_removed] at hi'
  split at hi'
  · simp at hi'
  · exact h id' i' hi'

/-- No two graphs run for one chain. -/
theorem Keyed.nodup_ids {s : Instances η} (h : s.Keyed) : (s.running.values.map (·.id)).Nodup := by
  have hids : s.running.values.map (·.id) = s.running.keys := by
    rw [Table.values, Table.keys, List.map_map]
    exact List.map_congr_left fun e he => h e.1 e.2 (Table.get?_eq_some_iff.2 he)
  exact hids ▸ s.running.nodup_keys

/-- If what runs are some of the chains in a list, so many of the list run. -/
theorem countP_isRunning {s : Instances η} {cs : List Chain} (hd : (cs.map (·.id)).Nodup)
    (hall : ∀ id i, s.get? id = some i → id ∈ cs.map (·.id)) :
    cs.countP (s.isRunning ·.id) = s.runningIds.length := by
  have hids : ((cs.filter (s.isRunning ·.id)).map (·.id)).Nodup := hd.sublist (List.filter_sublist.map _)
  rw [List.countP_eq_length_filter, ← List.length_map (·.id)]
  refine ((List.perm_ext_iff_of_nodup hids s.running.nodup_keys).2 fun id => ?_).length_eq
  rw [List.mem_map, Table.mem_keys]
  constructor
  · rintro ⟨c, hc, rfl⟩
    exact isRunning_iff.1 (List.mem_filter.1 hc).2
  · rintro ⟨i, hi⟩
    obtain ⟨c, hc, rfl⟩ := List.mem_map.1 (hall id i hi)
    exact ⟨c, List.mem_filter.2 ⟨hc, isRunning_iff.2 ⟨i, hi⟩⟩, rfl⟩

/-- Under each adaptor stand the running chains that take its data. -/
def Indexed (s : Instances η) : Prop :=
  ∀ a id, id ∈ s.listed a ↔ ∃ i, s.get? id = some i ∧ a ∈ i.graph.adaptors

theorem indexed_empty : Indexed ({} : Instances η) := by
  intro a id
  simp [listed, listedIn, get?]

theorem Indexed.added {s : Instances η} (h : s.Indexed) {i : Instance η} (hi : s.get? i.id = none) :
    (s.added i).Indexed := by
  intro a id
  rw [mem_listed_added, h a id, get?_added]
  by_cases hid : id = i.id
  · subst hid
    simp [hi]
  · simp [hid]

/-- The index stays right when an instance is removed. -/
theorem Indexed.removed {s : Instances η} (h : s.Indexed) {id : String} {i : Instance η}
    (hi : s.get? id = some i) : (s.removed id i).Indexed := by
  intro a id'
  rw [mem_listed_removed, h a id', get?_removed]
  by_cases hid : id' = id
  · subst hid
    simp [hi]
  · simp [hid]

end Instances

/-! ## Starting and stopping -/

namespace Engine

variable {k : Catalogue ω η} {s : Engine ω η} {id : String}

/-- What starting a chain answers, and the graphs that run then. -/
inductive Starts (k : Catalogue ω η) (c : Chain) (s : Engine ω η) : Result Unit → Instances η → Prop
  | running {i : Instance η} : s.instances.get? c.id = some i → Starts k c s (.ok ()) s.instances
  | refused {es : List RuleError} {w : ω} : s.instances.get? c.id = none →
    Graph.compile k c.payload s.world = (.error es, w) →
    Starts k c s (.error (Instances.leadingError es)) s.instances
  | started {g : Graph η} {w : ω} : s.instances.get? c.id = none →
    Graph.compile k c.payload s.world = (.ok g, w) →
    Starts k c s (.ok ()) (s.instances.added (.ofChain c g))

/-- What stopping a chain answers, and the graphs that run then. -/
inductive Stops (id : String) (s : Engine ω η) : Result Unit → Instances η → Prop
  | stopped {i : Instance η} : s.instances.get? id = some i →
    Stops id s (.ok ()) (s.instances.removed id i)
  | idle : s.instances.get? id = none → Stops id s (.error (.notRunning id)) s.instances

/-- A chain that does not run and compiles is started. -/
theorem start_of_compile_ok {c : Chain} {g : Graph η} {w : ω}
    (hidle : s.instances.get? c.id = none)
    (hcompile : Graph.compile k c.payload s.world = (.ok g, w)) :
    s.start k c =
      (.ok (), { s with instances := s.instances.added (.ofChain c g) }.withWorld w) := by
  have hrunning : s.instances.isRunning c.id = false := Instances.isRunning_eq_false_iff.2 hidle
  have hinstall : s.instances.install (.ofChain c g) = some (s.instances.added (.ofChain c g)) :=
    if_neg (Bool.eq_false_iff.1 hrunning)
  simp [start, Instances.start, Instances.launch, hrunning, hcompile, Instances.settle, hinstall]

/-- A chain that does not run and does not compile is not started. -/
theorem start_of_compile_error {c : Chain} {es : List RuleError} {w : ω}
    (hidle : s.instances.get? c.id = none)
    (hcompile : Graph.compile k c.payload s.world = (.error es, w)) :
    s.start k c = (.error (Instances.leadingError es), s.withWorld w) := by
  have hrunning : s.instances.isRunning c.id = false := Instances.isRunning_eq_false_iff.2 hidle
  simp [start, Instances.start, Instances.launch, hrunning, hcompile]

/-- A chain that runs is left as it is. -/
theorem start_of_running {c : Chain} {i : Instance η} (hi : s.instances.get? c.id = some i) :
    s.start k c = (.ok (), s) := by
  have hrunning : s.instances.isRunning c.id = true := Instances.isRunning_iff.2 ⟨i, hi⟩
  simp [start, Instances.start, Instances.launch, hrunning, withWorld, world]

/-- The outcomes in `Starts` are all that starting a chain can do to the instances. -/
theorem starts_start (k : Catalogue ω η) (c : Chain) (s : Engine ω η) :
    Starts k c s (s.start k c).1 (s.start k c).2.instances := by
  cases hget : s.instances.get? c.id with
  | some i =>
    rw [start_of_running hget]
    exact .running hget
  | none =>
    rcases hcompile : Graph.compile k c.payload s.world with ⟨es | g, w⟩
    · rw [start_of_compile_error hget hcompile]
      exact .refused hget hcompile
    · rw [start_of_compile_ok hget hcompile]
      exact .started hget hcompile

/-- The outcomes in `Stops` are all that stopping a chain can do to the instances. -/
theorem stops_stop (k : Catalogue ω η) (id : String) (s : Engine ω η) :
    Stops id s (s.stop k id).1 (s.stop k id).2.instances := by
  simp only [stop, withWorld, Instances.stop, Instances.remove]
  cases hget : s.instances.running.get? id with
  | none => exact .idle hget
  | some i => exact .stopped hget

/-- A start that fails compiled a definition with defects and has installed nothing. -/
theorem instances_start_of_error {c : Chain} {e : RuleError} (h : (s.start k c).1 = .error e) :
    s.instances.get? c.id = none ∧ (s.start k c).2.instances = s.instances ∧
      ∃ es w, Graph.compile k c.payload s.world = (.error es, w) := by
  have houtcome := starts_start k c s
  rw [h] at houtcome
  generalize (s.start k c).2.instances = s' at houtcome ⊢
  cases houtcome with
  | refused hnone hcompile => exact ⟨hnone, rfl, _, _, hcompile⟩

/-- A start that goes well finds the chain running or adds a graph of its definition. -/
theorem instances_start_of_ok {c : Chain} (h : (s.start k c).1 = .ok ()) :
    (∃ i, s.instances.get? c.id = some i ∧ (s.start k c).2.instances = s.instances) ∨
      ∃ i, s.instances.get? c.id = none ∧ i.BuiltFrom k c ∧
        (s.start k c).2.instances = s.instances.added i := by
  have houtcome := starts_start k c s
  rw [h] at houtcome
  generalize (s.start k c).2.instances = s' at houtcome ⊢
  cases houtcome with
  | running hi => exact .inl ⟨_, hi, rfl⟩
  | started hnone hcompile => exact .inr ⟨_, hnone, ⟨_, _, _, hcompile, rfl⟩, rfl⟩

theorem instances_stop_of_ok (h : (s.stop k id).1 = .ok ()) :
    ∃ i, s.instances.get? id = some i ∧ (s.stop k id).2.instances = s.instances.removed id i := by
  have houtcome := stops_stop k id s
  rw [h] at houtcome
  generalize (s.stop k id).2.instances = s' at houtcome ⊢
  cases houtcome with
  | stopped hi => exact ⟨_, hi, rfl⟩

/-- A stop fails if nothing runs under the id, and changes nothing. -/
theorem instances_stop_of_error {e : RuleError} (h : (s.stop k id).1 = .error e) :
    s.instances.get? id = none ∧ (s.stop k id).2.instances = s.instances := by
  have houtcome := stops_stop k id s
  rw [h] at houtcome
  generalize (s.stop k id).2.instances = s' at houtcome ⊢
  cases houtcome with
  | idle hnone => exact ⟨hnone, rfl⟩

/-- What runs can be stopped. -/
theorem instances_stop_of_get? {i : Instance η} (h : s.instances.get? id = some i) :
    (s.stop k id).1 = .ok () ∧ (s.stop k id).2.instances = s.instances.removed id i := by
  have houtcome := stops_stop k id s
  generalize (s.stop k id).1 = r, (s.stop k id).2.instances = s' at houtcome ⊢
  cases houtcome with
  | stopped hi =>
    obtain rfl := Option.some.inj (h.symm.trans hi)
    exact ⟨rfl, rfl⟩
  | idle hnone => simp [h] at hnone

/-- A start that succeeds, of a chain that did not run, installs its graph. -/
theorem instances_start_of_idle {c : Chain} (hidle : s.instances.get? c.id = none)
    (hok : (s.start k c).1 = .ok ()) :
    ∃ i, i.BuiltFrom k c ∧ (s.start k c).2.instances = s.instances.added i := by
  obtain ⟨i, hi, -⟩ | ⟨i, -, hadded⟩ := instances_start_of_ok hok
  · simp [hidle] at hi
  · exact ⟨i, hadded⟩

/-- A chain that was started with success runs. -/
theorem exists_get?_start {c : Chain} (hok : (s.start k c).1 = .ok ()) :
    ∃ i, (s.start k c).2.instances.get? c.id = some i := by
  obtain ⟨i, hi, hsame⟩ | ⟨i, -, hbuilt, hadded⟩ := instances_start_of_ok hok
  · exact ⟨i, hsame ▸ hi⟩
  · refine ⟨i, ?_⟩
    rw [hadded, Instances.get?_added, hbuilt.id_eq, if_pos rfl]

/-- A start concerns no other chain. -/
theorem get?_start_of_ne {c : Chain} (hne : id ≠ c.id) :
    (s.start k c).2.instances.get? id = s.instances.get? id := by
  cases hstart : (s.start k c).1 with
  | error e => rw [(instances_start_of_error hstart).2.1]
  | ok =>
    obtain ⟨i, -, hsame⟩ | ⟨i, -, hbuilt, hadded⟩ := instances_start_of_ok hstart
    · rw [hsame]
    · rw [hadded, Instances.get?_added, hbuilt.id_eq, if_neg hne]

/-- A chain that was stopped does not run. -/
theorem get?_stop_self (k : Catalogue ω η) (id : String) (s : Engine ω η) :
    (s.stop k id).2.instances.get? id = none := by
  cases hstop : (s.stop k id).1 with
  | error e =>
    obtain ⟨hidle, hsame⟩ := instances_stop_of_error hstop
    rw [hsame, hidle]
  | ok =>
    obtain ⟨i, -, hremoved⟩ := instances_stop_of_ok hstop
    rw [hremoved, Instances.get?_removed, if_pos rfl]

/-- A stop concerns no other chain. -/
theorem get?_stop_of_ne {id' : String} (hne : id' ≠ id) :
    (s.stop k id).2.instances.get? id' = s.instances.get? id' := by
  cases hstop : (s.stop k id).1 with
  | error e => rw [(instances_stop_of_error hstop).2]
  | ok =>
    obtain ⟨i, -, hremoved⟩ := instances_stop_of_ok hstop
    rw [hremoved, Instances.get?_removed, if_neg hne]

/-- A start that found nothing running and is followed by a stop. -/
theorem instances_stop_start {c : Chain} (hidle : s.instances.get? c.id = none)
    (hok : (s.start k c).1 = .ok ()) :
    ∃ i, i.BuiltFrom k c ∧
      ((s.start k c).2.stop k c.id).2.instances = (s.instances.added i).removed c.id i := by
  obtain ⟨i, hbuilt, hadded⟩ := instances_start_of_idle hidle hok
  have hget : (s.start k c).2.instances.get? c.id = some i := by
    rw [hadded, Instances.get?_added, hbuilt.id_eq, if_pos rfl]
  refine ⟨i, hbuilt, ?_⟩
  rw [(instances_stop_of_get? hget).2, hadded]

/-- A definition that was compiled once can be started at any time. -/
theorem start_of_steady (hk : k.Steady) {c : Chain} {i : Instance η} (hbuilt : i.BuiltFrom k c)
    (s : Engine ω η) : (s.start k c).1 = .ok () := by
  obtain ⟨g, w, w', hcompile, -⟩ := hbuilt
  cases hstart : (s.start k c).1 with
  | ok => rfl
  | error e =>
    obtain ⟨-, -, es, w₁, herror⟩ := instances_start_of_error hstart
    obtain ⟨g', w₂, hagain⟩ := Graph.exists_compile_of_steady hk hcompile s.world
    simp [hagain] at herror

/-- A stop that is followed by a start leaves running what did run. -/
theorem get?_start_stop_eq_none_iff (hk : k.Steady) {c : Chain} {i : Instance η}
    (hi : s.instances.get? c.id = some i) (hbuilt : i.BuiltFrom k c) (id : String) :
    ((s.stop k c.id).2.start k c).2.instances.get? id = none ↔ s.instances.get? id = none := by
  have hremoved := (instances_stop_of_get? (k := k) hi).2
  have hidle : (s.stop k c.id).2.instances.get? c.id = none := by
    rw [hremoved, Instances.get?_removed, if_pos rfl]
  obtain ⟨i', hbuilt', hadded⟩ :=
    instances_start_of_idle hidle (start_of_steady hk hbuilt (s.stop k c.id).2)
  rw [hadded, Instances.get?_added, hremoved, Instances.get?_removed, hbuilt'.id_eq]
  by_cases hid : id = c.id
  · simp [hid, hi]
  · rw [if_neg hid, if_neg hid]

/-- A chain that does not run is deleted without any change. -/
theorem delete_of_idle (hid : s.instances.get? id = none) : s.delete k id = (.ok (), s) := by
  have hget : s.instances.running.get? id = none := hid
  simp only [delete, Instances.delete, Instances.stop, Instances.remove, hget, Option.map_none]
  rfl

@[simp] theorem instances_check (k : Catalogue ω η) (payload : List UInt8) (s : Engine ω η) :
    (s.check k payload).2.instances = s.instances := by
  unfold check
  split <;> rfl

@[simp] theorem instances_traverseAll (k : Catalogue ω η) (ts : List (Traversal η)) (s : Engine ω η) :
    (s.traverseAll k ts).instances = s.instances := by
  unfold traverseAll
  induction ts generalizing s with
  | nil => rfl
  | cons t ts ih =>
    rw [List.foldl_cons, ih, traverse]
    split <;> rfl

end Engine

end RuleFlow
