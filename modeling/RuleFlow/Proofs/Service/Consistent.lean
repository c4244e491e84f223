import RuleFlow.Proofs.Instances
import RuleFlow.Proofs.Service.Operations

/-!
# The running chains are the ones stored as started

`Service.Consistent` relates the stored definitions and the running graphs: every chain that runs is stored as
started, its graph was built from the definition that is stored, and the index of adaptors is right. Each
outcome of an operation keeps this, whatever calls of collaborators fail and whatever handlers cannot be made
(`Service.Consistent.perform`), so it holds of every service that is reached from one for which nothing runs
(`Service.Reachable.consistent`).
-/

namespace RuleFlow

variable {ω η : Type}

/-! ## The invariant -/

/-- Definitions are stored under their ids, what runs is stored as started and was built from what is
stored, and the index of adaptors is right. -/
structure Faithful (k : Catalogue ω η) (r : Repository) (s : Instances η) : Prop where
  keyed : ∀ id c, r.get? id = some c → c.id = id
  running : ∀ id i, s.get? id = some i →
    ∃ c, r.get? id = some c ∧ c.status = .started ∧ i.BuiltFrom k c
  indexed : s.Indexed

namespace Faithful

variable {k : Catalogue ω η} {r : Repository} {s s' : Instances η} {c : Chain} {id : String}

/-- Nothing runs under an id under which nothing is stored. -/
theorem idle_of_unstored (h : Faithful k r s) (hid : r.get? id = none) : s.get? id = none := by
  cases hget : s.get? id with
  | none => rfl
  | some i =>
    obtain ⟨c, hc, -⟩ := h.running id i hget
    simp [hid] at hc

/-- A chain that is not stored as started does not run. -/
theorem idle_of_status (h : Faithful k r s) (hc : r.get? id = some c) (hne : c.status ≠ .started) :
    s.get? id = none := by
  cases hget : s.get? id with
  | none => rfl
  | some i =>
    obtain ⟨c', hc', hstarted, -⟩ := h.running id i hget
    rw [hc, Option.some.injEq] at hc'
    exact absurd (hc' ▸ hstarted) hne

/-- The definition of a chain that does not run may be replaced. -/
theorem insert (h : Faithful k r s) (hidle : s.get? c.id = none) :
    Faithful k (r.insert c.id c) s where
  keyed id c' hc' := by
    rw [Table.get?_insert] at hc'
    split at hc'
    case isTrue hid => rw [← Option.some.inj hc', hid]
    case isFalse => exact h.keyed id c' hc'
  running id i hi := by
    have hne : id ≠ c.id := by
      rintro rfl
      simp [hidle] at hi
    obtain ⟨c', hc', hstarted, hbuilt⟩ := h.running id i hi
    exact ⟨c', by rw [Table.get?_insert, if_neg hne, hc'], hstarted, hbuilt⟩
  indexed := h.indexed

/-- The definition of a chain that does not run may be removed. -/
theorem erase (h : Faithful k r s) (hidle : s.get? id = none) : Faithful k (r.erase id) s where
  keyed id' c' hc' := by
    rw [Table.get?_erase] at hc'
    split at hc'
    · simp at hc'
    · exact h.keyed id' c' hc'
  running id' i hi := by
    have hne : id' ≠ id := by
      rintro rfl
      simp [hidle] at hi
    obtain ⟨c', hc', hstarted, hbuilt⟩ := h.running id' i hi
    exact ⟨c', by rw [Table.get?_erase, if_neg hne, hc'], hstarted, hbuilt⟩
  indexed := h.indexed

/-- A graph of the stored definition may be added if that is stored as started. -/
theorem added (h : Faithful k r s) {i : Instance η} (hc : r.get? c.id = some c)
    (hstarted : c.status = .started) (hbuilt : i.BuiltFrom k c) (hidle : s.get? c.id = none) :
    Faithful k r (s.added i) where
  keyed := h.keyed
  running id i' hi' := by
    rw [Instances.get?_added, hbuilt.id_eq] at hi'
    split at hi'
    case isTrue hid =>
      obtain rfl := Option.some.inj hi'
      exact ⟨c, hid ▸ hc, hstarted, hbuilt⟩
    case isFalse => exact h.running id i' hi'
  indexed := h.indexed.added (hbuilt.id_eq ▸ hidle)

/-- A graph that stops running takes nothing from the others. -/
theorem removed (h : Faithful k r s) {i : Instance η} (hi : s.get? id = some i) :
    Faithful k r (s.removed id i) where
  keyed := h.keyed
  running id' i' hi' := by
    rw [Instances.get?_removed] at hi'
    split at hi'
    · simp at hi'
    · exact h.running id' i' hi'
  indexed := h.indexed.removed hi

/-- Fewer graphs may run, as long as the index follows. -/
theorem of_subset (h : Faithful k r s) (hsub : ∀ id i, s'.get? id = some i → s.get? id = some i)
    (hindexed : s'.Indexed) : Faithful k r s' where
  keyed := h.keyed
  running id i hi := h.running id i (hsub id i hi)
  indexed := hindexed

/-- After a stop the chain does not run. -/
theorem stop {e : Engine ω η} (h : Faithful k r e.instances) (id : String) :
    Faithful k r (e.stop k id).2.instances ∧ (e.stop k id).2.instances.get? id = none := by
  cases hstop : (e.stop k id).1 with
  | error err =>
    obtain ⟨hidle, hsame⟩ := Engine.instances_stop_of_error hstop
    rw [hsame]
    exact ⟨h, hidle⟩
  | ok =>
    obtain ⟨i, hi, hremoved⟩ := Engine.instances_stop_of_ok hstop
    rw [hremoved, Instances.get?_removed, if_pos rfl]
    exact ⟨h.removed hi, rfl⟩

/-- A chain that is stored as started may be started. -/
theorem start {e : Engine ω η} (h : Faithful k r e.instances) (hc : r.get? c.id = some c)
    (hstarted : c.status = .started) : Faithful k r (e.start k c).2.instances := by
  cases hstart : (e.start k c).1 with
  | error err =>
    rw [(Engine.instances_start_of_error hstart).2.1]
    exact h
  | ok =>
    obtain ⟨i, -, hsame⟩ | ⟨i, hidle, hbuilt, hadded⟩ := Engine.instances_start_of_ok hstart
    · rw [hsame]
      exact h
    · rw [hadded]
      exact h.added hc hstarted hbuilt hidle

end Faithful

namespace Service

/-- The stored definitions and the running graphs of a service are consistent. -/
def Consistent (k : Catalogue ω η) (s : Service ω η) : Prop :=
  Faithful k s.repository s.engine.instances

variable {k : Catalogue ω η} {o : Occasion} {token id : String} {c current : Chain}
  {s s' : Service ω η}

/-! ## Every outcome keeps it -/

/-- A chain that may be changed, removed or started does not run and has the id asked for. -/
theorem Consistent.idle_of_authorize (h : s.Consistent k) {operation : Operation}
    (hne : operation ≠ .stop) (ha : s.authorize o operation token id = .ok current) :
    current.id = id ∧ s.engine.instances.get? id = none := by
  have hget := get?_of_authorize ha
  have hpermits := (authorize_eq_ok_iff.1 ha).2
  exact ⟨h.keyed id current hget, h.idle_of_status hget (Chain.status_ne_of_permits hne hpermits)⟩

/-- An addition does not touch what runs: the new id was free. -/
theorem Adds.consistent {r : Result Chain} (h : s.Consistent k) (hadds : Adds o token c s r s') :
    s'.Consistent k := by
  cases hadds with
  | refused e => exact h
  | added howner hvalidate hnone => exact Faithful.insert h (h.idle_of_unstored hnone)

/-- An update changes the definition of a chain that does not run. -/
theorem Updates.consistent {r : Result Chain} (h : s.Consistent k)
    (hupdates : Updates o token c s r s') : s'.Consistent k := by
  cases hupdates with
  | refused e => exact h
  | @updated current ha hvalidate =>
    obtain ⟨hid, hidle⟩ := h.idle_of_authorize (by simp) ha
    have hidle' : s.engine.instances.get? (changed o current c).id = none := hid ▸ hidle
    exact Faithful.insert h hidle'

/-- A removal takes away the definition of a chain that does not run. -/
theorem Revokes.consistent {r : Result Unit} (h : s.Consistent k)
    (hrevokes : Revokes k o token id s r s') : s'.Consistent k := by
  cases hrevokes with
  | refused e => exact h
  | kept e ha =>
    obtain ⟨rfl, hidle⟩ := h.idle_of_authorize (by simp) ha
    rw [Engine.delete_of_idle hidle]
    exact h
  | revoked ha =>
    obtain ⟨rfl, hidle⟩ := h.idle_of_authorize (by simp) ha
    rw [Engine.delete_of_idle hidle]
    exact Faithful.erase h hidle

/-- What a graph is built from does not change with the status. -/
theorem builtFrom_restamped {status : Status} {i : Instance η} :
    i.BuiltFrom k (restamped o status c) ↔ i.BuiltFrom k c := Iff.rfl

/-- A start stores what it started as started, or it is undone. -/
theorem Starts.consistent {r : Result Unit} (h : s.Consistent k)
    (hstarts : Starts k o token id s r s') : s'.Consistent k := by
  unfold Service.Consistent
  cases hstarts with
  | refused e => exact h
  | failed ha herror =>
    rw [(Engine.instances_start_of_error herror).2.1]
    exact h
  | undone e ha hok =>
    obtain ⟨rfl, hidle⟩ := h.idle_of_authorize (by simp) ha
    obtain ⟨i, hbuilt, hundone⟩ := Engine.instances_stop_start hidle hok
    have hget := Instances.get?_removed_added hbuilt.id_eq hidle
    rw [hundone]
    refine Faithful.of_subset h (fun id' i' hi' => hget id' ▸ hi') ?_
    refine Instances.Indexed.removed (h.indexed.added (hbuilt.id_eq ▸ hidle)) ?_
    rw [Instances.get?_added, hbuilt.id_eq, if_pos rfl]
  | @started current ha hok =>
    obtain ⟨rfl, hidle⟩ := h.idle_of_authorize (by simp) ha
    obtain ⟨i, hbuilt, hadded⟩ := Engine.instances_start_of_idle hidle hok
    rw [hadded]
    have hinsert := Faithful.insert (c := restamped o .started current) h hidle
    exact hinsert.added (Table.get?_insert_self ..) rfl (builtFrom_restamped.2 hbuilt) hidle

/-- A stop stores what it stopped as stopped, or it is undone. -/
theorem Stops.consistent {r : Result Unit} (h : s.Consistent k)
    (hstops : Stops k o token id s r s') : s'.Consistent k := by
  unfold Service.Consistent
  cases hstops with
  | refused e => exact h
  | @undone current e ha hok =>
    have hget := get?_of_authorize ha
    obtain rfl := h.keyed id current hget
    have hstarted := Chain.status_eq_of_permits_stop (authorize_eq_ok_iff.1 ha).2
    obtain ⟨hstop, hidle⟩ := Faithful.stop h current.id
    cases hstart : ((s.engine.stop k current.id).2.start k (restamped o .stopped current)).1 with
    | error err =>
      rw [(Engine.instances_start_of_error hstart).2.1]
      exact hstop
    | ok =>
      obtain ⟨i, hbuilt, hadded⟩ :=
        Engine.instances_start_of_idle (c := restamped o .stopped current) hidle hstart
      rw [hadded]
      exact hstop.added hget hstarted (builtFrom_restamped.1 hbuilt) hidle
  | idle e ha herror =>
    rw [(Engine.instances_stop_of_error herror).2]
    exact h
  | @stopped current ha =>
    obtain ⟨hstop, hidle⟩ := Faithful.stop h current.id
    exact Faithful.insert (c := restamped o .stopped current) hstop hidle

/-- Restoring a chain does not touch what is stored of others. -/
theorem Restores.get?_of_ne {b : Bool} (hrestores : Restores k o c s b s') (hne : id ≠ c.id) :
    s'.repository.get? id = s.repository.get? id := by
  cases hrestores with
  | runs hok => rfl
  | kept herror => rfl
  | stopped herror => exact (Table.get?_insert ..).trans (if_neg hne)

/-- Restoring a chain keeps what runs by its definition. -/
theorem Restores.consistent {b : Bool} (h : s.Consistent k) (hc : s.repository.get? c.id = some c)
    (hstarted : c.status = .started) (hrestores : Restores k o c s b s') : s'.Consistent k := by
  have hstart := Faithful.start h hc hstarted
  cases hrestores with
  | runs hok => exact hstart
  | kept herror => exact hstart
  | stopped herror =>
    obtain ⟨hidle, hsame, -⟩ := Engine.instances_start_of_error herror
    refine Faithful.insert (c := restamped (o.reread c.id) .stopped c) hstart ?_
    rw [hsame]
    exact hidle

theorem restoreAll_cons (k : Catalogue ω η) (o : Occasion) (c : Chain) (cs : List Chain) (s : Service ω η) :
    s.restoreAll o k (c :: cs) =
      (((s.restoreOne o k c).2.restoreAll o k cs).1 + (s.restoreOne o k c).1.toNat,
        ((s.restoreOne o k c).2.restoreAll o k cs).2) := rfl

/-- Once the chains that are stored as started are listed, all of them are restored. -/
theorem restore_of_listed (k : Catalogue ω η) (hlists : o.fails .withStatus = false) (s : Service ω η) :
    s.restore o k = (.ok (s.restoreAll o k (s.repository.withStatus .started)).1,
      (s.restoreAll o k (s.repository.withStatus .started)).2) := by
  rw [restore, Occasion.stored, hlists]
  rfl

/-- What restoring one chain keeps, restoring several does: the remaining ones stay as they were listed. -/
theorem restoreAll_induct {P : Service ω η → Prop} {cs : List Chain} (hs : P s)
    (hcs : ∀ c ∈ cs, s.repository.get? c.id = some c ∧ c.status = .started)
    (hd : (cs.map (·.id)).Nodup)
    (hstep : ∀ s c b s', P s → s.repository.get? c.id = some c → c.status = .started →
      Restores k o c s b s' → P s') : P (s.restoreAll o k cs).2 := by
  induction cs generalizing s with
  | nil => exact hs
  | cons c cs ih =>
    rw [List.map_cons, List.nodup_cons] at hd
    obtain ⟨hc, hstarted⟩ := hcs c List.mem_cons_self
    have hone := restores_restoreOne k o c s
    rw [restoreAll_cons]
    refine ih (hstep s c _ _ hs hc hstarted hone) (fun c' hc' => ?_) hd.2
    have hne : c'.id ≠ c.id := fun he => hd.1 (he ▸ List.mem_map_of_mem hc')
    rw [hone.get?_of_ne hne]
    exact hcs c' (List.mem_cons_of_mem _ hc')

/-- What holds of a service and is kept by restoring one chain after the other holds after a restoration. -/
theorem restore_induct {P : Service ω η → Prop} (hs : P s)
    (hkeyed : ∀ id c, s.repository.get? id = some c → c.id = id)
    (hstep : ∀ s c b s', P s → s.repository.get? c.id = some c → c.status = .started →
      Restores k o c s b s' → P s') : P (s.restore o k).2 := by
  unfold Service.restore
  cases hlist : o.stored .withStatus (.ok (s.repository.withStatus .started)) with
  | error e => exact hs
  | ok cs =>
    obtain ⟨-, hcs⟩ := Occasion.stored_eq_ok_iff.1 hlist
    obtain rfl := Except.ok.inj hcs
    exact restoreAll_induct hs (fun c hc => Repository.get?_of_mem_withStatus hkeyed hc)
      (Repository.nodup_ids_withStatus hkeyed) hstep

/-- What runs is listed as started. -/
theorem Consistent.mem_ids_of_running (h : s.Consistent k) {i : Instance η}
    (hi : s.engine.instances.get? id = some i) :
    id ∈ (s.repository.withStatus .started).map (·.id) := by
  obtain ⟨c, hc, hstarted, -⟩ := h.running id i hi
  obtain rfl := h.keyed id c hc
  exact List.mem_map_of_mem (Repository.mem_withStatus.2 ⟨⟨c.id, hc⟩, hstarted⟩)

theorem Consistent.restore (h : s.Consistent k) : (s.restore o k).2.Consistent k :=
  restore_induct h h.keyed fun _ _ _ _ h hc hstarted hrestores => hrestores.consistent h hc hstarted

/-- Every operation keeps it. -/
theorem Consistent.perform (h : s.Consistent k) (o : Occasion) (request : Request) :
    (s.perform k o request).2.Consistent k := by
  cases request with
  | add token c => exact (adds_add o token c s).consistent h
  | update token c => exact (updates_update o token c s).consistent h
  | revoke token id => exact (revokes_revoke k o token id s).consistent h
  | start token id => exact (starts_start k o token id s).consistent h
  | stop token id => exact (stops_stop k o token id s).consistent h
  | restore => exact h.restore
  | list token offset limit => exact h
  | get token id => exact h
  | check token payload => simpa [Service.perform, Service.Consistent] using h
  | deliver e => simpa [Service.perform, Service.Consistent] using h
  | deliverFrom adaptor payload => simpa [Service.perform, Service.Consistent] using h

theorem consistent_opened (k : Catalogue ω η) (settings : Settings) (tokens : Table String)
    (chains : List Chain) (cache : NameCache) (engine : Engine ω η) :
    (opened settings tokens chains cache engine).Consistent k where
  keyed id c hc := by
    obtain ⟨c', -, hpair⟩ := List.mem_map.1 (Table.mem_of_get?_ofList hc)
    obtain ⟨rfl, rfl⟩ := Prod.mk.inj hpair
    rfl
  running id i hi := by simp [opened, Instances.get?] at hi
  indexed := Instances.indexed_empty

/-- In every service that was reached from a beginning, what runs is stored as started. -/
theorem Reachable.consistent (h : s.Reachable k) : s.Consistent k := by
  induction h with
  | opened settings tokens chains cache engine =>
    exact consistent_opened k settings tokens chains cache engine
  | perform o request _ ih => exact ih.perform o request

/-- Whatever runs is stored as started, under its own id, and was built from what is stored. -/
theorem stored_of_running (h : s.Reachable k) {i : Instance η}
    (hi : s.engine.instances.get? id = some i) :
    ∃ c, s.repository.get? id = some c ∧ c.id = id ∧ c.status = .started ∧ i.BuiltFrom k c := by
  obtain ⟨c, hc, hstarted, hbuilt⟩ := h.consistent.running id i hi
  exact ⟨c, hc, h.consistent.keyed id c hc, hstarted, hbuilt⟩

/-- An occasion on which no call fails. -/
def calm : Occasion := { now := 0, freshId := "", freshUuid := ⟨0⟩ }

/-- A service of one caller, who has added a chain of two nodes and started it. -/
def pairStarted : Service Unit Unit :=
  let s := opened {} (Table.ofList [("token", "owner")]) [] .empty
    { journey := ⟨(), [], []⟩, failures := { capacity := 1 } }
  let s := (s.perform .relay calm (.add "token" { id := "pair", payload := GraphPayload.pair.text })).2
  (s.perform .relay calm (.start "token" "pair")).2

theorem reachable_pairStarted : pairStarted.Reachable .relay :=
  .perform _ _ (.perform _ _ (.opened ..))

theorem stored_of_running_pair :
    ∃ i c, pairStarted.engine.instances.get? "pair" = some i ∧
      pairStarted.repository.get? "pair" = some c ∧ c.id = "pair" ∧ c.status = .started ∧
      i.BuiltFrom .relay c := by
  have hsome : (pairStarted.engine.instances.get? "pair").isSome = true := by decide +kernel
  obtain ⟨i, hi⟩ := Option.isSome_iff_exists.1 hsome
  obtain ⟨c, hc⟩ := stored_of_running reachable_pairStarted hi
  exact ⟨i, c, hi, hc⟩

end Service

end RuleFlow
