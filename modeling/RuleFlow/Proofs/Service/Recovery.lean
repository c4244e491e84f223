import RuleFlow.Proofs.Service.History

/-!
# A restart gives back what ran

In a consistent service what runs is stored as started. The converse holds as well if all that is stored came
in by requests (`Service.Complete`): a chain that is stored as started runs, because a request that starts or
stops a chain and cannot store its new status undoes what it did. So the stored definitions alone determine
what runs, and an engine that starts with nothing finds it again by restoring
(`Service.recovered_of_empty`).
-/

namespace RuleFlow

variable {ω η : Type}

/-- Every chain that is stored as started runs. -/
def Complete (r : Repository) (s : Instances η) : Prop :=
  ∀ id c, r.get? id = some c → c.status = .started → s.get? id ≠ none

namespace Complete

variable {r : Repository} {s s' : Instances η} {c : Chain} {id : String}

/-- A definition may be stored unless it says that a chain is started that does not run. -/
theorem insert (h : Complete r s) (hc : c.status = .started → s.get? id ≠ none) :
    Complete (r.insert id c) s := by
  intro id' c' hget hstarted
  rw [Table.get?_insert] at hget
  split at hget
  case isTrue hid =>
    obtain rfl := Option.some.inj hget
    exact hid ▸ hc hstarted
  case isFalse => exact h id' c' hget hstarted

/-- A definition may always be removed. -/
theorem erase (h : Complete r s) (id : String) : Complete (r.erase id) s := by
  intro id' c' hget hstarted
  rw [Table.get?_erase] at hget
  split at hget
  · simp at hget
  · exact h id' c' hget hstarted

/-- More graphs may run. -/
theorem of_running (h : Complete r s) (hsub : ∀ id, s'.get? id = none → s.get? id = none) :
    Complete r s' := fun id c hget hstarted hnone => h id c hget hstarted (hsub id hnone)

/-- A start takes nothing away. -/
theorem start {e : Engine ω η} (h : Complete r e.instances) (k : Catalogue ω η) (c : Chain) :
    Complete r (e.start k c).2.instances := by
  refine h.of_running fun id hnone => ?_
  by_cases hid : id = c.id
  · subst hid
    cases hstart : (e.start k c).1 with
    | error err => exact (Engine.instances_start_of_error hstart).1
    | ok =>
      obtain ⟨i, hi⟩ := Engine.exists_get?_start hstart
      simp [hi] at hnone
  · rwa [← Engine.get?_start_of_ne (k := k) hid]

end Complete

namespace Service

variable {k : Catalogue ω η} {o : Occasion} {token id : String} {c : Chain} {s s' : Service ω η}

/-- Every chain that a service stores as started runs. -/
def Complete (s : Service ω η) : Prop := RuleFlow.Complete s.repository s.engine.instances

/-! ## Every outcome keeps it -/

theorem Adds.complete {r : Result Chain} (h : s.Complete) (hadds : Adds o token c s r s') :
    s'.Complete := by
  cases hadds with
  | refused e => exact h
  | added howner hvalidate hnone => exact RuleFlow.Complete.insert h (by simp [newChain])

theorem Updates.complete {r : Result Chain} (h : s.Complete) (hupdates : Updates o token c s r s') :
    s'.Complete := by
  cases hupdates with
  | refused e => exact h
  | @updated current ha hvalidate =>
    have hne : current.status ≠ .started :=
      Chain.status_ne_of_permits (by simp) (authorize_eq_ok_iff.1 ha).2
    exact RuleFlow.Complete.insert h fun hstarted => absurd hstarted hne

/-- A removed chain did not run. -/
theorem Revokes.complete {r : Result Unit} (hs : s.Consistent k) (h : s.Complete)
    (hrevokes : Revokes k o token id s r s') : s'.Complete := by
  unfold Service.Complete
  cases hrevokes with
  | refused e => exact h
  | kept e ha =>
    obtain ⟨rfl, hidle⟩ := hs.idle_of_authorize (by simp) ha
    rw [Engine.delete_of_idle hidle]
    exact h
  | revoked ha =>
    obtain ⟨rfl, hidle⟩ := hs.idle_of_authorize (by simp) ha
    rw [Engine.delete_of_idle hidle]
    exact RuleFlow.Complete.erase h _

/-- What a start stores as started runs. -/
theorem Starts.complete {r : Result Unit} (hs : s.Consistent k) (h : s.Complete)
    (hstarts : Starts k o token id s r s') : s'.Complete := by
  unfold Service.Complete
  cases hstarts with
  | refused e => exact h
  | failed ha herror =>
    rw [(Engine.instances_start_of_error herror).2.1]
    exact h
  | undone e ha hok =>
    obtain ⟨rfl, hidle⟩ := hs.idle_of_authorize (by simp) ha
    obtain ⟨i, hbuilt, hundone⟩ := Engine.instances_stop_start hidle hok
    rw [hundone]
    exact RuleFlow.Complete.of_running h fun id' hnone =>
      (Instances.get?_removed_added hbuilt.id_eq hidle id').symm.trans hnone
  | @started current ha hok =>
    obtain ⟨i, hi⟩ := Engine.exists_get?_start hok
    exact (RuleFlow.Complete.start h k current).insert fun _ => by simp [hi]

/-- A stop that is undone leaves the chain running, if its handlers can be made again. -/
theorem Stops.complete {r : Result Unit} (hk : k.Steady) (hs : s.Consistent k) (h : s.Complete)
    (hstops : Stops k o token id s r s') : s'.Complete := by
  unfold Service.Complete
  cases hstops with
  | refused e => exact h
  | @undone current e ha hok =>
    have hget := get?_of_authorize ha
    obtain rfl := hs.keyed id current hget
    obtain ⟨i, hi, -⟩ := Engine.instances_stop_of_ok hok
    obtain ⟨c', hc', -, hbuilt⟩ := hs.running current.id i hi
    obtain rfl : current = c' := Option.some.inj (hget.symm.trans hc')
    exact RuleFlow.Complete.of_running h fun id' =>
      (Engine.get?_start_stop_eq_none_iff (c := restamped o .stopped current) hk hi
        (builtFrom_restamped.2 hbuilt) id').1
  | idle e ha herror =>
    rw [(Engine.instances_stop_of_error herror).2]
    exact h
  | @stopped current ha =>
    intro id' c' hc' hstarted
    rw [Table.get?_insert] at hc'
    split at hc'
    case isTrue hid =>
      obtain rfl := Option.some.inj hc'
      simp [restamped] at hstarted
    case isFalse hne =>
      rw [Engine.get?_stop_of_ne hne]
      exact h id' c' hc' hstarted

/-- Restoring a chain stops none and stores nothing as started. -/
theorem Restores.complete {b : Bool} (h : s.Complete) (hrestores : Restores k o c s b s') :
    s'.Complete := by
  have hstart := RuleFlow.Complete.start h k c
  cases hrestores with
  | runs hok => exact hstart
  | kept herror => exact hstart
  | stopped herror => exact hstart.insert (by simp [restamped])

/-- Whatever is asked, what is stored as started runs. -/
theorem Complete.perform (hk : k.Steady) (hs : s.Consistent k) (h : s.Complete) (o : Occasion)
    (request : Request) : (s.perform k o request).2.Complete := by
  cases request with
  | add token c => exact (adds_add o token c s).complete h
  | update token c => exact (updates_update o token c s).complete h
  | revoke token id => exact (revokes_revoke k o token id s).complete hs h
  | start token id => exact (starts_start k o token id s).complete hs h
  | stop token id => exact (stops_stop k o token id s).complete hk hs h
  | restore => exact restore_induct h hs.keyed fun _ _ _ _ h _ _ hrestores => hrestores.complete h
  | list token offset limit => exact h
  | get token id => exact h
  | check token payload => simpa [Service.perform, Service.Complete] using h
  | deliver e => simpa [Service.perform, Service.Complete] using h
  | deliverFrom adaptor payload => simpa [Service.perform, Service.Complete] using h

/-! ## Runs from nothing -/

theorem consistent_of_empty (hempty : s.repository = .empty) (hidle : s.engine.instances = {}) :
    s.Consistent k where
  keyed := keyed_of_empty hempty
  running id i hi := by simp [hidle, Instances.get?] at hi
  indexed := hidle ▸ Instances.indexed_empty

/-- Nothing is stored as started where nothing is stored. -/
theorem complete_of_empty (hempty : s.repository = .empty) : s.Complete := by
  intro id c hc
  simp [hempty] at hc

theorem Consistent.performAll (hs : s.Consistent k) (requests : List (Occasion × Request)) :
    (s.performAll k requests).Consistent k :=
  performAll_induct hs (fun _ o request hs => hs.perform o request) requests

/-- Over all requests, what is stored as started runs. -/
theorem Complete.performAll (hk : k.Steady) (hs : s.Consistent k) (h : s.Complete)
    (requests : List (Occasion × Request)) : (s.performAll k requests).Complete := by
  have hboth : (s.performAll k requests).Consistent k ∧ (s.performAll k requests).Complete :=
    performAll_induct (P := fun s => s.Consistent k ∧ s.Complete) ⟨hs, h⟩
      (fun _ o request ⟨hs, h⟩ => ⟨hs.perform o request, h.perform hk hs o request⟩) requests
  exact hboth.2

/-- A service whose engine starts anew, with nothing running. -/
def restarted (e : Engine ω η) (s : Service ω η) : Service ω η :=
  { s with engine := { e with instances := {} } }

/-- A new engine for the same store is consistent with it, for nothing runs. -/
theorem Consistent.restarted (hs : s.Consistent k) (e : Engine ω η) : (s.restarted e).Consistent k where
  keyed := hs.keyed
  running id i hi := by simp [Service.restarted, Instances.get?] at hi
  indexed := Instances.indexed_empty

/-- Restoring a chain that can be started starts it and changes nothing else. -/
theorem restoreOne_of_ok (hok : (s.engine.start k c).1 = .ok ()) :
    s.restoreOne o k c = (true, { s with engine := (s.engine.start k c).2 }) := by
  unfold restoreOne
  rcases hstart : s.engine.start k c with ⟨e | ⟨⟩, engine⟩
  · simp [hstart] at hok
  · rfl

/-- If graphs could be made of some definitions, restoring these starts all of them and changes nothing that is
stored. -/
theorem restoreAll_of_steady (hk : k.Steady) {cs : List Chain}
    (hcs : ∀ c ∈ cs, ∃ i : Instance η, i.BuiltFrom k c) (o : Occasion) (s : Service ω η) :
    (s.restoreAll o k cs).1 = cs.length ∧ (s.restoreAll o k cs).2.repository = s.repository ∧
      (s.restoreAll o k cs).2.cache = s.cache ∧
      ∀ id, (s.restoreAll o k cs).2.engine.instances.get? id = none ↔
        s.engine.instances.get? id = none ∧ id ∉ cs.map (·.id) := by
  induction cs generalizing s with
  | nil => simp [restoreAll]
  | cons c cs ih =>
    obtain ⟨i, hbuilt⟩ := hcs c List.mem_cons_self
    have hok := Engine.start_of_steady hk hbuilt s.engine
    obtain ⟨hcount, hrepository, hcache, hrunning⟩ :=
      ih (fun c' hc' => hcs c' (List.mem_cons_of_mem c hc')) { s with engine := (s.engine.start k c).2 }
    simp only [restoreAll, restoreOne_of_ok hok]
    refine ⟨by simp [hcount], hrepository, hcache, fun id => ?_⟩
    rw [hrunning id, List.map_cons, List.mem_cons, not_or, ← and_assoc]
    refine and_congr_left fun _ => ?_
    by_cases hid : id = c.id
    · subst hid
      obtain ⟨i, hi⟩ := Engine.exists_get?_start hok
      simp [hi]
    · rw [Engine.get?_start_of_ne hid]
      simp [hid]

/-- In a consistent and complete service the chains stored as started are the ones that run. -/
theorem Consistent.get?_eq_none_iff (hs : s.Consistent k) (h : s.Complete) (id : String) :
    s.engine.instances.get? id = none ↔ id ∉ (s.repository.withStatus .started).map (·.id) := by
  constructor
  · intro hnone hid
    obtain ⟨c, hc, rfl⟩ := List.mem_map.1 hid
    obtain ⟨hget, hstarted⟩ := Repository.get?_of_mem_withStatus hs.keyed hc
    exact h c.id c hget hstarted hnone
  · intro hunlisted
    cases hi : s.engine.instances.get? id with
    | none => rfl
    | some i => exact absurd (hs.mem_ids_of_running hi) hunlisted

theorem Consistent.length_withStatus (hs : s.Consistent k) (h : s.Complete) :
    (s.repository.withStatus .started).length = s.engine.instances.runningIds.length := by
  rw [← Instances.countP_isRunning (Repository.nodup_ids_withStatus hs.keyed) fun _ _ => hs.mem_ids_of_running]
  refine (List.countP_eq_length.2 fun c hc => ?_).symm
  obtain ⟨hget, hstarted⟩ := Repository.get?_of_mem_withStatus hs.keyed hc
  exact Instances.isRunning_iff.2 (Option.ne_none_iff_exists'.1 (h c.id c hget hstarted))

/-- The definition of every chain that is stored as started can be compiled: its graph runs. -/
theorem Consistent.exists_builtFrom (hs : s.Consistent k) (h : s.Complete) :
    ∀ c ∈ s.repository.withStatus .started, ∃ i : Instance η, i.BuiltFrom k c := by
  intro c hc
  obtain ⟨hget, hstarted⟩ := Repository.get?_of_mem_withStatus hs.keyed hc
  obtain ⟨i, hi⟩ := Option.ne_none_iff_exists'.1 (h c.id c hget hstarted)
  obtain ⟨c', hget', -, hbuilt⟩ := hs.running c.id i hi
  obtain rfl : c = c' := Option.some.inj (hget.symm.trans hget')
  exact ⟨i, hbuilt⟩

/-- Restoring after a restart gives back what ran. -/
theorem Consistent.recovered (hk : k.Steady) (hs : s.Consistent k) (h : s.Complete) (e : Engine ω η)
    (hlists : o.fails .withStatus = false) :
    ((s.restarted e).restore o k).1 = .ok s.engine.instances.runningIds.length ∧
      Alike k s ((s.restarted e).restore o k).2 := by
  have hconsistent := (hs.restarted e).restore (o := o)
  obtain ⟨hcount, hrepository, hcache, hrunning⟩ :=
    restoreAll_of_steady hk (hs.exists_builtFrom h) o (s.restarted e)
  have hrestore : (s.restarted e).restore o k =
      (.ok ((s.restarted e).restoreAll o k (s.repository.withStatus .started)).1,
        ((s.restarted e).restoreAll o k (s.repository.withStatus .started)).2) :=
    restore_of_listed k hlists (s.restarted e)
  rw [hrestore] at hconsistent ⊢
  refine ⟨by rw [hcount, hs.length_withStatus h], ?_⟩
  refine .of_consistent hs hconsistent hrepository hcache fun id => ?_
  rw [hrunning id, hs.get?_eq_none_iff h id]
  exact and_iff_right rfl

/-- Whatever was asked for since a service began with nothing, and whatever calls failed: an engine that starts
anew over what is stored finds all that ran and only this, by the same definitions, and answers how many chains
these are. -/
theorem recovered_of_empty (hk : k.Steady) (hempty : s.repository = .empty)
    (hidle : s.engine.instances = {}) (requests : List (Occasion × Request)) (e : Engine ω η)
    (hlists : o.fails .withStatus = false) :
    (((s.performAll k requests).restarted e).restore o k).1 =
        .ok (s.performAll k requests).engine.instances.runningIds.length ∧
      Alike k (s.performAll k requests)
        (((s.performAll k requests).restarted e).restore o k).2 := by
  have hs : s.Consistent k := consistent_of_empty hempty hidle
  exact (hs.performAll requests).recovered hk
    ((complete_of_empty hempty).performAll hk hs requests) e hlists

theorem recovered_pair :
    Catalogue.relay.Steady ∧ vacant.repository = .empty ∧ vacant.engine.instances = {} ∧
      (((vacant.performAll .relay
        [(calm, .add "token" presumed), (calm, .start "token" "pair")]).restarted
          vacant.engine).restore calm .relay).1 = .ok 1 := by
  have hsteady : Catalogue.relay.Steady := fun _ _ _ _ _ => ⟨(), rfl⟩
  have hone : (vacant.performAll .relay
      [(calm, .add "token" presumed), (calm, .start "token" "pair")]).engine.instances.runningIds.length =
        1 := by decide +kernel
  have hrecovered := (recovered_of_empty hsteady (s := vacant) (o := calm) rfl rfl
    [(calm, .add "token" presumed), (calm, .start "token" "pair")] vacant.engine rfl).1
  rw [hone] at hrecovered
  exact ⟨hsteady, rfl, rfl, hrecovered⟩

end Service

end RuleFlow
