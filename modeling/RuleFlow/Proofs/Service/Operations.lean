import RuleFlow.Proofs.Instances
import RuleFlow.Proofs.Outcome
import RuleFlow.Proofs.Table
import RuleFlow.Service

/-!
# What the operations of the service do

Each collaborator of the service is described by what it means that it succeeds. From this follows what an
operation can do: `Service.Adds`, `Service.Updates`, `Service.Revokes`, `Service.Starts`, `Service.Stops` and
`Service.Restores` list the outcomes of the operations, each with what led to it and with the service after
it. An operation that is refused leaves the service as it is.
-/

namespace RuleFlow

namespace Repository

variable {r r' : Repository} {owner id : String} {c : Chain}

/-- An owner finds a chain that is stored under the id and is the owner's. -/
theorem retrieve_eq_ok_iff : r.retrieve owner id = .ok c ↔ r.get? id = some c ∧ c.owner = owner := by
  unfold retrieve
  cases r.get? id with
  | none => simp
  | some c' =>
    simp only [Option.some.injEq]
    split
    case isTrue h =>
      rw [Except.ok.injEq]
      constructor
      · rintro rfl
        exact ⟨rfl, h⟩
      · exact And.left
    case isFalse h =>
      simp only [reduceCtorEq, false_iff]
      rintro ⟨rfl, hc⟩
      exact h hc

theorem save_eq_ok_iff : r.save c = .ok r' ↔ r.get? c.id = none ∧ r' = r.insert c.id c := by
  unfold save
  cases hc : r.contains c.id with
  | true =>
    obtain ⟨c', hget⟩ := Table.contains_iff.1 hc
    simp [hget]
  | false => simp [Table.contains_eq_false_iff.1 hc, eq_comm]

/-- A chain is replaced if and only if one of the same owner is stored under its id. -/
theorem update_eq_ok_iff :
    r.update c = .ok r' ↔
      (∃ old, r.get? c.id = some old ∧ old.owner = c.owner) ∧ r' = r.insert c.id c := by
  simp only [update, map_eq_ok_iff, retrieve_eq_ok_iff]
  constructor
  · rintro ⟨old, hold, rfl⟩
    exact ⟨⟨old, hold⟩, rfl⟩
  · rintro ⟨⟨old, hold⟩, rfl⟩
    exact ⟨old, hold, rfl⟩

/-- A chain is removed if and only if the owner has one under the id. -/
theorem revoke_eq_ok_iff :
    r.revoke owner id = .ok r' ↔ (∃ c, r.get? id = some c ∧ c.owner = owner) ∧ r' = r.erase id := by
  simp only [revoke, map_eq_ok_iff, retrieve_eq_ok_iff]
  constructor
  · rintro ⟨c, hc, rfl⟩
    exact ⟨⟨c, hc⟩, rfl⟩
  · rintro ⟨⟨c, hc⟩, rfl⟩
    exact ⟨c, hc, rfl⟩

theorem mem_withStatus {status : Status} :
    c ∈ r.withStatus status ↔ (∃ id, r.get? id = some c) ∧ c.status = status := by
  rw [withStatus, List.mem_filter, Table.mem_values, decide_eq_true_eq]

/-- If chains are stored under their own ids, the ids of the stored chains are the keys. -/
theorem ids_values (hkeyed : ∀ id c, r.get? id = some c → c.id = id) : r.values.map (·.id) = r.keys := by
  rw [Table.values, Table.keys, List.map_map]
  exact List.map_congr_left fun e he => hkeyed e.1 e.2 (Table.get?_eq_some_iff.2 he)

/-- Definitions that are stored under their ids are listed under different ids. -/
theorem nodup_ids_withStatus (hkeyed : ∀ id c, r.get? id = some c → c.id = id) {status : Status} :
    ((r.withStatus status).map (·.id)).Nodup :=
  (ids_values hkeyed ▸ r.nodup_keys).sublist (List.filter_sublist.map _)

/-- Definitions that are stored under their ids are found as they were listed. -/
theorem get?_of_mem_withStatus (hkeyed : ∀ id c, r.get? id = some c → c.id = id) {status : Status}
    (hc : c ∈ r.withStatus status) : r.get? c.id = some c ∧ c.status = status := by
  obtain ⟨⟨id, hget⟩, hstatus⟩ := mem_withStatus.1 hc
  obtain rfl := hkeyed id c hget
  exact ⟨hget, hstatus⟩

end Repository

namespace Occasion

/-- A call of the repository succeeds if it does not fail by itself and the repository agrees. -/
theorem stored_eq_ok_iff {α : Type} {o : Occasion} {call : Call} {r : Result α} {a : α} :
    o.stored call r = .ok a ↔ o.fails call = false ∧ r = .ok a := by
  unfold stored
  cases o.fails call <;> simp

/-- The names after one was to be saved. -/
def saved (o : Occasion) (name id : String) (cache : NameCache) : NameCache :=
  if o.fails (.cacheSave name) then cache else cache.save name id

/-- The names after those of an id were to be forgotten. -/
def forgotten (o : Occasion) (id : String) (cache : NameCache) : NameCache :=
  if o.fails (.cacheRemove id) then cache else cache.remove id

/-- The names after those of an id were to be replaced by one. -/
def renamed (o : Occasion) (name id : String) (cache : NameCache) : NameCache :=
  if o.fails (.cacheRemove id) then cache else o.saved name id (cache.remove id)

end Occasion

namespace Chain

theorem check_eq_ok_iff {c : Chain} {operation : Operation} :
    c.check operation = .ok () ↔ c.status.permits operation = true := by
  unfold check
  cases c.status.permits operation <;> simp

/-- Only a started chain may be stopped. -/
theorem status_eq_of_permits_stop {c : Chain} (h : c.status.permits .stop = true) :
    c.status = .started := by
  cases hc : c.status <;> simp [hc, Status.permits] at h ⊢

/-- Nothing but a stop is permitted of a started chain. -/
theorem status_ne_of_permits {c : Chain} {operation : Operation} (hne : operation ≠ .stop)
    (h : c.status.permits operation = true) : c.status ≠ .started := by
  intro hc
  cases operation <;> simp_all [Status.permits]

end Chain

namespace Service

variable {ω η : Type} {o : Occasion} {token owner id name : String} {c current : Chain}
  {s s' : Service ω η} {k : Catalogue ω η}

/-! ## The collaborators of a service -/

theorem retrieve_eq_ok_iff :
    s.retrieve o owner id = .ok c ↔
      o.fails (.retrieve id) = false ∧ s.repository.get? id = some c ∧ c.owner = owner := by
  rw [retrieve, Occasion.stored_eq_ok_iff, Repository.retrieve_eq_ok_iff]

theorem save_eq_ok_iff :
    s.save o c = .ok s' ↔ o.fails (.save c.id) = false ∧ s.repository.get? c.id = none ∧
      s' = { s with repository := s.repository.insert c.id c } := by
  simp only [save, map_eq_ok_iff, Occasion.stored_eq_ok_iff, Repository.save_eq_ok_iff]
  constructor
  · rintro ⟨r, ⟨hfails, hnone, rfl⟩, rfl⟩
    exact ⟨hfails, hnone, rfl⟩
  · rintro ⟨hfails, hnone, rfl⟩
    exact ⟨_, ⟨hfails, hnone, rfl⟩, rfl⟩

theorem store_eq_ok_iff :
    s.store o c = .ok s' ↔ o.fails (.update c.id) = false ∧
      (∃ old, s.repository.get? c.id = some old ∧ old.owner = c.owner) ∧
      s' = { s with repository := s.repository.insert c.id c } := by
  simp only [store, map_eq_ok_iff, Occasion.stored_eq_ok_iff, Repository.update_eq_ok_iff]
  constructor
  · rintro ⟨r, ⟨hfails, hold, rfl⟩, rfl⟩
    exact ⟨hfails, hold, rfl⟩
  · rintro ⟨hfails, hold, rfl⟩
    exact ⟨_, ⟨hfails, hold, rfl⟩, rfl⟩

theorem erase_eq_ok_iff :
    s.erase o owner id = .ok s' ↔ o.fails (.revoke id) = false ∧
      (∃ c, s.repository.get? id = some c ∧ c.owner = owner) ∧
      s' = { s with repository := s.repository.erase id } := by
  simp only [erase, map_eq_ok_iff, Occasion.stored_eq_ok_iff, Repository.revoke_eq_ok_iff]
  constructor
  · rintro ⟨r, ⟨hfails, hc, rfl⟩, rfl⟩
    exact ⟨hfails, hc, rfl⟩
  · rintro ⟨hfails, hc, rfl⟩
    exact ⟨_, ⟨hfails, hc, rfl⟩, rfl⟩

theorem saveName_getD :
    (s.saveName o name id).toOption.getD s = { s with cache := o.saved name id s.cache } := by
  unfold saveName Occasion.cached Occasion.saved
  split <;> rfl

theorem forgetNames_getD :
    (s.forgetNames o id).toOption.getD s = { s with cache := o.forgotten id s.cache } := by
  unfold forgetNames Occasion.cached Occasion.forgotten
  split <;> rfl

/-- Renaming never fails as a whole; a call of the cache that fails leaves the names as they were. -/
theorem rename_eq : s.rename o name id = { s with cache := o.renamed name id s.cache } := by
  unfold rename Occasion.renamed
  cases hfails : o.fails (.cacheRemove id) with
  | true => simp [forgetNames, Occasion.cached, hfails]
  | false =>
    have hforget : s.forgetNames o id = .ok { s with cache := s.cache.remove id } := by
      simp [forgetNames, Occasion.cached, hfails]
    rw [hforget]
    exact saveName_getD

theorem get_eq_ok_iff :
    s.get o token id = .ok c ↔
      s.identify token = .ok c.owner ∧ o.fails (.retrieve id) = false ∧
        s.repository.get? id = some c := by
  simp only [get, bind_eq_ok_iff, retrieve_eq_ok_iff]
  constructor
  · rintro ⟨owner, howner, hfails, hget, rfl⟩
    exact ⟨howner, hfails, hget⟩
  · rintro ⟨howner, hfails, hget⟩
    exact ⟨c.owner, howner, hfails, hget, rfl⟩

/-- A caller may do something with a chain of its own if the stored status permits it. -/
theorem authorize_eq_ok_iff {operation : Operation} :
    s.authorize o operation token id = .ok c ↔
      s.get o token id = .ok c ∧ c.status.permits operation = true := by
  simp only [authorize, bind_eq_ok_iff]
  constructor
  · rintro ⟨c', hget, ⟨⟩, hcheck, hc⟩
    obtain rfl : c' = c := Except.ok.inj hc
    exact ⟨hget, Chain.check_eq_ok_iff.1 hcheck⟩
  · rintro ⟨hget, hpermits⟩
    exact ⟨c, hget, (), Chain.check_eq_ok_iff.2 hpermits, rfl⟩

theorem get?_of_authorize {operation : Operation} (h : s.authorize o operation token id = .ok c) :
    s.repository.get? id = some c :=
  (get_eq_ok_iff.1 (authorize_eq_ok_iff.1 h).1).2.2

/-- An update is permitted by the stored chain and checked on the chain that will be stored. -/
theorem authorizeUpdate_eq_ok_iff {c' : Chain} :
    s.authorizeUpdate o token c = .ok (current, c') ↔
      s.authorize o .update token c.id = .ok current ∧ c' = changed o current c ∧
        c'.validate = .ok () := by
  simp only [authorizeUpdate, bind_eq_ok_iff]
  constructor
  · rintro ⟨current', hauthorize, ⟨⟩, hvalidate, hpair⟩
    obtain ⟨rfl, rfl⟩ := Prod.mk.inj (Except.ok.inj hpair)
    exact ⟨hauthorize, rfl, hvalidate⟩
  · rintro ⟨hauthorize, rfl, hvalidate⟩
    exact ⟨current, hauthorize, (), hvalidate, rfl⟩

/-- What may be added belongs to the caller, whatever owner the caller wrote into it. -/
theorem authorizeNew_eq_ok {c' : Chain} (h : s.authorizeNew o token c = .ok c') :
    ∃ owner, s.identify token = .ok owner ∧ c' = newChain o owner c ∧ c'.validate = .ok () := by
  rw [authorizeNew, bind_eq_ok_iff] at h
  obtain ⟨owner, howner, h⟩ := h
  refine ⟨owner, howner, ?_⟩
  dsimp only at h
  split at h
  · simp at h
  · split at h
    · obtain ⟨⟨⟩, hvalidate, hc⟩ := bind_eq_ok_iff.1 h
      obtain rfl := Except.ok.inj hc
      exact ⟨rfl, hvalidate⟩
    · simp at h

/-! ## Outcomes -/

/-- What adding a chain answers, and the service after it. -/
inductive Adds (o : Occasion) (token : String) (c : Chain) (s : Service ω η) :
    Result Chain → Service ω η → Prop
  | refused (e : RuleError) : Adds o token c s (.error e) s
  | added {owner : String} : s.identify token = .ok owner →
    (newChain o owner c).validate = .ok () → s.repository.get? (newChain o owner c).id = none →
    Adds o token c s (.ok (newChain o owner c))
      { s with
        repository := s.repository.insert (newChain o owner c).id (newChain o owner c)
        cache := o.saved (newChain o owner c).name (newChain o owner c).id s.cache }

/-- What changing a chain answers, and the service after it. -/
inductive Updates (o : Occasion) (token : String) (c : Chain) (s : Service ω η) :
    Result Chain → Service ω η → Prop
  | refused (e : RuleError) : Updates o token c s (.error e) s
  | updated {current : Chain} : s.authorize o .update token c.id = .ok current →
    (changed o current c).validate = .ok () →
    Updates o token c s (.ok (changed o current c))
      { s with
        repository := s.repository.insert current.id (changed o current c)
        cache := if c.name = current.name then s.cache else o.renamed c.name current.id s.cache }

/-- What removing a chain answers, and the service after it. -/
inductive Revokes (k : Catalogue ω η) (o : Occasion) (token id : String) (s : Service ω η) :
    Result Unit → Service ω η → Prop
  | refused (e : RuleError) : Revokes k o token id s (.error e) s
  | kept {current : Chain} (e : RuleError) : s.authorize o .revoke token id = .ok current →
    Revokes k o token id s (.error e) { s with engine := (s.engine.delete k current.id).2 }
  | revoked {current : Chain} : s.authorize o .revoke token id = .ok current →
    Revokes k o token id s (.ok ())
      { s with
        engine := (s.engine.delete k current.id).2
        repository := s.repository.erase id
        cache := o.forgotten id s.cache }

/-- What starting a chain answers, and the service after it. -/
inductive Starts (k : Catalogue ω η) (o : Occasion) (token id : String) (s : Service ω η) :
    Result Unit → Service ω η → Prop
  | refused (e : RuleError) : Starts k o token id s (.error e) s
  | failed {current : Chain} {e : RuleError} : s.authorize o .start token id = .ok current →
    (s.engine.start k current).1 = .error e →
    Starts k o token id s (.error e) { s with engine := (s.engine.start k current).2 }
  | undone {current : Chain} (e : RuleError) : s.authorize o .start token id = .ok current →
    (s.engine.start k current).1 = .ok () →
    Starts k o token id s (.error e)
      { s with engine := ((s.engine.start k current).2.stop k current.id).2 }
  | started {current : Chain} : s.authorize o .start token id = .ok current →
    (s.engine.start k current).1 = .ok () →
    Starts k o token id s (.ok ())
      { s with
        engine := (s.engine.start k current).2
        repository := s.repository.insert current.id (restamped o .started current) }

/-- What stopping a chain answers, and the service after it. -/
inductive Stops (k : Catalogue ω η) (o : Occasion) (token id : String) (s : Service ω η) :
    Result Unit → Service ω η → Prop
  | refused (e : RuleError) : Stops k o token id s (.error e) s
  | undone {current : Chain} (e : RuleError) : s.authorize o .stop token id = .ok current →
    (s.engine.stop k current.id).1 = .ok () →
    Stops k o token id s (.error e)
      { s with
        engine := ((s.engine.stop k current.id).2.start k (restamped o .stopped current)).2 }
  | idle {current : Chain} {e' : RuleError} (e : RuleError) :
    s.authorize o .stop token id = .ok current → (s.engine.stop k current.id).1 = .error e' →
    Stops k o token id s (.error e) { s with engine := (s.engine.stop k current.id).2 }
  | stopped {current : Chain} : s.authorize o .stop token id = .ok current →
    Stops k o token id s (.ok ())
      { s with
        engine := (s.engine.stop k current.id).2
        repository := s.repository.insert current.id (restamped o .stopped current) }

/-- Whether a chain runs after it was restored, and the service after it. -/
inductive Restores (k : Catalogue ω η) (o : Occasion) (c : Chain) (s : Service ω η) :
    Bool → Service ω η → Prop
  | runs : (s.engine.start k c).1 = .ok () →
    Restores k o c s true { s with engine := (s.engine.start k c).2 }
  | kept {e : RuleError} : (s.engine.start k c).1 = .error e →
    Restores k o c s false { s with engine := (s.engine.start k c).2 }
  | stopped {e : RuleError} : (s.engine.start k c).1 = .error e →
    Restores k o c s false
      { s with
        engine := (s.engine.start k c).2
        repository := s.repository.insert c.id (restamped (o.reread c.id) .stopped c) }

/-- The outcomes in `Adds` are all that `add` can do. -/
theorem adds_add (o : Occasion) (token : String) (c : Chain) (s : Service ω η) :
    Adds o token c s (s.add o token c).1 (s.add o token c).2 := by
  unfold add
  cases hauthorize : s.authorizeNew o token c with
  | error e => exact .refused e
  | ok c' =>
    obtain ⟨owner, howner, rfl, hvalidate⟩ := authorizeNew_eq_ok hauthorize
    dsimp only
    cases hsave : s.save o (newChain o owner c) with
    | error e => exact .refused e
    | ok s' =>
      obtain ⟨-, hnone, rfl⟩ := save_eq_ok_iff.1 hsave
      dsimp only
      rw [saveName_getD]
      exact .added howner hvalidate hnone

/-- The outcomes in `Updates` are all that `update` can do. -/
theorem updates_update (o : Occasion) (token : String) (c : Chain) (s : Service ω η) :
    Updates o token c s (s.update o token c).1 (s.update o token c).2 := by
  unfold update
  rcases hauthorize : s.authorizeUpdate o token c with e | ⟨current, c'⟩
  · exact .refused e
  · obtain ⟨hcurrent, rfl, hvalidate⟩ := authorizeUpdate_eq_ok_iff.1 hauthorize
    dsimp only
    cases hstore : s.store o (changed o current c) with
    | error e => exact .refused e
    | ok s' =>
      obtain ⟨-, -, rfl⟩ := store_eq_ok_iff.1 hstore
      have houtcome := Updates.updated hcurrent hvalidate
      dsimp only
      rw [rename_eq]
      by_cases hname : c.name = current.name
      · rw [if_pos hname] at houtcome
        simpa [changed, hname] using houtcome
      · rw [if_neg hname] at houtcome
        simpa [changed, hname] using houtcome

/-- The outcomes in `Revokes` are all that `revoke` can do. -/
theorem revokes_revoke (k : Catalogue ω η) (o : Occasion) (token id : String) (s : Service ω η) :
    Revokes k o token id s (s.revoke o token id k).1 (s.revoke o token id k).2 := by
  unfold revoke
  cases hauthorize : s.authorize o .revoke token id with
  | error e => exact .refused e
  | ok current =>
    have hkept := fun e => Revokes.kept (k := k) e hauthorize
    have hrevoked := Revokes.revoked (k := k) hauthorize
    dsimp only
    rcases hdelete : s.engine.delete k current.id with ⟨e | ⟨⟩, engine⟩
    · simpa [hdelete] using hkept e
    · simp only [hdelete] at hkept hrevoked ⊢
      cases herase : erase o current.owner id { s with engine } with
      | error e => exact hkept e
      | ok s' =>
        obtain ⟨-, -, rfl⟩ := erase_eq_ok_iff.1 herase
        dsimp only
        rw [forgetNames_getD]
        exact hrevoked

/-- The outcomes in `Starts` are all that `start` can do, an undone start among them. -/
theorem starts_start (k : Catalogue ω η) (o : Occasion) (token id : String) (s : Service ω η) :
    Starts k o token id s (s.start o token id k).1 (s.start o token id k).2 := by
  unfold start
  cases hauthorize : s.authorize o .start token id with
  | error e => exact .refused e
  | ok current =>
    dsimp only
    rcases hstart : s.engine.start k current with ⟨e | ⟨⟩, engine⟩
    · simpa [hstart] using Starts.failed (k := k) hauthorize (congrArg Prod.fst hstart)
    · have hundone := fun e => Starts.undone (k := k) e hauthorize (congrArg Prod.fst hstart)
      have hstarted := Starts.started (k := k) hauthorize (congrArg Prod.fst hstart)
      simp only [hstart] at hundone hstarted ⊢
      cases hstore : store o (restamped o .started current) { s with engine } with
      | error e => exact hundone e
      | ok s' =>
        obtain ⟨-, -, rfl⟩ := store_eq_ok_iff.1 hstore
        exact hstarted

/-- The outcomes in `Stops` are all that `stop` can do, an undone stop among them. -/
theorem stops_stop (k : Catalogue ω η) (o : Occasion) (token id : String) (s : Service ω η) :
    Stops k o token id s (s.stop o token id k).1 (s.stop o token id k).2 := by
  unfold stop
  cases hauthorize : s.authorize o .stop token id with
  | error e => exact .refused e
  | ok current =>
    have hstopped := Stops.stopped (k := k) hauthorize
    dsimp only
    rcases hstop : s.engine.stop k current.id with ⟨r, engine⟩
    simp only [hstop] at hstopped ⊢
    cases hstore : store o (restamped o .stopped current) { s with engine } with
    | error e =>
      cases r with
      | ok =>
        simpa [hstop] using Stops.undone (k := k) e hauthorize (congrArg Prod.fst hstop)
      | error e' =>
        simpa [hstop] using Stops.idle (k := k) e hauthorize (congrArg Prod.fst hstop)
    | ok s' =>
      obtain ⟨-, -, rfl⟩ := store_eq_ok_iff.1 hstore
      exact hstopped

/-- The outcomes in `Restores` are all that restoring one chain can do. -/
theorem restores_restoreOne (k : Catalogue ω η) (o : Occasion) (c : Chain) (s : Service ω η) :
    Restores k o c s (s.restoreOne o k c).1 (s.restoreOne o k c).2 := by
  unfold restoreOne
  rcases hstart : s.engine.start k c with ⟨e | ⟨⟩, engine⟩
  · have hkept := Restores.kept (o := o) (congrArg Prod.fst hstart)
    have hstopped := Restores.stopped (o := o) (congrArg Prod.fst hstart)
    simp only [hstart] at hkept hstopped ⊢
    cases hstore : store o (restamped (o.reread c.id) .stopped c) { s with engine } with
    | error e => exact hkept
    | ok s' =>
      obtain ⟨-, -, rfl⟩ := store_eq_ok_iff.1 hstore
      exact hstopped
  · simpa [hstart] using Restores.runs (o := o) (congrArg Prod.fst hstart)

@[simp] theorem repository_check (k : Catalogue ω η) (token : String) (payload : List UInt8)
    (s : Service ω η) : (s.check token payload k).2.repository = s.repository := by
  unfold check
  split <;> rfl

@[simp] theorem cache_check (k : Catalogue ω η) (token : String) (payload : List UInt8)
    (s : Service ω η) : (s.check token payload k).2.cache = s.cache := by
  unfold check
  split <;> rfl

@[simp] theorem instances_check (k : Catalogue ω η) (token : String) (payload : List UInt8)
    (s : Service ω η) : (s.check token payload k).2.engine.instances = s.engine.instances := by
  unfold check
  split
  · rfl
  · exact Engine.instances_check k payload s.engine

@[simp] theorem repository_deliver (k : Catalogue ω η) (o : Occasion) (e : Envelope)
    (s : Service ω η) : (s.deliver o e k).2.repository = s.repository := by
  unfold deliver
  split <;> rfl

@[simp] theorem cache_deliver (k : Catalogue ω η) (o : Occasion) (e : Envelope) (s : Service ω η) :
    (s.deliver o e k).2.cache = s.cache := by
  unfold deliver
  split <;> rfl

@[simp] theorem instances_deliver (k : Catalogue ω η) (o : Occasion) (e : Envelope)
    (s : Service ω η) : (s.deliver o e k).2.engine.instances = s.engine.instances := by
  unfold deliver
  split
  · rfl
  · exact Engine.instances_traverseAll ..

@[simp] theorem repository_deliverFrom (k : Catalogue ω η) (o : Occasion) (adaptor : String)
    (payload : List UInt8) (s : Service ω η) :
    (s.deliverFrom o adaptor payload k).2.repository = s.repository := by
  unfold deliverFrom
  split <;> rfl

@[simp] theorem cache_deliverFrom (k : Catalogue ω η) (o : Occasion) (adaptor : String)
    (payload : List UInt8) (s : Service ω η) :
    (s.deliverFrom o adaptor payload k).2.cache = s.cache := by
  unfold deliverFrom
  split <;> rfl

@[simp] theorem instances_deliverFrom (k : Catalogue ω η) (o : Occasion) (adaptor : String)
    (payload : List UInt8) (s : Service ω η) :
    (s.deliverFrom o adaptor payload k).2.engine.instances = s.engine.instances := by
  unfold deliverFrom
  split
  · rfl
  · exact Engine.instances_traverseAll ..

/-! ## Runs of operations -/

/-- What is asked of a service. -/
inductive Request where
  | add (token : String) (c : Chain)
  | update (token : String) (c : Chain)
  | revoke (token id : String)
  | start (token id : String)
  | stop (token id : String)
  | restore
  | list (token : String) (offset limit : Nat)
  | get (token id : String)
  | check (token : String) (payload : List UInt8)
  | deliver (e : Envelope)
  | deliverFrom (adaptor : String) (payload : List UInt8)

/-- What a service answers. -/
inductive Answer where
  | chain (r : Result Chain)
  | done (r : Result Unit)
  | page (r : Result Page)
  | count (r : Result Nat)
  | defects (r : Result (List RuleError))

/-- The error that is answered, if one is. -/
def Answer.error? : Answer → Option RuleError
  | .chain (.error e) | .done (.error e) | .page (.error e) | .count (.error e)
  | .defects (.error e) => some e
  | _ => none

theorem Answer.error?_chain {r : Result Chain} {e : RuleError} :
    (chain r).error? = some e ↔ r = .error e := by
  cases r <;> simp [error?]

theorem Answer.error?_done {r : Result Unit} {e : RuleError} :
    (done r).error? = some e ↔ r = .error e := by
  cases r <;> simp [error?]

theorem Answer.error?_count {r : Result Nat} {e : RuleError} :
    (count r).error? = some e ↔ r = .error e := by
  cases r <;> simp [error?]

theorem Answer.error?_defects {r : Result (List RuleError)} {e : RuleError} :
    (defects r).error? = some e ↔ r = .error e := by
  cases r <;> simp [error?]

/-- Does what is asked for. -/
def perform (k : Catalogue ω η) (s : Service ω η) (o : Occasion) : Request → Answer × Service ω η
  | .add token c => let (r, s) := s.add o token c; (.chain r, s)
  | .update token c => let (r, s) := s.update o token c; (.chain r, s)
  | .revoke token id => let (r, s) := s.revoke o token id k; (.done r, s)
  | .start token id => let (r, s) := s.start o token id k; (.done r, s)
  | .stop token id => let (r, s) := s.stop o token id k; (.done r, s)
  | .restore => let (r, s) := s.restore o k; (.count r, s)
  | .list token offset limit => (.page (s.list o token offset limit), s)
  | .get token id => (.chain (s.get o token id), s)
  | .check token payload => let (r, s) := s.check token payload k; (.defects r, s)
  | .deliver e => let (r, s) := s.deliver o e k; (.done r, s)
  | .deliverFrom adaptor payload => let (r, s) := s.deliverFrom o adaptor payload k; (.count r, s)

/-- A service with some stored chains, for which nothing runs yet. -/
def opened (settings : Settings) (tokens : Table String) (chains : List Chain) (cache : NameCache)
    (engine : Engine ω η) : Service ω η :=
  { settings, tokens, cache
    repository := Table.ofList (chains.map fun c => (c.id, c))
    engine := { engine with instances := {} } }

/-- What a service can come to from one for which nothing runs, whatever callers ask for one after the
other and whatever calls fail. -/
inductive Reachable (k : Catalogue ω η) : Service ω η → Prop
  | opened (settings : Settings) (tokens : Table String) (chains : List Chain) (cache : NameCache)
    (engine : Engine ω η) : Reachable k (opened settings tokens chains cache engine)
  | perform {s : Service ω η} (o : Occasion) (request : Request) :
    Reachable k s → Reachable k (s.perform k o request).2

end Service

end RuleFlow
