import RuleFlow.Proofs.Service.History
import RuleFlow.Proofs.Service.Isolation

/-!
# Names lead to chains

The cache remembers, for a name, the chain that got the name last. Owners share it: the names are not told
apart by who uses them.

As long as the cache can be cleared, every name that is remembered is the name of the chain it leads to
(`Matched`), whoever has had the name before and whatever could not be stored (`Service.named_of_empty`): a
chain that gets another name, or is removed, takes all names with it that lead to it.

What one caller does to a look-up is listed by `Service.Redirects`. A look-up follows the caller who gives the
name to a chain of its own, even if it led to somebody else's chain of that name before
(`Service.redirected_neighbour`); and a look-up that leads to a chain of the caller's may be lost with it.
Nothing else can happen to it (`Service.redirects_of_reachable`).
-/

namespace RuleFlow

variable {ω η : Type}

namespace NameCache

theorem id_eq_ok_iff {names : NameCache} {name id : String} :
    names.id name = .ok id ↔ names.get? name = some id := by
  unfold NameCache.id
  cases names.get? name <;> simp

/-- A saved name leads to its new id and no other name is affected. -/
theorem id_save (names : NameCache) (name name' id : String) :
    (names.save name id).id name' = if name' = name then .ok id else names.id name' := by
  by_cases h : name' = name <;> simp [NameCache.id, save, Table.get?_insert, h]

/-- A name is lost with the id to which it leads. -/
theorem id_remove (names : NameCache) (name id : String) :
    (names.remove id).id name = if names.id name = .ok id then .error (.noKey name) else names.id name := by
  rw [NameCache.id, remove, Table.get?_filter, NameCache.id]
  cases names.get? name with
  | none => rfl
  | some other => by_cases h : other = id <;> simp [Option.filter, h]

/-- Removing an id removes all names that lead to it, and no other. -/
theorem get?_remove_eq_some_iff {names : NameCache} {name id other : String} :
    (names.remove id).get? name = some other ↔ names.get? name = some other ∧ other ≠ id := by
  rw [remove, Table.get?_filter, Option.filter_eq_some_iff, decide_eq_true_eq]

end NameCache

/-- Every name that is remembered leads to a stored chain of this name. -/
def Matched (r : Repository) (names : NameCache) : Prop :=
  ∀ name id, names.get? name = some id → ∃ c, r.get? id = some c ∧ c.name = name

namespace Matched

variable {r : Repository} {names : NameCache} {c : Chain} {id : String} {o : Occasion}

/-- A definition may be stored under a free id, and replaced by one of the same name. -/
theorem insert (h : Matched r names) (hname : ∀ old, r.get? c.id = some old → old.name = c.name) :
    Matched (r.insert c.id c) names := by
  intro name id hid
  obtain ⟨old, hold, rfl⟩ := h name id hid
  rw [Table.get?_insert]
  split
  case isTrue heq => exact ⟨c, rfl, (hname old (heq ▸ hold)).symm⟩
  case isFalse => exact ⟨old, hold, rfl⟩

/-- Any definition may be replaced if the names are forgotten that lead to it. -/
theorem insert_remove (h : Matched r names) (c : Chain) :
    Matched (r.insert c.id c) (names.remove c.id) := by
  intro name id hid
  obtain ⟨hid, hne⟩ := NameCache.get?_remove_eq_some_iff.1 hid
  rw [Table.get?_insert, if_neg hne]
  exact h name id hid

/-- Removing a chain with all names of its id keeps names right. -/
theorem erase (h : Matched r names) (id : String) : Matched (r.erase id) (names.remove id) := by
  intro name id' hid'
  obtain ⟨hid', hne⟩ := NameCache.get?_remove_eq_some_iff.1 hid'
  rw [Table.get?_erase, if_neg hne]
  exact h name id' hid'

/-- Saving the name of a stored chain keeps names right. -/
theorem save (h : Matched r names) (hc : r.get? id = some c) : Matched r (names.save c.name id) := by
  intro name id' hid'
  rw [NameCache.save, Table.get?_insert] at hid'
  split at hid'
  case isTrue hname =>
    obtain rfl := Option.some.inj hid'
    exact ⟨c, hc, hname.symm⟩
  case isFalse => exact h name id' hid'

/-- It does no harm that a name cannot be saved. -/
theorem saved (h : Matched r names) (hc : r.get? id = some c) (o : Occasion) :
    Matched r (o.saved c.name id names) := by
  unfold Occasion.saved
  split
  · exact h
  · exact h.save hc

/-- A removed chain leaves no name behind if the cache obeys. -/
theorem forgotten (h : Matched r names) (hremoves : o.fails (.cacheRemove id) = false) :
    Matched (r.erase id) (o.forgotten id names) := by
  rw [Occasion.forgotten, hremoves]
  exact h.erase id

/-- A chain under a new name leaves no old name behind if the cache obeys. -/
theorem renamed (h : Matched r names) (hremoves : o.fails (.cacheRemove c.id) = false) :
    Matched (r.insert c.id c) (o.renamed c.name c.id names) := by
  rw [Occasion.renamed, hremoves]
  exact (h.insert_remove c).saved (Table.get?_insert_self ..) o

end Matched

/-- No call of the cache fails. -/
def Occasion.Remembers (o : Occasion) : Prop :=
  (∀ name, o.fails (.cacheSave name) = false) ∧ ∀ id, o.fails (.cacheRemove id) = false

namespace Service

variable {k : Catalogue ω η} {o : Occasion} {token owner id name : String} {c : Chain}
  {s s' : Service ω η}

/-- Every name that a service remembers leads to a stored chain of this name. -/
def Matched (s : Service ω η) : Prop := RuleFlow.Matched s.repository s.cache

/-! ## Every outcome keeps names right -/

/-- An addition keeps names right, whatever the cache does. -/
theorem Adds.matched {r : Result Chain} (h : s.Matched) (hadds : Adds o token c s r s') : s'.Matched := by
  cases hadds with
  | refused e => exact h
  | @added owner howner hvalidate hnone =>
    have hfree : ∀ old, s.repository.get? (newChain o owner c).id = some old →
        old.name = (newChain o owner c).name := fun old hold => by simp [hnone] at hold
    exact (RuleFlow.Matched.insert h hfree).saved (Table.get?_insert_self ..) o

theorem Updates.matched {r : Result Chain} (hkeyed : s.Keyed) (h : s.Matched) (ho : o.Remembers)
    (hupdates : Updates o token c s r s') : s'.Matched := by
  cases hupdates with
  | refused e => exact h
  | @updated current ha hvalidate =>
    have hget := get?_of_authorize ha
    have hid := hkeyed.id_of_authorize ha
    by_cases hname : c.name = current.name
    · simp only [Service.Matched, if_pos hname]
      refine RuleFlow.Matched.insert (c := changed o current c) h fun old hold => ?_
      obtain rfl : current = old := Option.some.inj (hget.symm.trans (hid ▸ hold))
      exact hname.symm
    · simp only [Service.Matched, if_neg hname]
      exact RuleFlow.Matched.renamed (c := changed o current c) h (ho.2 current.id)

theorem Revokes.matched {r : Result Unit} (h : s.Matched) (ho : o.Remembers)
    (hrevokes : Revokes k o token id s r s') : s'.Matched := by
  cases hrevokes with
  | refused e => exact h
  | kept e ha => exact h
  | revoked ha => exact RuleFlow.Matched.forgotten h (ho.2 id)

/-- A new status does not touch the name. -/
theorem Matched.restamped (h : s.Matched) (hc : s.repository.get? c.id = some c) (status : Status) :
    RuleFlow.Matched (s.repository.insert c.id (restamped o status c)) s.cache := by
  refine RuleFlow.Matched.insert (c := Service.restamped o status c) h fun old hold => ?_
  obtain rfl : c = old := Option.some.inj (hc.symm.trans hold)
  rfl

theorem Starts.matched {r : Result Unit} (hkeyed : s.Keyed) (h : s.Matched)
    (hstarts : Starts k o token id s r s') : s'.Matched := by
  cases hstarts with
  | refused e => exact h
  | failed ha herror => exact h
  | undone e ha hok => exact h
  | started ha hok =>
    obtain rfl := hkeyed.id_of_authorize ha
    exact h.restamped (get?_of_authorize ha) .started

theorem Stops.matched {r : Result Unit} (hkeyed : s.Keyed) (h : s.Matched)
    (hstops : Stops k o token id s r s') : s'.Matched := by
  cases hstops with
  | refused e => exact h
  | undone e ha hok => exact h
  | idle e ha herror => exact h
  | stopped ha =>
    obtain rfl := hkeyed.id_of_authorize ha
    exact h.restamped (get?_of_authorize ha) .stopped

theorem Restores.matched {b : Bool} (h : s.Matched) (hc : s.repository.get? c.id = some c)
    (hrestores : Restores k o c s b s') : s'.Matched := by
  cases hrestores with
  | runs hok => exact h
  | kept herror => exact h
  | stopped herror => exact h.restamped hc .stopped

/-- Whatever is asked, names stay right if the cache obeys. -/
theorem Matched.perform (hkeyed : s.Keyed) (h : s.Matched) (ho : o.Remembers) (request : Request) :
    (s.perform k o request).2.Matched := by
  cases request with
  | add token c => exact (adds_add o token c s).matched h
  | update token c => exact (updates_update o token c s).matched hkeyed h ho
  | revoke token id => exact (revokes_revoke k o token id s).matched h ho
  | start token id => exact (starts_start k o token id s).matched hkeyed h
  | stop token id => exact (stops_stop k o token id s).matched hkeyed h
  | restore => exact restore_induct h hkeyed fun _ _ _ _ h hc _ hrestores => hrestores.matched h hc
  | list token offset limit => exact h
  | get token id => exact h
  | check token payload => simpa [Service.perform, Service.Matched] using h
  | deliver e => simpa [Service.perform, Service.Matched] using h
  | deliverFrom adaptor payload => simpa [Service.perform, Service.Matched] using h

/-- Names stay right over all requests if the cache obeys on each. -/
theorem Matched.performAll {requests : List (Occasion × Request)} (hkeyed : s.Keyed) (h : s.Matched)
    (hremembers : ∀ x ∈ requests, x.1.Remembers) : (s.performAll k requests).Matched := by
  induction requests generalizing s with
  | nil => exact h
  | cons x requests ih =>
    obtain ⟨hx, hremembers⟩ := List.forall_mem_cons.1 hremembers
    exact ih (hkeyed.perform x.1 x.2) (h.perform hkeyed hx x.2) hremembers

/-! ## Runs from nothing -/

/-- A remembered name is the name of the chain it leads to. -/
theorem Matched.name_eq (h : s.Matched) (hc : s.repository.get? id = some c)
    (hid : s.cache.get? name = some id) : name = c.name := by
  obtain ⟨c', hc', rfl⟩ := h name id hid
  obtain rfl : c = c' := Option.some.inj (hc.symm.trans hc')
  rfl

/-- No name leads to an id under which nothing is stored. -/
theorem Matched.ne_of_unstored (h : s.Matched) (hnone : s.repository.get? id = none) (name : String) :
    s.cache.get? name ≠ some id := by
  intro hid
  obtain ⟨c, hc, -⟩ := h name id hid
  simp [hnone] at hc

theorem Adds.get?_name {c' : Chain} (ho : o.Remembers) (hadds : Adds o token c s (.ok c') s') :
    s'.cache.get? c'.name = some c'.id := by
  cases hadds with
  | added howner hvalidate hnone =>
    simp only [Occasion.saved, ho.1, Bool.false_eq_true, if_false]
    exact Table.get?_insert_self ..

theorem Updates.get?_of_ok {c' : Chain} (hupdates : Updates o token c s (.ok c') s') :
    s'.repository.get? c'.id = some c' := by
  cases hupdates with
  | updated ha hvalidate => exact Table.get?_insert_self ..

theorem Updates.get?_name {c' before : Chain} (ho : o.Remembers)
    (hbefore : s.repository.get? c.id = some before) (hname : before.name ≠ c'.name)
    (hupdates : Updates o token c s (.ok c') s') : s'.cache.get? c'.name = some c'.id := by
  cases hupdates with
  | @updated current ha hvalidate =>
    obtain rfl : before = current := Option.some.inj (hbefore.symm.trans (get?_of_authorize ha))
    have hne : c.name ≠ before.name := fun h => hname h.symm
    simp only [if_neg hne, Occasion.renamed, Occasion.saved, ho.1, ho.2, Bool.false_eq_true, if_false]
    exact Table.get?_insert_self ..

theorem Revokes.get?_of_ok (hrevokes : Revokes k o token id s (.ok ()) s') :
    s'.repository.get? id = none := by
  cases hrevokes with
  | revoked ha => exact Table.get?_erase_self ..

/-- What the names of a service are good for, now and after the next request. -/
structure Named (k : Catalogue ω η) (s : Service ω η) : Prop where
  /-- A name that is remembered is the name of the chain that is stored under the id. -/
  stored : ∀ name id, s.cache.get? name = some id →
    ∃ c, s.repository.get? id = some c ∧ c.id = id ∧ c.name = name
  /-- The name of a new chain leads to it. -/
  added : ∀ o token c c', o.Remembers → (s.add o token c).1 = .ok c' →
    (s.add o token c).2.cache.get? c'.name = some c'.id
  /-- The new name of a chain leads to it. -/
  renamed : ∀ o token c c' before, o.Remembers → s.repository.get? c.id = some before →
    (s.update o token c).1 = .ok c' → before.name ≠ c'.name →
    (s.update o token c).2.cache.get? c'.name = some c'.id
  /-- No name that a chain had before leads to it. -/
  outgrown : ∀ o token c c', o.Remembers → (s.update o token c).1 = .ok c' →
    ∀ name, (s.update o token c).2.cache.get? name = some c'.id → name = c'.name
  /-- No name leads to a chain that was removed. -/
  revoked : ∀ o token id, o.Remembers → (s.revoke o token id k).1 = .ok () →
    ∀ name, (s.revoke o token id k).2.cache.get? name ≠ some id

/-- Where names are right, a service is as `Named` says. -/
theorem Matched.named (hkeyed : s.Keyed) (h : s.Matched) : s.Named k where
  stored name id hid := by
    obtain ⟨c, hc, hname⟩ := h name id hid
    exact ⟨c, hc, hkeyed id c hc, hname⟩
  added o token c c' ho hok := (hok ▸ adds_add o token c s).get?_name ho
  renamed o token c c' before ho hbefore hok hname :=
    (hok ▸ updates_update o token c s).get?_name ho hbefore hname
  outgrown o token c c' ho hok _ hid := by
    have hupdates := hok ▸ updates_update o token c s
    exact (hupdates.matched hkeyed h ho).name_eq hupdates.get?_of_ok hid
  revoked o token id ho hok := by
    have hrevokes := hok ▸ revokes_revoke k o token id s
    exact (hrevokes.matched h ho).ne_of_unstored hrevokes.get?_of_ok

/-- Whatever callers ask for, starting with nothing stored and no name remembered, and whatever cannot be
stored: if the cache does not fail, every name that is remembered leads to the chain that is stored under this
name, and neither an old name of a chain nor the name of one that is gone leads to it. -/
theorem named_of_empty {requests : List (Occasion × Request)} (hempty : s.repository = .empty)
    (hnone : s.cache = .empty) (hremembers : ∀ x ∈ requests, x.1.Remembers) :
    (s.performAll k requests).Named k := by
  have hmatched : s.Matched := by
    intro name id hid
    simp [hnone] at hid
  have hkeyed : s.Keyed := keyed_of_empty hempty
  exact (hmatched.performAll hkeyed hremembers).named (hkeyed.performAll requests)

/-- A service of two callers that stores nothing. -/
def neighbours : Service Unit Unit :=
  opened {} (Table.ofList [("token", "owner"), ("key", "guest")]) [] .empty
    { journey := ⟨(), [], []⟩, failures := { capacity := 1 } }

/-- The callers have a name in turn; the last of these requests cannot be stored. -/
def takingTurns : List (Occasion × Request) :=
  [(calm, .add "token" { id := "a", name := "pump" }),
    (calm, .add "key" { id := "b", name := "pump" }),
    (calm, .update "token" { id := "a", name := "valve" }),
    (calm, .revoke "key" "b"),
    (calm, .add "key" { id := "c", name := "pump" }),
    ({ calm with fails := fun call => call = .update "a" }, .update "token" { id := "a", name := "pump" })]

/-- In the end the name leads to the chain that got it last, and the chain is stored under it. -/
theorem named_of_empty_takingTurns :
    neighbours.repository = .empty ∧ neighbours.cache = .empty ∧ (∀ x ∈ takingTurns, x.1.Remembers) ∧
      (neighbours.performAll .relay takingTurns).cache.id "pump" = .ok "c" ∧
      ∃ c, (neighbours.performAll .relay takingTurns).repository.get? "c" = some c ∧ c.name = "pump" := by
  have hremembers : ∀ x ∈ takingTurns, x.1.Remembers := by
    simp [takingTurns, Occasion.Remembers, calm]
  have hid : (neighbours.performAll .relay takingTurns).cache.id "pump" = .ok "c" := by decide +kernel
  have hnamed := named_of_empty (k := .relay) (s := neighbours) rfl rfl hremembers
  obtain ⟨c, hc, -, hname⟩ := hnamed.stored "pump" "c" (NameCache.id_eq_ok_iff.1 hid)
  exact ⟨rfl, rfl, hremembers, hid, c, hc, hname⟩

/-! ## What a caller does to look-ups -/

/-- What a request of an owner may do to the look-up of a name, by its answer. -/
inductive Redirects (s : Service ω η) (o : Occasion) (owner name : String) :
    Request → Answer → Result String → Result String → Prop
  | kept {request : Request} {answer : Answer} (found : Result String) :
    Redirects s o owner name request answer found found
  | added {token : String} {c c' : Chain} (found : Result String) :
    s.repository.get? c'.id = none → c'.owner = owner → c'.name = name →
    Redirects s o owner name (.add token c) (.chain (.ok c')) found (.ok c'.id)
  | renamed {token : String} {c c' before : Chain} (found : Result String) :
    s.repository.get? c.id = some before → before.owner = owner → before.name ≠ name →
    c'.id = c.id → c'.owner = owner → c'.name = name →
    Redirects s o owner name (.update token c) (.chain (.ok c')) found (.ok c'.id)
  | left {token : String} {c c' before : Chain} :
    s.repository.get? c.id = some before → before.owner = owner → before.name ≠ c'.name →
    c'.name ≠ name ∨ o.fails (.cacheSave name) = true →
    Redirects s o owner name (.update token c) (.chain (.ok c')) (.ok c.id) (.error (.noKey name))
  | revoked {token id : String} {before : Chain} :
    s.repository.get? id = some before → before.owner = owner →
    Redirects s o owner name (.revoke token id) (.done (.ok ())) (.ok id) (.error (.noKey name))

/-- An addition redirects no name but the one it gives. -/
theorem Adds.redirects {r : Result Chain} (hs : s.identify token = .ok owner)
    (hadds : Adds o token c s r s') (name : String) :
    Redirects s o owner name (.add token c) (.chain r) (s.cache.id name) (s'.cache.id name) := by
  cases hadds with
  | refused e => exact .kept _
  | @added owner' howner hvalidate hnone =>
    obtain rfl : owner = owner' := Except.ok.inj (hs.symm.trans howner)
    dsimp only [Occasion.saved]
    split
    · exact .kept _
    · rw [NameCache.id_save]
      split
      case isTrue hname => exact .added _ hnone rfl hname.symm
      case isFalse => exact .kept _

/-- An update redirects no names but the new one and those of the chain it changes. -/
theorem Updates.redirects {r : Result Chain} (hkeyed : s.Keyed) (hs : s.identify token = .ok owner)
    (hupdates : Updates o token c s r s') (name : String) :
    Redirects s o owner name (.update token c) (.chain r) (s.cache.id name) (s'.cache.id name) := by
  cases hupdates with
  | refused e => exact .kept _
  | @updated current ha hvalidate =>
    have hget := get?_of_authorize ha
    have howner := owner_of_authorize hs ha
    have hid := hkeyed.id_of_authorize ha
    dsimp only
    split
    case isTrue => exact .kept _
    case isFalse hname =>
      have hrenamed : current.name ≠ (changed o current c).name := fun h => hname h.symm
      -- what leads to the chain is lost, unless its new name is saved afterwards
      have hleft (hlost : (changed o current c).name ≠ name ∨ o.fails (.cacheSave name) = true) :
          Redirects s o owner name (.update token c) (.chain (.ok (changed o current c)))
            (s.cache.id name) ((s.cache.remove current.id).id name) := by
        rw [NameCache.id_remove, hid]
        split
        case isTrue hfound =>
          rw [hfound]
          exact .left hget howner hrenamed hlost
        case isFalse => exact .kept _
      unfold Occasion.renamed Occasion.saved
      split
      case isTrue => exact .kept _
      case isFalse =>
        split
        case isTrue hfails =>
          refine hleft ?_
          by_cases hc : c.name = name
          · exact .inr (hc ▸ hfails)
          · exact .inl hc
        case isFalse =>
          rw [NameCache.id_save]
          split
          case isTrue hc => exact .renamed _ hget howner (hc ▸ hrenamed) hid howner hc.symm
          case isFalse hc => exact hleft (.inl fun h => hc h.symm)

/-- A removal takes away no names but those of the chain it removes. -/
theorem Revokes.redirects {r : Result Unit} (hs : s.identify token = .ok owner)
    (hrevokes : Revokes k o token id s r s') (name : String) :
    Redirects s o owner name (.revoke token id) (.done r) (s.cache.id name) (s'.cache.id name) := by
  cases hrevokes with
  | refused e => exact .kept _
  | kept e ha => exact .kept _
  | revoked ha =>
    dsimp only [Occasion.forgotten]
    split
    case isTrue => exact .kept _
    case isFalse =>
      rw [NameCache.id_remove]
      split
      case isTrue hfound =>
        rw [hfound]
        exact .revoked (get?_of_authorize ha) (owner_of_authorize hs ha)
      case isFalse => exact .kept _

theorem Starts.cache_eq {r : Result Unit} (hstarts : Starts k o token id s r s') : s'.cache = s.cache := by
  cases hstarts <;> rfl

theorem Stops.cache_eq {r : Result Unit} (hstops : Stops k o token id s r s') : s'.cache = s.cache := by
  cases hstops <;> rfl

/-- What a request of an owner may do to a look-up of a name. -/
theorem Keyed.redirects_perform (hkeyed : s.Keyed) (hs : s.identify token = .ok owner) (o : Occasion)
    {request : Request} (hcaller : request.caller = some token) (name : String) :
    Redirects s o owner name request (s.perform k o request).1 (s.cache.id name)
      ((s.perform k o request).2.cache.id name) := by
  cases request <;> cases hcaller
  case add c => exact (adds_add o token c s).redirects hs name
  case update c => exact (updates_update o token c s).redirects hkeyed hs name
  case revoke id => exact (revokes_revoke k o token id s).redirects hs name
  case start id =>
    simp only [Service.perform, (starts_start k o token id s).cache_eq]
    exact .kept _
  case stop id =>
    simp only [Service.perform, (stops_stop k o token id s).cache_eq]
    exact .kept _
  case list offset limit => exact .kept _
  case get id => exact .kept _
  case check payload =>
    simp only [Service.perform, cache_check]
    exact .kept _

/-- A look-up that leads to somebody else's chain either stays or follows a chain of the owner's that got the
name. -/
theorem Redirects.same_or_followed {request : Request} {answer : Answer} {b : Chain}
    {after : Result String} (hforeign : b.owner ≠ owner) (hb : s.repository.get? id = some b)
    (h : Redirects s o owner name request answer (.ok id) after) :
    after = .ok id ∨ ∃ c, answer = .chain (.ok c) ∧ c.owner = owner ∧ c.name = name ∧ after = .ok c.id := by
  cases h with
  | kept => exact .inl rfl
  | added _ hnone howner hname => exact .inr ⟨_, rfl, howner, hname, rfl⟩
  | renamed _ hget hbefore hne hid howner hname => exact .inr ⟨_, rfl, howner, hname, rfl⟩
  | left hget hbefore => exact absurd (owned_of_stored hget hbefore b hb) hforeign
  | revoked hget hbefore => exact absurd (owned_of_stored hget hbefore b hb) hforeign

/-- In every reachable service a caller's request leaves the look-up of every name as it is, unless it gives
the name to a chain of the caller's, or the look-up leads to a chain of the caller's that is removed or gets
another name. So nobody can make a look-up fail that leads to a chain of somebody else, or have it lead to
anything but a chain of one's own with the same name. -/
theorem redirects_of_reachable (hs : s.Reachable k) {request : Request}
    (hcaller : request.caller = some token) (hsowner : s.identify token = .ok owner) (o : Occasion)
    (name : String) :
    Redirects s o owner name request (s.perform k o request).1 (s.cache.id name)
      ((s.perform k o request).2.cache.id name) ∧
    ∀ id b, s.repository.get? id = some b → b.owner ≠ owner → s.cache.id name = .ok id →
      (s.perform k o request).2.cache.id name = .ok id ∨
      ∃ c, (s.perform k o request).1 = .chain (.ok c) ∧ c.owner = owner ∧ c.name = name ∧
        (s.perform k o request).2.cache.id name = .ok c.id := by
  have hkeyed : s.Keyed := hs.consistent.keyed
  have hredirects := hkeyed.redirects_perform (k := k) hsowner o hcaller name
  refine ⟨hredirects, fun id b hb hforeign hfound => ?_⟩
  rw [hfound] at hredirects
  exact hredirects.same_or_followed hforeign hb

/-- The owner has a chain to which its name leads. -/
def claimed : Service Unit Unit :=
  (neighbours.perform .relay calm (.add "token" { id := "a", name := "pump" })).2

/-- The guest adds a chain of the same name. -/
def reclaim : Request := .add "key" { id := "b", name := "pump" }

/-- Both callers have a chain of one name. -/
def namesakes : Service Unit Unit := (claimed.perform .relay calm reclaim).2

theorem reachable_claimed : claimed.Reachable .relay := .perform _ _ (.opened ..)

theorem reachable_namesakes : namesakes.Reachable .relay := .perform _ _ reachable_claimed

/-- The owner cannot do away with the guest's look-up. -/
theorem redirects_namesakes :
    (namesakes.perform .relay calm (.revoke "token" "a")).1 = .done (.ok ()) ∧
      namesakes.cache.id "pump" = .ok "b" ∧
      (namesakes.perform .relay calm (.revoke "token" "a")).2.cache.id "pump" = .ok "b" := by
  have hcaller : (Request.revoke "token" "a").caller = some "token" := rfl
  have howner : namesakes.identify "token" = .ok "owner" := by decide +kernel
  have hrevoke : (namesakes.perform .relay calm (.revoke "token" "a")).1 = .done (.ok ()) :=
    congrArg Answer.done (by decide +kernel)
  have hfound : namesakes.cache.id "pump" = .ok "b" := by decide +kernel
  have hb : (namesakes.repository.get? "b").map (·.owner) = some "guest" := by decide +kernel
  obtain ⟨b, hb, hguest⟩ := Option.map_eq_some_iff.1 hb
  have hforeign : b.owner ≠ "owner" := by simp [hguest]
  obtain ⟨-, hforeigns⟩ := redirects_of_reachable reachable_namesakes hcaller howner calm "pump"
  obtain hsame | ⟨c, hanswer, -⟩ := hforeigns "b" b hb hforeign hfound
  · exact ⟨hrevoke, hfound, hsame⟩
  · exact absurd (hrevoke.symm.trans hanswer) (by simp)

/-- A caller who adds a chain with the name of somebody else's redirects the look-up, and who then removes
the chain does away with it. -/
theorem redirected_neighbour :
    claimed.Reachable .relay ∧ claimed.identify "token" = .ok "owner" ∧
      claimed.identify "key" = .ok "guest" ∧
      (∃ c, claimed.repository.get? "a" = some c ∧ c.owner = "owner" ∧ c.name = "pump") ∧
      claimed.cache.id "pump" = .ok "a" ∧ reclaim.caller = some "key" ∧
      (claimed.perform .relay calm reclaim).2.cache.id "pump" = .ok "b" ∧
      namesakes.Reachable .relay ∧
      (∃ c, namesakes.repository.get? "a" = some c ∧ c.owner = "owner" ∧ c.name = "pump") ∧
      (namesakes.perform .relay calm (.revoke "key" "b")).2.cache.id "pump" = .error (.noKey "pump") := by
  have hfirst : claimed.repository.get? "a" =
      some (newChain calm "owner" { id := "a", name := "pump" }) := by decide +kernel
  have hstays : namesakes.repository.get? "a" =
      some (newChain calm "owner" { id := "a", name := "pump" }) := by decide +kernel
  refine ⟨reachable_claimed, ?_, ?_, ⟨_, hfirst, rfl, rfl⟩, ?_, rfl, ?_, reachable_namesakes,
    ⟨_, hstays, rfl, rfl⟩, ?_⟩ <;> decide +kernel

end Service

end RuleFlow
