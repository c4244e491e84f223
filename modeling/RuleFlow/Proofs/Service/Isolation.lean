import RuleFlow.Proofs.Service.Agreement

/-!
# Owners do not notice one another

An operation of a caller changes what is stored under an id, and what runs for it, only where the caller owns
what is stored (`Service.Confined`). The other way round, what the caller is answered and what becomes of the
caller's chains depends on nothing that others have stored (`Service.Agree.perform`). Adding a chain is the
exception: ids are shared, so that it fails tells that somebody uses the id.
-/

namespace RuleFlow

variable {ω η : Type}

namespace Service

variable {k : Catalogue ω η} {o o' : Occasion} {owner token id : String} {c current : Chain}
  {s s' t t' : Service ω η}

/-- The token with which a request comes, if it comes from a caller. -/
def Request.caller : Request → Option String
  | .add token _ | .update token _ | .revoke token _ | .start token _ | .stop token _
  | .list token _ _ | .get token _ | .check token _ => some token
  | .restore | .deliver _ | .deliverFrom .. => none

/-! ## What an operation can change -/

/-- The same is stored and runs under every id, except where what was and what is stored belongs to an
owner. -/
structure Confined (owner : String) (s s' : Service ω η) : Prop where
  settings : s'.settings = s.settings
  entries : ∀ id, (s'.repository.get? id = s.repository.get? id ∧
      s'.engine.instances.get? id = s.engine.instances.get? id) ∨
    (∀ c, s.repository.get? id = some c → c.owner = owner) ∧
      ∀ c, s'.repository.get? id = some c → c.owner = owner

namespace Confined

theorem refl (owner : String) (s : Service ω η) : Confined owner s s := ⟨rfl, fun _ => .inl ⟨rfl, rfl⟩⟩

/-- It is enough to look at the one id that an operation concerns. -/
theorem of_id (id : String) (hsettings : s'.settings = s.settings)
    (hs : ∀ c, s.repository.get? id = some c → c.owner = owner)
    (hs' : ∀ c, s'.repository.get? id = some c → c.owner = owner)
    (hrepository : ∀ id' ≠ id, s'.repository.get? id' = s.repository.get? id')
    (hinstances : ∀ id' ≠ id, s'.engine.instances.get? id' = s.engine.instances.get? id') :
    Confined owner s s' := by
  refine ⟨hsettings, fun id' => ?_⟩
  by_cases hid : id' = id
  · rw [hid]
    exact .inr ⟨hs, hs'⟩
  · exact .inl ⟨hrepository id' hid, hinstances id' hid⟩

/-- What is stored of another owner's chains is the same before and after. -/
theorem stored_iff (h : Confined owner s s') (hforeign : c.owner ≠ owner) :
    s'.repository.get? id = some c ↔ s.repository.get? id = some c := by
  rcases h.entries id with ⟨hsame, -⟩ | ⟨hs, hs'⟩
  · rw [hsame]
  · exact ⟨fun hc => absurd (hs' c hc) hforeign, fun hc => absurd (hs c hc) hforeign⟩

/-- What runs of another owner's chains is the same before and after. -/
theorem running_eq (h : Confined owner s s') (hforeign : c.owner ≠ owner)
    (hc : s.repository.get? id = some c) :
    s'.engine.instances.get? id = s.engine.instances.get? id := by
  rcases h.entries id with ⟨-, hsame⟩ | ⟨hs, -⟩
  · exact hsame
  · exact absurd (hs c hc) hforeign

end Confined

theorem owned_of_stored (hc : s.repository.get? id = some current) (howner : current.owner = owner) :
    ∀ c, s.repository.get? id = some c → c.owner = owner := by
  intro c' hc'
  obtain rfl := Option.some.inj (hc.symm.trans hc')
  exact howner

theorem Adds.confined {r : Result Chain} (hs : s.identify token = .ok owner)
    (hadds : Adds o token c s r s') : Confined owner s s' := by
  cases hadds with
  | refused e => exact .refl owner s
  | @added owner' howner hvalidate hnone =>
    obtain rfl : owner = owner' := Except.ok.inj (hs.symm.trans howner)
    refine .of_id (newChain o owner c).id rfl (fun c' hc' => ?_)
      (owned_of_stored (Table.get?_insert_self ..) rfl) (fun id hne => ?_) fun _ _ => rfl
    · simp [hnone] at hc'
    · exact (Table.get?_insert ..).trans (if_neg hne)

/-- A chain of the caller's may be run and stopped. -/
theorem Confined.of_authorize {operation : Operation} {engine : Engine ω η} (hsc : s.Consistent k)
    (hs : s.identify token = .ok owner) (ha : s.authorize o operation token id = .ok current)
    (hother : ∀ id' ≠ current.id, engine.instances.get? id' = s.engine.instances.get? id') :
    Confined owner s { s with engine } := by
  have hget := get?_of_authorize ha
  have howned := owned_of_stored hget (owner_of_authorize hs ha)
  obtain rfl := hsc.keyed id current hget
  exact .of_id current.id rfl howned howned (fun _ _ => rfl) hother

/-- A chain of the caller's may be replaced by one of the caller's. -/
theorem Confined.of_authorize_insert {operation : Operation} {engine : Engine ω η} {cache : NameCache}
    (hsc : s.Consistent k) (hs : s.identify token = .ok owner)
    (ha : s.authorize o operation token id = .ok current) (hc : c.owner = current.owner)
    (hother : ∀ id' ≠ current.id, engine.instances.get? id' = s.engine.instances.get? id') :
    Confined owner s
      { s with engine, cache, repository := s.repository.insert current.id c } := by
  have hget := get?_of_authorize ha
  have howner := owner_of_authorize hs ha
  obtain rfl := hsc.keyed id current hget
  exact .of_id current.id rfl (owned_of_stored hget howner)
    (owned_of_stored (Table.get?_insert_self ..) (hc.trans howner))
    (fun _ hne => (Table.get?_insert ..).trans (if_neg hne)) hother

theorem Updates.confined {r : Result Chain} (hsc : s.Consistent k) (hs : s.identify token = .ok owner)
    (hupdates : Updates o token c s r s') : Confined owner s s' := by
  cases hupdates with
  | refused e => exact .refl owner s
  | updated ha hvalidate => exact .of_authorize_insert hsc hs ha rfl fun _ _ => rfl

theorem Revokes.confined {r : Result Unit} (hsc : s.Consistent k) (hs : s.identify token = .ok owner)
    (hrevokes : Revokes k o token id s r s') : Confined owner s s' := by
  cases hrevokes with
  | refused e => exact .refl owner s
  | kept e ha =>
    obtain ⟨hid, hidle⟩ := hsc.idle_of_authorize (by simp) ha
    rw [hid, Engine.delete_of_idle hidle]
    exact .refl owner s
  | revoked ha =>
    obtain ⟨hid, hidle⟩ := hsc.idle_of_authorize (by simp) ha
    have hget := get?_of_authorize ha
    rw [hid, Engine.delete_of_idle hidle]
    refine .of_id id rfl (owned_of_stored hget (owner_of_authorize hs ha)) (fun c hc => ?_)
      (fun id' hne => (Table.get?_erase ..).trans (if_neg hne)) fun _ _ => rfl
    rw [Table.get?_erase_self] at hc
    simp at hc

/-- A start changes nothing of another owner, be it undone or not. -/
theorem Starts.confined {r : Result Unit} (hsc : s.Consistent k) (hs : s.identify token = .ok owner)
    (hstarts : Starts k o token id s r s') : Confined owner s s' := by
  cases hstarts with
  | refused e => exact .refl owner s
  | failed ha herror => exact .of_authorize hsc hs ha fun _ => Engine.get?_start_of_ne
  | undone e ha hok =>
    exact .of_authorize hsc hs ha fun _ hne =>
      (Engine.get?_stop_of_ne hne).trans (Engine.get?_start_of_ne hne)
  | started ha hok => exact .of_authorize_insert hsc hs ha rfl fun _ => Engine.get?_start_of_ne

/-- A stop changes nothing of another owner, be it undone or not. -/
theorem Stops.confined {r : Result Unit} (hsc : s.Consistent k) (hs : s.identify token = .ok owner)
    (hstops : Stops k o token id s r s') : Confined owner s s' := by
  cases hstops with
  | refused e => exact .refl owner s
  | @undone current e ha hok =>
    exact .of_authorize hsc hs ha fun _ hne =>
      (Engine.get?_start_of_ne (c := restamped o .stopped current) hne).trans
        (Engine.get?_stop_of_ne hne)
  | idle e ha herror => exact .of_authorize hsc hs ha fun _ => Engine.get?_stop_of_ne
  | stopped ha => exact .of_authorize_insert hsc hs ha rfl fun _ => Engine.get?_stop_of_ne

theorem confined_check (payload : List UInt8) : Confined owner s (s.check token payload k).2 := by
  refine ⟨?_, fun id => .inl ?_⟩
  · unfold check
    split <;> rfl
  · rw [repository_check, instances_check]
    exact ⟨rfl, rfl⟩

/-- A check by a known caller lists the defects that the engine finds. -/
theorem check_of_identify {payload : List UInt8} (hs : s.identify token = .ok owner) :
    (s.check token payload k).1 = .ok (s.engine.check k payload).1 := by
  rw [check, hs]

/-- A caller's operation changes nothing of others. -/
theorem Consistent.confined_perform (hsc : s.Consistent k) (hs : s.identify token = .ok owner)
    (o : Occasion) {request : Request} (hcaller : request.caller = some token) :
    Confined owner s (s.perform k o request).2 := by
  cases request <;> cases hcaller
  case add c => exact (adds_add o token c s).confined hs
  case update c => exact (updates_update o token c s).confined hsc hs
  case revoke id => exact (revokes_revoke k o token id s).confined hsc hs
  case start id => exact (starts_start k o token id s).confined hsc hs
  case stop id => exact (stops_stop k o token id s).confined hsc hs
  case list offset limit => exact .refl owner s
  case get id => exact .refl owner s
  case check payload => exact confined_check payload

/-! ## What an operation depends on -/

/-- Services that agree on the part of the caller answer alike and agree afterwards. -/
theorem Agree.perform (hk : k.Uniform) (hsc : s.Consistent k) (htc : t.Consistent k)
    (h : Agree k owner s t) (hs : s.identify token = .ok owner) (ht : t.identify token = .ok owner)
    (ho : o'.fails = o.fails) {request : Request} (hcaller : request.caller = some token)
    (hadd : ∀ c, request ≠ .add token c) :
    (t.perform k o' request).1.undated = (s.perform k o request).1.undated ∧
      Agree k owner (s.perform k o request).2 (t.perform k o' request).2 := by
  have hsettings : (t.perform k o' request).2.settings = (s.perform k o request).2.settings := by
    rw [(htc.confined_perform ht o' hcaller).settings, (hsc.confined_perform hs o hcaller).settings,
      h.settings]
  -- an operation that fails leaves both services as they were
  have hfailed : ∀ e, (t.perform k o' request).1.undated = (s.perform k o request).1.undated →
      (s.perform k o request).1.error? = some e →
      Agree k owner (s.perform k o request).2 (t.perform k o' request).2 := by
    intro e hanswer he
    have he' : (t.perform k o' request).1.error? = some e := by
      rw [← Answer.error?_undated, hanswer, Answer.error?_undated, he]
    exact h.of_alike (hsc.perform o request) (htc.perform o' request)
      (hsc.alike_of_error hk.steady he) (htc.alike_of_error hk.steady he') hsettings
  cases request <;> cases hcaller
  case add c => exact absurd rfl (hadd c)
  case update c =>
    have hanswer := update_of_agree hsc htc h hs ht ho c
    have hundated := congrArg Answer.chain hanswer
    refine ⟨hundated, ?_⟩
    cases hr : (s.update o token c).1 with
    | error e => exact hfailed e hundated (Answer.error?_chain.2 hr)
    | ok d =>
      rw [hr] at hanswer
      obtain ⟨d', hr', -⟩ := map_eq_ok_iff.1 hanswer
      exact (hr ▸ updates_update o token c s).agree hsc htc h hs (hr' ▸ updates_update o' token c t)
  case revoke id =>
    have hanswer := revoke_of_agree hsc htc h hs ht ho id
    have hundated := congrArg Answer.done hanswer
    refine ⟨hundated, ?_⟩
    cases hr : (s.revoke o token id k).1 with
    | error e => exact hfailed e hundated (Answer.error?_done.2 hr)
    | ok =>
      exact (hr ▸ revokes_revoke k o token id s).agree hsc htc h
        (hanswer.trans hr ▸ revokes_revoke k o' token id t)
  case start id =>
    have hanswer := start_of_agree hk hsc htc h hs ht ho id
    have hundated := congrArg Answer.done hanswer
    refine ⟨hundated, ?_⟩
    cases hr : (s.start o token id k).1 with
    | error e => exact hfailed e hundated (Answer.error?_done.2 hr)
    | ok =>
      exact (hr ▸ starts_start k o token id s).agree hsc htc h hs
        (hanswer.trans hr ▸ starts_start k o' token id t)
  case stop id =>
    have hanswer := stop_of_agree hsc htc h hs ht ho id
    have hundated := congrArg Answer.done hanswer
    refine ⟨hundated, ?_⟩
    cases hr : (s.stop o token id k).1 with
    | error e => exact hfailed e hundated (Answer.error?_done.2 hr)
    | ok =>
      exact (hr ▸ stops_stop k o token id s).agree hsc htc h hs
        (hanswer.trans hr ▸ stops_stop k o' token id t)
  case list offset limit =>
    exact ⟨congrArg Answer.page (list_of_agree h hs ht ho offset limit), h⟩
  case get id => exact ⟨congrArg Answer.chain (get_of_agree h hs ht ho id), h⟩
  case check payload =>
    refine ⟨?_, hsettings, ?_, ?_⟩
    · change (Answer.defects (t.check token payload k).1).undated =
        (Answer.defects (s.check token payload k).1).undated
      rw [check_of_identify ht, check_of_identify hs, Engine.check_fst_of_uniform hk payload s.engine]
    · simpa [Service.perform] using h.stored
    · simpa [Service.perform] using h.running

/-- In every reachable service, what a caller has done leaves the chains of all others as they are stored and
as they run. And in any two that agree on the part of the caller, all but an addition is answered alike and
leaves them in agreement, provided that it depends on a node alone whether its handler can be made. -/
theorem isolated_of_reachable (hs : s.Reachable k) {request : Request} (hcaller : request.caller = some token)
    (hsowner : s.identify token = .ok owner) (o : Occasion) :
    (∀ id c, c.owner ≠ owner →
      ((s.perform k o request).2.repository.get? id = some c ↔ s.repository.get? id = some c) ∧
      (s.repository.get? id = some c →
        (s.perform k o request).2.engine.instances.get? id = s.engine.instances.get? id)) ∧
    ∀ (t : Service ω η) (o' : Occasion), k.Uniform → t.Reachable k → t.identify token = .ok owner →
      o'.fails = o.fails → Agree k owner s t → (∀ c, request ≠ .add token c) →
      (t.perform k o' request).1.undated = (s.perform k o request).1.undated ∧
        Agree k owner (s.perform k o request).2 (t.perform k o' request).2 := by
  have hconfined := hs.consistent.confined_perform hsowner o hcaller
  refine ⟨fun id c hforeign => ⟨hconfined.stored_iff hforeign, hconfined.running_eq hforeign⟩, ?_⟩
  intro t o' hk ht htowner ho h hadd
  exact h.perform hk hs.consistent ht.consistent hsowner htowner ho hcaller hadd

/-- A chain of somebody else. -/
def guestChain : Chain :=
  { id := "alarm", name := "alarm", owner := "guest", status := .started, payload := GraphPayload.pair.text }

/-- The service of `pairStarted` with a second user, whose chain was restored. -/
def shared : Service Unit Unit :=
  let s := opened {} (Table.ofList [("token", "owner"), ("key", "guest")]) [guestChain] .empty
    { journey := ⟨(), [], []⟩, failures := { capacity := 1 } }
  let s := (s.perform .relay calm .restore).2
  let s := (s.perform .relay calm (.add "token" { id := "pair", payload := GraphPayload.pair.text })).2
  (s.perform .relay { calm with now := 7 } (.start "token" "pair")).2

theorem reachable_shared : shared.Reachable .relay :=
  .perform _ _ (.perform _ _ (.perform _ _ (.opened ..)))

/-- The neighbour's chains make no difference to the owner. -/
theorem agree_shared_pairStarted : Agree .relay "owner" shared pairStarted := by
  refine .of_consistent reachable_shared.consistent reachable_pairStarted.consistent (by decide +kernel)
    (by decide +kernel) fun id c hc howner => ?_
  have hkey : id ∈ (shared.repository.filter fun _ c => c.owner = "owner").keys := by
    rw [Table.mem_keys]
    refine ⟨c, ?_⟩
    rw [Table.get?_filter, hc, Option.filter_some, if_pos (decide_eq_true howner)]
  have hkeys : (shared.repository.filter fun _ c => c.owner = "owner").keys = ["pair"] := by
    decide +kernel
  obtain rfl := List.mem_singleton.1 (hkeys ▸ hkey)
  have hshared : shared.engine.instances.isRunning "pair" = true := by decide +kernel
  have hpair : pairStarted.engine.instances.isRunning "pair" = true := by decide +kernel
  obtain ⟨i, hi⟩ := Instances.isRunning_iff.1 hshared
  obtain ⟨i', hi'⟩ := Instances.isRunning_iff.1 hpair
  simp [hi, hi']

/-- One user stops a chain, with another's running beside it and without. -/
theorem isolated_stop_pair :
    ((shared.perform .relay calm (.stop "token" "pair")).2.repository.get? "alarm" = some guestChain ∧
      (shared.perform .relay calm (.stop "token" "pair")).2.engine.instances.get? "alarm" =
        shared.engine.instances.get? "alarm") ∧
    (pairStarted.perform .relay { calm with now := 9 } (.stop "token" "pair")).1.undated =
      (shared.perform .relay calm (.stop "token" "pair")).1.undated ∧
    Agree .relay "owner" (shared.perform .relay calm (.stop "token" "pair")).2
      (pairStarted.perform .relay { calm with now := 9 } (.stop "token" "pair")).2 := by
  have hshared : shared.identify "token" = .ok "owner" := by decide +kernel
  have hpair : pairStarted.identify "token" = .ok "owner" := by decide +kernel
  have hstored : shared.repository.get? "alarm" = some guestChain := by decide +kernel
  have hforeign : guestChain.owner ≠ "owner" := by decide +kernel
  have hcaller : (Request.stop "token" "pair").caller = some "token" := rfl
  obtain ⟨hothers, hagree⟩ := isolated_of_reachable reachable_shared hcaller hshared calm
  obtain ⟨hsame, hruns⟩ := hothers "alarm" guestChain hforeign
  exact ⟨⟨hsame.2 hstored, hruns hstored⟩, hagree pairStarted { calm with now := 9 } (fun _ _ _ => rfl)
    reachable_pairStarted hpair rfl agree_shared_pairStarted fun c => by simp⟩

end Service

end RuleFlow
