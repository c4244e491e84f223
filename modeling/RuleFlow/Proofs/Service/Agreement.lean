import RuleFlow.Proofs.Service.Rollback

/-!
# What one owner sees

Two services agree on the part of an owner if they store the same chains of the owner, times aside, and run
the same of them by the same definitions (`Service.Agree`); what they hold of other owners may differ. An
operation of the owner on a chain of the owner's then answers the same in both, and they agree after it: each
answer is computed from what they agree on, and so is what is stored and runs afterwards.
-/

namespace RuleFlow

variable {ω η : Type}

/-- A chain without its times. -/
def Chain.undated (c : Chain) : Chain := { c with createdAt := 0, updatedAt := 0 }

/-- What does not look at the times of a chain is the same for chains that differ in nothing else. -/
theorem Chain.eq_of_undated {α : Type} (f : Chain → α) (hf : ∀ c, f c.undated = f c) {c c' : Chain}
    (h : c'.undated = c.undated) : f c' = f c := by
  rw [← hf c', h, hf c]

/-- A page without the times of its chains. -/
def Page.undated (p : Page) : Page := { p with chains := p.chains.map (·.undated) }

/-- An answer without times. -/
def Service.Answer.undated : Service.Answer → Service.Answer
  | .chain r => .chain (r.map (·.undated))
  | .page r => .page (r.map (·.undated))
  | a => a

/-- The times in an answer say nothing about whether it is an error. -/
theorem Service.Answer.error?_undated (a : Service.Answer) : a.undated.error? = a.error? := by
  rcases a with r | r | r | r | r <;> cases r <;> rfl

theorem Instance.BuiltFrom.of_undated {k : Catalogue ω η} {c c' : Chain} {i : Instance η}
    (h : i.BuiltFrom k c) (hc : c.undated = c'.undated) : i.BuiltFrom k c' := by
  have hundated : i.BuiltFrom k c.undated := h
  rw [hc] at hundated
  exact hundated

namespace Repository

variable {r r' : Repository} {owner id : String} {c : Chain}

/-- The chains of an owner without their times. -/
def view (owner : String) (r : Repository) : Table Chain :=
  (r.filter fun _ c => c.owner = owner).map Chain.undated

/-- An owner sees the chains of its own, without their times. -/
theorem get?_view (owner : String) (r : Repository) (id : String) :
    (r.view owner).get? id = ((r.get? id).filter (·.owner = owner)).map Chain.undated := by
  rw [view, Table.get?_map, Table.get?_filter]

/-- Storing a chain of the owner is seen as storing it in the view. -/
theorem view_insert (hc : c.owner = owner) :
    Repository.view owner (r.insert id c) = (r.view owner).insert id c.undated := by
  refine Table.ext fun id' => ?_
  rw [get?_view, Table.get?_insert, Table.get?_insert, get?_view]
  split
  · rw [Option.filter_some, if_pos (decide_eq_true hc), Option.map_some]
  · rfl

theorem view_erase (owner id : String) (r : Repository) :
    Repository.view owner (r.erase id) = (r.view owner).erase id := by
  refine Table.ext fun id' => ?_
  rw [get?_view, Table.get?_erase, Table.get?_erase, get?_view]
  split <;> rfl

/-- What is stored in one repository is stored in any with the same view. -/
theorem exists_of_view (h : r'.view owner = r.view owner) (hc : r.get? id = some c)
    (howner : c.owner = owner) : ∃ c', r'.get? id = some c' ∧ c'.undated = c.undated := by
  have hview : (r.view owner).get? id = some c.undated := by
    rw [get?_view, hc, Option.filter_some, if_pos (decide_eq_true howner), Option.map_some]
  rw [← h, get?_view, Option.map_eq_some_iff] at hview
  obtain ⟨c', hc', hundated⟩ := hview
  exact ⟨c', (Option.filter_eq_some_iff.1 hc').1, hundated⟩

/-- What an owner retrieves depends on the view alone. -/
theorem retrieve_of_view (h : r'.view owner = r.view owner) (id : String) :
    (r'.retrieve owner id).map Chain.undated = (r.retrieve owner id).map Chain.undated := by
  have hretrieve : ∀ r : Repository, (r.retrieve owner id).map Chain.undated =
      ((r.view owner).get? id).elim (.error (.noChain id)) .ok := by
    intro r
    rw [get?_view, retrieve]
    cases r.get? id with
    | none => rfl
    | some c =>
      simp only [Option.filter_some, decide_eq_true_eq]
      split <;> rfl
  rw [hretrieve r', hretrieve r, h]

/-- A page of an owner depends on the view alone: its chains, their order and their number. -/
theorem page_of_view (h : r'.view owner = r.view owner) (offset limit : Nat) :
    (r'.page owner offset limit).undated = (r.page owner offset limit).undated := by
  have howned : ∀ r : Repository, (r.owned owner).map Chain.undated = (r.view owner).values := by
    intro r
    rw [view, Table.values_map, Table.values_filter, owned]
  have hsame : (r'.owned owner).map Chain.undated = (r.owned owner).map Chain.undated := by
    rw [howned, howned, h]
  have hlength := congrArg List.length hsame
  rw [List.length_map, List.length_map] at hlength
  simp only [page, Page.undated, List.map_take, List.map_drop, hsame, hlength]

end Repository

/-- Whether a chain that does not run can be started, and the error if not, depends on its definition. -/
theorem Engine.start_fst_of_undated {k : Catalogue ω η} (hk : k.Uniform) {e e' : Engine ω η}
    {c c' : Chain} (hidle : e.instances.get? c.id = none) (hidle' : e'.instances.get? c'.id = none)
    (hc : c'.undated = c.undated) : (e'.start k c').1 = (e.start k c).1 := by
  have hpayload := Chain.eq_of_undated (·.payload) (fun _ => rfl) hc
  have hverdict := Graph.verdict_compile hk c.payload e.world e'.world
  have hstart := Engine.starts_start k c e
  have hstart' := Engine.starts_start k c' e'
  generalize (e.start k c).1 = r, (e.start k c).2.instances = s at hstart ⊢
  generalize (e'.start k c').1 = r', (e'.start k c').2.instances = s' at hstart' ⊢
  cases hstart with
  | running hi => simp [hidle] at hi
  | refused _ hcompile =>
    cases hstart' with
    | running hi => simp [hidle'] at hi
    | refused _ hcompile' =>
      rw [hcompile, ← hpayload, hcompile'] at hverdict
      rw [Except.error.inj hverdict]
    | started _ hcompile' =>
      rw [hcompile, ← hpayload, hcompile'] at hverdict
      cases hverdict
  | started _ hcompile =>
    cases hstart' with
    | running hi => simp [hidle'] at hi
    | refused _ hcompile' =>
      rw [hcompile, ← hpayload, hcompile'] at hverdict
      cases hverdict
    | started => rfl

/-- What a check lists depends on the definition. -/
theorem Engine.check_fst_of_uniform {k : Catalogue ω η} (hk : k.Uniform) (payload : List UInt8)
    (e e' : Engine ω η) : (e'.check k payload).1 = (e.check k payload).1 := by
  have hverdict := Graph.verdict_compile hk payload e.world e'.world
  unfold Engine.check
  rcases hcompile : Graph.compile k payload e.world with ⟨es | g, w⟩ <;>
    rcases hcompile' : Graph.compile k payload e'.world with ⟨es' | g', w'⟩ <;>
    rw [hcompile, hcompile'] at hverdict
  · exact Except.error.inj hverdict
  · cases hverdict
  · cases hverdict

namespace Service

variable {k : Catalogue ω η} {o o' : Occasion} {owner token id : String} {c current current' : Chain}
  {s s' t t' : Service ω η}

/-! ## Agreement -/

/-- Two services are set up alike, store the same chains of an owner, times aside, and run the same of them,
each by the same definition. -/
structure Agree (k : Catalogue ω η) (owner : String) (s t : Service ω η) : Prop where
  settings : t.settings = s.settings
  stored : t.repository.view owner = s.repository.view owner
  running : ∀ id c, s.repository.get? id = some c → c.owner = owner →
    (s.engine.instances.get? id = none ∧ t.engine.instances.get? id = none) ∨
      ∃ d i i', s.engine.instances.get? id = some i ∧ t.engine.instances.get? id = some i' ∧
        i.BuiltFrom k d ∧ i'.BuiltFrom k d

/-- In services that agree, the same chains of the owner run. -/
theorem Agree.idle_iff (h : Agree k owner s t) (hc : s.repository.get? id = some c)
    (howner : c.owner = owner) :
    t.engine.instances.get? id = none ↔ s.engine.instances.get? id = none := by
  rcases h.running id c hc howner with ⟨hs, ht⟩ | ⟨d, i, i', hs, ht, -, -⟩
  · rw [hs, ht]
  · simp [hs, ht]

/-- In consistent services it is enough that the same chains of the owner run: they do so by the definitions
that are stored. -/
theorem Agree.of_consistent (hs : s.Consistent k) (ht : t.Consistent k) (hsettings : t.settings = s.settings)
    (hstored : t.repository.view owner = s.repository.view owner)
    (hidle : ∀ id c, s.repository.get? id = some c → c.owner = owner →
      (t.engine.instances.get? id = none ↔ s.engine.instances.get? id = none)) : Agree k owner s t := by
  refine ⟨hsettings, hstored, fun id c hc howner => ?_⟩
  cases hi : s.engine.instances.get? id with
  | none => exact .inl ⟨rfl, (hidle id c hc howner).2 hi⟩
  | some i =>
    cases hi' : t.engine.instances.get? id with
    | none => simp [(hidle id c hc howner).1 hi'] at hi
    | some i' =>
      obtain ⟨d, hd, -, hbuilt⟩ := hs.running id i hi
      obtain rfl : c = d := Option.some.inj (hc.symm.trans hd)
      obtain ⟨c', hc', hundated⟩ := Repository.exists_of_view hstored hc howner
      obtain ⟨d', hd', -, hbuilt'⟩ := ht.running id i' hi'
      obtain rfl : c' = d' := Option.some.inj (hc'.symm.trans hd')
      exact .inr ⟨c, i, i', rfl, rfl, hbuilt, hbuilt'.of_undated hundated⟩

theorem Alike.idle_iff (h : Alike k s s') (id : String) :
    s'.engine.instances.get? id = none ↔ s.engine.instances.get? id = none := by
  rcases h.running id with ⟨hs, hs'⟩ | ⟨d, i, i', hs, hs', -, -⟩
  · rw [hs, hs']
  · simp [hs, hs']

/-- Services that are alike to two that agree do so themselves. -/
theorem Agree.of_alike (h : Agree k owner s t) (hs' : s'.Consistent k) (ht' : t'.Consistent k)
    (hs : Alike k s s') (ht : Alike k t t') (hsettings : t'.settings = s'.settings) :
    Agree k owner s' t' := by
  refine .of_consistent hs' ht' hsettings ?_ fun id c hc howner => ?_
  · rw [hs.repository, ht.repository, h.stored]
  · rw [hs.repository] at hc
    rw [ht.idle_iff, hs.idle_iff, h.idle_iff hc howner]

/-! ## The answers -/

/-- The answer of a collaborator depends on the occasion only by the calls that fail. -/
theorem stored_of_fails {α : Type} (ho : o'.fails = o.fails) (call : Call) (r : Result α) :
    o'.stored call r = o.stored call r := by
  rw [Occasion.stored, Occasion.stored, ho]

theorem map_stored {α β : Type} (o : Occasion) (call : Call) (r : Result α) (f : α → β) :
    (o.stored call r).map f = o.stored call (r.map f) := by
  unfold Occasion.stored
  split <;> rfl

/-- Services that agree give an owner the same chains. -/
theorem get_of_agree (h : Agree k owner s t) (hs : s.identify token = .ok owner)
    (ht : t.identify token = .ok owner) (ho : o'.fails = o.fails) (id : String) :
    (t.get o' token id).map Chain.undated = (s.get o token id).map Chain.undated := by
  have hget : (t.retrieve o' owner id).map Chain.undated = (s.retrieve o owner id).map Chain.undated := by
    rw [retrieve, retrieve, map_stored, map_stored, Repository.retrieve_of_view h.stored,
      stored_of_fails ho]
  rw [Service.get, ht, Service.get, hs]
  exact hget

/-- Services that agree give an owner the same pages. -/
theorem list_of_agree (h : Agree k owner s t) (hs : s.identify token = .ok owner)
    (ht : t.identify token = .ok owner) (ho : o'.fails = o.fails) (offset limit : Nat) :
    (t.list o' token offset limit).map Page.undated = (s.list o token offset limit).map Page.undated := by
  have hpage : ∀ limit', (o'.stored .list (.ok (t.repository.page owner offset limit'))).map Page.undated =
      (o.stored .list (.ok (s.repository.page owner offset limit'))).map Page.undated := by
    intro limit'
    rw [map_stored, map_stored, Except.map, Except.map, Repository.page_of_view h.stored,
      stored_of_fails ho]
  rw [Service.list, ht, h.settings, Service.list, hs]
  exact hpage _

/-- An operation is refused in both services for the same reason, or permitted in both. -/
theorem authorize_of_agree (h : Agree k owner s t) (hs : s.identify token = .ok owner)
    (ht : t.identify token = .ok owner) (ho : o'.fails = o.fails) (operation : Operation) (id : String) :
    (∃ e, s.authorize o operation token id = .error e ∧ t.authorize o' operation token id = .error e) ∨
      ∃ c c', s.authorize o operation token id = .ok c ∧ t.authorize o' operation token id = .ok c' ∧
        c'.undated = c.undated := by
  obtain ⟨e, ht', hs'⟩ | ⟨c', c, ht', hs', hc⟩ :=
    map_eq_map_iff.1 (get_of_agree h hs ht ho id)
  · refine .inl ⟨e, ?_, ?_⟩
    · rw [authorize, hs']
      rfl
    · rw [authorize, ht']
      rfl
  · have hcheck := Chain.eq_of_undated (·.check operation) (fun _ => rfl) hc
    rw [authorize, hs', authorize, ht']
    cases hok : c.check operation with
    | error e =>
      refine .inl ⟨e, ?_, ?_⟩
      · simp only [bind, Except.bind, hok]
      · simp only [bind, Except.bind, hcheck, hok]
    | ok =>
      refine .inr ⟨c, c', ?_, ?_, hc⟩
      · simp only [bind, Except.bind, hok]
        rfl
      · simp only [bind, Except.bind, hcheck, hok]
        rfl

/-- A definition of a chain that its owner has stored is replaced unless the call fails. -/
theorem store_of_stored (hcurrent : s.repository.get? c.id = some current)
    (howner : current.owner = c.owner) :
    s.store o c = (o.stored (.update c.id) (.ok ())).map fun _ =>
      { s with repository := s.repository.insert c.id c } := by
  have hupdate : s.repository.update c = .ok (s.repository.insert c.id c) :=
    Repository.update_eq_ok_iff.2 ⟨⟨current, hcurrent, howner⟩, rfl⟩
  rw [store, hupdate, Occasion.stored, Occasion.stored]
  split <;> rfl

/-- A new status of a stored chain is stored unless the call fails. -/
theorem store_restamped (hcurrent : s.repository.get? current.id = some current) (status : Status)
    (engine : Engine ω η) :
    store o (restamped o' status current) { s with engine } =
      (o.stored (.update current.id) (.ok ())).map fun _ =>
        { s with
          engine
          repository := s.repository.insert current.id (restamped o' status current) } :=
  store_of_stored hcurrent rfl

/-- What an update answers: once permitted it fails only if the chain cannot be stored. -/
theorem update_fst (h : s.Consistent k) :
    (s.update o token c).1 =
      s.authorizeUpdate o token c >>= fun p => o.stored (.update c.id) (.ok p.2) := by
  unfold update
  rcases hauthorize : s.authorizeUpdate o token c with e | ⟨current, c'⟩
  · rfl
  · obtain ⟨ha, rfl, -⟩ := authorizeUpdate_eq_ok_iff.1 hauthorize
    have hget := get?_of_authorize ha
    have hid : (changed o current c).id = c.id := h.keyed c.id current hget
    have hstored : s.repository.get? (changed o current c).id = some current := hid ▸ hget
    simp only [store_of_stored hstored rfl, hid, bind, Except.bind, Occasion.stored]
    cases o.fails (.update c.id) <;> rfl

/-- What a removal answers: once permitted it fails only if the repository does. -/
theorem revoke_fst (h : s.Consistent k) :
    (s.revoke o token id k).1 =
      s.authorize o .revoke token id >>= fun _ => o.stored (.revoke id) (.ok ()) := by
  unfold revoke
  cases ha : s.authorize o .revoke token id with
  | error e => rfl
  | ok current =>
    obtain ⟨rfl, hidle⟩ := h.idle_of_authorize (by simp) ha
    have hrevoke : s.repository.revoke current.owner current.id = .ok (s.repository.erase current.id) :=
      Repository.revoke_eq_ok_iff.2 ⟨⟨current, get?_of_authorize ha, rfl⟩, rfl⟩
    simp only [Engine.delete_of_idle hidle, erase, hrevoke, bind, Except.bind, Occasion.stored]
    cases o.fails (.revoke current.id) <;> rfl

/-- What a start answers: once permitted it fails if the chain does not start or its status cannot be stored.
-/
theorem start_fst (h : s.Consistent k) :
    (s.start o token id k).1 =
      s.authorize o .start token id >>= fun c =>
        (s.engine.start k c).1 >>= fun _ => o.stored (.update id) (.ok ()) := by
  unfold start
  cases ha : s.authorize o .start token id with
  | error e => rfl
  | ok current =>
    have hget := get?_of_authorize ha
    obtain rfl := h.keyed id current hget
    simp only [bind, Except.bind]
    rcases s.engine.start k current with ⟨e | ⟨⟩, engine⟩
    · rfl
    · simp only [store_restamped hget, Occasion.stored]
      cases o.fails (.update current.id) <;> rfl

/-- What a stop answers: once permitted it fails only if the status cannot be stored. -/
theorem stop_fst (h : s.Consistent k) :
    (s.stop o token id k).1 =
      s.authorize o .stop token id >>= fun _ => o.stored (.update id) (.ok ()) := by
  unfold stop
  cases ha : s.authorize o .stop token id with
  | error e => rfl
  | ok current =>
    have hget := get?_of_authorize ha
    obtain rfl := h.keyed id current hget
    simp only [bind, Except.bind]
    rcases s.engine.stop k current.id with ⟨r, engine⟩
    simp only [store_restamped hget, Occasion.stored]
    cases o.fails (.update current.id) <;> rfl

/-- But for the times, what an update stores does not depend on when it happens. -/
theorem changed_undated (o o' : Occasion) (hcurrent : current'.undated = current.undated) (c : Chain) :
    (changed o' current' c).undated = (changed o current c).undated :=
  Chain.eq_of_undated (fun current => (changed o current c).undated) (fun _ => rfl) hcurrent

/-- But for the times, what a new status stores does not depend on when it happens. -/
theorem restamped_undated (o o' : Occasion) (hcurrent : current'.undated = current.undated)
    (status : Status) : (restamped o' status current').undated = (restamped o status current).undated :=
  Chain.eq_of_undated (fun current => (restamped o status current).undated) (fun _ => rfl) hcurrent

/-- Services that agree answer an update alike, times aside. -/
theorem update_of_agree (hs : s.Consistent k) (ht : t.Consistent k) (h : Agree k owner s t)
    (hsowner : s.identify token = .ok owner) (htowner : t.identify token = .ok owner)
    (ho : o'.fails = o.fails) (c : Chain) :
    (t.update o' token c).1.map Chain.undated = (s.update o token c).1.map Chain.undated := by
  rw [update_fst ht, update_fst hs, authorizeUpdate, authorizeUpdate]
  obtain ⟨e, ha, ha'⟩ | ⟨current, current', ha, ha', hcurrent⟩ :=
    authorize_of_agree h hsowner htowner ho .update c.id
  · rw [ha, ha']
    rfl
  · have hchanged := changed_undated o o' hcurrent c
    have hvalidate := Chain.eq_of_undated Chain.validate (fun _ => rfl) hchanged
    rw [ha, ha']
    simp only [bind, Except.bind, hvalidate]
    cases (changed o current c).validate with
    | error e => rfl
    | ok =>
      change (o'.stored (.update c.id) (.ok (changed o' current' c))).map Chain.undated =
        (o.stored (.update c.id) (.ok (changed o current c))).map Chain.undated
      rw [map_stored, map_stored, stored_of_fails ho, Except.map, Except.map, hchanged]

theorem revoke_of_agree (hs : s.Consistent k) (ht : t.Consistent k) (h : Agree k owner s t)
    (hsowner : s.identify token = .ok owner) (htowner : t.identify token = .ok owner)
    (ho : o'.fails = o.fails) (id : String) :
    (t.revoke o' token id k).1 = (s.revoke o token id k).1 := by
  rw [revoke_fst ht, revoke_fst hs, stored_of_fails ho]
  obtain ⟨e, ha, ha'⟩ | ⟨c, c', ha, ha', -⟩ := authorize_of_agree h hsowner htowner ho .revoke id
  · rw [ha, ha']
  · rw [ha, ha']
    rfl

/-- Services that agree answer a start alike, if making handlers does not depend on the surroundings. -/
theorem start_of_agree (hk : k.Uniform) (hs : s.Consistent k) (ht : t.Consistent k)
    (h : Agree k owner s t) (hsowner : s.identify token = .ok owner)
    (htowner : t.identify token = .ok owner) (ho : o'.fails = o.fails) (id : String) :
    (t.start o' token id k).1 = (s.start o token id k).1 := by
  rw [start_fst ht, start_fst hs, stored_of_fails ho]
  obtain ⟨e, ha, ha'⟩ | ⟨c, c', ha, ha', hc⟩ := authorize_of_agree h hsowner htowner ho .start id
  · rw [ha, ha']
    rfl
  · obtain ⟨hid, hidle⟩ := hs.idle_of_authorize (by simp) ha
    obtain ⟨hid', hidle'⟩ := ht.idle_of_authorize (by simp) ha'
    have hstart : (t.engine.start k c').1 = (s.engine.start k c).1 :=
      Engine.start_fst_of_undated hk (hid ▸ hidle) (hid' ▸ hidle') hc
    rw [ha, ha']
    simp only [bind, Except.bind, hstart]

theorem stop_of_agree (hs : s.Consistent k) (ht : t.Consistent k) (h : Agree k owner s t)
    (hsowner : s.identify token = .ok owner) (htowner : t.identify token = .ok owner)
    (ho : o'.fails = o.fails) (id : String) :
    (t.stop o' token id k).1 = (s.stop o token id k).1 := by
  rw [stop_fst ht, stop_fst hs, stored_of_fails ho]
  obtain ⟨e, ha, ha'⟩ | ⟨c, c', ha, ha', -⟩ := authorize_of_agree h hsowner htowner ho .stop id
  · rw [ha, ha']
  · rw [ha, ha']
    rfl

/-! ## What is stored and runs afterwards -/

theorem owner_of_authorize {operation : Operation} (hs : s.identify token = .ok owner)
    (ha : s.authorize o operation token id = .ok c) : c.owner = owner :=
  Except.ok.inj ((get_eq_ok_iff.1 (authorize_eq_ok_iff.1 ha).1).1.symm.trans hs)

/-- What is stored under an id in services that agree is the same chain, times aside. -/
theorem Agree.undated_eq {c' : Chain} (h : Agree k owner s t) (howner : c.owner = owner)
    (hc : s.repository.get? id = some c) (hc' : t.repository.get? id = some c') :
    c'.undated = c.undated := by
  obtain ⟨c'', hc'', hundated⟩ := Repository.exists_of_view h.stored hc howner
  obtain rfl := Option.some.inj (hc'.symm.trans hc'')
  exact hundated

/-- If a chain of the owner is stored anew in both services, with the same content, and runs in both or in none
afterwards, while nothing else changes, then services that agreed agree. -/
theorem Agree.insert {operation : Operation} {engine engine' : Engine ω η} {cache cache' : NameCache}
    {c c' : Chain} (hsc : s.Consistent k) (htc : t.Consistent k) (h : Agree k owner s t)
    (hs : s.identify token = .ok owner) (ha : s.authorize o operation token id = .ok current)
    (ha' : t.authorize o' operation token id = .ok current')
    (hs' : Consistent k { s with engine, cache, repository := s.repository.insert current.id c })
    (ht' : Consistent k
      { t with engine := engine', cache := cache', repository := t.repository.insert current'.id c' })
    (hc : c.owner = current.owner)
    (hundated : current'.undated = current.undated → c'.undated = c.undated)
    (hidle : (t.engine.instances.get? current'.id = none ↔ s.engine.instances.get? current.id = none) →
      (engine'.instances.get? current'.id = none ↔ engine.instances.get? current.id = none))
    (hsother : ∀ id' ≠ current.id, engine.instances.get? id' = s.engine.instances.get? id')
    (htother : ∀ id' ≠ current'.id, engine'.instances.get? id' = t.engine.instances.get? id') :
    Agree k owner { s with engine, cache, repository := s.repository.insert current.id c }
      { t with engine := engine', cache := cache', repository := t.repository.insert current'.id c' } := by
  have hget := get?_of_authorize ha
  have hget' := get?_of_authorize ha'
  have howner := owner_of_authorize hs ha
  have hsame := hundated (h.undated_eq howner hget hget')
  have howner' := Chain.eq_of_undated (·.owner) (fun _ => rfl) hsame
  obtain rfl := hsc.keyed id current hget
  have hid := htc.keyed current.id current' hget'
  rw [hid] at hidle htother
  refine .of_consistent hs' ht' h.settings ?_ fun id d hd hdowner => ?_
  · rw [Repository.view_insert (howner'.trans (hc.trans howner)), h.stored, hid,
      Repository.view_insert (hc.trans howner), hsame]
  · rw [Table.get?_insert] at hd
    split at hd
    case isTrue hcurrent =>
      rw [hcurrent]
      exact hidle (h.idle_iff hget howner)
    case isFalse hne => rw [htother id hne, hsother id hne, h.idle_iff hd hdowner]

/-- Updates that succeed in both services keep them in agreement. -/
theorem Updates.agree {d d' : Chain} (hsc : s.Consistent k) (htc : t.Consistent k)
    (h : Agree k owner s t) (hs : s.identify token = .ok owner) (hsupdates : Updates o token c s (.ok d) s')
    (htupdates : Updates o' token c t (.ok d') t') : Agree k owner s' t' := by
  have hs' := hsupdates.consistent hsc
  have ht' := htupdates.consistent htc
  cases hsupdates with
  | updated ha =>
    cases htupdates with
    | updated ha' =>
      exact .insert hsc htc h hs ha ha' hs' ht' rfl (changed_undated o o' · c) (fun hidle => hidle)
        (fun _ _ => rfl) fun _ _ => rfl

/-- Removals that succeed in both services keep them in agreement. -/
theorem Revokes.agree (hsc : s.Consistent k) (htc : t.Consistent k) (h : Agree k owner s t)
    (hsrevokes : Revokes k o token id s (.ok ()) s') (htrevokes : Revokes k o' token id t (.ok ()) t') :
    Agree k owner s' t' := by
  have hs' := hsrevokes.consistent hsc
  have ht' := htrevokes.consistent htc
  cases hsrevokes with
  | revoked ha =>
    cases htrevokes with
    | revoked ha' =>
      obtain ⟨hid, hidle⟩ := hsc.idle_of_authorize (by simp) ha
      obtain ⟨hid', hidle'⟩ := htc.idle_of_authorize (by simp) ha'
      rw [hid, Engine.delete_of_idle hidle] at hs' ⊢
      rw [hid', Engine.delete_of_idle hidle'] at ht' ⊢
      refine .of_consistent hs' ht' h.settings ?_ fun id' d hd hdowner => ?_
      · exact (Repository.view_erase ..).trans (h.stored ▸ (Repository.view_erase ..).symm)
      · rw [Table.get?_erase] at hd
        split at hd
        · simp at hd
        · exact h.idle_iff hd hdowner

/-- Starts that succeed in both services keep them in agreement. -/
theorem Starts.agree (hsc : s.Consistent k) (htc : t.Consistent k) (h : Agree k owner s t)
    (hs : s.identify token = .ok owner) (hsstarts : Starts k o token id s (.ok ()) s')
    (htstarts : Starts k o' token id t (.ok ()) t') : Agree k owner s' t' := by
  have hs' := hsstarts.consistent hsc
  have ht' := htstarts.consistent htc
  cases hsstarts with
  | started ha hok =>
    cases htstarts with
    | started ha' hok' =>
      obtain ⟨i, hi⟩ := Engine.exists_get?_start hok
      obtain ⟨i', hi'⟩ := Engine.exists_get?_start hok'
      exact .insert hsc htc h hs ha ha' hs' ht' rfl (restamped_undated o o' · .started)
        (fun _ => by simp [hi, hi']) (fun _ => Engine.get?_start_of_ne) fun _ => Engine.get?_start_of_ne

/-- Stops that succeed in both services keep them in agreement. -/
theorem Stops.agree (hsc : s.Consistent k) (htc : t.Consistent k) (h : Agree k owner s t)
    (hs : s.identify token = .ok owner) (hsstops : Stops k o token id s (.ok ()) s')
    (htstops : Stops k o' token id t (.ok ()) t') : Agree k owner s' t' := by
  have hs' := hsstops.consistent hsc
  have ht' := htstops.consistent htc
  cases hsstops with
  | stopped ha =>
    cases htstops with
    | stopped ha' =>
      exact .insert hsc htc h hs ha ha' hs' ht' rfl (restamped_undated o o' · .stopped)
        (fun _ => by simp [Engine.get?_stop_self]) (fun _ => Engine.get?_stop_of_ne)
        fun _ => Engine.get?_stop_of_ne

end Service

end RuleFlow
