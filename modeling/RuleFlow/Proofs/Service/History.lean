import RuleFlow.Proofs.Service.Rollback

/-!
# What becomes of a stored chain

`Service.Changes` lists what one request may do to what is stored under an id, each case with the status that
allows it and with the answer that goes with it: a chain is added as created, started and stopped along the
status table, rewritten and removed while it is created or stopped. Whatever callers write into the chains they
pass, no other status, owner or time of creation gets into the store (`Service.Keyed.orderly`).

`Service.performAll` is a run of requests. From the addition of a chain on, until it is removed, its id, its
owner and its time of creation stay (`Service.Keyed.exists_get?_performAll`). Both hold of every run from an
empty store (`Service.orderly_of_empty`).
-/

namespace RuleFlow

namespace Service

variable {ω η : Type} {k : Catalogue ω η} {o : Occasion} {token id : String} {c : Chain}
  {s s' : Service ω η}

/-! ## One request -/

/-- What a request may do to what is stored under an id, by its answer. -/
inductive Changes (k : Catalogue ω η) (s : Service ω η) (o : Occasion) (id : String) :
    Request → Answer → Option Chain → Option Chain → Prop
  | kept {request : Request} {answer : Answer} (stored : Option Chain) :
    Changes k s o id request answer stored stored
  | added {token : String} {c c' : Chain} : s.identify token = .ok c'.owner → c'.id = id →
    c'.status = .created → c'.createdAt = o.now →
    Changes k s o id (.add token c) (.chain (.ok c')) none (some c')
  | updated {token : String} {c before c' : Chain} : c.id = id →
    before.status = .created ∨ before.status = .stopped →
    c'.id = before.id → c'.owner = before.owner → c'.status = before.status →
    c'.createdAt = before.createdAt →
    Changes k s o id (.update token c) (.chain (.ok c')) (some before) (some c')
  | revoked {token : String} {before : Chain} : before.status = .created ∨ before.status = .stopped →
    Changes k s o id (.revoke token id) (.done (.ok ())) (some before) none
  | started {token : String} {before : Chain} : before.status = .created ∨ before.status = .stopped →
    Changes k s o id (.start token id) (.done (.ok ())) (some before)
      (some { before with status := .started, updatedAt := o.now })
  | stopped {token : String} {before : Chain} : before.status = .started →
    Changes k s o id (.stop token id) (.done (.ok ())) (some before)
      (some { before with status := .stopped, updatedAt := o.now })
  | abandoned {n : Nat} {before : Chain} {es : List RuleError} {w w' : ω} : before.status = .started →
    Graph.compile k before.payload w = (.error es, w') →
    Changes k s o id .restore (.count (.ok n)) (some before)
      (some { before with status := .stopped, updatedAt := o.later id })

/-- Definitions are stored under their ids. -/
def Keyed (s : Service ω η) : Prop := ∀ id c, s.repository.get? id = some c → c.id = id

theorem Keyed.id_of_authorize {operation : Operation} {current : Chain} (h : s.Keyed)
    (ha : s.authorize o operation token id = .ok current) : current.id = id :=
  h id current (get?_of_authorize ha)

/-- A chain that may be changed, removed or started is created or stopped. -/
theorem status_of_authorize {operation : Operation} {current : Chain} (hne : operation ≠ .stop)
    (ha : s.authorize o operation token id = .ok current) :
    current.status = .created ∨ current.status = .stopped := by
  have hpermits := (authorize_eq_ok_iff.1 ha).2
  cases hstatus : current.status <;> cases operation <;> simp_all [Status.permits]

/-- An addition stores a created chain of the caller where none was, or changes nothing. -/
theorem Adds.changes {r : Result Chain} (hadds : Adds o token c s r s') (id : String) :
    Changes k s o id (.add token c) (.chain r) (s.repository.get? id) (s'.repository.get? id) := by
  cases hadds with
  | refused e => exact .kept _
  | @added owner howner hvalidate hnone =>
    rw [Table.get?_insert]
    split
    case isTrue hid =>
      rw [hid, hnone]
      exact .added howner rfl rfl rfl
    case isFalse => exact .kept _

/-- An update keeps owner, status and time of creation, or changes nothing. -/
theorem Updates.changes {r : Result Chain} (h : s.Keyed) (hupdates : Updates o token c s r s')
    (id : String) :
    Changes k s o id (.update token c) (.chain r) (s.repository.get? id) (s'.repository.get? id) := by
  cases hupdates with
  | refused e => exact .kept _
  | @updated current ha hvalidate =>
    have hid := h.id_of_authorize ha
    rw [Table.get?_insert, hid]
    split
    case isTrue heq =>
      rw [heq, get?_of_authorize ha]
      exact .updated rfl (status_of_authorize (by simp) ha) rfl rfl rfl rfl
    case isFalse => exact .kept _

/-- A removal takes away a chain that does not run, or changes nothing. -/
theorem Revokes.changes {r : Result Unit} {id' : String} (hrevokes : Revokes k o token id' s r s')
    (id : String) :
    Changes k s o id (.revoke token id') (.done r) (s.repository.get? id) (s'.repository.get? id) := by
  cases hrevokes with
  | refused e => exact .kept _
  | kept e ha => exact .kept _
  | revoked ha =>
    rw [Table.get?_erase]
    split
    case isTrue heq =>
      rw [heq, get?_of_authorize ha]
      exact .revoked (status_of_authorize (by simp) ha)
    case isFalse => exact .kept _

/-- A start makes a created or stopped chain started, or changes nothing. -/
theorem Starts.changes {r : Result Unit} {id' : String} (h : s.Keyed)
    (hstarts : Starts k o token id' s r s') (id : String) :
    Changes k s o id (.start token id') (.done r) (s.repository.get? id) (s'.repository.get? id) := by
  cases hstarts with
  | refused e => exact .kept _
  | failed ha herror => exact .kept _
  | undone e ha hok => exact .kept _
  | started ha hok =>
    rw [Table.get?_insert, h.id_of_authorize ha]
    split
    case isTrue heq =>
      rw [heq, get?_of_authorize ha]
      exact .started (status_of_authorize (by simp) ha)
    case isFalse => exact .kept _

/-- A stop makes a started chain stopped, or changes nothing. -/
theorem Stops.changes {r : Result Unit} {id' : String} (h : s.Keyed)
    (hstops : Stops k o token id' s r s') (id : String) :
    Changes k s o id (.stop token id') (.done r) (s.repository.get? id) (s'.repository.get? id) := by
  cases hstops with
  | refused e => exact .kept _
  | undone e ha hok => exact .kept _
  | idle e ha herror => exact .kept _
  | stopped ha =>
    rw [Table.get?_insert, h.id_of_authorize ha]
    split
    case isTrue heq =>
      rw [heq, get?_of_authorize ha]
      exact .stopped (Chain.status_eq_of_permits_stop (authorize_eq_ok_iff.1 ha).2)
    case isFalse => exact .kept _

/-- A restoration takes each chain once, so what it finds stored as started it has not yet changed. -/
theorem changes_restore (h : s.Keyed) (id : String) :
    Changes k s o id .restore (.count (s.restore o k).1) (s.repository.get? id)
      ((s.restore o k).2.repository.get? id) := by
  cases hr : (s.restore o k).1 with
  | error e =>
    rw [restore_of_error hr]
    exact .kept _
  | ok n =>
    refine restore_induct (P := fun s' => Changes k s o id .restore (.count (.ok n))
      (s.repository.get? id) (s'.repository.get? id)) (.kept _) h ?_
    intro s₁ c b s₂ hchanges hc hstarted hrestores
    by_cases hid : id = c.id
    · subst hid
      rw [hc] at hchanges
      cases hrestores with
      | runs hok => rwa [hc]
      | kept herror => rwa [hc]
      | stopped herror =>
        obtain ⟨-, -, es, w, hcompile⟩ := Engine.instances_start_of_error herror
        rw [Table.get?_insert_self]
        generalize s.repository.get? c.id = before at hchanges ⊢
        generalize hnow : some c = now at hchanges
        cases hchanges with
        | kept =>
          subst hnow
          exact .abandoned hstarted hcompile
        | abandoned =>
          rw [Option.some.inj hnow] at hstarted
          simp at hstarted
    · rwa [hrestores.get?_of_ne hid]

/-- What is stored under an id changes only as `Changes` says, whatever is asked. -/
theorem Keyed.changes_perform (h : s.Keyed) (o : Occasion) (request : Request) (id : String) :
    Changes k s o id request (s.perform k o request).1 (s.repository.get? id)
      ((s.perform k o request).2.repository.get? id) := by
  cases request with
  | add token c => exact (adds_add o token c s).changes id
  | update token c => exact (updates_update o token c s).changes h id
  | revoke token id' => exact (revokes_revoke k o token id' s).changes id
  | start token id' => exact (starts_start k o token id' s).changes h id
  | stop token id' => exact (stops_stop k o token id' s).changes h id
  | restore => exact changes_restore h id
  | list token offset limit => exact .kept _
  | get token id' => exact .kept _
  | check token payload =>
    simp only [perform, repository_check]
    exact .kept _
  | deliver e =>
    simp only [perform, repository_deliver]
    exact .kept _
  | deliverFrom adaptor payload =>
    simp only [perform, repository_deliverFrom]
    exact .kept _

/-! ## Runs -/

section Changes

variable {request : Request} {answer : Answer} {before after : Option Chain}

theorem Changes.id_eq (h : Changes k s o id request answer before after)
    (hbefore : ∀ c, before = some c → c.id = id) (hc : after = some c) : c.id = id := by
  cases h with
  | kept => exact hbefore c hc
  | added howner hid hstatus hcreated => rwa [← Option.some.inj hc]
  | updated hid hstatus hsame howner hkept hcreated =>
    rw [← Option.some.inj hc, hsame]
    exact hbefore _ rfl
  | revoked hstatus => simp at hc
  | started _ | stopped _ | abandoned _ _ =>
    obtain rfl := Option.some.inj hc
    exact (hbefore _ rfl :)

/-- What is stored stays under its id, with its owner and its time of creation, unless it is removed. -/
theorem Changes.same_or_revoked (h : Changes k s o id request answer (some c) after) :
    (∃ c', after = some c' ∧ c'.id = c.id ∧ c'.owner = c.owner ∧ c'.createdAt = c.createdAt) ∨
      ∃ token, request = .revoke token id ∧ answer = .done (.ok ()) := by
  cases h with
  | kept => exact .inl ⟨c, rfl, rfl, rfl, rfl⟩
  | updated hid hstatus hsame howner hkept hcreated => exact .inl ⟨_, rfl, hsame, howner, hcreated⟩
  | revoked hstatus => exact .inr ⟨_, rfl, rfl⟩
  | started _ | stopped _ | abandoned _ _ => exact .inl ⟨_, rfl, rfl, rfl, rfl⟩

end Changes

theorem Keyed.perform (h : s.Keyed) (o : Occasion) (request : Request) :
    (s.perform k o request).2.Keyed := fun id _ hc =>
  (h.changes_perform o request id).id_eq (h id) hc

/-- What some requests leave, each on its occasion. -/
def performAll (k : Catalogue ω η) (requests : List (Occasion × Request)) (s : Service ω η) :
    Service ω η :=
  requests.foldl (fun s x => (s.perform k x.1 x.2).2) s

theorem performAll_append (requests requests' : List (Occasion × Request)) (s : Service ω η) :
    s.performAll k (requests ++ requests') = (s.performAll k requests).performAll k requests' :=
  List.foldl_append ..

/-- What holds at first and is kept by every request holds after all of them. -/
theorem performAll_induct {P : Service ω η → Prop} (h : P s)
    (hstep : ∀ s o request, P s → P (s.perform k o request).2)
    (requests : List (Occasion × Request)) : P (s.performAll k requests) := by
  induction requests generalizing s with
  | nil => exact h
  | cons x requests ih => exact ih (hstep s x.1 x.2 h)

theorem Keyed.performAll (h : s.Keyed) (requests : List (Occasion × Request)) :
    (s.performAll k requests).Keyed :=
  performAll_induct h (fun _ o request h => h.perform o request) requests

/-- No chain is removed under an id by some requests. -/
def Spares (k : Catalogue ω η) (id : String) (requests : List (Occasion × Request))
    (s : Service ω η) : Prop :=
  ∀ earlier o token later, requests = earlier ++ (o, .revoke token id) :: later →
    ((s.performAll k earlier).revoke o token id k).1 ≠ .ok ()

/-- A chain that is not removed stays with its owner and its time of creation. -/
theorem Keyed.exists_get?_performAll {requests : List (Occasion × Request)} (h : s.Keyed)
    (hc : s.repository.get? id = some c) (hspares : Spares k id requests s) :
    ∃ c', (s.performAll k requests).repository.get? id = some c' ∧ c'.id = c.id ∧
      c'.owner = c.owner ∧ c'.createdAt = c.createdAt := by
  induction requests generalizing s c with
  | nil => exact ⟨c, hc, rfl, rfl, rfl⟩
  | cons x requests ih =>
    obtain ⟨o, request⟩ := x
    have hchanges := h.changes_perform (k := k) o request id
    rw [hc] at hchanges
    obtain ⟨c₁, hc₁, hid, howner, hcreated⟩ | ⟨token, rfl, hanswer⟩ := hchanges.same_or_revoked
    · have hrest : Spares k id requests (s.perform k o request).2 := by
        rintro earlier o' token later rfl
        exact hspares ((o, request) :: earlier) o' token later rfl
      obtain ⟨c', hc', hid', howner', hcreated'⟩ := ih (h.perform o request) hc₁ hrest
      exact ⟨c', hc', hid'.trans hid, howner'.trans howner, hcreated'.trans hcreated⟩
    · exact absurd (Answer.done.inj hanswer) (hspares [] o token requests rfl)

/-- How one request bears on what is stored. -/
structure Orderly (k : Catalogue ω η) (s : Service ω η) : Prop where
  changes : ∀ o request id, Changes k s o id request (s.perform k o request).1
    (s.repository.get? id) ((s.perform k o request).2.repository.get? id)
  added : ∀ o token c c', (s.add o token c).1 = .ok c' →
    s.repository.get? c'.id = none ∧ (s.add o token c).2.repository.get? c'.id = some c' ∧
      c'.status = .created ∧ s.identify token = .ok c'.owner
  updated : ∀ o token c c', (s.update o token c).1 = .ok c' → ∃ before,
    s.repository.get? c.id = some before ∧ (before.status = .created ∨ before.status = .stopped)
  revoked : ∀ o token id, (s.revoke o token id k).1 = .ok () → ∃ before,
    s.repository.get? id = some before ∧ (before.status = .created ∨ before.status = .stopped)

/-- An addition that succeeds found the id free and has stored the chain as created. -/
theorem Adds.of_ok {c' : Chain} (hadds : Adds o token c s (.ok c') s') :
    s.repository.get? c'.id = none ∧ s'.repository.get? c'.id = some c' ∧ c'.status = .created ∧
      s.identify token = .ok c'.owner := by
  cases hadds with
  | added howner hvalidate hnone => exact ⟨hnone, Table.get?_insert_self .., rfl, howner⟩

/-- An update that succeeds found a chain that may be changed. -/
theorem Updates.of_ok {c' : Chain} (hupdates : Updates o token c s (.ok c') s') :
    ∃ before, s.repository.get? c.id = some before ∧
      (before.status = .created ∨ before.status = .stopped) := by
  cases hupdates with
  | updated ha hvalidate => exact ⟨_, get?_of_authorize ha, status_of_authorize (by simp) ha⟩

/-- A removal that succeeds found a chain that may be removed. -/
theorem Revokes.of_ok (hrevokes : Revokes k o token id s (.ok ()) s') :
    ∃ before, s.repository.get? id = some before ∧
      (before.status = .created ∨ before.status = .stopped) := by
  cases hrevokes with
  | revoked ha => exact ⟨_, get?_of_authorize ha, status_of_authorize (by simp) ha⟩

/-- Where chains are stored under their ids, every next request is as `Orderly` says. -/
theorem Keyed.orderly (h : s.Keyed) : s.Orderly k where
  changes o request id := h.changes_perform o request id
  added o token c _ hok := (hok ▸ adds_add o token c s).of_ok
  updated o token c _ hok := (hok ▸ updates_update o token c s).of_ok
  revoked o token id hok := (hok ▸ revokes_revoke k o token id s).of_ok

theorem keyed_of_empty (h : s.repository = .empty) : s.Keyed := by
  intro id c hc
  simp [h] at hc

/-- In every run from an empty store each request changes what is stored as the status table says, and a chain
that was added and not removed is stored under its id, with the caller who added it as its owner and with its
time of creation. -/
theorem orderly_of_empty (hempty : s.repository = .empty) (requests : List (Occasion × Request)) :
    (s.performAll k requests).Orderly k ∧
    ∀ earlier o token c c' later, requests = earlier ++ (o, .add token c) :: later →
      ((s.performAll k earlier).add o token c).1 = .ok c' →
      Spares k c'.id later ((s.performAll k earlier).add o token c).2 →
      ∃ c'', (s.performAll k requests).repository.get? c'.id = some c'' ∧ c''.id = c'.id ∧
        (s.performAll k earlier).identify token = .ok c''.owner ∧ c''.createdAt = c'.createdAt := by
  have hkeyed := keyed_of_empty hempty
  refine ⟨(hkeyed.performAll requests).orderly, ?_⟩
  rintro earlier o token c c' later rfl hok hspares
  have hearlier : (s.performAll k earlier).Keyed := hkeyed.performAll earlier
  obtain ⟨-, hstored, -, howner⟩ := (hearlier.orderly (k := k)).added o token c c' hok
  obtain ⟨c'', hc'', hid, howner', hcreated⟩ :=
    (hearlier.perform (k := k) o (.add token c)).exists_get?_performAll hstored hspares
  rw [performAll_append]
  exact ⟨c'', hc'', hid, howner' ▸ howner, hcreated⟩

/-- A service of one caller that stores nothing. -/
def vacant : Service Unit Unit :=
  opened {} (Table.ofList [("token", "owner")]) [] .empty
    { journey := ⟨(), [], []⟩, failures := { capacity := 1 } }

/-- A chain that claims to be started already and to be another caller's. -/
def presumed : Chain :=
  { id := "pair", owner := "other", status := .started, payload := GraphPayload.pair.text, createdAt := 7 }

/-- The chain is started, stopped and changed. -/
def pairHistory : List (Occasion × Request) :=
  [(calm, .start "token" "pair"), (calm, .stop "token" "pair"), (calm, .update "token" presumed)]

theorem orderly_of_empty_pair :
    vacant.repository = .empty ∧
      (vacant.performAll .relay ((calm, .add "token" presumed) :: pairHistory)).Orderly .relay ∧
      ∃ c, (vacant.performAll .relay ((calm, .add "token" presumed) :: pairHistory)).repository.get?
        "pair" = some c ∧ c.owner = "owner" ∧ c.createdAt = 0 := by
  have hempty : vacant.repository = .empty := rfl
  have hadd : (vacant.add calm "token" presumed).1 = .ok (newChain calm "owner" presumed) := by
    decide +kernel
  have hspares : Spares .relay "pair" pairHistory (vacant.add calm "token" presumed).2 := by
    intro earlier o token later h
    have hmem : (o, Request.revoke token "pair") ∈ pairHistory := by simp [h]
    simp [pairHistory] at hmem
  obtain ⟨horderly, hstays⟩ := orderly_of_empty (k := .relay) hempty
    ((calm, .add "token" presumed) :: pairHistory)
  obtain ⟨c, hc, -, howner, hcreated⟩ := hstays [] calm "token" presumed _ pairHistory rfl hadd hspares
  have hidentify : vacant.identify "token" = .ok "owner" := by decide +kernel
  exact ⟨hempty, horderly, c, hc, (Except.ok.inj (hidentify.symm.trans howner)).symm, hcreated⟩

end Service

end RuleFlow
