import RuleFlow.Proofs.Service.Consistent

/-!
# Restoring while others work

A restoration lists the chains that are stored as started and then takes them one after the other, each under
the lock of its chain. Operations on one chain wait for one another, so what happens meanwhile is a sequence
of turns: the restoration takes its next chain, or a caller has an operation done. `Restoring` is a service
with what is left of the listing.

The restoration goes by its listing and does not look at what is stored by then. As long as every listed chain
is stored as it was listed when its turn comes, or runs already, the running chains stay the ones stored as
started and nothing that callers write is lost (`Restoring.stored_of_timely`). A chain that was stopped in
the meantime is started all the same (`Service.not_consistent_restoreOne`), and one that does not compile is
stored as it was listed, whatever was written since (`Service.content_restoreOne_of_error`); both are seen in
`Restoring.stale_pair`.
-/

namespace RuleFlow

variable {ω η : Type}

/-- What a caller writes of a chain: all but its status and its times. -/
def Chain.content (c : Chain) : Chain := { c with status := .unknown, createdAt := 0, updatedAt := 0 }

/-- What is written of a chain. -/
def Service.content (s : Service ω η) (id : String) : Option Chain :=
  (s.repository.get? id).map (·.content)

/-- Whether a request is to change or remove a chain. -/
def Service.Request.rewrites (id : String) : Service.Request → Prop
  | .update _ c => c.id = id
  | .revoke _ id' => id' = id
  | _ => False

/-- A service, and the chains that a restoration has listed and not yet taken. -/
structure Restoring (ω η : Type) where
  service : Service ω η
  waiting : List Chain

namespace Restoring

open Service (Request)

/-- What happens next. -/
inductive Turn where
  /-- The restoration takes the next chain. -/
  | next (o : Occasion)
  /-- A caller has something done. -/
  | call (o : Occasion) (request : Request)

/-- A restoration that has listed the chains and taken none. -/
def listed (s : Service ω η) : Restoring ω η := ⟨s, s.repository.withStatus .started⟩

/-- What a turn leaves. -/
def turn (k : Catalogue ω η) (r : Restoring ω η) : Turn → Restoring ω η
  | .next o =>
    match r.waiting with
    | [] => r
    | c :: cs => ⟨(r.service.restoreOne o k c).2, cs⟩
  | .call o request => ⟨(r.service.perform k o request).2, r.waiting⟩

/-- What some turns leave. -/
def turns (k : Catalogue ω η) (ts : List Turn) (r : Restoring ω η) : Restoring ω η :=
  ts.foldl (turn k) r

/-- A listed chain is stored as it was listed, or it runs. -/
def Current (s : Service ω η) (c : Chain) : Prop :=
  s.repository.get? c.id = some c ∨ s.engine.instances.isRunning c.id = true

/-- Every chain that is taken in some turns is current then. -/
def Timely (k : Catalogue ω η) : List Turn → Restoring ω η → Prop
  | [], _ => True
  | .next o :: ts, r => (∀ c ∈ r.waiting.head?, Current r.service c) ∧ Timely k ts (r.turn k (.next o))
  | t :: ts, r => Timely k ts (r.turn k t)

/-- Turns without calls in between restore the listed chains one after the other. -/
theorem turns_replicate_next (k : Catalogue ω η) (o : Occasion) (s : Service ω η) (cs : List Chain) :
    turns k (List.replicate cs.length (.next o)) ⟨s, cs⟩ = ⟨(s.restoreAll o k cs).2, []⟩ := by
  induction cs generalizing s with
  | nil => rfl
  | cons c cs ih => exact ih (s.restoreOne o k c).2

/-- A restoration that nobody disturbs is `Service.restore`. -/
theorem exists_turns_eq_restore (k : Catalogue ω η) {o : Occasion} (s : Service ω η)
    (hlists : o.fails .withStatus = false) :
    ∃ n, (listed s).turns k (List.replicate n (.next o)) = ⟨(s.restore o k).2, []⟩ := by
  refine ⟨(s.repository.withStatus .started).length, ?_⟩
  rw [listed, turns_replicate_next, Service.restore_of_listed k hlists]

end Restoring

namespace Service

variable {k : Catalogue ω η} {o : Occasion} {token id : String} {c current d : Chain}
  {s s' : Service ω η}

/-! ## One listed chain -/

/-- A chain that runs is left as it is. -/
theorem Restores.of_running {b : Bool} {i : Instance η} (hi : s.engine.instances.get? c.id = some i)
    (hrestores : Restores k o c s b s') :
    s'.engine.instances = s.engine.instances ∧ s'.repository = s.repository := by
  cases hrestores with
  | runs hok =>
    obtain ⟨-, -, hsame⟩ | ⟨-, hidle, -⟩ := Engine.instances_start_of_ok hok
    · exact ⟨hsame, rfl⟩
    · simp [hi] at hidle
  | kept herror =>
    obtain ⟨hidle, -⟩ := Engine.instances_start_of_error herror
    simp [hi] at hidle
  | stopped herror =>
    obtain ⟨hidle, -⟩ := Engine.instances_start_of_error herror
    simp [hi] at hidle

/-- Restoring a chain that is stored as it was listed changes its status and time only. -/
theorem Restores.content_eq {b : Bool} (hc : s.repository.get? c.id = some c)
    (hrestores : Restores k o c s b s') (id : String) : s'.content id = s.content id := by
  cases hrestores with
  | runs hok => rfl
  | kept herror => rfl
  | stopped herror =>
    unfold Service.content
    rw [Table.get?_insert]
    split
    case isTrue hid =>
      rw [hid, hc]
      rfl
    case isFalse => rfl

/-- A chain that is current when its turn comes may be restored. -/
theorem Consistent.restoreOne (h : s.Consistent k) (hc : Restoring.Current s c)
    (hstarted : c.status = .started) :
    (s.restoreOne o k c).2.Consistent k ∧ ∀ id, (s.restoreOne o k c).2.content id = s.content id := by
  have hone := restores_restoreOne k o c s
  rcases hc with hc | hrunning
  · exact ⟨hone.consistent h hc hstarted, hone.content_eq hc⟩
  · obtain ⟨i, hi⟩ := Instances.isRunning_iff.1 hrunning
    obtain ⟨hinstances, hrepository⟩ := hone.of_running hi
    refine ⟨?_, fun id => ?_⟩
    · rw [Service.Consistent, hinstances, hrepository]
      exact h
    · rw [Service.content, hrepository, Service.content]

/-- A listed chain that can be started is, be it stored as started by then or not. -/
theorem not_consistent_restoreOne (hok : (s.engine.start k c).1 = .ok ())
    (hstored : ∀ c', s.repository.get? c.id = some c' → c'.status ≠ .started) :
    ¬(s.restoreOne o k c).2.Consistent k := by
  intro h
  have hone := restores_restoreOne k o c s
  generalize (s.restoreOne o k c).1 = b, (s.restoreOne o k c).2 = s' at h hone
  cases hone with
  | runs =>
    obtain ⟨i, hi⟩ := Engine.exists_get?_start hok
    obtain ⟨c', hc', hstarted, -⟩ := h.running c.id i hi
    exact hstored c' hc' hstarted
  | kept herror => simp [hok] at herror
  | stopped herror => simp [hok] at herror

/-- A listed chain that does not compile is stored as it was listed, whatever its owner wrote since. -/
theorem content_restoreOne_of_error {e : RuleError} (herror : (s.engine.start k c).1 = .error e)
    (hfails : o.fails (.update c.id) = false) (hc : s.repository.get? c.id = some current)
    (howner : current.owner = c.owner) :
    (s.restoreOne o k c).2.content c.id = some c.content := by
  have hstore : store o (restamped (o.reread c.id) .stopped c)
      { s with engine := (s.engine.start k c).2 } = .ok _ :=
    store_eq_ok_iff.2 ⟨hfails, ⟨current, hc, howner⟩, rfl⟩
  unfold Service.restoreOne
  rcases hstart : s.engine.start k c with ⟨e' | ⟨⟩, engine⟩
  · simp only [hstart] at hstore
    simp only [hstore, Except.toOption, Option.getD_some]
    exact congrArg (Option.map Chain.content) (Table.get?_insert_self ..)
  · simp [hstart] at herror

/-! ## What callers write stays -/

/-- Storing a chain anew with a new status keeps what is written. -/
theorem Consistent.content_restamped {operation : Operation} {status : Status} {engine : Engine ω η}
    {id' : String} (h : s.Consistent k) (ha : s.authorize o operation token id' = .ok current) (id : String) :
    Service.content
      { s with engine, repository := s.repository.insert current.id (restamped o status current) } id =
        s.content id := by
  have hget := get?_of_authorize ha
  obtain rfl := h.keyed id' current hget
  unfold Service.content
  rw [Table.get?_insert]
  split
  case isTrue hid =>
    rw [hid, hget]
    rfl
  case isFalse => rfl

/-- An addition leaves what was written of the stored chains. -/
theorem Adds.content_eq {r : Result Chain} (hadds : Adds o token c s r s')
    (hd : s.content id = some d) : s'.content id = some d := by
  cases hadds with
  | refused e => exact hd
  | @added owner howner hvalidate hnone =>
    have hne : id ≠ (newChain o owner c).id := by
      rintro rfl
      simp [Service.content, hnone] at hd
    rw [← hd, Service.content, Table.get?_insert, if_neg hne]
    rfl

/-- An update leaves what was written of the other chains. -/
theorem Updates.content_eq {r : Result Chain} (h : s.Consistent k) (hupdates : Updates o token c s r s')
    (hne : c.id ≠ id) : s'.content id = s.content id := by
  cases hupdates with
  | refused e => rfl
  | @updated current ha hvalidate =>
    have hid : current.id = c.id := h.keyed c.id current (get?_of_authorize ha)
    rw [Service.content, Table.get?_insert, hid, if_neg hne.symm]
    rfl

/-- What an update answers is stored. -/
theorem Updates.content_of_ok {c' : Chain} (h : s.Consistent k)
    (hupdates : Updates o token c s (.ok c') s') : s'.content c.id = some c'.content := by
  cases hupdates with
  | @updated current ha hvalidate =>
    have hid : current.id = c.id := h.keyed c.id current (get?_of_authorize ha)
    rw [Service.content, hid, Table.get?_insert_self]
    rfl

/-- A removal leaves what was written of the other chains. -/
theorem Revokes.content_eq {r : Result Unit} {id' : String} (hrevokes : Revokes k o token id' s r s')
    (hne : id' ≠ id) : s'.content id = s.content id := by
  cases hrevokes with
  | refused e => rfl
  | kept e ha => rfl
  | revoked ha =>
    rw [Service.content, Table.get?_erase, if_neg hne.symm]
    rfl

theorem Starts.content_eq {r : Result Unit} {id' : String} (h : s.Consistent k)
    (hstarts : Starts k o token id' s r s') (id : String) : s'.content id = s.content id := by
  cases hstarts with
  | refused e => rfl
  | failed ha herror => rfl
  | undone e ha hok => rfl
  | started ha hok => exact h.content_restamped ha id

theorem Stops.content_eq {r : Result Unit} {id' : String} (h : s.Consistent k)
    (hstops : Stops k o token id' s r s') (id : String) : s'.content id = s.content id := by
  cases hstops with
  | refused e => rfl
  | undone e ha hok => rfl
  | idle e ha herror => rfl
  | stopped ha => exact h.content_restamped ha id

/-- A restoration that nobody disturbs leaves what was written of all chains. -/
theorem content_restore (h : s.Consistent k) (id : String) :
    (s.restore o k).2.content id = s.content id :=
  restore_induct (P := fun s' => s'.content id = s.content id) rfl h.keyed
    fun _ _ _ _ hsame hc _ hrestores => (hrestores.content_eq hc id).trans hsame

/-- What is written of a chain stays unless a caller comes to change or remove it. -/
theorem Consistent.content_perform (h : s.Consistent k) (hd : s.content id = some d) {request : Request}
    (hkeeps : ¬request.rewrites id) : (s.perform k o request).2.content id = some d := by
  cases request with
  | add token c => exact (adds_add o token c s).content_eq hd
  | update token c => exact ((updates_update o token c s).content_eq h hkeeps).trans hd
  | revoke token id' => exact ((revokes_revoke k o token id' s).content_eq hkeeps).trans hd
  | start token id' => exact ((starts_start k o token id' s).content_eq h id).trans hd
  | stop token id' => exact ((stops_stop k o token id' s).content_eq h id).trans hd
  | restore => exact (content_restore h id).trans hd
  | list token offset limit => exact hd
  | get token id => exact hd
  | check token payload => simpa [Service.perform, Service.content] using hd
  | deliver e => simpa [Service.perform, Service.content] using hd
  | deliverFrom adaptor payload => simpa [Service.perform, Service.content] using hd

end Service

namespace Restoring

open Service (Request)

variable {k : Catalogue ω η} {r : Restoring ω η} {s : Service ω η} {t : Turn} {ts : List Turn}
  {id : String} {d : Chain}

/-! ## Runs -/

/-- The service is consistent, and what waits was stored as started when it was listed. -/
structure Sound (k : Catalogue ω η) (r : Restoring ω η) : Prop where
  consistent : r.service.Consistent k
  started : ∀ c ∈ r.waiting, c.status = .started

/-- Whether a turn is a caller's who changes or removes a chain. -/
def Turn.rewrites (id : String) : Turn → Prop
  | .next _ => False
  | .call _ request => request.rewrites id

/-- The beginning of a restoration is sound: the list has just been read. -/
theorem sound_listed (h : s.Consistent k) : (listed s).Sound k where
  consistent := h
  started _ hc := (Repository.mem_withStatus.1 hc).2

/-- Restoring a chain as it is stored at that moment keeps the restoration sound and what was written. -/
theorem Sound.next (h : r.Sound k) (hc : ∀ c ∈ r.waiting.head?, Current r.service c) (o : Occasion) :
    (r.turn k (.next o)).Sound k ∧
      ∀ id, (r.turn k (.next o)).service.content id = r.service.content id := by
  obtain ⟨s, waiting⟩ := r
  cases waiting with
  | nil => exact ⟨h, fun _ => rfl⟩
  | cons c cs =>
    obtain ⟨hconsistent, hcontent⟩ :=
      h.consistent.restoreOne (o := o) (hc c rfl) (h.started c List.mem_cons_self)
    exact ⟨⟨hconsistent, fun c' hc' => h.started c' (List.mem_cons_of_mem c hc')⟩, hcontent⟩

/-- A call between two turns keeps the restoration sound. -/
theorem Sound.call (h : r.Sound k) (o : Occasion) (request : Request) :
    (r.turn k (.call o request)).Sound k :=
  ⟨h.consistent.perform o request, h.started⟩

/-- A restoration stays sound as long as each chain is restored as it is stored by then. -/
theorem Sound.turns (h : r.Sound k) (ht : Timely k ts r) : (r.turns k ts).Sound k := by
  induction ts generalizing r with
  | nil => exact h
  | cons t ts ih =>
    cases t with
    | next o => exact ih (h.next ht.1 o).1 ht.2
    | call o request => exact ih (h.call o request) ht

/-- What was written last stays if no call writes something else. -/
theorem Sound.content_turns (h : r.Sound k) (ht : Timely k ts r) (hd : r.service.content id = some d)
    (hkeeps : ∀ t ∈ ts, ¬t.rewrites id) : (r.turns k ts).service.content id = some d := by
  induction ts generalizing r with
  | nil => exact hd
  | cons t ts ih =>
    have hrest := fun t' ht' => hkeeps t' (List.mem_cons_of_mem t ht')
    cases t with
    | next o =>
      obtain ⟨hsound, hcontent⟩ := h.next ht.1 o
      exact ih hsound ht.2 ((hcontent id).trans hd) hrest
    | call o request =>
      have hcall := h.consistent.content_perform (o := o) hd (hkeeps _ List.mem_cons_self)
      exact ih (h.call o request) ht hcall hrest

theorem turns_append (ts ts' : List Turn) (r : Restoring ω η) :
    r.turns k (ts ++ ts') = (r.turns k ts).turns k ts' := List.foldl_append ..

/-- A longer course is timely if its parts are, one after the other. -/
theorem timely_append {ts' : List Turn} :
    Timely k (ts ++ ts') r ↔ Timely k ts r ∧ Timely k ts' (r.turns k ts) := by
  induction ts generalizing r with
  | nil => exact ⟨fun h => ⟨trivial, h⟩, And.right⟩
  | cons t ts ih =>
    cases t with
    | next o => exact (and_congr_right fun _ => ih).trans and_assoc.symm
    | call o request => exact ih

/-- Whatever callers have done while a restoration is going on: if the chains it takes are current, what runs
is stored as started and was built from what is stored, and what an update has written stays until somebody
comes to change or remove the chain. -/
theorem stored_of_timely (h : s.Reachable k) (ht : Timely k ts (listed s)) :
    (∀ id i, ((listed s).turns k ts).service.engine.instances.get? id = some i →
      ∃ c, ((listed s).turns k ts).service.repository.get? id = some c ∧ c.status = .started ∧
        i.BuiltFrom k c) ∧
    ∀ ts₁ o token c c' ts₂, ts = ts₁ ++ .call o (.update token c) :: ts₂ →
      (((listed s).turns k ts₁).service.update o token c).1 = .ok c' →
      (∀ t ∈ ts₂, ¬t.rewrites c.id) →
      ((listed s).turns k ts).service.content c.id = some c'.content := by
  have hlisted := sound_listed h.consistent
  refine ⟨(hlisted.turns ht).consistent.running, ?_⟩
  rintro ts₁ o token c c' ts₂ rfl hok hkeeps
  obtain ⟨ht₁, ht₂⟩ := timely_append.1 ht
  have hsound := hlisted.turns ht₁
  have hupdated := hok ▸ Service.updates_update o token c ((listed s).turns k ts₁).service
  rw [turns_append]
  exact (hsound.call o _).content_turns ht₂ (hupdated.content_of_ok hsound.consistent) hkeeps

/-- A service with some stored chains of one caller, before they are restored. -/
def unrestored (chains : List Chain) : Service Unit Unit :=
  Service.opened {} (Table.ofList [("token", "owner")]) chains .empty
    { journey := ⟨(), [], []⟩, failures := { capacity := 1 } }

/-- A chain of two nodes that is stored as started. -/
def pairStored : Chain :=
  { id := "pair", name := "pair", owner := "owner", status := .started, payload := GraphPayload.pair.text }

/-- A chain that is stored and was never started. -/
def draft : Chain := { id := "draft", name := "draft", owner := "owner", status := .created }

/-- The draft as its owner wants it. -/
def revised : Chain := { draft with root := true }

/-- Before the next chain is restored, the owner of the draft changes it. -/
def revisedFirst : List Turn :=
  [.call Service.calm (.update "token" revised), .next Service.calm]

theorem stored_of_timely_draft :
    (unrestored [pairStored, draft]).Reachable .relay ∧
      Timely .relay revisedFirst (listed (unrestored [pairStored, draft])) ∧
      ((listed (unrestored [pairStored, draft])).turns .relay revisedFirst).service.content "draft" =
        some revised.content := by
  have hreachable : (unrestored [pairStored, draft]).Reachable .relay := .opened ..
  have htimely : Timely .relay revisedFirst (listed (unrestored [pairStored, draft])) := by
    have hwaiting : (listed (unrestored [pairStored, draft])).waiting.head? = some pairStored := by
      decide +kernel
    refine ⟨fun c hc => .inl ?_, trivial⟩
    obtain rfl := Option.some.inj (hwaiting.symm.trans hc)
    decide +kernel
  have hok : (((listed (unrestored [pairStored, draft])).turns .relay []).service.update Service.calm
      "token" revised).1 = .ok revised := by decide +kernel
  exact ⟨hreachable, htimely, (stored_of_timely hreachable htimely).2 [] Service.calm "token" revised
    revised [.next Service.calm] rfl hok (by simp [Turn.rewrites])⟩

/-- A chain that was listed, after some requests of its owner. -/
def interrupted (c : Chain) (requests : List Request) : Restoring Unit Unit :=
  (listed (unrestored [c])).turns .relay (requests.map (.call Service.calm))

/-- The same when its turn has come. -/
def resumed (c : Chain) (requests : List Request) : Service Unit Unit :=
  ((interrupted c requests).turn .relay (.next Service.calm)).service

/-- A chain of which no graph can be made. -/
def broken : Chain := { pairStored with payload := [] }

/-- A chain that its owner stops before its turn runs afterwards, though it is stored as stopped. One whose
definition its owner corrects before its turn is stored as it was. -/
theorem stale_pair :
    ((resumed pairStored [.stop "token" "pair"]).engine.instances.isRunning "pair" = true ∧
      ((resumed pairStored [.stop "token" "pair"]).repository.get? "pair").map (·.status) =
        some .stopped) ∧
    ((interrupted broken [.stop "token" "pair"]).service.update Service.calm "token" pairStored).1 =
      .ok { pairStored with status := .stopped } ∧
    (resumed broken [.stop "token" "pair", .update "token" pairStored]).content "pair" =
      some broken.content ∧
    broken.content ≠ pairStored.content := by
  decide +kernel

end Restoring

end RuleFlow
