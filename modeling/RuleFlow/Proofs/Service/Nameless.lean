import RuleFlow.Proofs.Service.Operations

/-!
# Names do not matter

The cache of names is written by the operations that add, change and remove chains, and no operation reads it.
So two services that differ in the names they remember answer alike and do alike, whatever calls of the cache
fail for the one or the other (`Service.step_withNames`). What can be seen of a run, step by step, is the
same with any cache (`Service.transcript_disturbed`): the answers, what is stored, what runs, which chains take
the data of which adaptor, and what the traversals have done.

Both runs meet the same clock and are given the same fresh ids.
-/

namespace RuleFlow

variable {ω η : Type}

/-- Whether a call is one of the cache. -/
def Call.isOfCache : Call → Bool
  | .cacheSave _ | .cacheId _ | .cacheRemove _ => true
  | .save _ | .update _ | .retrieve _ | .revoke _ | .list | .withStatus => false

/-- The occasion on which other calls of the cache fail. -/
def Occasion.disturbed (down : Call → Bool) (o : Occasion) : Occasion :=
  { o with fails := fun call => if call.isOfCache then down call else o.fails call }

namespace Service

variable {k : Catalogue ω η} {o : Occasion} {down : Call → Bool} {names : NameCache}
  {s : Service ω η}

/-- The service with other names. -/
def withNames (names : NameCache) (s : Service ω η) : Service ω η := { s with cache := names }

@[simp] theorem engine_withNames : (s.withNames names).engine = s.engine := rfl

theorem withNames_engine (engine : Engine ω η) :
    { s.withNames names with engine } = ({ s with engine } : Service ω η).withNames names := rfl

/-- The same answers, and services that differ in the names they remember, if in anything. -/
def SameButNames {α : Type} (x y : α × Service ω η) : Prop := ∃ names, y = (x.1, x.2.withNames names)

theorem SameButNames.map {α β : Type} {x y : α × Service ω η} (f : α → β) (h : SameButNames x y) :
    SameButNames (f x.1, x.2) (f y.1, y.2) := by
  obtain ⟨names, rfl⟩ := h
  exact ⟨names, rfl⟩

/-- A new repository, whatever names there are. -/
theorem map_withNames (r : Result Repository) :
    (r.map fun repository => { s.withNames names with repository }) =
      (r.map fun repository => { s with repository }).map (·.withNames names) := by
  cases r <;> rfl

theorem save_withNames (c : Chain) :
    (s.withNames names).save (o.disturbed down) c = (s.save o c).map (·.withNames names) :=
  map_withNames (o.stored (.save c.id) (s.repository.save c))

theorem store_withNames (c : Chain) :
    (s.withNames names).store (o.disturbed down) c = (s.store o c).map (·.withNames names) :=
  map_withNames (o.stored (.update c.id) (s.repository.update c))

theorem erase_withNames (owner id : String) :
    (s.withNames names).erase (o.disturbed down) owner id =
      (s.erase o owner id).map (·.withNames names) :=
  map_withNames (o.stored (.revoke id) (s.repository.revoke owner id))

theorem identify_withNames (token : String) : (s.withNames names).identify token = s.identify token := rfl

theorem restamped_disturbed : restamped (o.disturbed down) = restamped o := rfl

/-- The cache does not set the clock. -/
theorem reread_disturbed (id : String) :
    (o.disturbed down).reread id = (o.reread id).disturbed down := rfl

theorem toMessage_disturbed (e : Envelope) :
    e.toMessage (o.disturbed down).freshUuid (o.disturbed down).now = e.toMessage o.freshUuid o.now := rfl

theorem adaptorMessage_disturbed : adaptorMessage (o.disturbed down) = adaptorMessage o := rfl

/-- Whether a caller may do something does not depend on names. -/
theorem authorize_withNames (operation : Operation) (token id : String) :
    (s.withNames names).authorize (o.disturbed down) operation token id = s.authorize o operation token id :=
  rfl

/-- Whether a chain may be added does not depend on the names. -/
theorem authorizeNew_withNames (token : String) (c : Chain) :
    (s.withNames names).authorizeNew (o.disturbed down) token c = s.authorizeNew o token c := rfl

/-- Whether a chain may be changed does not depend on the names. -/
theorem authorizeUpdate_withNames (token : String) (c : Chain) :
    (s.withNames names).authorizeUpdate (o.disturbed down) token c = s.authorizeUpdate o token c := rfl

/-! ## Operations -/

/-- An addition answers and stores the same, whatever the cache holds and does. -/
theorem add_withNames (token : String) (c : Chain) :
    SameButNames (s.add o token c) ((s.withNames names).add (o.disturbed down) token c) := by
  unfold add
  rw [authorizeNew_withNames]
  cases s.authorizeNew o token c with
  | error e => exact ⟨names, rfl⟩
  | ok c' =>
    dsimp only
    rw [save_withNames]
    cases s.save o c' with
    | error e => exact ⟨names, rfl⟩
    | ok s' =>
      dsimp only [Except.map]
      rw [saveName_getD, saveName_getD]
      exact ⟨_, rfl⟩

/-- An update answers and stores the same, whatever the cache holds and does. -/
theorem update_withNames (token : String) (c : Chain) :
    SameButNames (s.update o token c) ((s.withNames names).update (o.disturbed down) token c) := by
  unfold update
  rw [authorizeUpdate_withNames]
  rcases s.authorizeUpdate o token c with e | ⟨current, c'⟩
  · exact ⟨names, rfl⟩
  · dsimp only
    rw [store_withNames]
    cases s.store o c' with
    | error e => exact ⟨names, rfl⟩
    | ok s' =>
      dsimp only [Except.map]
      split
      · exact ⟨names, rfl⟩
      · rw [rename_eq, rename_eq]
        exact ⟨_, rfl⟩

/-- A removal answers and stores the same, whatever the cache holds and does. -/
theorem revoke_withNames (token id : String) :
    SameButNames (s.revoke o token id k) ((s.withNames names).revoke (o.disturbed down) token id k) := by
  unfold revoke
  rw [authorize_withNames]
  cases s.authorize o .revoke token id with
  | error e => exact ⟨names, rfl⟩
  | ok current =>
    dsimp only [engine_withNames]
    rcases s.engine.delete k current.id with ⟨e | ⟨⟩, engine⟩
    · exact ⟨names, rfl⟩
    · dsimp only
      rw [withNames_engine, erase_withNames]
      cases Service.erase o current.owner id { s with engine } with
      | error e => exact ⟨names, rfl⟩
      | ok s' =>
        dsimp only [Except.map]
        rw [forgetNames_getD, forgetNames_getD]
        exact ⟨_, rfl⟩

theorem start_withNames (token id : String) :
    (s.withNames names).start (o.disturbed down) token id k =
      ((s.start o token id k).1, (s.start o token id k).2.withNames names) := by
  unfold start
  rw [authorize_withNames]
  cases s.authorize o .start token id with
  | error e => rfl
  | ok current =>
    dsimp only [engine_withNames]
    rcases s.engine.start k current with ⟨e | ⟨⟩, engine⟩
    · rfl
    · dsimp only
      rw [withNames_engine, restamped_disturbed, store_withNames]
      cases Service.store o (restamped o .started current) { s with engine } <;> rfl

theorem stop_withNames (token id : String) :
    (s.withNames names).stop (o.disturbed down) token id k =
      ((s.stop o token id k).1, (s.stop o token id k).2.withNames names) := by
  unfold stop
  rw [authorize_withNames]
  cases s.authorize o .stop token id with
  | error e => rfl
  | ok current =>
    dsimp only [engine_withNames]
    rcases s.engine.stop k current.id with ⟨r, engine⟩
    dsimp only
    rw [withNames_engine, restamped_disturbed, store_withNames]
    cases Service.store o (restamped o .stopped current) { s with engine } with
    | error e => cases r <;> rfl
    | ok s' => rfl

theorem check_withNames (token : String) (payload : List UInt8) :
    (s.withNames names).check token payload k =
      ((s.check token payload k).1, (s.check token payload k).2.withNames names) := by
  unfold check
  rw [identify_withNames]
  cases s.identify token <;> rfl

theorem restoreOne_withNames (c : Chain) :
    (s.withNames names).restoreOne (o.disturbed down) k c =
      ((s.restoreOne o k c).1, (s.restoreOne o k c).2.withNames names) := by
  unfold restoreOne
  dsimp only [engine_withNames]
  rcases s.engine.start k c with ⟨e | ⟨⟩, engine⟩
  · dsimp only
    rw [withNames_engine, reread_disturbed, restamped_disturbed, store_withNames]
    cases Service.store o (restamped (o.reread c.id) .stopped c) { s with engine } <;> rfl
  · rfl

theorem restoreAll_withNames (cs : List Chain) :
    (s.withNames names).restoreAll (o.disturbed down) k cs =
      ((s.restoreAll o k cs).1, (s.restoreAll o k cs).2.withNames names) := by
  induction cs generalizing s with
  | nil => rfl
  | cons c cs ih => simp only [restoreAll, restoreOne_withNames, ih]

theorem restore_withNames :
    (s.withNames names).restore (o.disturbed down) k =
      ((s.restore o k).1, (s.restore o k).2.withNames names) := by
  have hlisted : (o.disturbed down).stored .withStatus
      (.ok ((s.withNames names).repository.withStatus .started)) =
        o.stored .withStatus (.ok (s.repository.withStatus .started)) := rfl
  unfold restore
  rw [hlisted]
  cases o.stored .withStatus (.ok (s.repository.withStatus .started)) with
  | error e => rfl
  | ok cs => simp only [restoreAll_withNames]

theorem deliver_withNames (e : Envelope) :
    (s.withNames names).deliver (o.disturbed down) e k =
      ((s.deliver o e k).1, (s.deliver o e k).2.withNames names) := by
  unfold deliver
  rw [toMessage_disturbed]
  cases e.toMessage o.freshUuid o.now <;> rfl

theorem deliverFrom_withNames (adaptor : String) (payload : List UInt8) :
    (s.withNames names).deliverFrom (o.disturbed down) adaptor payload k =
      ((s.deliverFrom o adaptor payload k).1, (s.deliverFrom o adaptor payload k).2.withNames names) := by
  unfold deliverFrom
  rw [adaptorMessage_disturbed]
  cases adaptorMessage o adaptor payload <;> rfl

/-! ## Runs -/

/-- No request answers otherwise because of the cache. -/
theorem perform_withNames (request : Request) :
    SameButNames (s.perform k o request) ((s.withNames names).perform k (o.disturbed down) request) := by
  cases request with
  | add token c => exact (add_withNames token c).map Answer.chain
  | update token c => exact (update_withNames token c).map Answer.chain
  | revoke token id => exact (revoke_withNames token id).map Answer.done
  | start token id => exact SameButNames.map Answer.done ⟨names, start_withNames token id⟩
  | stop token id => exact SameButNames.map Answer.done ⟨names, stop_withNames token id⟩
  | restore => exact SameButNames.map Answer.count ⟨names, restore_withNames⟩
  | list token offset limit => exact ⟨names, rfl⟩
  | get token id => exact ⟨names, rfl⟩
  | check token payload => exact SameButNames.map Answer.defects ⟨names, check_withNames token payload⟩
  | deliver e => exact SameButNames.map Answer.done ⟨names, deliver_withNames e⟩
  | deliverFrom adaptor payload =>
    exact SameButNames.map Answer.count ⟨names, deliverFrom_withNames adaptor payload⟩

/-- A step of a run: a request, or a message for the chains that run. -/
inductive Step where
  | ask (request : Request)
  | dispatch (channel subTopic : String) (m : Message)
  | dispatchFrom (adaptor : String) (m : Message)

/-- Takes a step. -/
def step (k : Catalogue ω η) (s : Service ω η) (o : Occasion) : Step → Answer × Service ω η
  | .ask request => s.perform k o request
  | .dispatch channel subTopic m =>
    let (n, engine) := s.engine.dispatch k channel subTopic m
    (.count (.ok n), { s with engine })
  | .dispatchFrom adaptor m =>
    let (n, engine) := s.engine.dispatchFrom k adaptor m
    (.count (.ok n), { s with engine })

/-- No step shows anything else because of the cache. -/
theorem step_withNames (x : Step) :
    SameButNames (s.step k o x) ((s.withNames names).step k (o.disturbed down) x) := by
  cases x with
  | ask request => exact perform_withNames request
  | dispatch channel subTopic m => exact ⟨names, rfl⟩
  | dispatchFrom adaptor m => exact ⟨names, rfl⟩

/-- What can be seen of a step: the answer, and what is stored and what runs after it. -/
structure Seen (ω η : Type) where
  answer : Answer
  repository : Repository
  engine : Engine ω η

/-- What can be seen of a run, step by step. -/
def transcript (k : Catalogue ω η) : List (Occasion × Step) → Service ω η → List (Seen ω η)
  | [], _ => []
  | (o, x) :: steps, s =>
    let (answer, s) := s.step k o x
    ⟨answer, s.repository, s.engine⟩ :: s.transcript k steps

/-- The run in which, at each step, other calls of the cache fail. -/
def disturbed (faults : Nat → Call → Bool) (steps : List (Occasion × Step)) : List (Occasion × Step) :=
  steps.mapIdx fun n x => (x.1.disturbed (faults n), x.2)

/-- Whatever names are remembered at first, and whatever calls of the cache fail at each step: every step of
every run is answered as before, and leaves the same chains stored, the same graphs running with the same
adaptors, and the same done by traversals. -/
theorem transcript_disturbed (s : Service ω η) (names : NameCache) (faults : Nat → Call → Bool)
    (steps : List (Occasion × Step)) :
    (s.withNames names).transcript k (disturbed faults steps) = s.transcript k steps := by
  induction steps generalizing s names faults with
  | nil => rfl
  | cons x steps ih =>
    obtain ⟨o, x⟩ := x
    obtain ⟨names', hstep⟩ := step_withNames (k := k) (o := o) (s := s) x
    rw [disturbed, List.mapIdx_cons, transcript, transcript, hstep]
    exact congrArg _ (ih _ names' fun n => faults (n + 1))

end Service

end RuleFlow
