import RuleFlow.Proofs.Service.Agreement
import RuleFlow.Proofs.Service.Restoring

/-!
# A restoration saves what it can

An engine for which nothing runs restores the chains that are stored as started. It compiles them one after
the other (`Service.attempts`). What becomes of a chain depends on what comes of its own compilation and on
whether its own new status can be stored, and on nothing else that happens to the others
(`Service.Salvaged`); a chain that is not stored as started is not touched (`Service.restoreAll_of_idle`).

After that every chain that is stored as started runs, or it is one whose new status could not be stored. If
handlers can be made at any time or never, a second restoration finds the former running and fails with the
latter again, so it changes nothing that runs and counts the same chains (`Service.restoreAll_of_settled`).
-/

namespace RuleFlow

variable {ω η : Type}

/-- The definitions after one was to be stored as stopped. -/
def Occasion.shelved (o : Occasion) (c : Chain) (r : Repository) : Repository :=
  if o.fails (.update c.id) then r else r.insert c.id (Service.restamped (o.reread c.id) .stopped c)

namespace Service

variable {k : Catalogue ω η} {o o' : Occasion} {c : Chain} {cs : List Chain} {s s' : Service ω η}
  {id : String} {w : ω}

/-- A chain that compiles runs, and what is stored stays. -/
theorem restoreOne_of_compile_ok {g : Graph η} (hidle : s.engine.instances.get? c.id = none)
    (hcompile : Graph.compile k c.payload s.engine.world = (.ok g, w)) :
    s.restoreOne o k c =
      (true, { s with
        engine := { s.engine with instances := s.engine.instances.added (.ofChain c g) }.withWorld w }) := by
  rw [restoreOne, Engine.start_of_compile_ok hidle hcompile]

/-- A chain that does not compile does not run, and is stored as stopped if the call allows it. -/
theorem restoreOne_of_compile_error {es : List RuleError} (hc : s.repository.get? c.id = some c)
    (hidle : s.engine.instances.get? c.id = none)
    (hcompile : Graph.compile k c.payload s.engine.world = (.error es, w)) :
    s.restoreOne o k c =
      (false, { s with engine := s.engine.withWorld w, repository := o.shelved c s.repository }) := by
  rw [restoreOne, Engine.start_of_compile_error hidle hcompile]
  simp only [store_restamped hc, Occasion.stored, Occasion.shelved]
  split <;> rfl

/-- What has become of a chain that was stored as started, by what came of compiling it. -/
inductive Salvaged (o : Occasion) (c : Chain) (s : Service ω η) :
    Except (List RuleError) (Graph η) → Prop
  /-- It runs by its definition and is stored as it was. -/
  | running {g : Graph η} : s.engine.instances.get? c.id = some (.ofChain c g) →
    s.repository.get? c.id = some c → Salvaged o c s (.ok g)
  /-- It does not run and is stored as stopped. -/
  | stopped {es : List RuleError} : s.engine.instances.get? c.id = none →
    o.fails (.update c.id) = false → s.repository.get? c.id = some (restamped (o.reread c.id) .stopped c) →
    Salvaged o c s (.error es)
  /-- It does not run, and this could not be stored. -/
  | unsaved {es : List RuleError} : s.engine.instances.get? c.id = none →
    o.fails (.update c.id) = true → s.repository.get? c.id = some c → Salvaged o c s (.error es)

/-- The graph that runs for a chain and the definition that is stored of it are the same in two services. -/
structure Untouched (id : String) (s s' : Service ω η) : Prop where
  running : s'.engine.instances.get? id = s.engine.instances.get? id
  stored : s'.repository.get? id = s.repository.get? id

theorem Untouched.trans {s₁ s₂ : Service ω η} (h : Untouched id s s₁) (h' : Untouched id s₁ s₂) :
    Untouched id s s₂ := ⟨h'.running.trans h.running, h'.stored.trans h.stored⟩

/-- What has become of a chain stays as long as the chain is not touched. -/
theorem Salvaged.of_untouched {r : Except (List RuleError) (Graph η)} (h : Salvaged o c s r)
    (hsame : Untouched c.id s s') : Salvaged o c s' r := by
  cases h with
  | running hrunning hstored => exact .running (hsame.running.trans hrunning) (hsame.stored.trans hstored)
  | stopped hidle hfails hstored =>
    exact .stopped (hsame.running.trans hidle) hfails (hsame.stored.trans hstored)
  | unsaved hidle hfails hstored =>
    exact .unsaved (hsame.running.trans hidle) hfails (hsame.stored.trans hstored)

/-- A chain runs if it was compiled. -/
theorem Salvaged.isRunning_eq {r : Except (List RuleError) (Graph η)} (h : Salvaged o c s r) :
    s.engine.instances.isRunning c.id = r.isOk := by
  cases h with
  | running hrunning => exact Instances.isRunning_iff.2 ⟨_, hrunning⟩
  | stopped hidle => exact Instances.isRunning_eq_false_iff.2 hidle
  | unsaved hidle => exact Instances.isRunning_eq_false_iff.2 hidle

/-- Restoring a chain that does not run salvages it and touches no other. -/
theorem restoreOne_of_idle {r : Except (List RuleError) (Graph η)}
    (hc : s.repository.get? c.id = some c) (hidle : s.engine.instances.get? c.id = none)
    (hcompile : Graph.compile k c.payload s.engine.world = (r, w)) :
    (s.restoreOne o k c).1 = r.isOk ∧ (s.restoreOne o k c).2.engine.world = w ∧
      Salvaged o c (s.restoreOne o k c).2 r ∧ ∀ id ≠ c.id, Untouched id s (s.restoreOne o k c).2 := by
  cases r with
  | ok g =>
    rw [restoreOne_of_compile_ok hidle hcompile]
    have hget := Instances.get?_added (.ofChain c g) s.engine.instances
    exact ⟨rfl, rfl, .running ((hget c.id).trans (if_pos rfl)) hc,
      fun id hne => ⟨(hget id).trans (if_neg hne), rfl⟩⟩
  | error es =>
    rw [restoreOne_of_compile_error hc hidle hcompile]
    unfold Occasion.shelved
    cases hfails : o.fails (.update c.id) with
    | true => exact ⟨rfl, rfl, .unsaved hidle hfails hc, fun id _ => ⟨rfl, rfl⟩⟩
    | false =>
      exact ⟨rfl, rfl, .stopped hidle hfails (Table.get?_insert_self ..),
        fun id hne => ⟨rfl, (Table.get?_insert ..).trans (if_neg hne)⟩⟩

/-! ## All chains -/

/-- Some chains, each with what comes of compiling it after those before it. -/
def attempts (k : Catalogue ω η) : List Chain → ω → List (Chain × Except (List RuleError) (Graph η))
  | [], _ => []
  | c :: cs, w =>
    let (r, w) := Graph.compile k c.payload w
    (c, r) :: attempts k cs w

theorem map_fst_attempts (k : Catalogue ω η) (cs : List Chain) (w : ω) :
    (attempts k cs w).map Prod.fst = cs := by
  induction cs generalizing w with
  | nil => rfl
  | cons c cs ih => exact congrArg (c :: ·) (ih _)

theorem exists_mem_attempts (k : Catalogue ω η) (hc : c ∈ cs) (w : ω) : ∃ r, (c, r) ∈ attempts k cs w := by
  rw [← map_fst_attempts k cs w] at hc
  obtain ⟨⟨_, r⟩, hx, rfl⟩ := List.mem_map.1 hc
  exact ⟨r, hx⟩

/-- What came of an attempt came of compiling the chain at some time. -/
theorem exists_compile_of_mem_attempts {x : Chain × Except (List RuleError) (Graph η)}
    (hx : x ∈ attempts k cs w) : ∃ w₁, (Graph.compile k x.1.payload w₁).1 = x.2 := by
  induction cs generalizing w with
  | nil => cases hx
  | cons c cs ih =>
    rcases hx with _ | ⟨_, hx⟩
    · exact ⟨w, rfl⟩
    · exact ih hx

/-- Restoring some chains that do not run salvages each of them and touches no other. -/
theorem restoreAll_of_idle (hstored : ∀ c ∈ cs, s.repository.get? c.id = some c)
    (hidle : ∀ c ∈ cs, s.engine.instances.get? c.id = none) (hd : (cs.map (·.id)).Nodup) :
    (s.restoreAll o k cs).1 = (attempts k cs s.engine.world).countP (·.2.isOk) ∧
      (∀ x ∈ attempts k cs s.engine.world, Salvaged o x.1 (s.restoreAll o k cs).2 x.2) ∧
      ∀ id ∉ cs.map (·.id), Untouched id s (s.restoreAll o k cs).2 := by
  induction cs generalizing s with
  | nil => exact ⟨rfl, by simp [attempts], fun id _ => ⟨rfl, rfl⟩⟩
  | cons c cs ih =>
    obtain ⟨hc, hstored⟩ := List.forall_mem_cons.1 hstored
    obtain ⟨hcidle, hidle⟩ := List.forall_mem_cons.1 hidle
    rw [List.map_cons, List.nodup_cons] at hd
    rcases hcompile : Graph.compile k c.payload s.engine.world with ⟨r, w⟩
    obtain ⟨hruns, hworld, hsalvaged, huntouched⟩ := restoreOne_of_idle (o := o) hc hcidle hcompile
    have hothers : ∀ c' ∈ cs, Untouched c'.id s (s.restoreOne o k c).2 := fun c' hc' =>
      huntouched c'.id fun he => hd.1 (he ▸ List.mem_map_of_mem hc')
    obtain ⟨hcount, hrest, houtside⟩ := ih
      (fun c' hc' => (hothers c' hc').stored.trans (hstored c' hc'))
      (fun c' hc' => (hothers c' hc').running.trans (hidle c' hc')) hd.2
    rw [hworld] at hcount hrest
    have hattempts : attempts k (c :: cs) s.engine.world = (c, r) :: attempts k cs w := by
      rw [attempts, hcompile]
    rw [hattempts, restoreAll_cons]
    refine ⟨?_, ?_, ?_⟩
    · rw [hcount, hruns, List.countP_cons]
      cases r.isOk <;> rfl
    · rintro x (_ | ⟨_, hx⟩)
      · exact hsalvaged.of_untouched (houtside c.id hd.1)
      · exact hrest x hx
    · intro id hid
      rw [List.map_cons, List.mem_cons, not_or] at hid
      exact (huntouched id hid.1).trans (houtside id hid.2)

/-- The chains that are stored as started, each with what comes of compiling it when they are restored. -/
def attempted (k : Catalogue ω η) (s : Service ω η) : List (Chain × Except (List RuleError) (Graph η)) :=
  attempts k (s.repository.withStatus .started) s.engine.world

/-! ## Once more -/

/-- A chain that does not run and does not compile leaves the running graphs as they are, be it stored as
stopped or not. -/
theorem restoreOne_of_failing {es : List RuleError} (hidle : s.engine.instances.get? c.id = none)
    (hcompile : Graph.compile k c.payload s.engine.world = (.error es, w)) :
    (s.restoreOne o k c).1 = false ∧ (s.restoreOne o k c).2.engine.instances = s.engine.instances := by
  have hstart := Engine.start_of_compile_error hidle hcompile
  have hsame : (s.engine.start k c).2.instances = s.engine.instances := by
    rw [hstart]
    rfl
  have hone := restores_restoreOne k o c s
  generalize (s.restoreOne o k c).1 = b, (s.restoreOne o k c).2 = s' at hone ⊢
  cases hone with
  | runs hok => simp [hstart] at hok
  | kept herror => exact ⟨rfl, hsame⟩
  | stopped herror => exact ⟨rfl, hsame⟩

/-- Restoring chains that run or cannot be compiled changes nothing that runs and counts those that do. -/
theorem restoreAll_of_settled (hcs : ∀ c ∈ cs, s.engine.instances.isRunning c.id = true ∨
      ∀ w, ∃ es, (Graph.compile k c.payload w).1 = .error es) :
    (s.restoreAll o k cs).1 = cs.countP (s.engine.instances.isRunning ·.id) ∧
      (s.restoreAll o k cs).2.engine.instances = s.engine.instances := by
  induction cs generalizing s with
  | nil => exact ⟨rfl, rfl⟩
  | cons c cs ih =>
    obtain ⟨hc, hcs⟩ := List.forall_mem_cons.1 hcs
    obtain ⟨hruns, hsame⟩ : (s.restoreOne o k c).1 = s.engine.instances.isRunning c.id ∧
        (s.restoreOne o k c).2.engine.instances = s.engine.instances := by
      cases hrunning : s.engine.instances.isRunning c.id with
      | true =>
        obtain ⟨i, hi⟩ := Instances.isRunning_iff.1 hrunning
        rw [restoreOne, Engine.start_of_running hi]
        exact ⟨rfl, rfl⟩
      | false =>
        obtain ⟨es, herror⟩ := hc.resolve_left (by simp [hrunning]) s.engine.world
        exact restoreOne_of_failing (Instances.isRunning_eq_false_iff.1 hrunning) (Prod.ext herror rfl)
    obtain ⟨hcount, hinstances⟩ := ih (s := (s.restoreOne o k c).2) (hsame.symm ▸ hcs)
    rw [hsame] at hcount hinstances
    rw [restoreAll_cons, hcount, hruns, List.countP_cons]
    refine ⟨?_, hinstances⟩
    cases s.engine.instances.isRunning c.id <;> rfl

/-- What was not compiled once is not compiled at any time if the catalogue is steady. -/
theorem uncompilable_of_mem_attempts (hk : k.Steady) {es : List RuleError}
    (h : (c, .error es) ∈ attempts k cs w) (w' : ω) :
    ∃ es', (Graph.compile k c.payload w').1 = .error es' := by
  obtain ⟨w₁, herror⟩ := exists_compile_of_mem_attempts h
  rcases hcompile : Graph.compile k c.payload w' with ⟨es' | g, w₂⟩
  · exact ⟨es', rfl⟩
  · obtain ⟨g', w₃, hagain⟩ := Graph.exists_compile_of_steady hk hcompile w₁
    simp [hagain] at herror

namespace Consistent

/-- A service for which nothing runs salvages what is stored as started and touches nothing else. -/
theorem salvaged (hs : s.Consistent k) (hidle : s.engine.instances = {})
    (hlists : o.fails .withStatus = false) :
    (s.restore o k).1 = .ok ((s.attempted k).countP (·.2.isOk)) ∧
      (∀ x ∈ s.attempted k, Salvaged o x.1 (s.restore o k).2 x.2) ∧
      ∀ id ∉ (s.repository.withStatus .started).map (·.id), Untouched id s (s.restore o k).2 := by
  obtain ⟨hcount, hsalvaged, huntouched⟩ := restoreAll_of_idle (k := k) (o := o)
    (fun c hc => (Repository.get?_of_mem_withStatus hs.keyed hc).1) (fun c _ => by rw [hidle]; rfl)
    (Repository.nodup_ids_withStatus hs.keyed)
  rw [restore_of_listed k hlists]
  exact ⟨congrArg _ hcount, hsalvaged, huntouched⟩

/-- What is stored as started after a restoration runs or cannot be compiled. -/
theorem settled (hk : k.Steady) (hs : s.Consistent k) (hidle : s.engine.instances = {})
    (hlists : o.fails .withStatus = false) :
    ∀ c ∈ (s.restore o k).2.repository.withStatus .started,
      (s.restore o k).2.engine.instances.isRunning c.id = true ∨
        ∀ w, ∃ es, (Graph.compile k c.payload w).1 = .error es := by
  intro c hc
  obtain ⟨-, hsalvaged, huntouched⟩ := hs.salvaged hidle hlists
  obtain ⟨hget, hstarted⟩ := Repository.get?_of_mem_withStatus hs.restore.keyed hc
  by_cases hlisted : c.id ∈ (s.repository.withStatus .started).map (·.id)
  · obtain ⟨c₀, hc₀, hid⟩ := List.mem_map.1 hlisted
    obtain ⟨r, hr⟩ := exists_mem_attempts k hc₀ s.engine.world
    rw [← hid] at hget ⊢
    cases hsalvaged _ hr with
    | running hrunning => exact .inl (Instances.isRunning_iff.2 ⟨_, hrunning⟩)
    | stopped _ _ hstored =>
      obtain rfl := Option.some.inj (hstored.symm.trans hget)
      cases hstarted
    | unsaved _ _ hstored =>
      obtain rfl := Option.some.inj (hstored.symm.trans hget)
      exact .inr (uncompilable_of_mem_attempts hk hr)
  · -- What was not listed is stored as before, so it would have been listed.
    have hbefore : s.repository.get? c.id = some c := (huntouched c.id hlisted).stored.symm.trans hget
    exact absurd (List.mem_map_of_mem (Repository.mem_withStatus.2 ⟨⟨c.id, hbefore⟩, hstarted⟩)) hlisted

/-- A restoration counts what runs after it. -/
theorem restore_eq_runningIds (hs : s.Consistent k) (hidle : s.engine.instances = {})
    (hlists : o.fails .withStatus = false) :
    (s.restore o k).1 = .ok (s.restore o k).2.engine.instances.runningIds.length := by
  obtain ⟨hcount, hsalvaged, huntouched⟩ := hs.salvaged hidle hlists
  have hall : ∀ id i, (s.restore o k).2.engine.instances.get? id = some i →
      id ∈ (s.repository.withStatus .started).map (·.id) := by
    intro id i hi
    by_contra hid
    rw [(huntouched id hid).running, hidle] at hi
    cases hi
  rw [hcount, ← Instances.countP_isRunning (Repository.nodup_ids_withStatus hs.keyed) hall]
  conv_rhs => rw [← map_fst_attempts k (s.repository.withStatus .started) s.engine.world, List.countP_map]
  refine congrArg _ (List.countP_congr fun x hx => ?_)
  rw [Function.comp_apply, (hsalvaged x hx).isRunning_eq]

/-- A second restoration answers the same and leaves the same graphs running. -/
theorem restore_again (hk : k.Steady) (hs : s.Consistent k) (hidle : s.engine.instances = {})
    (hlists : o.fails .withStatus = false) (hlists' : o'.fails .withStatus = false) :
    ((s.restore o k).2.restore o' k).1 = (s.restore o k).1 ∧
      ((s.restore o k).2.restore o' k).2.engine.instances = (s.restore o k).2.engine.instances := by
  have hs₁ : (s.restore o k).2.Consistent k := hs.restore
  obtain ⟨hcount, hinstances⟩ := restoreAll_of_settled (o := o') (hs.settled hk hidle hlists)
  rw [restore_of_listed k hlists', hs.restore_eq_runningIds hidle hlists, hcount,
    Instances.countP_isRunning (Repository.nodup_ids_withStatus hs₁.keyed) fun _ _ => hs₁.mem_ids_of_running]
  exact ⟨rfl, hinstances⟩

end Consistent

/-- Whatever chains are stored and whatever new statuses cannot be stored: an engine for which nothing runs
salvages each chain that is stored as started, touches no other and answers how many of them could be
compiled. If handlers can be made at any time or never, a second restoration answers the same and leaves the
same graphs running. -/
theorem salvaged_of_opened {settings : Settings} {tokens : Table String} {chains : List Chain}
    {cache : NameCache} {engine : Engine ω η} (hs : s = opened settings tokens chains cache engine)
    (hlists : o.fails .withStatus = false) :
    (∀ id c, s.repository.get? id = some c → c.status = .started →
      c.id = id ∧ ∃ r, (c, r) ∈ s.attempted k ∧ Salvaged o c (s.restore o k).2 r) ∧
    (∀ id, (∀ c, s.repository.get? id = some c → c.status ≠ .started) →
      (s.restore o k).2.repository.get? id = s.repository.get? id ∧
        (s.restore o k).2.engine.instances.get? id = none) ∧
    (s.restore o k).1 = .ok ((s.attempted k).countP (·.2.isOk)) ∧
    (k.Steady → ∀ o', o'.fails .withStatus = false →
      ((s.restore o k).2.restore o' k).1 = (s.restore o k).1 ∧
        ((s.restore o k).2.restore o' k).2.engine.instances = (s.restore o k).2.engine.instances) := by
  have hconsistent : s.Consistent k := hs ▸ consistent_opened k settings tokens chains cache engine
  have hidle : s.engine.instances = {} := by rw [hs]; rfl
  obtain ⟨hcount, hsalvaged, huntouched⟩ := hconsistent.salvaged hidle hlists
  refine ⟨?_, ?_, hcount, ?_⟩
  · intro id c hget hstarted
    have hc : c ∈ s.repository.withStatus .started := Repository.mem_withStatus.2 ⟨⟨id, hget⟩, hstarted⟩
    obtain ⟨r, hr⟩ := exists_mem_attempts k hc s.engine.world
    exact ⟨hconsistent.keyed id c hget, r, hr, hsalvaged _ hr⟩
  · intro id hnot
    have hunlisted : id ∉ (s.repository.withStatus .started).map (·.id) := by
      intro hid
      obtain ⟨c, hc, rfl⟩ := List.mem_map.1 hid
      obtain ⟨hget, hstarted⟩ := Repository.get?_of_mem_withStatus hconsistent.keyed hc
      exact hnot c hget hstarted
    have hsame := huntouched id hunlisted
    exact ⟨hsame.stored, hsame.running.trans (by rw [hidle]; rfl)⟩
  · intro hk o' hlists'
    exact hconsistent.restore_again hk hidle hlists hlists'

/-- A chain of which no graph can be made and whose status cannot be stored. -/
def stuck : Chain := { Restoring.broken with id := "stuck" }

/-- An occasion on which just this cannot be stored. -/
def jammed : Occasion := { calm with fails := fun call => call = .update "stuck" }

/-- A service with a chain that can be started, two that cannot, and one that was never started. -/
def mixed : Service Unit Unit :=
  Restoring.unrestored [Restoring.pairStored, { Restoring.broken with id := "lost" }, stuck, Restoring.draft]

theorem salvaged_mixed :
    (mixed.restore jammed .relay).1 = .ok 1 ∧
      (∃ r, (stuck, r) ∈ mixed.attempted .relay ∧ Salvaged jammed stuck (mixed.restore jammed .relay).2 r) ∧
      (mixed.restore jammed .relay).2.engine.instances.get? "draft" = none ∧
      Catalogue.relay.Steady ∧ ((mixed.restore jammed .relay).2.restore calm .relay).1 = .ok 1 := by
  have hsteady : Catalogue.relay.Steady := fun _ _ _ _ _ => ⟨(), rfl⟩
  obtain ⟨hsalvaged, huntouched, hcount, hagain⟩ :=
    salvaged_of_opened (k := .relay) (o := jammed) (s := mixed) rfl rfl
  have hone : (mixed.attempted .relay).countP (·.2.isOk) = 1 := by decide +kernel
  rw [hone] at hcount
  have hstuck : mixed.repository.get? "stuck" = some stuck := by decide +kernel
  have hdraft : mixed.repository.get? "draft" = some Restoring.draft := by decide +kernel
  have hnever : ∀ c, mixed.repository.get? "draft" = some c → c.status ≠ .started := by
    intro c hc
    obtain rfl := Option.some.inj (hdraft.symm.trans hc)
    decide
  exact ⟨hcount, (hsalvaged "stuck" stuck hstuck rfl).2, (huntouched "draft" hnever).2, hsteady,
    (hagain hsteady calm rfl).1.trans hcount⟩

end Service

end RuleFlow
