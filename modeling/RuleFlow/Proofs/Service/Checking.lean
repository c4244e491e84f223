import RuleFlow.Proofs.Graph.Report
import RuleFlow.Proofs.Service.Isolation
import RuleFlow.Proofs.Service.Restoring

/-!
# A check foretells a start

A check compiles a definition and closes the graph again; a start compiles it and keeps the graph, unless the
chain runs already. So for a chain that does not run the start answers the first thing that the check lists
(`Engine.start_fst_of_idle`). In a consistent service a chain that is stored as created or stopped does not
run, and if what comes of making a handler depends on the node alone, then it makes no difference that the
check has made and closed handlers before (`Service.foretold_of_reachable`).
-/

namespace RuleFlow

variable {ω η : Type}

/-- What a start answers if these are the defects of the definition. -/
def foretold : List RuleError → Result Unit
  | [] => .ok ()
  | e :: _ => .error e

/-- A start is foretold to succeed if no defect was found. -/
theorem foretold_eq_ok_iff {es : List RuleError} : foretold es = .ok () ↔ es = [] := by
  cases es <;> simp [foretold]

/-- A chain that does not run is started if a check of its definition lists nothing, and otherwise fails with
what is listed first. -/
theorem Engine.start_fst_of_idle {k : Catalogue ω η} {e : Engine ω η} {c : Chain}
    (hidle : e.instances.get? c.id = none) : (e.start k c).1 = foretold (e.check k c.payload).1 := by
  unfold Engine.check
  rcases hcompile : Graph.compile k c.payload e.world with ⟨es | g, w⟩
  · have hne : es ≠ [] := Graph.ne_nil_of_compile (congrArg Prod.fst hcompile)
    obtain ⟨err, rest, rfl⟩ := List.exists_cons_of_ne_nil hne
    rw [Engine.start_of_compile_error hidle hcompile]
    rfl
  · rw [Engine.start_of_compile_ok hidle hcompile]
    rfl

namespace Service

variable {k : Catalogue ω η} {o : Occasion} {token caller id user : String} {c : Chain}
  {payload : List UInt8} {s t : Service ω η}

/-- A check changes nothing but the surroundings, in which handlers are made and closed. -/
theorem exists_check_eq (k : Catalogue ω η) (token : String) (payload : List UInt8) (s : Service ω η) :
    ∃ w, (s.check token payload k).2 = { s with engine := s.engine.withWorld w } := by
  unfold check
  split
  · exact ⟨s.engine.world, rfl⟩
  · dsimp only
    unfold Engine.check
    split <;> exact ⟨_, rfl⟩

/-- The owner of a chain that is created or stopped may start it. -/
theorem authorize_start (hc : s.repository.get? id = some c)
    (hstatus : c.status = .created ∨ c.status = .stopped) (howner : s.identify token = .ok c.owner)
    (hretrieve : o.fails (.retrieve id) = false) : s.authorize o .start token id = .ok c := by
  refine authorize_eq_ok_iff.2 ⟨get_eq_ok_iff.2 ⟨howner, hretrieve, hc⟩, ?_⟩
  rcases hstatus with h | h <;> rw [h] <;> rfl

/-- A chain of the caller that is created or stopped is started as a check of its definition foretells. -/
theorem Consistent.start_fst_eq_foretold (h : s.Consistent k) (hc : s.repository.get? id = some c)
    (hstatus : c.status = .created ∨ c.status = .stopped) (howner : s.identify token = .ok c.owner)
    (hretrieve : o.fails (.retrieve id) = false) (hupdate : o.fails (.update id) = false) :
    (s.start o token id k).1 = foretold (s.engine.check k c.payload).1 := by
  have ha := authorize_start hc hstatus howner hretrieve
  obtain ⟨rfl, hidle⟩ := h.idle_of_authorize (by simp) ha
  have hstored : o.stored (.update c.id) (.ok ()) = .ok () := by rw [Occasion.stored, hupdate]; rfl
  rw [start_fst h, ha]
  simp only [bind, Except.bind, Engine.start_fst_of_idle hidle, hstored]
  cases foretold (s.engine.check k c.payload).1 <;> rfl

/-- In every reachable service the check of a definition that is stored as created or stopped lists nothing
exactly if the chain can be started, at once or after the check, and otherwise lists first what the start
fails with. And no check changes what is stored, which names are remembered, what runs, or which chains take
the data of an adaptor. -/
theorem foretold_of_reachable (hk : k.Uniform) (hs : s.Reachable k) (hc : s.repository.get? id = some c)
    (hstatus : c.status = .created ∨ c.status = .stopped) (howner : s.identify token = .ok c.owner)
    (hcaller : s.identify caller = .ok user) (hretrieve : o.fails (.retrieve id) = false)
    (hupdate : o.fails (.update id) = false) :
    (∃ es, (s.check caller c.payload k).1 = .ok es ∧
      ∀ t, t = s ∨ t = (s.check caller c.payload k).2 →
        (es = [] ↔ (t.start o token id k).1 = .ok ()) ∧
        ∀ e rest, es = e :: rest → (t.start o token id k).1 = .error e) ∧
    ∀ token payload, (s.check token payload k).2.repository = s.repository ∧
      (s.check token payload k).2.cache = s.cache ∧
      (s.check token payload k).2.engine.instances = s.engine.instances := by
  refine ⟨⟨_, check_of_identify hcaller, fun t ht => ?_⟩, fun token payload =>
    ⟨repository_check .., cache_check .., instances_check ..⟩⟩
  have hforetold : (t.start o token id k).1 = foretold (s.engine.check k c.payload).1 := by
    rcases ht with rfl | rfl
    · exact hs.consistent.start_fst_eq_foretold hc hstatus howner hretrieve hupdate
    · have hafter := hs.consistent.perform o (.check caller c.payload)
      obtain ⟨w, hw⟩ := exists_check_eq k caller c.payload s
      simp only [perform, hw] at hafter ⊢
      rw [hafter.start_fst_eq_foretold hc hstatus howner hretrieve hupdate,
        Engine.check_fst_of_uniform hk c.payload s.engine]
  rw [hforetold, foretold_eq_ok_iff]
  refine ⟨Iff.rfl, ?_⟩
  intro e rest hes
  rw [hes]
  rfl

/-- A chain that was never started, with a definition that has many defects. -/
def faultyDraft : Chain := { Restoring.draft with id := "faulty", payload := GraphPayload.faulty.text }

/-- A service with this chain and one that its owner has stopped after it was restored. -/
def rehearsed : Service Unit Unit :=
  let s := ((Restoring.unrestored [Restoring.pairStored, faultyDraft]).perform .relay calm .restore).2
  (s.perform .relay calm (.stop "token" "pair")).2

theorem reachable_rehearsed : rehearsed.Reachable .relay := .perform _ _ (.perform _ _ (.opened ..))

/-- The first chain fails to start with the first of its defects, the second can be started after it was
checked. -/
theorem foretold_rehearsed :
    Catalogue.relay.Uniform ∧ rehearsed.repository.get? "faulty" = some faultyDraft ∧
      (∃ rest, (rehearsed.check "token" faultyDraft.payload .relay).1 =
        .ok (.graph (.duplicateNode "a") :: rest)) ∧
      (rehearsed.start calm "token" "faulty" .relay).1 = .error (.graph (.duplicateNode "a")) ∧
      (rehearsed.check "token" Restoring.pairStored.payload .relay).1 = .ok [] ∧
      ((rehearsed.check "token" Restoring.pairStored.payload .relay).2.start calm "token" "pair" .relay).1 =
        .ok () := by
  have huniform : Catalogue.relay.Uniform := fun _ _ _ => rfl
  have hfaulty : rehearsed.repository.get? "faulty" = some faultyDraft := by decide +kernel
  have hpair : rehearsed.repository.get? "pair" =
      some { Restoring.pairStored with status := .stopped } := by decide +kernel
  have howner : rehearsed.identify "token" = .ok "owner" := by decide +kernel
  have hlisted : (rehearsed.check "token" faultyDraft.payload .relay).1.toOption.map List.head? =
      some (some (.graph (.duplicateNode "a"))) := by decide +kernel
  have hclean : (rehearsed.check "token" Restoring.pairStored.payload .relay).1 = .ok [] := by
    decide +kernel
  obtain ⟨⟨es, hes, hfails⟩, -⟩ := foretold_of_reachable (o := calm) huniform reachable_rehearsed
    hfaulty (.inl rfl) howner howner rfl rfl
  obtain ⟨⟨es', hes', hstarts⟩, -⟩ := foretold_of_reachable (o := calm) huniform reachable_rehearsed
    hpair (.inr rfl) howner howner rfl rfl
  obtain rfl : es' = [] := Except.ok.inj (hes'.symm.trans hclean)
  rw [hes] at hlisted
  obtain ⟨rest, rfl⟩ := List.head?_eq_some_iff.1 (Option.some.inj hlisted)
  exact ⟨huniform, hfaulty, ⟨rest, hes⟩, (hfails _ (.inl rfl)).2 _ rest rfl, hclean,
    (hstarts _ (.inr rfl)).1.1 rfl⟩

end Service

end RuleFlow
