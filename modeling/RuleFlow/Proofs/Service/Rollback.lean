import RuleFlow.Proofs.Service.Consistent

/-!
# An operation that fails changes nothing

What an operation has done before it fails is undone: a chain that was started is stopped, and a chain that
was stopped is compiled once more and started. `Service.Alike` says that two services store the same, remember
the same names and run the same chains by the same definitions. In a consistent service every answer that is
an error leaves the service like that (`Service.Consistent.alike_of_error`), provided that handlers that
could be made can be made again (`Catalogue.Steady`).
-/

namespace RuleFlow

namespace Service

variable {ω η : Type} {k : Catalogue ω η} {o : Occasion} {token id : String} {c : Chain}
  {s s' : Service ω η}

/-- Two services store the same chains and names, run the same chains with graphs of the same definitions,
and list the same chains under each adaptor. -/
structure Alike (k : Catalogue ω η) (s s' : Service ω η) : Prop where
  repository : s'.repository = s.repository
  cache : s'.cache = s.cache
  running : ∀ id, (s.engine.instances.get? id = none ∧ s'.engine.instances.get? id = none) ∨
    ∃ c i i', s.engine.instances.get? id = some i ∧ s'.engine.instances.get? id = some i' ∧
      i.BuiltFrom k c ∧ i'.BuiltFrom k c
  listed : ∀ a id, id ∈ s'.engine.instances.listed a ↔ id ∈ s.engine.instances.listed a

/-- Two consistent services that store the same and run the same chains are alike: what they run is of the
definitions they store. -/
theorem Alike.of_consistent (h : s.Consistent k) (h' : s'.Consistent k)
    (hrepository : s'.repository = s.repository) (hcache : s'.cache = s.cache)
    (hrunning : ∀ id, s'.engine.instances.get? id = none ↔ s.engine.instances.get? id = none) :
    Alike k s s' := by
  have hsame : ∀ id i i', s.engine.instances.get? id = some i →
      s'.engine.instances.get? id = some i' → ∃ c, i.BuiltFrom k c ∧ i'.BuiltFrom k c := by
    intro id i i' hi hi'
    obtain ⟨c, hc, -, hbuilt⟩ := h.running id i hi
    obtain ⟨c', hc', -, hbuilt'⟩ := h'.running id i' hi'
    rw [hrepository, hc, Option.some.injEq] at hc'
    exact ⟨c, hbuilt, hc' ▸ hbuilt'⟩
  have hboth : ∀ id, (s.engine.instances.get? id = none ∧ s'.engine.instances.get? id = none) ∨
      ∃ c i i', s.engine.instances.get? id = some i ∧ s'.engine.instances.get? id = some i' ∧
        i.BuiltFrom k c ∧ i'.BuiltFrom k c := by
    intro id
    cases hi : s.engine.instances.get? id with
    | none => exact .inl ⟨rfl, (hrunning id).2 hi⟩
    | some i =>
      cases hi' : s'.engine.instances.get? id with
      | none => simp [(hrunning id).1 hi'] at hi
      | some i' =>
        obtain ⟨c, hbuilt, hbuilt'⟩ := hsame id i i' hi hi'
        exact .inr ⟨c, i, i', rfl, rfl, hbuilt, hbuilt'⟩
  refine ⟨hrepository, hcache, hboth, fun a id => ?_⟩
  rw [h.indexed a id, h'.indexed a id]
  rcases hboth id with ⟨hi, hi'⟩ | ⟨c, i, i', hi, hi', hbuilt, hbuilt'⟩
  · rw [hi, hi']
  · simp only [hi, hi', Option.some.injEq, exists_eq_left', hbuilt'.adaptors_eq hbuilt]

theorem Alike.refl (h : s.Consistent k) : Alike k s s :=
  .of_consistent h h rfl rfl fun _ => Iff.rfl

theorem Alike.of_eq (h : s.Consistent k) (hs : s' = s) : Alike k s s' := by
  rw [hs]
  exact .refl h

/-! ## The outcomes that are errors -/

theorem Adds.alike {e : RuleError} (h : s.Consistent k) (hadds : Adds o token c s (.error e) s') :
    Alike k s s' := by
  cases hadds with
  | refused => exact .refl h

theorem Updates.alike {e : RuleError} (h : s.Consistent k)
    (hupdates : Updates o token c s (.error e) s') : Alike k s s' := by
  cases hupdates with
  | refused => exact .refl h

/-- A removal that fails changes nothing: the chain did not run. -/
theorem Revokes.alike {e : RuleError} (h : s.Consistent k)
    (hrevokes : Revokes k o token id s (.error e) s') : Alike k s s' := by
  cases hrevokes with
  | refused => exact .refl h
  | kept _ ha =>
    obtain ⟨rfl, hidle⟩ := h.idle_of_authorize (by simp) ha
    rw [Engine.delete_of_idle hidle]
    exact .refl h

/-- A start that fails leaves nothing running that did not run. -/
theorem Starts.alike {e : RuleError} (h : s.Consistent k)
    (hstarts : Starts k o token id s (.error e) s') : Alike k s s' := by
  have h' := hstarts.consistent h
  cases hstarts with
  | refused => exact .refl h
  | failed ha herror =>
    refine .of_consistent h h' rfl rfl fun id' => ?_
    rw [(Engine.instances_start_of_error herror).2.1]
  | undone _ ha hok =>
    obtain ⟨rfl, hidle⟩ := h.idle_of_authorize (by simp) ha
    obtain ⟨i, hbuilt, hundone⟩ := Engine.instances_stop_start hidle hok
    refine .of_consistent h h' rfl rfl fun id' => ?_
    rw [hundone, Instances.get?_removed_added hbuilt.id_eq hidle]

/-- The graph that is compiled to undo a stop was compiled before, so it compiles again. -/
theorem Stops.alike {e : RuleError} (hk : k.Steady) (h : s.Consistent k)
    (hstops : Stops k o token id s (.error e) s') : Alike k s s' := by
  have h' := hstops.consistent h
  cases hstops with
  | refused => exact .refl h
  | @undone current _ ha hok =>
    have hget := get?_of_authorize ha
    obtain rfl := h.keyed id current hget
    obtain ⟨i, hi, -⟩ := Engine.instances_stop_of_ok hok
    obtain ⟨c', hc', -, hbuilt⟩ := h.running current.id i hi
    obtain rfl : current = c' := Option.some.inj (hget.symm.trans hc')
    refine .of_consistent h h' rfl rfl fun id' => ?_
    exact Engine.get?_start_stop_eq_none_iff (c := restamped o .stopped current) hk hi
      (builtFrom_restamped.2 hbuilt) id'
  | idle _ ha herror =>
    refine .of_consistent h h' rfl rfl fun id' => ?_
    rw [(Engine.instances_stop_of_error herror).2]

/-- A restoration that fails has not begun. -/
theorem restore_of_error {e : RuleError} (h : (s.restore o k).1 = .error e) :
    (s.restore o k).2 = s := by
  unfold restore at h ⊢
  split
  · rfl
  case h_2 hlist => simp [hlist] at h

theorem check_of_error {payload : List UInt8} {e : RuleError}
    (h : (s.check token payload k).1 = .error e) : (s.check token payload k).2 = s := by
  unfold check at h ⊢
  split
  · rfl
  case h_2 hidentify => simp [hidentify] at h

theorem deliver_of_error {envelope : Envelope} {e : RuleError}
    (h : (s.deliver o envelope k).1 = .error e) : (s.deliver o envelope k).2 = s := by
  unfold deliver at h ⊢
  split
  · rfl
  case h_2 hmessage => simp [hmessage] at h

theorem deliverFrom_of_error {adaptor : String} {payload : List UInt8} {e : RuleError}
    (h : (s.deliverFrom o adaptor payload k).1 = .error e) :
    (s.deliverFrom o adaptor payload k).2 = s := by
  unfold deliverFrom at h ⊢
  split
  · rfl
  case h_2 hmessage => simp [hmessage] at h

/-- In a consistent service every answer that is an error leaves the service as it was. -/
theorem Consistent.alike_of_error (hk : k.Steady) (h : s.Consistent k) {request : Request}
    {e : RuleError} (he : (s.perform k o request).1.error? = some e) :
    Alike k s (s.perform k o request).2 := by
  cases request with
  | add token c => exact (Answer.error?_chain.1 he ▸ adds_add o token c s).alike h
  | update token c => exact (Answer.error?_chain.1 he ▸ updates_update o token c s).alike h
  | revoke token id => exact (Answer.error?_done.1 he ▸ revokes_revoke k o token id s).alike h
  | start token id => exact (Answer.error?_done.1 he ▸ starts_start k o token id s).alike h
  | stop token id => exact (Answer.error?_done.1 he ▸ stops_stop k o token id s).alike hk h
  | restore => exact .of_eq h (restore_of_error (Answer.error?_count.1 he))
  | list token offset limit => exact .refl h
  | get token id => exact .refl h
  | check token payload => exact .of_eq h (check_of_error (Answer.error?_defects.1 he))
  | deliver envelope => exact .of_eq h (deliver_of_error (Answer.error?_done.1 he))
  | deliverFrom adaptor payload =>
    exact .of_eq h (deliverFrom_of_error (Answer.error?_count.1 he))

/-- In every reachable service an operation that fails changes nothing. -/
theorem alike_of_failed (hk : k.Steady) (h : s.Reachable k) {request : Request} {e : RuleError}
    (he : (s.perform k o request).1.error? = some e) : Alike k s (s.perform k o request).2 :=
  h.consistent.alike_of_error hk he

theorem alike_of_failed_stop :
    Catalogue.relay.Steady ∧ pairStarted.Reachable .relay ∧
      (pairStarted.perform .relay { calm with fails := (· = .update "pair") }
        (.stop "token" "pair")).1.error? = some .repositoryDown ∧
      Alike .relay pairStarted
        (pairStarted.perform .relay { calm with fails := (· = .update "pair") }
          (.stop "token" "pair")).2 := by
  have hsteady : Catalogue.relay.Steady := fun _ _ _ _ _ => ⟨(), rfl⟩
  have he : (pairStarted.perform .relay { calm with fails := (· = .update "pair") }
      (.stop "token" "pair")).1.error? = some .repositoryDown := by decide +kernel
  exact ⟨hsteady, reachable_pairStarted, he, alike_of_failed hsteady reachable_pairStarted he⟩

end Service

end RuleFlow
