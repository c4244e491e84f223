import RuleFlow.Json.Reader
import RuleFlow.Proofs.Outcome

/-!
# Values that were read are sorted

`parse` builds objects by insertion, so the members of every object it returns are in the order of their
keys, each key once (`sorted_of_parse`). What the reader collects in an array or an object is followed by an
invariant of the collected part (`foldItems_induct`, `foldMembers_induct`).
-/

namespace RuleFlow.Json

theorem Value.sortedItems_iff {vs : List Value} :
    Value.SortedItems vs ↔ ∀ v ∈ vs, v.Sorted := by
  induction vs with
  | nil => simp [Value.SortedItems]
  | cons v vs ih => simp [Value.SortedItems, ih]

theorem Value.sortedMembers_iff {ms : Members} :
    Value.SortedMembers ms ↔ ∀ m ∈ ms, m.2.Sorted := by
  induction ms with
  | nil => simp [Value.SortedMembers]
  | cons m ms ih =>
    obtain ⟨key, v⟩ := m
    simp [Value.SortedMembers, ih]

section

variable {σ : Type} {P : σ → Prop}

/-- What every item keeps is kept by reading all items. -/
theorem foldItems_induct {item : σ → Reader σ}
    (hitem : ∀ acc text acc' rest, P acc → item acc text = .ok (acc', rest) → P acc') (fuel : Nat)
    (first : Bool) (acc : σ) (text : List UInt8) {acc' : σ} {rest : List UInt8} (hacc : P acc)
    (h : foldItems item fuel first acc text = .ok (acc', rest)) : P acc' := by
  induction fuel generalizing first acc text with
  | zero => simp [foldItems, failNext] at h
  | succ fuel ih =>
    rw [foldItems] at h
    obtain ⟨⟨more, text'⟩, -, h⟩ := bind_eq_ok_iff.1 h
    cases more with
    | false =>
      obtain ⟨rfl, -⟩ := Prod.mk.inj (Except.ok.inj h)
      exact hacc
    | true =>
      obtain ⟨⟨acc₁, text₁⟩, hi, h⟩ := bind_eq_ok_iff.1 h
      exact ih false acc₁ text₁ (hitem _ _ _ _ hacc hi) h

/-- What every member keeps is kept by reading all members. -/
theorem foldMembers_induct {member : String → σ → Reader σ}
    (hmember : ∀ key acc text acc' rest, P acc → member key acc text = .ok (acc', rest) → P acc')
    (fuel : Nat) (first : Bool) (acc : σ) (text : List UInt8) {acc' : σ} {rest : List UInt8}
    (hacc : P acc) (h : foldMembers member fuel first acc text = .ok (acc', rest)) : P acc' := by
  induction fuel generalizing first acc text with
  | zero => simp [foldMembers, failNext] at h
  | succ fuel ih =>
    rw [foldMembers] at h
    split at h
    · simp [failNext] at h
    split at h
    · obtain ⟨rfl, -⟩ := Prod.mk.inj (Except.ok.inj h)
      exact hacc
    split at h
    · simp [failNext] at h
    split at h
    · simp [failNext] at h
    split at h
    · obtain ⟨⟨key, text₁⟩, -, h⟩ := bind_eq_ok_iff.1 h
      obtain ⟨⟨acc₁, text₂⟩, hm, h⟩ := bind_eq_ok_iff.1 h
      exact ih false acc₁ text₂ (hmember _ _ _ _ _ hacc hm) h
    · split at h <;> simp [failNext] at h

end

theorem sorted_readValue (fuel depth : Nat) (text : List UInt8) {v : Value} {rest : List UInt8}
    (h : readValue fuel depth text = .ok (v, rest)) : v.Sorted := by
  induction depth using Nat.strongRecOn generalizing text v rest with
  | ind depth ih =>
  rw [readValue.eq_def] at h
  dsimp only at h
  split at h
  · simp [failNext] at h
  -- The six scalar forms hold no object.
  iterate 6
    split at h
    · obtain ⟨_, -, h⟩ := bind_eq_ok_iff.1 h
      cases h
      trivial
  split at h
  · cases depth with
    | zero => simp [failNext] at h
    | succ depth =>
      obtain ⟨⟨items, text₁⟩, hitems, h⟩ := bind_eq_ok_iff.1 h
      obtain ⟨_, -, h⟩ := bind_eq_ok_iff.1 h
      obtain ⟨rfl, -⟩ := Prod.mk.inj (Except.ok.inj h)
      have hall : ∀ v ∈ items, v.Sorted := by
        refine foldItems_induct (P := fun vs => ∀ v ∈ vs, v.Sorted) ?_ _ _ _ _ (by simp) hitems
        intro acc text acc' rest hacc hi
        obtain ⟨⟨v, _⟩, hv, hi⟩ := bind_eq_ok_iff.1 hi
        obtain ⟨rfl, -⟩ := Prod.mk.inj (Except.ok.inj hi)
        exact List.forall_mem_cons.2 ⟨ih depth (Nat.lt_succ_self _) _ hv, hacc⟩
      rw [Value.Sorted, Value.sortedItems_iff]
      exact fun v hv => hall v (List.mem_reverse.1 hv)
  split at h
  · cases depth with
    | zero => simp [failNext] at h
    | succ depth =>
      obtain ⟨⟨members, text₁⟩, hmembers, h⟩ := bind_eq_ok_iff.1 h
      obtain ⟨_, -, h⟩ := bind_eq_ok_iff.1 h
      obtain ⟨rfl, -⟩ := Prod.mk.inj (Except.ok.inj h)
      rw [Value.Sorted, Value.sortedMembers_iff]
      refine foldMembers_induct (P := fun ms => Entries.Sorted ms ∧ ∀ m ∈ ms, m.2.Sorted) ?_ _ _ _ _
        ⟨List.Pairwise.nil, by simp⟩ hmembers
      intro key acc text acc' rest hacc hm
      obtain ⟨_, -, hm⟩ := bind_eq_ok_iff.1 hm
      obtain ⟨⟨v, _⟩, hv, hm⟩ := bind_eq_ok_iff.1 hm
      obtain ⟨rfl, -⟩ := Prod.mk.inj (Except.ok.inj hm)
      refine ⟨Entries.sorted_insert hacc.1, fun m hm => ?_⟩
      rcases Entries.mem_insert hm with rfl | hm
      · exact ih depth (Nat.lt_succ_self _) _ hv
      · exact hacc.2 m hm
  · simp [failNext] at h

/-- A parsed value is sorted. -/
theorem sorted_of_parse {text : List UInt8} {v : Value} (h : parse text = .ok v) : v.Sorted := by
  rw [parse, parseWith, mapError_eq_ok_iff] at h
  obtain ⟨⟨v', rest⟩, hv, h⟩ := bind_eq_ok_iff.1 h
  dsimp only at h
  split at h
  · obtain rfl := Except.ok.inj h
    exact sorted_readValue _ _ _ hv
  · simp [failNext] at h

end RuleFlow.Json
