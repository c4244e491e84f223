import RuleFlow.Json.Decoder
import RuleFlow.Proofs.Json.Sorted
import RuleFlow.Proofs.Table

/-!
# Records from objects and texts

A record is read from an object member by member. If no key occurs twice and every member that belongs to a
field can be read, then what comes of it does not depend on the order of the members: `ofValue_record` gives
the record as `assign` of its members, and `assign_get` says what a field of it holds.

Whatever the text of a record is, what every field keeps holds of the record that was read (`record_induct`).
-/

namespace RuleFlow.Json.Decoder

variable {ρ α β : Type}

/-- What a member changes in a record; it changes nothing if it belongs to no field or cannot be read. -/
def put (fields : List (Field ρ)) (m : String × Value) (draft : ρ) : ρ :=
  match fields.find? (·.name = m.1) with
  | none => draft
  | some f =>
    match f.decoder.ofValue m.2 with
    | .ok p => p draft
    | .error _ => draft

/-- A record with what its members change. -/
def assign (fields : List (Field ρ)) (ms : Members) (draft : ρ) : ρ :=
  ms.foldl (fun draft m => put fields m draft) draft

/-- Every member that belongs to a field can be read. -/
def Readable (fields : List (Field ρ)) (ms : Members) : Prop :=
  ∀ m ∈ ms, ∀ f, fields.find? (·.name = m.1) = some f → ∃ p, f.decoder.ofValue m.2 = .ok p

/-- The member of a field, if there is one, can be read, and says what a part of the record holds. -/
def Field.Sets (f : Field ρ) (ms : Members) (get : ρ → α) (val : Value → α) : Prop :=
  ∀ v, Entries.get? f.name ms = some v → ∃ p, f.decoder.ofValue v = .ok p ∧ ∀ draft, get (p draft) = val v

/-- A field leaves a part of the record alone. -/
def Field.Spares (f : Field ρ) (get : ρ → α) : Prop :=
  ∀ v p, f.decoder.ofValue v = .ok p → ∀ draft, get (p draft) = get draft

/-- A field sets a part of the record to what it reads. -/
theorem Field.sets_mk {name : String} {required : Bool} {d : Decoder β} {put : β → ρ → ρ}
    {ms : Members} {get : ρ → α} {val : Value → α} {read : Value → β}
    (hread : ∀ v, Entries.get? name ms = some v → d.ofValue v = .ok (read v))
    (hput : ∀ v draft, get (put (read v) draft) = val v) :
    (⟨name, required, d.map put⟩ : Field ρ).Sets ms get val :=
  fun v hv => ⟨put (read v), map_eq_ok_iff.2 ⟨_, hread v hv, rfl⟩, hput v⟩

theorem Field.Sets.readable {f : Field ρ} {ms : Members} {get : ρ → α} {val : Value → α}
    (h : f.Sets ms get val) (v : Value) (hv : Entries.get? f.name ms = some v) :
    ∃ p, f.decoder.ofValue v = .ok p := (h v hv).imp fun _ => And.left

/-- A field leaves the other parts of the record alone. -/
theorem Field.spares_mk {name : String} {required : Bool} {d : Decoder β} {put : β → ρ → ρ}
    {get : ρ → α} (hput : ∀ b draft, get (put b draft) = get draft) :
    (⟨name, required, d.map put⟩ : Field ρ).Spares get := by
  intro v p hp draft
  obtain ⟨b, -, rfl⟩ := map_eq_ok_iff.1 hp
  exact hput b draft

/-- If every field can read the member of its name, the members can be read. -/
theorem readable_of_forall {fields : List (Field ρ)} {ms : Members} (hd : (ms.map (·.1)).Nodup)
    (h : ∀ f ∈ fields, ∀ v, Entries.get? f.name ms = some v → ∃ p, f.decoder.ofValue v = .ok p) :
    Readable fields ms := by
  intro m hm f hf
  have hname : f.name = m.1 := by simpa using List.find?_some hf
  exact h f (List.mem_of_find?_eq_some hf) m.2 (hname ▸ Entries.get?_of_mem hd hm)

/-- A member of a field is put into the record; any other is skipped. -/
theorem memberOfValue_eq_ok {fields : List (Field ρ)} {m : String × Value} (draft : ρ)
    {seen : List String}
    (hread : ∀ f, fields.find? (·.name = m.1) = some f → ∃ p, f.decoder.ofValue m.2 = .ok p)
    (hseen : m.1 ∉ seen) :
    ∃ seen', memberOfValue fields (draft, seen) m = .ok (put fields m draft, seen') ∧
      (∀ key, key ∈ seen' ↔ key ∈ seen ∨ key = m.1 ∧ (fields.find? (·.name = m.1)).isSome) := by
  unfold memberOfValue put
  cases hf : fields.find? (·.name = m.1) with
  | none => exact ⟨seen, rfl, by simp⟩
  | some f =>
    obtain ⟨p, hp⟩ := hread f hf
    refine ⟨m.1 :: seen, ?_, fun key => ?_⟩
    · simp only [hseen, if_false, hp]
      rfl
    · simp [or_comm]

/-- The members of an object are put into the record, one after the other. -/
theorem foldlM_memberOfValue {fields : List (Field ρ)} {ms : Members} (draft : ρ)
    (seen : List String) (hd : (ms.map (·.1)).Nodup) (hread : Readable fields ms)
    (hseen : ∀ m ∈ ms, m.1 ∉ seen) :
    ∃ seen', ms.foldlM (memberOfValue fields) (draft, seen) = .ok (assign fields ms draft, seen') ∧
      seen ⊆ seen' ∧ ∀ m ∈ ms, (fields.find? (·.name = m.1)).isSome → m.1 ∈ seen' := by
  induction ms generalizing draft seen with
  | nil => exact ⟨seen, rfl, fun _ => id, by simp⟩
  | cons m ms ih =>
    rw [List.map_cons, List.nodup_cons] at hd
    obtain ⟨seen₁, hm, hkeys⟩ := memberOfValue_eq_ok draft
      (hread m List.mem_cons_self) (hseen m List.mem_cons_self)
    have hseen₁ : ∀ m' ∈ ms, m'.1 ∉ seen₁ := by
      intro m' hm' hmem
      rcases (hkeys m'.1).1 hmem with h | ⟨h, -⟩
      · exact hseen m' (List.mem_cons_of_mem _ hm') h
      · exact hd.1 (h ▸ List.mem_map_of_mem hm')
    obtain ⟨seen', hms, hsub, hin⟩ := ih (put fields m draft) seen₁ hd.2
      (fun m' hm' => hread m' (List.mem_cons_of_mem _ hm')) hseen₁
    refine ⟨seen', ?_, fun key hkey => hsub ((hkeys key).2 (.inl hkey)), ?_⟩
    · rw [List.foldlM_cons, hm]
      exact hms
    · intro m' hm' hsome
      rcases List.mem_cons.1 hm' with rfl | hm'
      · exact hsub ((hkeys _).2 (.inr ⟨rfl, hsome⟩))
      · exact hin m' hm' hsome

/-- A record is read from an object with distinct keys if every member of a field can be read and no
required field is missing. -/
theorem ofValue_record {name : String} {blank : ρ} {fields : List (Field ρ)} {ms : Members}
    (hd : (ms.map (·.1)).Nodup) (hread : Readable fields ms)
    (hreq : ∀ f ∈ fields, f.required = true → ∃ v, Entries.get? f.name ms = some v) :
    (record name blank fields).ofValue (.object ms) = .ok (assign fields ms blank) := by
  obtain ⟨seen, hms, -, hin⟩ := foldlM_memberOfValue blank [] hd hread (by simp)
  have hmissing : firstMissing? fields seen = none := by
    rw [firstMissing?, Option.map_eq_none_iff, List.find?_eq_none]
    intro f hf
    simp only [Bool.and_eq_true, decide_eq_true_eq, not_and, not_not]
    intro hr
    obtain ⟨v, hv⟩ := hreq f hf hr
    have hsome : (fields.find? (·.name = f.name)).isSome := by
      rw [List.find?_isSome]
      exact ⟨f, hf, by simp⟩
    exact hin _ (Entries.mem_of_get? hv) hsome
  refine bind_eq_ok_iff.2 ⟨(assign fields ms blank, seen), hms, ?_⟩
  simp only [hmissing]

/-- What a part of a record holds: what the member of its field says, or else what was there before. -/
theorem assign_get {fields : List (Field ρ)} {ms : Members} (get : ρ → α) (f : Field ρ)
    (val : Value → α) (draft : ρ) (hd : (ms.map (·.1)).Nodup)
    (hf : fields.find? (·.name = f.name) = some f)
    (hself : f.Sets ms get val)
    (hother : ∀ g ∈ fields, g.name ≠ f.name → g.Spares get) :
    get (assign fields ms draft) = ((Entries.get? f.name ms).map val).getD (get draft) := by
  have hput : ∀ k v, k ≠ f.name → ∀ draft, get (put fields (k, v) draft) = get draft := by
    intro k v hk draft
    unfold put
    cases hg : fields.find? (·.name = k) with
    | none => rfl
    | some g =>
      have hname : g.name = k := by simpa using List.find?_some hg
      dsimp only
      cases hp : g.decoder.ofValue v with
      | error e => rfl
      | ok p => exact hother g (List.mem_of_find?_eq_some hg) (hname ▸ hk) v p hp draft
  induction ms generalizing draft with
  | nil => rfl
  | cons m ms ih =>
    obtain ⟨k, v⟩ := m
    rw [List.map_cons, List.nodup_cons] at hd
    rw [assign, List.foldl_cons, ← assign]
    by_cases hk : f.name = k
    · subst hk
      have hnone : Entries.get? f.name ms = none := Entries.get?_eq_none_iff.2 hd.1
      obtain ⟨p, hp, hset⟩ := hself v (by simp [Entries.get?])
      have hself' : f.Sets ms get val := fun w hw => by simp [hnone] at hw
      rw [ih _ hd.2 hself', hnone]
      simp [Entries.get?, put, hf, hp, hset]
    · have hget : Entries.get? f.name ((k, v) :: ms) = Entries.get? f.name ms := by
        simp [Entries.get?, hk]
      rw [ih _ hd.2 (fun w hw => hself w (hget ▸ hw)), hget, hput k v (Ne.symm hk)]

/-! ## Texts -/

theorem mismatchAt_ne_ok {wanted : Wanted} {text : List UInt8} {r : α} :
    mismatchAt wanted text ≠ .ok r := by
  intro h
  unfold mismatchAt at h
  split at h
  · cases h
  -- Each branch reads the rest of what it refuses and fails after that.
  iterate 6
    split at h
    · obtain ⟨_, -, h⟩ := bind_eq_ok_iff.1 h
      cases h
  split at h
  · cases h
  · split at h <;> cases h

theorem integer_range {kind : String} {low high i : Int} {fuel depth : Nat} {text rest : List UInt8}
    (h : (integer kind low high).ofText fuel depth text = .ok (i, rest)) : low ≤ i ∧ i ≤ high := by
  have hrange : ∀ {n : Number} {j : Int}, inRange kind low high n = .ok j → low ≤ j ∧ j ≤ high := by
    intro n j hn
    unfold inRange at hn
    split at hn
    · split at hn
      · obtain rfl := Except.ok.inj hn
        assumption
      · cases hn
    · cases hn
  simp only [integer] at h
  split at h
  · cases h
  -- A number is looked at after it was read, whether or not it had a sign.
  iterate 2
    split at h
    · obtain ⟨⟨n, _⟩, -, h⟩ := bind_eq_ok_iff.1 h
      cases hn : inRange kind low high n with
      | error cause => simp [hn, failAt] at h
      | ok j =>
        simp only [hn] at h
        obtain ⟨rfl, -⟩ := Prod.mk.inj (Except.ok.inj h)
        exact hrange hn
  · exact absurd h mismatchAt_ne_ok

/-- Whatever its text says, a field keeps a property of the record. -/
def Field.Keeps (f : Field ρ) (P : ρ → Prop) : Prop :=
  ∀ (fuel depth : Nat) (text rest : List UInt8) (put : ρ → ρ),
    f.decoder.ofText fuel depth text = .ok (put, rest) → ∀ draft, P draft → P (put draft)

theorem Field.keeps_mk {name : String} {required : Bool} {d : Decoder β} {put : β → ρ → ρ} {P : ρ → Prop}
    (hput : ∀ {fuel depth text b rest}, d.ofText fuel depth text = .ok (b, rest) →
      ∀ draft, P draft → P (put b draft)) :
    (⟨name, required, d.map put⟩ : Field ρ).Keeps P := by
  intro fuel depth text rest p hp draft hdraft
  obtain ⟨⟨b, _⟩, hb, h⟩ := bind_eq_ok_iff.1 hp
  obtain ⟨rfl, -⟩ := Prod.mk.inj (Except.ok.inj h)
  exact hput hb draft hdraft

section

variable {P : ρ → Prop} {fields : List (Field ρ)} {fuel depth : Nat}

/-- What every field keeps is kept by reading a member. -/
theorem readMember_induct (hkeeps : ∀ f ∈ fields, f.Keeps P) {key : String} {draft draft' : ρ × List String}
    {text rest : List UInt8} (hdraft : P draft.1)
    (h : readMember fields fuel depth key draft text = .ok (draft', rest)) : P draft'.1 := by
  unfold readMember at h
  split at h
  · obtain ⟨_, -, h⟩ := bind_eq_ok_iff.1 h
    obtain ⟨_, -, h⟩ := bind_eq_ok_iff.1 h
    obtain ⟨rfl, -⟩ := Prod.mk.inj (Except.ok.inj h)
    exact hdraft
  · rename_i f hf
    split at h
    · cases h
    · obtain ⟨_, -, h⟩ := bind_eq_ok_iff.1 h
      obtain ⟨⟨put, _⟩, hput, h⟩ := bind_eq_ok_iff.1 h
      obtain ⟨rfl, -⟩ := Prod.mk.inj (Except.ok.inj h)
      exact hkeeps f (List.mem_of_find?_eq_some hf) _ _ _ _ _ hput _ hdraft

/-- What every field keeps is kept by reading the fields of an array. -/
theorem readFields_induct {short : Nat → Cause} (hkeeps : ∀ f ∈ fields, f.Keeps P) (i : Nat) (first : Bool)
    {draft draft' : ρ} {text rest : List UInt8} (hdraft : P draft)
    (h : readFields short fuel depth i first fields draft text = .ok (draft', rest)) : P draft' := by
  induction fields generalizing i first draft text with
  | nil =>
    obtain ⟨rfl, -⟩ := Prod.mk.inj (Except.ok.inj h)
    exact hdraft
  | cons f fields ih =>
    obtain ⟨hf, hkeeps⟩ := List.forall_mem_cons.1 hkeeps
    rw [readFields] at h
    obtain ⟨⟨more, _⟩, -, h⟩ := bind_eq_ok_iff.1 h
    cases more with
    | true =>
      obtain ⟨⟨put, _⟩, hput, h⟩ := bind_eq_ok_iff.1 h
      exact ih hkeeps _ _ (hf _ _ _ _ _ hput _ hdraft) h
    | false =>
      dsimp only at h
      split at h
      · cases h
      · obtain ⟨rfl, -⟩ := Prod.mk.inj (Except.ok.inj h)
        exact hdraft

/-- What holds of the blank record and is kept by every field holds of every record that is read. -/
theorem record_induct {name : String} {blank : ρ} (hkeeps : ∀ f ∈ fields, f.Keeps P) (hblank : P blank)
    {text rest : List UInt8} {r : ρ}
    (h : (record name blank fields).ofText fuel depth text = .ok (r, rest)) : P r := by
  simp only [record] at h
  split at h
  · cases h
  split at h
  · cases depth with
    | zero => cases h
    | succ depth =>
      obtain ⟨⟨r', _⟩, hr, h⟩ := bind_eq_ok_iff.1 h
      obtain ⟨_, -, h⟩ := bind_eq_ok_iff.1 h
      obtain ⟨rfl, -⟩ := Prod.mk.inj (Except.ok.inj h)
      exact readFields_induct hkeeps _ _ hblank hr
  split at h
  · cases depth with
    | zero => cases h
    | succ depth =>
      obtain ⟨⟨⟨r', seen⟩, _⟩, hr, h⟩ := bind_eq_ok_iff.1 h
      have hP : P r' :=
        foldMembers_induct (P := fun draft : ρ × List String => P draft.1)
          (fun _ _ _ _ _ hacc hm => readMember_induct hkeeps hacc hm) _ _ _ _ hblank hr
      dsimp only at h
      split at h
      · cases h
      · obtain ⟨_, -, h⟩ := bind_eq_ok_iff.1 h
        obtain ⟨rfl, -⟩ := Prod.mk.inj (Except.ok.inj h)
        exact hP
  · exact absurd h mismatchAt_ne_ok

end

end RuleFlow.Json.Decoder
