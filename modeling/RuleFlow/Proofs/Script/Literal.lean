import RuleFlow.Proofs.Json.Numberless
import RuleFlow.Script.Parse
import RuleFlow.Script.Run

/-!
# JSON values as literals

The text of a JSON value without numbers is also an expression of a script. `Script.Literal` says which tokens
and which structure it has, and every such value has some (`exists_literal`). The tokens are read as the
structure, wherever they stand (`Literal.expression`), and the structure evaluates to what `load` puts into the
heap, member by member, the name of the fallback included (`Literal.loads`).
-/

namespace RuleFlow.Script

open Json (Members)

namespace Token

/-- A name on the same line as what stands before it. -/
def word (s : String) : Token := ⟨.name s, s, false⟩

/-- A mark on the same line as what stands before it. -/
def sign (s : String) : Token := ⟨.mark s, s, false⟩

/-- A quoted text on the same line as what stands before it. -/
def quoted (s : String) : Token := ⟨.text (units s), Json.quote s, false⟩

end Token

/-- Runs of tokens with commas between them. -/
def separated : List (List Token) → List Token
  | [] => []
  | [ts] => ts
  | ts :: us :: more => ts ++ .sign "," :: separated (us :: more)

/-- The tokens and the structure of the text of a value. -/
inductive Literal : Json.Value → List Token → Expr → Prop
  | null : Literal .null [.word "null"] (.constant .null)
  | bool (b : Bool) : Literal (.bool b) [.word (if b then "true" else "false")] (.constant (.bool b))
  | string (s : String) : Literal (.string s) [.quoted s] (.constant (.text (units s)))
  | array {parts : List (Json.Value × List Token × Expr)} (h : ∀ p ∈ parts, Literal p.1 p.2.1 p.2.2) :
    Literal (.array (parts.map (·.1))) (.sign "[" :: (separated (parts.map (·.2.1)) ++ [.sign "]"]))
      (.array (parts.map (·.2.2)))
  | object {parts : List ((String × Json.Value) × List Token × Expr)}
    (h : ∀ p ∈ parts, Literal p.1.2 p.2.1 p.2.2) :
    Literal (.object (parts.map (·.1)))
      (.sign "\x7b" :: (separated (parts.map fun p => .quoted p.1.1 :: .sign ":" :: p.2.1) ++ [.sign "\x7d"]))
      (.object (parts.map fun p => (units p.1.1, p.2.2)))

/-- The text of a value without numbers is a literal. -/
theorem exists_literal {key : String → Prop} {depth : Nat} {v : Json.Value} (h : v.Numberless key depth) :
    ∃ ts e, Literal v ts e := by
  induction h with
  | null => exact ⟨_, _, .null⟩
  | bool depth b => exact ⟨_, _, .bool b⟩
  | string depth s => exact ⟨_, _, .string s⟩
  | @array depth items _ ih =>
    have hpairs : ∀ v ∈ items, ∃ p : List Token × Expr, Literal v p.1 p.2 :=
      fun v hv => (ih v hv).elim fun ts ⟨e, hl⟩ => ⟨(ts, e), hl⟩
    obtain ⟨parts, rfl, hparts⟩ := Json.exists_pairs hpairs
    exact ⟨_, _, .array hparts⟩
  | @object depth ms _ _ _ ih =>
    have hpairs : ∀ m ∈ ms, ∃ p : List Token × Expr, Literal m.2 p.1 p.2 :=
      fun m hm => (ih m hm).elim fun ts ⟨e, hl⟩ => ⟨(ts, e), hl⟩
    obtain ⟨parts, rfl, hparts⟩ := Json.exists_pairs hpairs
    exact ⟨_, _, .object hparts⟩

/-- An expression that evaluates to what `load` puts into the heap. -/
def Expr.Loads (e : Expr) (v : Json.Value) : Prop :=
  ∀ st : State, e.eval st = .ok ((load v st.heap).1, { st with heap := (load v st.heap).2 })

theorem run_bind {α β : Type} {x : Run α} {f : α → Run β} {st st' : State} {a : α} (h : x st = .ok (a, st')) :
    (x >>= f) st = f a st' := by
  simp only [bind, StateT.bind, Except.bind, h]

/-- Expressions that load values do so one after the other. -/
theorem evalAll_of_loads {parts : List (Json.Value × List Token × Expr)} (h : ∀ p ∈ parts, p.2.2.Loads p.1)
    (st : State) :
    evalAll (parts.map (·.2.2)) st = .ok ((loadItems (parts.map (·.1)) st.heap).1,
      { st with heap := (loadItems (parts.map (·.1)) st.heap).2 }) := by
  induction parts generalizing st with
  | nil => rfl
  | cons p parts ih =>
    obtain ⟨hp, hparts⟩ := List.forall_mem_cons.1 h
    rw [List.map_cons, List.map_cons, evalAll, run_bind (hp st), run_bind (ih hparts _)]
    rfl

/-- Members that load values do so one after the other. -/
theorem evalMembers_of_loads {parts : List ((String × Json.Value) × List Token × Expr)}
    (h : ∀ p ∈ parts, p.2.2.Loads p.1.2) (o : Option Nat × List (Units × Val)) (st : State) :
    evalMembers (parts.map fun p => (units p.1.1, p.2.2)) o st =
      .ok ((loadMembers (parts.map (·.1)) o st.heap).1,
        { st with heap := (loadMembers (parts.map (·.1)) o st.heap).2 }) := by
  induction parts generalizing o st with
  | nil => rfl
  | cons p parts ih =>
    obtain ⟨hp, hparts⟩ := List.forall_mem_cons.1 h
    rw [List.map_cons, List.map_cons, evalMembers, run_bind (hp st), ih hparts]
    rfl

/-- A literal evaluates to what `load` puts into the heap, and changes nothing else. -/
theorem Literal.loads {v : Json.Value} {ts : List Token} {e : Expr} (h : Literal v ts e) : e.Loads v := by
  induction h with
  | null => exact fun st => rfl
  | bool b => exact fun st => rfl
  | string s => exact fun st => rfl
  | array _ ih =>
    intro st
    rw [Expr.eval, run_bind (evalAll_of_loads ih st)]
    rfl
  | object _ ih =>
    intro st
    rw [Expr.eval, run_bind (evalMembers_of_loads ih _ st)]
    rfl

/-! ## How a literal is read -/

namespace Parse

/-- Tokens that do not go on with an expression. -/
def Closes (rest : List Token) : Prop :=
  ∃ m ∈ [",", "]", "\x7d", ")"], ∃ more, rest = .sign m :: more

/-- After the end of an expression nothing goes on with it. -/
theorem Closes.signs {rest : List Token} (h : Closes rest) :
    isMark "." rest = false ∧ isMark "[" rest = false ∧ isMark "(" rest = false ∧ isMark "?" rest = false ∧
      operator? rest = none ∧ assignment? rest = none := by
  obtain ⟨m, hm, more, rfl⟩ := h
  simp only [List.mem_cons, List.not_mem_nil, or_false] at hm
  rcases hm with rfl | rfl | rfl | rfl <;> exact ⟨rfl, rfl, rfl, rfl, rfl, rfl⟩

/-- An operand alone is an expression. -/
theorem expression_of_primary {fuel : Nat} {ts rest : List Token} {e : Expr} (hunary : unary? ts = none)
    (h : primary (fuel + 1) ts = .ok (e, rest)) (hrest : Closes rest) :
    expression (fuel + 5) ts = .ok (e, rest) := by
  obtain ⟨hdot, hbracket, hparen, hquestion, hoperator, hassignment⟩ := hrest.signs
  have hfollowed : followed (fuel + 1) true e rest = .ok (e, rest) := by
    simp [followed, hdot, hbracket, hparen]
  have hprefixed : prefixed (fuel + 2) ts = .ok (e, rest) := by
    rw [prefixed, hunary]
    exact bind_eq_ok_iff.2 ⟨_, h, hfollowed⟩
  have hjoined : joined (fuel + 2) 1 e rest = .ok (e, rest) := by
    rw [joined, hoperator]
  have hoperand : operand (fuel + 3) 1 ts = .ok (e, rest) := by
    rw [operand]
    exact bind_eq_ok_iff.2 ⟨_, hprefixed, hjoined⟩
  have hconditional : conditional (fuel + 4) ts = .ok (e, rest) := by
    rw [conditional]
    refine bind_eq_ok_iff.2 ⟨_, hoperand, ?_⟩
    simp only [hquestion]
    rfl
  rw [expression]
  refine bind_eq_ok_iff.2 ⟨_, hconditional, ?_⟩
  simp only [hassignment]

/-- Tokens that are read as an expression wherever they stand. The fuel is proportional to their number. -/
def ReadAs (ts : List Token) (e : Expr) : Prop :=
  ∀ fuel rest, 8 * ts.length ≤ fuel → Closes rest → expression fuel (ts ++ rest) = .ok (e, rest)

end Parse

open Parse

/-- A literal begins with a token that ends no list and is no operator. -/
theorem Literal.starts {v : Json.Value} {ts : List Token} {e : Expr} (h : Literal v ts e) (rest : List Token) :
    unary? (ts ++ rest) = none ∧ isMark "]" (ts ++ rest) = false ∧ isMark ")" (ts ++ rest) = false := by
  cases h with
  | null => exact ⟨rfl, rfl, rfl⟩
  | bool b => cases b <;> exact ⟨rfl, rfl, rfl⟩
  | string s => exact ⟨rfl, rfl, rfl⟩
  | array h => exact ⟨rfl, rfl, rfl⟩
  | object h => exact ⟨rfl, rfl, rfl⟩

section

variable {fuel : Nat} {close : String} (hclose : close = "]" ∨ close = ")") {ts rest more : List Token} {e : Expr}
  {es : List Expr}
include hclose

theorem closes_close (rest : List Token) : Closes (.sign close :: rest) := by
  obtain rfl | rfl := hclose
  · exact ⟨"]", by simp, rest, rfl⟩
  · exact ⟨")", by simp, rest, rfl⟩

theorem items_none : items (fuel + 1) close (.sign close :: rest) = .ok ([], rest) := by
  obtain rfl | rfl := hclose <;> rfl

theorem items_last (hstarts : isMark close ts = false) (h : expression fuel ts = .ok (e, .sign close :: rest)) :
    items (fuel + 1) close ts = .ok ([e], rest) := by
  rw [items, hstarts]
  refine bind_eq_ok_iff.2 ⟨_, h, ?_⟩
  obtain rfl | rfl := hclose <;> rfl

omit hclose in
theorem items_more (hstarts : isMark close ts = false) (h : expression fuel ts = .ok (e, .sign "," :: more))
    (hmore : items fuel close more = .ok (es, rest)) : items (fuel + 1) close ts = .ok (e :: es, rest) := by
  rw [items, hstarts]
  exact bind_eq_ok_iff.2 ⟨_, h, bind_eq_ok_iff.2 ⟨_, hmore, rfl⟩⟩

/-- Literals with commas between them are read up to the closing mark. -/
theorem items_separated {parts : List (Json.Value × List Token × Expr)}
    (h : ∀ p ∈ parts, Literal p.1 p.2.1 p.2.2 ∧ ReadAs p.2.1 p.2.2)
    (hfuel : 8 * (separated (parts.map (·.2.1))).length < fuel) (rest : List Token) :
    items fuel close (separated (parts.map (·.2.1)) ++ .sign close :: rest) = .ok (parts.map (·.2.2), rest) := by
  have hstarts : ∀ p ∈ parts, ∀ rest, isMark close (p.2.1 ++ rest) = false := by
    intro p hp rest
    obtain ⟨-, hbracket, hparen⟩ := (h p hp).1.starts rest
    obtain rfl | rfl := hclose
    · exact hbracket
    · exact hparen
  induction parts generalizing fuel with
  | nil =>
    obtain ⟨fuel, rfl⟩ := Nat.exists_eq_succ_of_ne_zero (Nat.ne_of_gt (Nat.zero_lt_of_lt hfuel))
    exact items_none hclose
  | cons p parts ih =>
    obtain ⟨fuel, rfl⟩ := Nat.exists_eq_succ_of_ne_zero (Nat.ne_of_gt (Nat.zero_lt_of_lt hfuel))
    obtain ⟨⟨-, hread⟩, hparts⟩ := List.forall_mem_cons.1 h
    obtain ⟨hfirst, hothers⟩ := List.forall_mem_cons.1 hstarts
    cases parts with
    | nil =>
      refine items_last hclose (hfirst _) (hread fuel _ ?_ (closes_close hclose rest))
      simp only [List.map_cons, List.map_nil, separated] at hfuel
      omega
    | cons q parts =>
      simp only [List.map_cons, separated, List.length_append, List.length_cons] at hfuel
      have hless : 8 * (separated ((q :: parts).map (·.2.1))).length < fuel := by
        rw [List.map_cons]
        omega
      have hmore := ih hparts hless hothers
      rw [List.map_cons, List.map_cons, separated, List.append_assoc, List.cons_append]
      exact items_more (hfirst _) (hread fuel _ (by omega) ⟨",", by simp, _, rfl⟩) hmore

end

section

variable {fuel : Nat} {key : String} {ts rest more : List Token} {e : Expr} {es : List (Units × Expr)}

theorem members_last (h : expression fuel ts = .ok (e, .sign "\x7d" :: rest)) :
    members (fuel + 1) (.quoted key :: .sign ":" :: ts) = .ok ([(units key, e)], rest) := by
  rw [members]
  exact bind_eq_ok_iff.2 ⟨_, h, rfl⟩

theorem members_more (h : expression fuel ts = .ok (e, .sign "," :: more))
    (hmore : members fuel more = .ok (es, rest)) :
    members (fuel + 1) (.quoted key :: .sign ":" :: ts) = .ok ((units key, e) :: es, rest) := by
  rw [members]
  exact bind_eq_ok_iff.2 ⟨_, h, bind_eq_ok_iff.2 ⟨_, hmore, rfl⟩⟩

/-- Members with commas between them are read up to the closing brace. -/
theorem members_separated {parts : List ((String × Json.Value) × List Token × Expr)}
    (h : ∀ p ∈ parts, ReadAs p.2.1 p.2.2)
    (hfuel : 8 * (separated (parts.map fun p => .quoted p.1.1 :: .sign ":" :: p.2.1)).length < fuel)
    (rest : List Token) :
    members fuel (separated (parts.map fun p => .quoted p.1.1 :: .sign ":" :: p.2.1) ++ .sign "\x7d" :: rest) =
      .ok (parts.map fun p => (units p.1.1, p.2.2), rest) := by
  induction parts generalizing fuel with
  | nil =>
    obtain ⟨fuel, rfl⟩ := Nat.exists_eq_succ_of_ne_zero (Nat.ne_of_gt (Nat.zero_lt_of_lt hfuel))
    rfl
  | cons p parts ih =>
    obtain ⟨fuel, rfl⟩ := Nat.exists_eq_succ_of_ne_zero (Nat.ne_of_gt (Nat.zero_lt_of_lt hfuel))
    obtain ⟨hread, hparts⟩ := List.forall_mem_cons.1 h
    cases parts with
    | nil =>
      refine members_last (hread fuel _ ?_ ⟨"\x7d", by simp, rest, rfl⟩)
      simp only [List.map_cons, List.map_nil, separated, List.length_cons] at hfuel
      omega
    | cons q parts =>
      simp only [List.map_cons, separated, List.length_append, List.length_cons] at hfuel
      have hless : 8 * (separated ((q :: parts).map fun p => .quoted p.1.1 :: .sign ":" :: p.2.1)).length < fuel := by
        rw [List.map_cons]
        omega
      have hmore := ih hparts hless
      rw [List.map_cons, List.map_cons, separated, List.append_assoc, List.cons_append, List.cons_append,
        List.cons_append]
      exact members_more (hread fuel _ (by omega) ⟨",", by simp, _, rfl⟩) hmore

end

/-- An operand is read with fuel for itself and for what is around it. -/
theorem readAs_of_primary {ts : List Token} {e : Expr} (hunary : ∀ rest, unary? (ts ++ rest) = none)
    (hts : ts ≠ []) (h : ∀ fuel rest, 8 * ts.length ≤ fuel + 5 →
      primary (fuel + 1) (ts ++ rest) = .ok (e, rest)) : ReadAs ts e := by
  intro fuel rest hfuel hrest
  have hlength := List.length_pos_iff.2 hts
  -- An expression comes down to its operand in five calls.
  obtain ⟨fuel, rfl⟩ := Nat.exists_eq_add_of_le (show 5 ≤ fuel by omega)
  rw [Nat.add_comm] at hfuel ⊢
  exact expression_of_primary (hunary rest) (h fuel rest hfuel) hrest

/-- The tokens of a literal are read as its structure, wherever they stand. -/
theorem Literal.readAs {v : Json.Value} {ts : List Token} {e : Expr} (h : Literal v ts e) : ReadAs ts e := by
  have hstarts := fun rest => (h.starts rest).1
  induction h with
  | null => exact readAs_of_primary hstarts (by simp) fun fuel rest _ => rfl
  | bool b =>
    refine readAs_of_primary hstarts (by simp) fun fuel rest _ => ?_
    cases b <;> rfl
  | string s => exact readAs_of_primary hstarts (by simp) fun fuel rest _ => rfl
  | @array parts h ih =>
    have hparts : ∀ p ∈ parts, Literal p.1 p.2.1 p.2.2 ∧ ReadAs p.2.1 p.2.2 :=
      fun p hp => ⟨h p hp, ih p hp fun rest => ((h p hp).starts rest).1⟩
    refine readAs_of_primary hstarts (by simp) fun fuel rest hfuel => ?_
    simp only [List.length_cons, List.length_append, List.length_nil] at hfuel
    have hitems := items_separated (.inl rfl) hparts (show _ < fuel by omega) rest
    rw [List.cons_append, List.append_assoc, List.singleton_append]
    exact bind_eq_ok_iff.2 ⟨_, hitems, rfl⟩
  | @object parts h ih =>
    have hparts : ∀ p ∈ parts, ReadAs p.2.1 p.2.2 :=
      fun p hp => ih p hp fun rest => ((h p hp).starts rest).1
    refine readAs_of_primary hstarts (by simp) fun fuel rest hfuel => ?_
    simp only [List.length_cons, List.length_append, List.length_nil] at hfuel
    have hmembers := members_separated hparts (show _ < fuel by omega) rest
    rw [List.cons_append, List.append_assoc, List.singleton_append]
    exact bind_eq_ok_iff.2 ⟨_, hmembers, rfl⟩

end RuleFlow.Script
