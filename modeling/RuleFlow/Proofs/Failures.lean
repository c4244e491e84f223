import RuleFlow.Proofs.Jobs.Concourse

/-!
# What becomes of the reports of failed traversals

Traversals end, reports are received and the receiver leaves, in any order (`Failures.turns`); each turn leaves
an event. A traversal that ended well reports nothing and one that failed or panicked makes one report
(`Traversal.isSome_report?`). `Failures.Accounts` says what the state is, given the events: every report is
counted, and while the receiver is there the reports that were received or wait are those that were made when
there was room, in their order. Each turn keeps this (`Failures.Accounts.turn`), so it holds of every run
(`Failures.accounts_turns`).
-/

namespace RuleFlow

variable {ω η : Type}

/-- How a traversal ended: with an answer, or with a panic outside of its nodes, which has a text or not. -/
inductive Ending where
  | answered (r : Result Unit)
  | panicked (text : Option String)

/-- Whether a traversal ended with an error or a panic. -/
def Ending.isFailure : Ending → Bool
  | answered (.ok ()) => false
  | answered (.error _) | panicked _ => true

/-- The report of an ended traversal, if one is made. One that panicked is reported in the name of the entry. -/
def Traversal.report? (t : Traversal η) : Ending → Option NodeFailure
  | .answered (.ok ()) => none
  | .answered (.error e) => some (t.failure e)
  | .panicked text =>
    let typeName := ((t.target.graph.nodes.get? t.target.graph.entry).map (·.typeName)).getD ""
    some ⟨t.target.id, t.target.graph.entry, typeName, t.message.id, "panic: " ++ text.getD "unknown"⟩

theorem Traversal.isSome_report? (t : Traversal η) (ending : Ending) :
    (t.report? ending).isSome = ending.isFailure := by
  rcases ending with (e | ⟨⟩) | text <;> rfl

namespace Failures

/-! ## Turns -/

/-- What happens next. -/
inductive Turn (η : Type) where
  | finish (t : Traversal η) (ending : Ending)
  | receive
  /-- The receiver lets nothing more in; what waits can still be received. -/
  | shut
  /-- The receiver goes, and with it what waits for it. -/
  | close

/-- A turn that was taken and what came of it. -/
inductive Event where
  | passed
  /-- A report was made while so many were waiting. -/
  | reported (f : NodeFailure) (waiting : Nat)
  | received (f : Option NodeFailure)
  | closed
  deriving DecidableEq

/-- The report that a turn makes. -/
def Turn.report? : Turn η → Option NodeFailure
  | finish t ending => t.report? ending
  | _ => none

/-- Whether a traversal ends with an error or a panic in a turn. -/
def Turn.isFailure : Turn η → Bool
  | finish _ ending => ending.isFailure
  | _ => false

/-- Takes a turn. -/
def turn (s : Failures) : Turn η → Event × Failures
  | .finish t ending =>
    match t.report? ending with
    | none => (.passed, s)
    | some f => (.reported f s.queue.length, s.report f)
  | .receive => (.received s.receive.1, s.receive.2)
  | .shut => (.closed, { s with isOpen := false })
  | .close => (.closed, s.close)

/-- Takes several turns; lists the events in their order. -/
def turns (s : Failures) : List (Turn η) → List Event × Failures
  | [] => ([], s)
  | t :: ts =>
    let (e, s) := s.turn t
    let (es, s) := s.turns ts
    (e :: es, s)

/-- The reports that were made, each with the number of those that were waiting then. -/
def reported (es : List Event) : List (NodeFailure × Nat) :=
  es.filterMap fun
    | .reported f waiting => some (f, waiting)
    | _ => none

/-- The reports that were received. -/
def taken (es : List Event) : List NodeFailure :=
  es.filterMap fun
    | .received f => f
    | _ => none

/-- The reports that were made while fewer were waiting than there is room for. -/
def fitting (capacity : Nat) (es : List Event) : List NodeFailure :=
  ((reported es).filter (·.2 < max 1 capacity)).map (·.1)

variable {c : Nat} {es : List Event} {e : Event} {s s' : Failures}

theorem reported_append (es es' : List Event) : reported (es ++ es') = reported es ++ reported es' :=
  List.filterMap_append

theorem taken_append (es es' : List Event) : taken (es ++ es') = taken es ++ taken es' :=
  List.filterMap_append

theorem fitting_append (c : Nat) (es es' : List Event) :
    fitting c (es ++ es') = fitting c es ++ fitting c es' := by
  simp [fitting, reported_append]

theorem fitting_reported (c : Nat) (f : NodeFailure) (n : Nat) :
    fitting c [.reported f n] = if n < max 1 c then [f] else [] := by
  have hreported : reported [.reported f n] = [(f, n)] := rfl
  rw [fitting, hreported, List.filter_singleton, Bool.cond_decide]
  split <;> rfl

theorem reported_turn (s : Failures) (t : Turn η) :
    (reported [(s.turn t).1]).map (·.1) = t.report?.toList := by
  cases t with
  | finish t ending =>
    simp only [turn, Turn.report?]
    cases t.report? ending <;> rfl
  | _ => rfl

/-- The reports that are made are those of the traversals that end, one for each that fails. -/
theorem reported_turns (s : Failures) (ts : List (Turn η)) :
    (reported (s.turns ts).1).map (·.1) = ts.filterMap Turn.report? := by
  induction ts generalizing s with
  | nil => rfl
  | cons t ts ih =>
    calc (reported (s.turns (t :: ts)).1).map (·.1)
        = (reported [(s.turn t).1]).map (·.1) ++ (reported ((s.turn t).2.turns ts).1).map (·.1) := by
          rw [← List.map_append, ← reported_append]
          rfl
      _ = t.report?.toList ++ ts.filterMap Turn.report? := by rw [reported_turn, ih]
      _ = (t :: ts).filterMap Turn.report? := by cases h : t.report? <;> simp [h]

theorem Turn.isSome_report? (t : Turn η) : t.report?.isSome = t.isFailure := by
  cases t with
  | finish t ending => exact t.isSome_report? ending
  | _ => rfl

theorem length_reported_turns (s : Failures) (ts : List (Turn η)) :
    (reported (s.turns ts).1).length = ts.countP (·.isFailure) := by
  rw [← List.length_map (f := Prod.fst), reported_turns, List.length_filterMap_eq_countP]
  simp only [Turn.isSome_report?]

/-! ## Accounts -/

/-- What the state is after some events. -/
structure Accounts (c : Nat) (es : List Event) (s : Failures) : Prop where
  capacity : s.capacity = c
  total : s.total = (reported es).length
  length_le : s.queue.length ≤ max 1 c
  /-- As long as the receiver is there, nothing is lost that was reported when there was room. -/
  opened : .closed ∉ es → s.isOpen = true ∧ taken es ++ s.queue = fitting c es
  /-- When it has left, nothing is added. -/
  closed : ∀ before after, es = before ++ .closed :: after →
    s.isOpen = false ∧ taken es ++ s.queue <+: fitting c before
  /-- How many reports were waiting can be read from the events before. -/
  waiting : ∀ before f n after, es = before ++ .reported f n :: after → .closed ∉ before →
    n + (taken before).length = (fitting c before).length

namespace Accounts

theorem start (c : Nat) : Accounts c [] { capacity := c } where
  capacity := rfl
  total := rfl
  length_le := Nat.zero_le _
  opened _ := ⟨rfl, rfl⟩
  closed before after h := by simp at h
  waiting before f n after h := by simp at h

/-- What was received and what waits is a part of what fitted, as far as it came. -/
theorem isPrefix (h : Accounts c es s) : taken es ++ s.queue <+: fitting c es := by
  by_cases hclosed : .closed ∈ es
  · obtain ⟨before, after, rfl⟩ := List.append_of_mem hclosed
    rw [fitting_append]
    exact (h.closed before after rfl).2.trans (List.prefix_append ..)
  · exact (h.opened hclosed).2 ▸ List.prefix_rfl

/-- An event at the end of a list is the last one, or it is among those before. -/
theorem split_concat {es before after : List Event} {e e' : Event}
    (h : es ++ [e] = before ++ e' :: after) :
    (before = es ∧ e' = e) ∨ ∃ rest, after = rest ++ [e] ∧ es = before ++ e' :: rest := by
  rcases after.eq_nil_or_concat with rfl | ⟨rest, last, rfl⟩
  · obtain ⟨hes, he⟩ := List.append_inj' h rfl
    exact .inl ⟨hes.symm, (List.singleton_inj.1 he).symm⟩
  · rw [List.concat_eq_append, ← List.cons_append, ← List.append_assoc] at h
    obtain ⟨hes, he⟩ := List.append_inj' h rfl
    obtain rfl := List.singleton_inj.1 he
    exact .inr ⟨rest, List.concat_eq_append, hes⟩

/-- How many reports are waiting when the next event is a report. -/
theorem waiting_concat (h : Accounts c es s) (hwaiting : ∀ f n, e = .reported f n → n = s.queue.length)
    {before after : List Event} {f : NodeFailure} {n : Nat}
    (hsplit : es ++ [e] = before ++ .reported f n :: after) (hbefore : .closed ∉ before) :
    n + (taken before).length = (fitting c before).length := by
  rcases split_concat hsplit with ⟨rfl, he⟩ | ⟨rest, rfl, hes⟩
  · rw [hwaiting f n he.symm, ← (h.opened hbefore).2, List.length_append, Nat.add_comm]
  · exact h.waiting before f n rest hes hbefore

/-- An event after which the receiver is there if it was before. -/
theorem next (h : Accounts c es s) (he : e ≠ .closed) (hcapacity : s'.capacity = s.capacity)
    (htotal : s'.total = s.total + (reported [e]).length) (hopen : s'.isOpen = s.isOpen)
    (hlength : s'.queue.length ≤ max 1 c)
    (hqueue : taken [e] ++ s'.queue = s.queue ++ if s.isOpen then fitting c [e] else [])
    (hwaiting : ∀ f n, e = .reported f n → n = s.queue.length) : Accounts c (es ++ [e]) s' where
  capacity := hcapacity.trans h.capacity
  total := by rw [htotal, h.total, reported_append, List.length_append]
  length_le := hlength
  opened hes := by
    rw [List.mem_append, not_or] at hes
    obtain ⟨hisOpen, hsame⟩ := h.opened hes.1
    rw [hisOpen, if_pos rfl] at hqueue
    refine ⟨hopen.trans hisOpen, ?_⟩
    rw [taken_append, List.append_assoc, hqueue, ← List.append_assoc, hsame, fitting_append]
  closed before after hsplit := by
    rcases split_concat hsplit with ⟨-, hlast⟩ | ⟨rest, -, hes⟩
    · exact absurd hlast.symm he
    · obtain ⟨hisOpen, hpart⟩ := h.closed before rest hes
      rw [hisOpen, if_neg Bool.false_ne_true, List.append_nil] at hqueue
      refine ⟨hopen.trans hisOpen, ?_⟩
      rwa [taken_append, List.append_assoc, hqueue]
  waiting _ _ _ _ hsplit := h.waiting_concat hwaiting hsplit

/-- The receiver leaves, and perhaps something that waited for it is lost. -/
theorem leave (h : Accounts c es s) (hcapacity : s'.capacity = s.capacity) (htotal : s'.total = s.total)
    (hopen : s'.isOpen = false) (hqueue : s'.queue <+: s.queue) :
    Accounts c (es ++ [.closed]) s' where
  capacity := hcapacity.trans h.capacity
  total := by
    rw [htotal, h.total, reported_append]
    exact congrArg List.length (List.append_nil _).symm
  length_le := hqueue.length_le.trans h.length_le
  opened hes := by simp at hes
  closed before after hsplit := by
    refine ⟨hopen, ?_⟩
    have hpart : taken (es ++ [.closed]) ++ s'.queue <+: taken es ++ s.queue := by
      rw [taken_append, List.append_assoc]
      exact (List.prefix_append_right_inj _).2 hqueue
    rcases split_concat hsplit with ⟨rfl, -⟩ | ⟨rest, -, hes⟩
    · exact hpart.trans h.isPrefix
    · exact hpart.trans (h.closed before rest hes).2
  waiting _ _ _ _ hsplit := h.waiting_concat (by simp) hsplit

/-- A report is queued if there is room and somebody listens, and is counted anyway. -/
theorem report (h : Accounts c es s) (f : NodeFailure) :
    Accounts c (es ++ [.reported f s.queue.length]) (s.report f) := by
  have haccepts : s.accepts = (s.isOpen && decide (s.queue.length < max 1 c)) := by
    rw [accepts, room, h.capacity]
  refine h.next (by simp) rfl rfl rfl ?_ ?_ (by simp)
  · have hlength := h.length_le
    simp only [Failures.report, haccepts]
    split
    case isTrue hroom =>
      simp only [Bool.and_eq_true, decide_eq_true_eq] at hroom
      rw [List.length_append]
      exact hroom.2
    case isFalse => exact hlength
  · simp only [Failures.report, haccepts]
    rw [fitting_reported]
    cases s.isOpen with
    | false => exact (List.append_nil _).symm
    | true =>
      by_cases hroom : s.queue.length < max 1 c
      · simp only [hroom, decide_true, Bool.and_self, if_true]
        rfl
      · simp only [hroom, decide_false, Bool.and_false, if_true]
        exact (List.append_nil _).symm

theorem receive (h : Accounts c es s) :
    Accounts c (es ++ [.received s.receive.1]) s.receive.2 := by
  have hlength := h.length_le
  unfold Failures.receive
  cases hqueue : s.queue with
  | nil => exact h.next (by simp) rfl rfl rfl hlength (by simp [taken, fitting, reported, hqueue]) (by simp)
  | cons f rest =>
    rw [hqueue, List.length_cons] at hlength
    exact h.next (by simp) rfl rfl rfl (Nat.le_of_succ_le hlength)
      (by simp [taken, fitting, reported, hqueue]) (by simp)

theorem turn (h : Accounts c es s) (t : Turn η) :
    Accounts c (es ++ [(s.turn t).1]) (s.turn t).2 := by
  cases t with
  | finish t ending =>
    simp only [Failures.turn]
    cases t.report? ending with
    | none =>
      exact h.next (by simp) rfl rfl rfl h.length_le (by simp [taken, fitting, reported]) (by simp)
    | some f => exact h.report f
  | receive => exact h.receive
  | shut => exact h.leave rfl rfl rfl List.prefix_rfl
  | close => exact h.leave rfl rfl rfl List.nil_prefix

theorem turns (h : Accounts c es s) (ts : List (Turn η)) :
    Accounts c (es ++ (s.turns ts).1) (s.turns ts).2 := by
  induction ts generalizing es s with
  | nil => rwa [Failures.turns, List.append_nil]
  | cons t ts ih =>
    have hrest := ih (h.turn t)
    rwa [List.append_assoc] at hrest

end Accounts

end Failures

/-! ## Every run -/

/-- What an engine keeps of a traversal that has ended is a turn of its reports. -/
theorem Engine.failures_conclude (s : Engine ω η) (t : Traversal η) (r : Result Unit) :
    (s.conclude t r).failures = (s.failures.turn (.finish t (.answered r))).2 := by
  cases r <;> rfl

theorem Engine.failures_traverse (k : Catalogue ω η) (s : Engine ω η) (t : Traversal η) :
    (s.traverse k t).failures =
      (s.failures.turn (.finish t (.answered (t.target.receive k t.message s.journey).1))).2 := by
  rw [traverse_eq_conclude, failures_conclude]

namespace Failures

/-- After any turns the traversals that ended with an error or a panic are counted, each of them has made one
report and the others none. No more reports wait than there is room for. As long as the receiver is there, what
was received and what waits are the reports, in their order, without those that were made when there was no
room; as many were waiting as had found room and were not received. When the receiver has left, nothing is
added. What an engine does with a traversal that has ended is such a turn. -/
theorem accounts_turns (c : Nat) (ts : List (Turn η)) {es : List Event} {s : Failures}
    (h : turns { capacity := c } ts = (es, s)) :
    s.total = ts.countP (·.isFailure) ∧
    ((reported es).map (·.1) = ts.filterMap (·.report?) ∧ ∀ t ∈ ts, t.report?.isSome = t.isFailure) ∧
    s.queue.length ≤ max 1 c ∧
    (.closed ∉ es → taken es ++ s.queue = fitting c es) ∧
    (∀ before f n after, es = before ++ .reported f n :: after → .closed ∉ before →
      n + (taken before).length = (fitting c before).length) ∧
    (∀ before after, es = before ++ .closed :: after → taken es ++ s.queue <+: fitting c before) ∧
    ∀ (k : Catalogue ω η) (e : Engine ω η) (t : Traversal η), (e.traverse k t).failures =
      (e.failures.turn (.finish t (.answered (t.target.receive k t.message e.journey).1))).2 := by
  have hes : (turns { capacity := c } ts).1 = es := congrArg Prod.fst h
  have haccounts : Accounts c es s := by
    have hturns := (Accounts.start c).turns ts
    rwa [h] at hturns
  refine ⟨?_, ⟨hes ▸ reported_turns _ ts, fun t _ => t.isSome_report?⟩, haccounts.length_le,
    fun hopen => (haccounts.opened hopen).2, haccounts.waiting,
    fun before after hsplit => (haccounts.closed before after hsplit).2, Engine.failures_traverse⟩
  rw [haccounts.total, ← hes, length_reported_turns]

/-- A traversal of a chain without nodes. -/
def stray (id : String) : Traversal Unit where
  target := { id, name := "", channel := "", subTopic := "", debugMode := false,
              graph := { entry := "entry", nodes := .empty, adaptors := [] } }
  message := default

/-- There is room for one report. The second one is made while the first waits, the third when that was
received. -/
def crowded : List (Turn Unit) :=
  [.finish (stray "a") (.answered (.error (.nodeFailed "n" "log" "broken"))),
    .finish (stray "b") (.panicked none), .receive, .finish (stray "c") (.answered (.ok ())),
    .finish (stray "d") (.panicked (some "stuck"))]

/-- The same, and then the receiver goes before another report is made. -/
def deserted : List (Turn Unit) := crowded ++ [.close, .finish (stray "e") (.panicked none)]

/-- The reports that find room. -/
def lucky : List NodeFailure :=
  [⟨"a", "n", "log", default, "broken"⟩, ⟨"d", "entry", "", default, "panic: stuck"⟩]

theorem accounts_turns_crowded :
    (turns { capacity := 0 } crowded).2.total = 3 ∧
      taken (turns { capacity := 0 } crowded).1 ++ (turns { capacity := 0 } crowded).2.queue = lucky ∧
      (turns { capacity := 0 } deserted).2.total = 4 ∧
      taken (turns { capacity := 0 } deserted).1 ++ (turns { capacity := 0 } deserted).2.queue <+:
        lucky := by
  have hcrowded : turns { capacity := 0 } crowded =
    ((turns { capacity := 0 } crowded).1, (turns { capacity := 0 } crowded).2) := rfl
  have hdeserted : turns { capacity := 0 } deserted =
    ((turns { capacity := 0 } deserted).1, (turns { capacity := 0 } deserted).2) := rfl
  obtain ⟨htotal, -, -, hopen, -⟩ := accounts_turns (ω := Unit) 0 crowded hcrowded
  obtain ⟨htotal', -, -, -, -, hleft, -⟩ := accounts_turns (ω := Unit) 0 deserted hdeserted
  have hevents : (turns { capacity := 0 } deserted).1 = (turns { capacity := 0 } crowded).1 ++
      .closed :: [.reported ⟨"e", "entry", "", default, "panic: unknown"⟩ 0] := by
    decide +kernel
  have hfitting : fitting 0 (turns { capacity := 0 } crowded).1 = lucky := by decide +kernel
  rw [hfitting] at hopen
  exact ⟨htotal, hopen (by decide +kernel), htotal', hfitting ▸ hleft _ _ hevents⟩

end Failures

end RuleFlow
