import RuleFlow.Proofs.Subject

/-!
# Which subjects a pattern matches

A text has one sequence of tokens (`Subject.Tokens`, `Subject.tokens_iff`). A pattern is compared with a
subject place by place (`Subject.FitsAt`): up to its first token `>`, behind which anything follows but
something must, or else to the end of both (`Subject.isMatch_iff_of_tokens`).
-/

namespace RuleFlow

namespace Text

theorem intercalate_eq_joinWith (sep : Char) (pieces : List (List Char)) :
    [sep].intercalate pieces = joinWith sep pieces := by
  induction pieces with
  | nil => rfl
  | cons piece pieces ih =>
    cases pieces with
    | nil => simp [joinWith]
    | cons next pieces => rw [joinWith, ← ih, List.intercalate_cons_cons, List.append_assoc]; rfl

end Text

namespace Subject

/-- The tokens of a text: at least one, none with a dot in it, and the text is made of them with dots
between. -/
structure Tokens (text : String) (tokens : List String) : Prop where
  ne_nil : tokens ≠ []
  dotless : ∀ token ∈ tokens, '.' ∉ token.toList
  joined : ".".intercalate tokens = text

/-- Tokens without dots are the pieces of their join. -/
theorem pieces_intercalate {tokens : List String} (hne : tokens ≠ [])
    (hdotless : ∀ token ∈ tokens, '.' ∉ token.toList) :
    Text.pieces '.' (".".intercalate tokens) = tokens := by
  induction tokens with
  | nil => exact absurd rfl hne
  | cons token tokens ih =>
    obtain ⟨htoken, htokens⟩ := List.forall_mem_cons.1 hdotless
    cases tokens with
    | nil => simp [Text.pieces, Text.splitOn_of_not_mem htoken]
    | cons next tokens =>
      have hpieces := Text.pieces_append htoken (".".intercalate (next :: tokens))
      rw [ih (by simp) htokens] at hpieces
      rwa [String.intercalate_cons_cons]

theorem tokens_pieces (text : String) : Tokens text (Text.pieces '.' text) where
  ne_nil := Text.pieces_ne_nil '.' text
  dotless token htoken := by
    obtain ⟨piece, hpiece, rfl⟩ := List.mem_map.1 htoken
    rw [String.toList_ofList]
    exact Text.not_mem_of_mem_splitOn hpiece
  joined := by
    have hpieces : (Text.pieces '.' text).map String.toList = Text.splitOn '.' text.toList := by
      simp [Text.pieces, Function.comp_def]
    have hdot : ".".toList = ['.'] := by simp
    rw [← String.toList_inj, String.toList_intercalate, hpieces, hdot, Text.intercalate_eq_joinWith,
      Text.joinWith_splitOn]

/-- A text has exactly one sequence of tokens. -/
theorem tokens_iff {text : String} {tokens : List String} :
    Tokens text tokens ↔ tokens = Text.pieces '.' text := by
  constructor
  · rintro ⟨hne, hdotless, rfl⟩
    exact (pieces_intercalate hne hdotless).symm
  · rintro rfl
    exact tokens_pieces text

/-! ## Matching place by place -/

/-- At some place a pattern has a star or the token of the subject. -/
def FitsAt (pattern subject : List String) (i : Nat) : Prop :=
  pattern[i]? = some "*" ∨ pattern[i]? = subject[i]?

instance (pattern subject : List String) (i : Nat) : Decidable (FitsAt pattern subject i) :=
  inferInstanceAs (Decidable (_ ∨ _))

/-- The first token fits if the pattern has a star there or the token itself. -/
theorem fitsAt_zero {p s : String} {pattern subject : List String} :
    FitsAt (p :: pattern) (s :: subject) 0 ↔ p = "*" ∨ p = s := by
  simp [FitsAt]

/-- A later token fits as it does without the first one. -/
theorem fitsAt_succ {p s : String} {pattern subject : List String} {i : Nat} :
    FitsAt (p :: pattern) (s :: subject) (i + 1) ↔ FitsAt pattern subject i := by
  simp [FitsAt]

/-- A token of the pattern that is not `>` has to fit, and then so does the rest. -/
theorem matchTokens_cons {p s : String} {pattern subject : List String} (hp : p ≠ ">") :
    matchTokens (p :: pattern) (s :: subject) = true ↔
      FitsAt (p :: pattern) (s :: subject) 0 ∧ matchTokens pattern subject = true := by
  rw [matchTokens, if_neg hp, fitsAt_zero]
  split <;> simp_all

/-- Up to the first `>`: the tokens before it have to fit, and there have to be more. -/
theorem matchTokens_of_rest {pattern subject : List String} {k : Nat} (hk : pattern[k]? = some ">")
    (hfirst : ">" ∉ pattern.take k) :
    matchTokens pattern subject = true ↔ k < subject.length ∧ ∀ i < k, FitsAt pattern subject i := by
  induction k generalizing pattern subject with
  | zero =>
    obtain ⟨pattern, rfl⟩ : ∃ rest, pattern = ">" :: rest := by
      cases pattern <;> simp_all
    cases subject <;> simp [matchTokens]
  | succ k ih =>
    cases pattern with
    | nil => simp at hk
    | cons p pattern =>
      rw [List.take_succ_cons, List.mem_cons, not_or] at hfirst
      cases subject with
      | nil => simp [matchTokens]
      | cons s subject =>
        rw [matchTokens_cons (Ne.symm hfirst.1), ih (by simpa using hk) hfirst.2, List.length_cons,
          Nat.forall_lt_succ_left, Nat.add_lt_add_iff_right]
        simp only [fitsAt_succ]
        exact and_left_comm

/-- Without a `>`: there have to be as many tokens, and all have to fit. -/
theorem matchTokens_of_not_mem {pattern subject : List String} (h : ">" ∉ pattern) :
    matchTokens pattern subject = true ↔
      pattern.length = subject.length ∧ ∀ i < pattern.length, FitsAt pattern subject i := by
  induction pattern generalizing subject with
  | nil => cases subject <;> simp [matchTokens]
  | cons p pattern ih =>
    rw [List.mem_cons, not_or] at h
    cases subject with
    | nil => simp [matchTokens]
    | cons s subject =>
      rw [matchTokens_cons (Ne.symm h.1), ih h.2, List.length_cons, List.length_cons,
        Nat.forall_lt_succ_left, Nat.add_right_cancel_iff]
      simp only [fitsAt_succ]
      exact and_left_comm

/-- A pattern whose first `>` is its token number `k`, counted from zero, matches the subjects that have more
than `k` tokens of which the first `k` are those of the pattern, where a star stands for any token. A pattern
without `>` matches the subjects with as many tokens that are all those of the pattern or stood for by a
star. -/
theorem isMatch_iff_of_tokens {pattern subject : String} {ps ss : List String} (hps : Tokens pattern ps)
    (hss : Tokens subject ss) :
    (∀ k, ps[k]? = some ">" → ">" ∉ ps.take k →
      (isMatch pattern subject = true ↔ k < ss.length ∧ ∀ i < k, FitsAt ps ss i)) ∧
    (">" ∉ ps →
      (isMatch pattern subject = true ↔ ps.length = ss.length ∧ ∀ i < ps.length, FitsAt ps ss i)) := by
  rw [isMatch, ← tokens_iff.1 hps, ← tokens_iff.1 hss]
  exact ⟨fun k hk hfirst => matchTokens_of_rest hk hfirst, matchTokens_of_not_mem⟩

/-- A rest in the middle of a pattern, empty tokens, and wildcards in subjects, which stand for themselves. -/
theorem isMatch_awkward :
    Tokens ".*.>.x" ["", "*", ">", "x"] ∧ Tokens ".>.y" ["", ">", "y"] ∧ Tokens ".>" ["", ">"] ∧
      Tokens ".*" ["", "*"] ∧ isMatch ".*.>.x" ".>.y" = true ∧ isMatch ".*.>.x" ".>" = false ∧
      isMatch ".*" ".>" = true ∧ isMatch ".>" ".*" = true ∧ isMatch ".*" ".>.y" = false := by
  have hmiddle : Tokens ".*.>.x" ["", "*", ">", "x"] := tokens_iff.2 (by decide)
  have hthree : Tokens ".>.y" ["", ">", "y"] := tokens_iff.2 (by decide)
  have hrest : Tokens ".>" ["", ">"] := tokens_iff.2 (by decide)
  have hstar : Tokens ".*" ["", "*"] := tokens_iff.2 (by decide)
  refine ⟨hmiddle, hthree, hrest, hstar, ?_, ?_, ?_, ?_, ?_⟩
  · exact ((isMatch_iff_of_tokens hmiddle hthree).1 2 rfl (by decide)).2 (by decide)
  · exact Bool.eq_false_iff.2 (mt ((isMatch_iff_of_tokens hmiddle hrest).1 2 rfl (by decide)).1 (by decide))
  · exact ((isMatch_iff_of_tokens hstar hrest).2 (by decide)).2 (by decide)
  · exact ((isMatch_iff_of_tokens hrest hstar).1 1 rfl (by decide)).2 (by decide)
  · exact Bool.eq_false_iff.2 (mt ((isMatch_iff_of_tokens hstar hthree).2 (by decide)).1 (by decide))

end Subject

end RuleFlow
