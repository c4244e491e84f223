import RuleFlow.Envelope
import RuleFlow.Subject

/-!
# Subjects that start in the same way

A text that starts with a word and a dot has this word as its first token, whatever comes after the dot
(`Text.pieces_append`). A pattern of a word and `>` matches all of these and nothing else
(`Subject.matchTokens_rest_iff`), so it matches the subject of every envelope (`Envelope.isMatch_subject`).
-/

namespace RuleFlow

namespace Text

/-- The first piece of a text ends at the first separator. -/
theorem pieces_append {sep : Char} {word : String} (h : sep ∉ word.toList) (rest : String) :
    pieces sep (word ++ String.singleton sep ++ rest) = word :: pieces sep rest := by
  have hsplit := splitOn_append sep word.toList rest.toList
  rw [splitOn_of_not_mem h] at hsplit
  simp [pieces, hsplit]

theorem pieces_ne_nil (sep : Char) (s : String) : pieces sep s ≠ [] := by
  simpa [pieces] using splitOn_ne_nil sep s.toList

end Text

namespace Subject

/-- A word and a rest match what begins with the word and goes on. -/
theorem matchTokens_rest_iff {word : String} (hone : word ≠ "*") (hrest : word ≠ ">")
    (tokens : List String) :
    matchTokens [word, ">"] tokens = true ↔ ∃ rest, rest ≠ [] ∧ tokens = word :: rest := by
  match tokens with
  | [] => simp [matchTokens]
  | token :: rest =>
    by_cases h : word = token
    · subst h
      cases rest <;> simp [matchTokens, hrest]
    · simp [matchTokens, hone, hrest, h, Ne.symm h]

end Subject

namespace Envelope

/-- What follows the first token of the subject of an envelope. -/
def place (e : Envelope) : String :=
  if e.subTopic = "" then e.channel else e.channel ++ "." ++ e.subTopic

/-- A subject is the root and then the place of the envelope. -/
theorem pieces_subject (e : Envelope) :
    Text.pieces '.' e.subject = subjectRoot :: Text.pieces '.' e.place := by
  rw [← Text.pieces_append (by decide)]
  unfold subject place
  split <;> simp [String.append_assoc, toString]

/-- The pattern for all channels matches the subject of every envelope, whatever signs it is made of. -/
theorem isMatch_subject (e : Envelope) : Subject.isMatch "channels.>" e.subject = true := by
  have hpattern : Text.pieces '.' "channels.>" = [subjectRoot, ">"] := by decide
  rw [Subject.isMatch, hpattern, Subject.matchTokens_rest_iff (by decide) (by decide)]
  exact ⟨_, Text.pieces_ne_nil '.' e.place, e.pieces_subject⟩

end Envelope

end RuleFlow
