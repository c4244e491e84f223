import RuleFlow.Text.Split

/-!
# Subjects

Messages are published under a subject, a text of tokens between dots, and subscribed to by a pattern of
the same form: `*` stands for any token and `>` for one or more tokens up to the end.
-/

namespace RuleFlow.Subject

/-- Whether the tokens of a subject match those of a pattern. -/
def matchTokens : List String → List String → Bool
  | [], subject => subject.isEmpty
  | _ :: _, [] => false
  | p :: pattern, s :: subject =>
    if p = ">" then true
    else if p = "*" ∨ p = s then matchTokens pattern subject
    else false

/-- Whether a subject matches a pattern. -/
def isMatch (pattern subject : String) : Bool :=
  matchTokens (Text.pieces '.' pattern) (Text.pieces '.' subject)

end RuleFlow.Subject
