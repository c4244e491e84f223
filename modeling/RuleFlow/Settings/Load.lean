import RuleFlow.Error
import RuleFlow.Settings.Environment

/-!
# Loading settings

`Settings.load` puts the settings together: the variables of the environment go before a file, the file before
the defaults. What results must be usable.
-/

namespace RuleFlow.Settings

/-- What a file gives; a file that is not there gives nothing. -/
def fromFile : Option String → Option (Table Given)
  | none => some .empty
  | some text => (Toml.parse text).map Given.ofDocument

/-- The settings from a file and the variables of the environment. -/
def load (file : Option String) (environment : List (String × String)) : Result Settings :=
  match (fromFile file).bind fun g => Settings.given (g.extend (Environment.settings environment)) with
  | none => .error (.settings .unreadable)
  | some s =>
    match s.validate with
    | .ok () => .ok s
    | .error fault => .error (.settings (.invalid fault))

end RuleFlow.Settings
