import RuleFlow.Error
import RuleFlow.Text.Blank
import RuleFlow.Text.Letter
import RuleFlow.Text.Split

/-!
# Filters for the log

A filter is a list of directives between commas. A directive is a level, or a target with an optional level
after `=`; after the target there may be a span in brackets, which may name fields in braces. Only one log can
be installed, so a filter that is well formed is refused as well (`LogFilter.install`).
-/

namespace RuleFlow.LogFilter

/-- Why a filter is not well formed. -/
inductive Fault where
  | directive
  | level
  deriving DecidableEq

/-- The wording of a fault. -/
def Fault.message : Fault → String
  | .directive => "invalid filter directive"
  | .level =>
    "error parsing level filter: expected one of \"off\", \"error\", \"warn\", \"info\", \"debug\", " ++
      "\"trace\", or a number 0-5"

/-- The names of the levels. -/
def levels : List String := ["", "off", "error", "warn", "info", "debug", "trace"]

/-- Whether a text is a level: a name in any case or a number up to five. -/
def isLevel (cs : List Char) : Bool :=
  let ds := match cs with
    | '+' :: ds => ds
    | ds => ds
  levels.contains (String.ofList (cs.map Char.toLower)) ||
    (!ds.isEmpty && ds.all Char.isDigit && ds.foldl (fun n c => 10 * n + (c.toNat - 48)) 0 ≤ 5)

/-- Whether a target may start with a character. -/
def opensTarget (c : Char) : Bool := Text.isLetterOrDigit c || c ∈ ['-', ':', '_']

/-- The parts of a directive that its text goes through. -/
inductive Place where
  | start
  | target
  | span
  | field (isEmpty : Bool)
  | fields
  | spanEnd
  deriving DecidableEq

/-- Walks through a directive; what is left when a level is due, or nothing at the end. -/
def walk : Place → List Char → Except Fault (Option (List Char))
  | .target, [] | .spanEnd, [] => .ok none
  | _, [] => .error .directive
  | .start, c :: cs =>
    if c = '[' then walk .span cs
    else if opensTarget c then walk .target cs
    else .error .directive
  | .target, c :: cs =>
    if c = '=' then .ok (some cs) else if c = '[' then walk .span cs else walk .target cs
  | .span, c :: cs =>
    if c = ']' then walk .spanEnd cs else if c = '{' then walk (.field true) cs else walk .span cs
  | .field isEmpty, c :: cs =>
    if c = '}' then (if isEmpty then .error .directive else walk .fields cs) else walk (.field false) cs
  | .fields, c :: cs => if c = ']' then walk .spanEnd cs else .error .directive
  | .spanEnd, c :: cs => if c = '=' then .ok (some cs) else .error .directive

/-- Checks a directive. The blanks around it are skipped on the walk, while a level is the part of the whole
text that starts as far from its start as the level from the start of the walk. -/
def checkDirective (cs : List Char) : Except Fault Unit :=
  let inner := Text.trim cs
  match walk .start inner with
  | .error fault => .error fault
  | .ok none => .ok ()
  | .ok (some level) =>
    if isLevel (cs.drop (inner.length - level.length)) then .ok () else .error .level

/-- Checks a filter; the first directive that is not well formed counts. -/
def check (filter : String) : Except Fault Unit :=
  ((Text.splitOn ',' filter.toList).filter (!·.isEmpty)).forM checkDirective

/-- Installs a log. There is one already. -/
def install (filter : String) : Result Unit :=
  match check filter with
  | .error fault => .error (.settings (.logFilter filter fault.message))
  | .ok () => .error (.settings .logInstalled)

end RuleFlow.LogFilter
