/-!
# Values and tables of TOML

A document is a table. A table remembers how it came about, because that decides whether it may be extended:
one that is written in a header or between braces is complete, one that only stands on the way to another may
still get a header, one that is made by a key with dots may get more such keys.

`Entries.put` adds the value of a key with dots, `Entries.openTable` enters a header and
`Entries.appendTable` the header of one more table of an array; each refuses what would define something
twice.
-/

namespace RuleFlow.Toml

/-- How a table came about. -/
inductive Form where
  | braces
  | header
  | passage
  | dotted
  deriving DecidableEq

/-- The values of a document. Times are kept as they are written, and so are floating-point numbers. -/
inductive Value where
  | string (s : String)
  | integer (n : Int)
  | float (written : String)
  | bool (b : Bool)
  | time (written : String)
  | array (items : List Value)
  | table (form : Form) (entries : List (String × Value))
  | tables (items : List (List (String × Value)))

/-- The entries of a table. -/
abbrev Entries := List (String × Value)

namespace Entries

/-- Puts a value in the place of the one under a key. -/
def replace (key : String) (v : Value) (es : Entries) : Entries :=
  es.map fun e => if e.1 = key then (key, v) else e

/-- Adds the value of a key with dots. -/
def put : List String → Value → Entries → Option Entries
  | [], _, _ => none
  | [key], v, es =>
    match es.lookup key with
    | none => some (es ++ [(key, v)])
    | some _ => none
  | key :: next :: path, v, es =>
    match es.lookup key with
    | none => (put (next :: path) v []).map fun inner => es ++ [(key, .table .dotted inner)]
    | some (.table form inner) =>
      if form = .dotted ∨ (form = .passage ∧ path ≠ []) then
        (put (next :: path) v inner).map fun inner => es.replace key (.table form inner)
      else none
    | some _ => none

/-- Changes the entries of the last table of an array. -/
def changeLast (f : Entries → Option Entries) : List Entries → Option (List Entries)
  | [] => none
  | [es] => (f es).map ([·])
  | es :: next :: rest => (changeLast f (next :: rest)).map (es :: ·)

/-- Changes the entries of the table that a path leads to; of an array of tables it leads to the last. -/
def change (f : Entries → Option Entries) : List String → Entries → Option Entries
  | [], es => f es
  | key :: path, es =>
    match es.lookup key with
    | none => (change f path []).map fun inner => es ++ [(key, .table .passage inner)]
    | some (.table .braces _) => none
    | some (.table form inner) => (change f path inner).map fun inner => es.replace key (.table form inner)
    | some (.tables items) => (changeLast (change f path) items).map fun items => es.replace key (.tables items)
    | some _ => none

/-- Enters the last key of a header. -/
def enter (key : String) (es : Entries) : Option Entries :=
  match es.lookup key with
  | none => some (es ++ [(key, .table .header [])])
  | some (.table .passage inner) => some (es.replace key (.table .header inner))
  | some _ => none

/-- Enters the last key of the header of one more table of an array. -/
def enterNext (key : String) (es : Entries) : Option Entries :=
  match es.lookup key with
  | none => some (es ++ [(key, .tables [[]])])
  | some (.tables items) => some (es.replace key (.tables (items ++ [[]])))
  | some _ => none

/-- Enters a header. -/
def openTable (path : List String) (es : Entries) : Option Entries :=
  path.getLast?.bind fun key => es.change (enter key) path.dropLast

/-- Enters the header of one more table of an array. -/
def appendTable (path : List String) (es : Entries) : Option Entries :=
  path.getLast?.bind fun key => es.change (enterNext key) path.dropLast

end Entries

end RuleFlow.Toml
