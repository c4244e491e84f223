import RuleFlow.Json.Reader

/-!
# Records from JSON

A `Decoder` reads a type from text, with faults at their place, and from a value, with causes only. The
base decoders read strings, truth values, whole numbers in a range, identifiers and names out of a list;
`Decoder.list`, `Decoder.option` and `Decoder.stringMap` build on others.

`Decoder.record` reads a record from an object or from an array of its fields in order. It starts from a
blank record, which holds the defaults; a field that is not `required` may be missing. Unknown members are
passed over. In text a repeated member is a fault.
-/

namespace RuleFlow.Json

/-- A type that can be read from text and from a value. Reading text takes a bound on the number of items
and the depth that is left. -/
structure Decoder (α : Type) where
  ofText : Nat → Nat → Reader α
  ofValue : Value → Except Cause α

namespace Decoder

variable {α β ρ : Type}

/-- Applies a function to what was read. -/
def map (f : α → β) (d : Decoder α) : Decoder β where
  ofText fuel depth text := do
    let (a, rest) ← d.ofText fuel depth text
    .ok (f a, rest)
  ofValue v := (d.ofValue v).map f

/-- Refuses what starts here, naming it. -/
def mismatchAt (wanted : Wanted) (text : List UInt8) : Except Fault α :=
  match text with
  | [] => failNext .valueEnds []
  | b :: rest =>
    if b = 0x6E then do
      let rest ← readLiteral nullTail rest
      failAt (.mismatch .null wanted) rest
    else if b = 0x74 then do
      let rest ← readLiteral trueTail rest
      failAt (.mismatch (.bool true) wanted) rest
    else if b = 0x66 then do
      let rest ← readLiteral falseTail rest
      failAt (.mismatch (.bool false) wanted) rest
    else if b = 0x2D then do
      let (n, rest) ← readNumber true rest
      failAt (.mismatch (.number n) wanted) rest
    else if isDigitByte b then do
      let (n, rest) ← readNumber false (b :: rest)
      failAt (.mismatch (.number n) wanted) rest
    else if b = 0x22 then do
      let (s, rest) ← readString rest
      failAt (.mismatch (.string s) wanted) rest
    else if b = 0x5B then failAt (.mismatch .array wanted) (b :: rest)
    else if b = 0x7B then failAt (.mismatch .object wanted) (b :: rest)
    else failNext .value (b :: rest)

/-! ## Decoders of values -/

/-- Any value. -/
def any : Decoder Value where
  ofText fuel depth text := readValue fuel depth text
  ofValue v := .ok v

/-- A string; `wanted` words the mismatch. -/
def stringAs (wanted : Wanted) : Decoder String where
  ofText _ _ text :=
    match skipBlanks text with
    | 0x22 :: rest => readString rest
    | rest => mismatchAt wanted rest
  ofValue
    | .string s => .ok s
    | v => .error (.mismatch v.found wanted)

/-- A string. -/
def string : Decoder String := stringAs .string

/-- A truth value. -/
def bool : Decoder Bool where
  ofText _ _ text :=
    match skipBlanks text with
    | 0x74 :: rest => do .ok (true, ← readLiteral trueTail rest)
    | 0x66 :: rest => do .ok (false, ← readLiteral falseTail rest)
    | rest => mismatchAt .boolean rest
  ofValue
    | .bool b => .ok b
    | v => .error (.mismatch v.found .boolean)

/-- Whether a number is a whole number from `low` to `high`. -/
def inRange (kind : String) (low high : Int) (n : Number) : Except Cause Int :=
  match n with
  | .int i => if low ≤ i ∧ i ≤ high then .ok i else .error (.unsuitable (.number n) (.integer kind))
  | .double _ => .error (.mismatch (.number n) (.integer kind))

/-- A whole number from `low` to `high`. -/
def integer (kind : String) (low high : Int) : Decoder Int where
  ofText _ _ text :=
    let finish : Number × List UInt8 → Except Fault (Int × List UInt8) := fun (n, rest) =>
      match inRange kind low high n with
      | .ok i => .ok (i, rest)
      | .error cause => failAt cause rest
    match skipBlanks text with
    | [] => failNext .valueEnds []
    | b :: rest =>
      if b = 0x2D then do finish (← readNumber true rest)
      else if isDigitByte b then do finish (← readNumber false (b :: rest))
      else mismatchAt (.integer kind) (b :: rest)
  ofValue
    | .number n => inRange kind low high n
    | v => .error (.mismatch v.found (.integer kind))

/-- A natural number of eight bits. -/
def byte : Decoder UInt8 := (integer "u8" 0 255).map fun i => UInt8.ofNat i.toNat

/-- A natural number of 64 bits. -/
def nat64 : Decoder Nat := (integer "u64" 0 (Int.pow 2 64 - 1)).map Int.toNat

/-- A natural number that counts things in memory. -/
def size : Decoder Nat := (integer "usize" 0 (Int.pow 2 64 - 1)).map Int.toNat

/-- A whole number of 64 bits. -/
def int64 : Decoder Int := integer "i64" (-Int.pow 2 63) (Int.pow 2 63 - 1)

/-- An identifier. -/
def uuid : Decoder Uuid where
  ofText fuel depth text := do
    let (s, rest) ← (stringAs .identifier).ofText fuel depth text
    match Uuid.parse s with
    | .ok u => .ok (u, rest)
    | .error f => failAt (.identifier f) rest
  ofValue v := do
    let s ← (stringAs .identifier).ofValue v
    (Uuid.parse s).mapError .identifier

/-- Null, as the content of a variant without content. -/
def unit : Decoder Unit where
  ofText _ _ text :=
    match skipBlanks text with
    | 0x6E :: rest => do .ok ((), ← readLiteral nullTail rest)
    | rest => mismatchAt .unit rest
  ofValue
    | .null => .ok ()
    | v => .error (.mismatch v.found .unit)

/-- The variant of a name. -/
def variantOf (variants : List (String × α)) (name : String) : Except Cause α :=
  match variants.lookup name with
  | some a => .ok a
  | none => .error (.unknownVariant name (variants.map (·.1)))

/-- One of several names, alone or as the only key of an object whose value is null. -/
def variant (variants : List (String × α)) : Decoder α where
  ofText fuel depth text :=
    let name : Reader α := fun text => do
      let (s, rest) ← (stringAs .variant).ofText fuel depth text
      match variantOf variants s with
      | .ok a => .ok (a, rest)
      | .error cause => failAt cause rest
    match skipBlanks text with
    | [] => failNext .valueEnds []
    | b :: rest =>
      if b = 0x22 then name (b :: rest)
      else if b = 0x7B then
        if depth = 0 then failNext .depth (b :: rest)
        else do
          let (a, rest) ← name rest
          let rest ← readColon rest
          let ((), rest) ← unit.ofText fuel depth rest
          match skipBlanks rest with
          | [] => failAt .objectEnds []
          | c :: more => if c = 0x7D then .ok (a, more) else failAt .value (c :: more)
      else failNext .value (b :: rest)
  ofValue
    | .string s => variantOf variants s
    | .object [(s, v)] => do
      let a ← variantOf variants s
      let () ← unit.ofValue v
      .ok a
    | .object _ => .error (.unsuitable .object .singleKeyMap)
    | v => .error (.mismatch v.found .stringOrMap)

/-- Null or a value. -/
def option (d : Decoder α) : Decoder (Option α) where
  ofText fuel depth text :=
    match skipBlanks text with
    | 0x6E :: rest => do .ok (none, ← readLiteral nullTail rest)
    | rest => (d.map some).ofText fuel depth rest
  ofValue
    | .null => .ok none
    | v => (d.ofValue v).map some

/-- An array. -/
def list (d : Decoder α) : Decoder (List α) where
  ofText fuel depth text :=
    match skipBlanks text with
    | [] => failNext .valueEnds []
    | b :: rest =>
      if b = 0x5B then
        match depth with
        | 0 => failNext .depth (b :: rest)
        | depth + 1 => do
          let (items, rest) ← foldItems
            (fun acc text => do
              let (a, rest) ← d.ofText fuel depth text
              .ok (a :: acc, rest)) fuel true [] rest
          let rest ← closeArray rest
          .ok (items.reverse, rest)
      else mismatchAt .sequence (b :: rest)
  ofValue
    | .array items => items.mapM d.ofValue
    | v => .error (.mismatch v.found .sequence)

/-- An object whose values are strings. -/
def stringMap : Decoder (Table String) where
  ofText fuel depth text :=
    match skipBlanks text with
    | [] => failNext .valueEnds []
    | b :: rest =>
      if b = 0x7B then
        match depth with
        | 0 => failNext .depth (b :: rest)
        | depth + 1 => do
          let (entries, rest) ← foldMembers
            (fun key acc text => do
              let text ← readColon text
              let (s, rest) ← string.ofText fuel depth text
              .ok (acc.insert key s, rest)) fuel true Table.empty rest
          let rest ← closeObject rest
          .ok (entries, rest)
      else mismatchAt .map (b :: rest)
  ofValue
    | .object ms => ms.foldlM
      (fun acc (k, v) => do .ok (Table.insert acc k (← string.ofValue v))) Table.empty
    | v => .error (.mismatch v.found .map)

/-! ## Records -/

/-- A field of a record: its name, whether it must be there, and how its content changes the record. -/
structure Field (ρ : Type) where
  name : String
  required : Bool
  decoder : Decoder (ρ → ρ)

/-- A field that must be there. -/
def Field.mandatory (name : String) (d : Decoder α) (put : α → ρ → ρ) : Field ρ :=
  ⟨name, true, d.map put⟩

/-- A field that keeps its default if it is not there. -/
def Field.optional (name : String) (d : Decoder α) (put : α → ρ → ρ) : Field ρ :=
  ⟨name, false, d.map put⟩

/-- The first field that must be there and is not among the names seen. -/
def firstMissing? (fields : List (Field ρ)) (seen : List String) : Option String :=
  (fields.find? fun f => f.required && f.name ∉ seen).map (·.name)

/-- The text after an object that is left before its end. -/
def leaveObject (text : List UInt8) : List UInt8 :=
  match skipBlanks text with
  | 0x7D :: rest => rest
  | rest => rest

/-- Reads one member of a record and notes its name. -/
def readMember (fields : List (Field ρ)) (fuel depth : Nat) (key : String) (draft : ρ × List String) :
    Reader (ρ × List String) := fun text =>
  match fields.find? (·.name = key) with
  | none => do
    let text ← readColon text
    .ok (draft, ← skipValue fuel text)
  | some f =>
    if key ∈ draft.2 then failAt (.duplicateField key) (leaveObject text)
    else do
      let text ← readColon text
      let (put, rest) ← f.decoder.ofText fuel depth text
      .ok ((put draft.1, key :: draft.2), rest)

/-- Reads the fields of a record in order from the items of an array. -/
def readFields (short : Nat → Cause) (fuel depth : Nat) : Nat → Bool → List (Field ρ) → ρ → Reader ρ
  | _, _, [], draft, text => .ok (draft, text)
  | i, first, f :: fields, draft, text => do
    match ← nextItem first text with
    | (true, rest) => do
      let (put, rest) ← f.decoder.ofText fuel depth rest
      readFields short fuel depth (i + 1) false fields (put draft) rest
    | (false, rest) =>
      match (f :: fields).findIdx? (·.required) with
      | some k => failAt (short (i + k)) (rest.drop 1)
      | none => .ok (draft, rest)

/-- Decodes the fields of a record in order from a list of values. -/
def fieldsOfItems (short : Nat → Cause) : Nat → List (Field ρ) → ρ → List Value → Except Cause (ρ × List Value)
  | _, [], draft, items => .ok (draft, items)
  | i, f :: fields, draft, v :: items => do
    let put ← f.decoder.ofValue v
    fieldsOfItems short (i + 1) fields (put draft) items
  | i, f :: fields, draft, [] =>
    match (f :: fields).findIdx? (·.required) with
    | some k => .error (short (i + k))
    | none => .ok (draft, [])

/-- Decodes one member of a record and notes its name. -/
def memberOfValue (fields : List (Field ρ)) (draft : ρ × List String) (m : String × Value) :
    Except Cause (ρ × List String) :=
  match fields.find? (·.name = m.1) with
  | none => .ok draft
  | some f =>
    if m.1 ∈ draft.2 then .error (.duplicateField m.1)
    else do
      let put ← f.decoder.ofValue m.2
      .ok (put draft.1, m.1 :: draft.2)

/-- A record of the given name, starting from its defaults. -/
def record (name : String) (blank : ρ) (fields : List (Field ρ)) : Decoder ρ where
  ofText fuel depth text :=
    match skipBlanks text with
    | [] => failNext .valueEnds []
    | b :: rest =>
      if b = 0x5B then
        match depth with
        | 0 => failNext .depth (b :: rest)
        | depth + 1 => do
          let short := fun i => Cause.length i (.recordOf name fields.length)
          let (r, rest) ← readFields short fuel depth 0 true fields blank rest
          let rest ← closeArray rest
          .ok (r, rest)
      else if b = 0x7B then
        match depth with
        | 0 => failNext .depth (b :: rest)
        | depth + 1 => do
          let ((r, seen), rest) ← foldMembers (readMember fields fuel depth) fuel true (blank, []) rest
          match firstMissing? fields seen with
          | some field => failAt (.missingField field) (rest.drop 1)
          | none => do
            let rest ← closeObject rest
            .ok (r, rest)
      else mismatchAt (.record name) (b :: rest)
  ofValue
    | .array items => do
      let short := fun i => Cause.length i (.recordOf name fields.length)
      let (r, rest) ← fieldsOfItems short 0 fields blank items
      if rest.isEmpty then .ok r else .error (.length items.length .fewerElements)
    | .object ms => do
      let (r, seen) ← ms.foldlM (memberOfValue fields) (blank, [])
      match firstMissing? fields seen with
      | some field => .error (.missingField field)
      | none => .ok r
    | v => .error (.mismatch v.found (.record name))

/-- Reads a whole text. -/
def parse (d : Decoder α) (text : List UInt8) : Except Error α :=
  parseWith (fun fuel => d.ofText fuel maxDepth) text

end Decoder

end RuleFlow.Json
