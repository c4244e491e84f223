import RuleFlow.Script.Syntax
import RuleFlow.Script.Token

/-!
# From words to structure

`Stmt.ofScript` reads a script: statements up to the end of the text, a semicolon being optional before a
closing brace and at a line break. The grammar is read from left to right with one token of look-ahead;
binary operators climb by precedence. What cannot be read is told in one sentence about the next token.
-/

namespace RuleFlow.Script

/-- Reads from the front of a list of tokens, or says why it cannot. -/
abbrev Parse (α : Type) := List Token → Except String (α × List Token)

namespace Parse

/-- Whether the next token is a given mark. -/
def isMark (m : String) (ts : List Token) : Bool :=
  match ts with
  | t :: _ => t.kind = .mark m
  | [] => false

/-- Whether the next token is a given name. -/
def isName (s : String) (ts : List Token) : Bool :=
  match ts with
  | t :: _ => t.kind = .name s
  | [] => false

/-- Whether a statement may end before the next token without a semicolon. -/
def mayEnd (ts : List Token) : Bool :=
  match ts with
  | t :: _ => t.kind = .finish || t.kind = .mark "\x7d" || t.afterBreak
  | [] => true

/-- Whether no token is left but the end. -/
def atFinish (ts : List Token) : Bool :=
  match ts with
  | t :: _ => t.kind = .finish
  | [] => true

/-- Whether the next token stands on a new line. -/
def startsLine (ts : List Token) : Bool :=
  match ts with
  | t :: _ => t.afterBreak
  | [] => true

/-- Takes a mark that must come next. -/
def expect (m : String) (ts : List Token) : Except String (List Token) :=
  if isMark m ts then .ok (ts.drop 1) else .error ("expecting '" ++ m ++ "'")

/-- Takes the end of a statement. -/
def endStatement (ts : List Token) : Except String (List Token) :=
  if isMark ";" ts then .ok (ts.drop 1)
  else if mayEnd ts then .ok ts
  else .error "expecting ';'"

/-- The sentence about a token that starts no expression. -/
def unexpected {α : Type} (ts : List Token) : Except String α :=
  let text := match ts with
    | t :: _ => t.text
    | [] => "\x7d"
  .error ("unexpected token in expression: '" ++ text ++ "'")

/-- The words that are no names. -/
def reserved : List String :=
  ["break", "case", "catch", "class", "const", "continue", "debugger", "default", "delete", "do", "else",
    "enum", "export", "extends", "finally", "for", "function", "if", "import", "in", "instanceof", "new",
    "return", "super", "switch", "throw", "try", "typeof", "var", "void", "while", "with", "let", "static",
    "yield", "implements", "interface", "package", "private", "protected", "public"]

/-- The binary operators with their precedences. -/
def operators : List (String × Nat × BinaryOp) :=
  [("==", 3, .looseEq), ("!=", 3, .looseNe), ("===", 3, .strictEq), ("!==", 3, .strictNe),
    ("<", 4, .less), ("<=", 4, .lessEq), (">", 4, .greater), (">=", 4, .greaterEq),
    ("+", 5, .add), ("-", 5, .sub), ("*", 6, .mul), ("/", 6, .div), ("%", 6, .mod)]

/-- How two operands are joined by the next operator, and its precedence. -/
def operator? (ts : List Token) : Option (Nat × (Expr → Expr → Expr)) :=
  match ts with
  | t :: _ =>
    match t.kind with
    | .mark "||" => some (1, Expr.disjunction)
    | .mark "&&" => some (2, Expr.conjunction)
    | .mark m => (operators.lookup m).map fun (precedence, op) => (precedence, Expr.binary op)
    | _ => none
  | [] => none

/-- The operators that assign to their left operand after joining it with the right one. -/
def assigning : List (String × BinaryOp) :=
  [("+=", .add), ("-=", .sub), ("*=", .mul), ("/=", .div), ("%=", .mod)]

/-- The next operator of an assignment: plain or joined. -/
def assignment? (ts : List Token) : Option (Option BinaryOp) :=
  match ts with
  | t :: _ =>
    match t.kind with
    | .mark "=" => some none
    | .mark m => (assigning.lookup m).map some
    | _ => none
  | [] => none

/-- An assignment to what stands on its left. -/
def assign (target value : Expr) (op : Option BinaryOp) : Except String Expr :=
  let value := match op with
    | none => value
    | some op => .binary op target value
  match target with
  | .name s => .ok (.assignName s value)
  | .member e key => .ok (.assignMember e key value)
  | .index e key => .ok (.assignIndex e key value)
  | _ => .error "invalid assignment left-hand side"

/-- The units of a property name. -/
def keyOf? (t : Token) : Option (List UInt16) :=
  match t.kind with
  | .name s => some (Text.Units.ofString s)
  | .text units => some units
  | .number bits => some (Text.Units.ofString ((⟨21, -6, false⟩ : Layout).writeDouble bits))
  | _ => none

/-- The operator in front of an operand. -/
def unary? (ts : List Token) : Option UnaryOp :=
  match ts with
  | t :: _ =>
    match t.kind with
    | .mark "!" => some .not
    | .mark "-" => some .negate
    | .mark "+" => some .plus
    | .name "typeof" => some .typeOf
    | _ => none
  | [] => none

/-- Passes over the parameters and the body of a function; `open_` counts the braces that are open. -/
def skipFunction : Nat → List Token → Except String (List Token)
  | _, [] => .error "expecting '\x7d'"
  | open_, t :: ts =>
    if t.kind = .finish then .error "expecting '\x7d'"
    else if t.kind = .mark "\x7b" then skipFunction (open_ + 1) ts
    else if t.kind = .mark "\x7d" then if open_ ≤ 1 then .ok ts else skipFunction (open_ - 1) ts
    else skipFunction open_ ts

/-! ## Expressions -/

mutual

/-- Reads an expression. -/
def expression : Nat → Parse Expr
  | 0, ts => unexpected ts
  | fuel + 1, ts => do
    let (left, ts) ← conditional fuel ts
    match assignment? ts with
    | none => .ok (left, ts)
    | some op => do
      let (value, ts) ← expression fuel (ts.drop 1)
      .ok (← assign left value op, ts)

/-- Reads an expression that assigns nothing at its top. -/
def conditional : Nat → Parse Expr
  | 0, ts => unexpected ts
  | fuel + 1, ts => do
    let (condition, ts) ← operand fuel 1 ts
    if isMark "?" ts then
      let (yes, ts) ← expression fuel (ts.drop 1)
      let ts ← expect ":" ts
      let (no, ts) ← expression fuel ts
      .ok (.conditional condition yes no, ts)
    else .ok (condition, ts)

/-- Reads operands joined by operators of at least the given precedence. -/
def operand : Nat → Nat → Parse Expr
  | 0, _, ts => unexpected ts
  | fuel + 1, precedence, ts => do
    let (left, ts) ← prefixed fuel ts
    joined fuel precedence left ts

/-- Joins an operand with those that follow. -/
def joined : Nat → Nat → Expr → Parse Expr
  | 0, _, _, ts => unexpected ts
  | fuel + 1, precedence, left, ts =>
    match operator? ts with
    | none => .ok (left, ts)
    | some (p, join) =>
      if p < precedence then .ok (left, ts)
      else do
        let (right, ts) ← operand fuel (p + 1) (ts.drop 1)
        joined fuel precedence (join left right) ts

/-- Reads an operand with operators in front. -/
def prefixed : Nat → Parse Expr
  | 0, ts => unexpected ts
  | fuel + 1, ts =>
    match unary? ts with
    | some op => do
      let (e, ts) ← prefixed fuel (ts.drop 1)
      .ok (.unary op e, ts)
    | none => do
      let (e, ts) ← primary fuel ts
      followed fuel true e ts

/-- Reads the accesses and calls after an operand; `calls` says whether a call may come. -/
def followed : Nat → Bool → Expr → Parse Expr
  | 0, _, _, ts => unexpected ts
  | fuel + 1, calls, e, ts =>
    if isMark "." ts then
      match ts.drop 1 with
      | t :: more =>
        match t.kind with
        | .name s => followed fuel calls (.member e (Text.Units.ofString s)) more
        | _ => .error "expecting field name"
      | [] => .error "expecting field name"
    else if isMark "[" ts then do
      let (key, ts) ← expression fuel (ts.drop 1)
      let ts ← expect "]" ts
      followed fuel calls (.index e key) ts
    else if calls ∧ isMark "(" ts then do
      let (arguments, ts) ← items fuel ")" (ts.drop 1)
      followed fuel calls (.call e arguments) ts
    else .ok (e, ts)

/-- Reads expressions between commas up to a closing mark. -/
def items : Nat → String → Parse (List Expr)
  | 0, _, ts => unexpected ts
  | fuel + 1, close, ts =>
    if isMark close ts then .ok ([], ts.drop 1)
    else do
      let (e, ts) ← expression fuel ts
      if isMark "," ts then
        let (es, ts) ← items fuel close (ts.drop 1)
        .ok (e :: es, ts)
      else
        let ts ← expect close ts
        .ok ([e], ts)

/-- Reads the members of an object up to its closing brace. -/
def members : Nat → Parse (List (List UInt16 × Expr))
  | 0, ts => unexpected ts
  | fuel + 1, ts =>
    if isMark "\x7d" ts then .ok ([], ts.drop 1)
    else match ts with
      | [] => .error "invalid property name"
      | t :: more =>
        match keyOf? t with
        | none => .error "invalid property name"
        | some key => do
          let (e, ts) ←
            (match t.kind, isMark ":" more with
              | _, true => expression fuel (more.drop 1)
              | .name s, false => .ok (.name s, more)
              | _, false => .error "expecting ':'")
          if isMark "," ts then
            let (es, ts) ← members fuel (ts.drop 1)
            .ok ((key, e) :: es, ts)
          else
            let ts ← expect "\x7d" ts
            .ok ([(key, e)], ts)

/-- Reads an operand. -/
def primary : Nat → Parse Expr
  | 0, ts => unexpected ts
  | _, [] => unexpected []
  | fuel + 1, t :: ts =>
    match t.kind with
    | .number bits => .ok (.constant (.number bits), ts)
    | .text units => .ok (.constant (.text units), ts)
    | .mark "(" => do
      let (e, ts) ← expression fuel ts
      let ts ← expect ")" ts
      .ok (e, ts)
    | .mark "[" => do
      let (es, ts) ← items fuel "]" ts
      .ok (.array es, ts)
    | .mark "\x7b" => do
      let (es, ts) ← members fuel ts
      .ok (.object es, ts)
    | .name "null" => .ok (.constant .null, ts)
    | .name "true" => .ok (.constant (.bool true), ts)
    | .name "false" => .ok (.constant (.bool false), ts)
    | .name "function" => do
      let ts ← skipFunction 0 ts
      .ok (.function, ts)
    | .name "new" => do
      let (e, ts) ← primary fuel ts
      let (e, ts) ← followed fuel false e ts
      if isMark "(" ts then
        let (arguments, ts) ← items fuel ")" (ts.drop 1)
        .ok (.construct e arguments, ts)
      else .ok (.construct e [], ts)
    | .name s => if reserved.contains s then unexpected (t :: ts) else .ok (.name s, ts)
    | _ => unexpected (t :: ts)

end

/-! ## Statements -/

/-- How the next word declares variables. -/
def binding? (ts : List Token) : Option Binding :=
  if isName "var" ts then some .variable
  else if isName "let" ts then some .lexical
  else if isName "const" ts then some .fixed
  else none

/-- Reads declared variables between commas. -/
def declarations : Nat → Binding → Parse (List (String × Option Expr))
  | 0, _, ts => unexpected ts
  | fuel + 1, binding, ts =>
    match ts with
    | [] => .error "variable name expected"
    | t :: more =>
      match t.kind with
      | .name s =>
        if reserved.contains s then .error "variable name expected"
        else do
          let (value, ts) ← (if isMark "=" more then do
              let (e, ts) ← expression fuel (more.drop 1)
              .ok (some e, ts)
            else if binding = .fixed then .error "missing initializer for const variable"
            else .ok (none, more))
          if isMark "," ts then
            let (vs, ts) ← declarations fuel binding (ts.drop 1)
            .ok ((s, value) :: vs, ts)
          else .ok ([(s, value)], ts)
      | _ => .error "variable name expected"

mutual

/-- Reads a statement. -/
def statement : Nat → Parse Stmt
  | 0, ts => unexpected ts
  | fuel + 1, ts =>
    if isMark ";" ts then .ok (.empty, ts.drop 1)
    else if isMark "\x7b" ts then do
      let (body, ts) ← statements fuel (ts.drop 1)
      let ts ← expect "\x7d" ts
      .ok (.block body, ts)
    else if isName "return" ts then
      let ts := ts.drop 1
      if isMark ";" ts ∨ mayEnd ts then do
        let ts ← endStatement ts
        .ok (.result none, ts)
      else do
        let (e, ts) ← expression fuel ts
        let ts ← endStatement ts
        .ok (.result (some e), ts)
    else if isName "throw" ts then
      if startsLine (ts.drop 1) then .error "line terminator not allowed after throw"
      else do
        let (e, ts) ← expression fuel (ts.drop 1)
        let ts ← endStatement ts
        .ok (.raise e, ts)
    else if isName "if" ts then do
      let ts ← expect "(" (ts.drop 1)
      let (condition, ts) ← expression fuel ts
      let ts ← expect ")" ts
      let (yes, ts) ← statement fuel ts
      if isName "else" ts then
        let (no, ts) ← statement fuel (ts.drop 1)
        .ok (.branch condition yes (some no), ts)
      else .ok (.branch condition yes none, ts)
    else match binding? ts with
      | some binding => do
        let (vs, ts) ← declarations fuel binding (ts.drop 1)
        let ts ← endStatement ts
        .ok (.declare binding vs, ts)
      | none => do
        let (e, ts) ← expression fuel ts
        let ts ← endStatement ts
        .ok (.expression e, ts)

/-- Reads statements up to a closing brace or the end. -/
def statements : Nat → Parse (List Stmt)
  | 0, ts => unexpected ts
  | fuel + 1, ts =>
    if isMark "\x7d" ts ∨ atFinish ts then .ok ([], ts)
    else do
      let (s, ts) ← statement fuel ts
      let (ss, ts) ← statements fuel ts
      .ok (s :: ss, ts)

end

end Parse

/-- The statements of a script, or the reason why it is ill-formed. -/
def Stmt.ofScript (script : String) : Except String (List Stmt) := do
  let ts ← Token.scan script
  let (body, rest) ← Parse.statements (16 * ts.length + 16) ts
  if Parse.atFinish rest then .ok body else Parse.unexpected rest

end RuleFlow.Script
