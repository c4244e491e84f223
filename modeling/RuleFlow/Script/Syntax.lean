/-!
# The structure of a script

Expressions and statements. A script has no loops and calls no function of its own, so that running one
follows its structure.
-/

namespace RuleFlow.Script

/-- An operator with one operand. -/
inductive UnaryOp where
  | not
  | negate
  | plus
  | typeOf
  deriving DecidableEq

/-- An operator whose operands are both evaluated. -/
inductive BinaryOp where
  | add
  | sub
  | mul
  | div
  | mod
  | less
  | lessEq
  | greater
  | greaterEq
  | looseEq
  | looseNe
  | strictEq
  | strictNe
  deriving DecidableEq

/-- A constant. -/
inductive Constant where
  | null
  | bool (b : Bool)
  | number (bits : UInt64)
  | text (units : List UInt16)
  deriving DecidableEq

/-- An expression. -/
inductive Expr where
  | constant (c : Constant)
  | name (s : String)
  | array (items : List Expr)
  | object (members : List (List UInt16 × Expr))
  | member (e : Expr) (key : List UInt16)
  | index (e key : Expr)
  | call (callee : Expr) (arguments : List Expr)
  | construct (callee : Expr) (arguments : List Expr)
  | unary (op : UnaryOp) (e : Expr)
  | binary (op : BinaryOp) (left right : Expr)
  | conjunction (left right : Expr)
  | disjunction (left right : Expr)
  | conditional (condition yes no : Expr)
  | assignName (s : String) (value : Expr)
  | assignMember (e : Expr) (key : List UInt16) (value : Expr)
  | assignIndex (e key value : Expr)
  | function
  deriving Inhabited

/-- How a variable is declared. -/
inductive Binding where
  | variable
  | lexical
  | fixed
  deriving DecidableEq

/-- A statement. -/
inductive Stmt where
  | empty
  | expression (e : Expr)
  | declare (binding : Binding) (declared : List (String × Option Expr))
  | result (e : Option Expr)
  | raise (e : Expr)
  | branch (condition : Expr) (yes : Stmt) (no : Option Stmt)
  | block (body : List Stmt)
  deriving Inhabited

end RuleFlow.Script
