/-
  LoxLang.Tree.Basic
  ──────────────────
  **Programs as trees.**  Expressions and statements, with the line of each node
  that an error may blame.  A node that names a variable holds a `Ref`, in which
  scope resolution notes the slot of a local variable.
-/

namespace LoxLang

/-! ## §1. Leaves and operators. -/

/-- The value of a literal. -/
inductive Literal where
  | nil
  | bool (b : Bool)
  | number (x : Float)
  | string (s : String)
  deriving DecidableEq

/-- Operators that may leave their right operand alone. -/
inductive Connective where
  | or | and
  deriving DecidableEq, Repr

/-- Comparisons of two numbers. -/
inductive Comparison where
  | notEqual | equal | greater | greaterEqual | less | lessEqual
  deriving DecidableEq, Repr

/-- Operators that make a number of two numbers, and of nothing else. -/
inductive Arithmetic where
  | subtract | divide | multiply
  deriving DecidableEq, Repr

/-- Operators that need the values of both operands. -/
inductive StrictOp where
  /-- The sum of two numbers, or two strings put together. -/
  | add
  | comparison (c : Comparison)
  | arithmetic (a : Arithmetic)
  deriving DecidableEq, Repr

/-- Operators between two operands. -/
inductive BinaryOp where
  | connective (c : Connective)
  | strict (op : StrictOp)
  deriving DecidableEq, Repr

/-- How a connective is spelled. -/
def Connective.lexeme : Connective → String
  | .or => "or"
  | .and => "and"

/-- How a comparison is spelled. -/
def Comparison.lexeme : Comparison → String
  | .notEqual => "!="
  | .equal => "=="
  | .greater => ">"
  | .greaterEqual => ">="
  | .less => "<"
  | .lessEqual => "<="

/-- How an arithmetic operator is spelled. -/
def Arithmetic.lexeme : Arithmetic → String
  | .subtract => "-"
  | .divide => "/"
  | .multiply => "*"

/-- How an operator is spelled. -/
def BinaryOp.lexeme : BinaryOp → String
  | .connective c => c.lexeme
  | .strict .add => "+"
  | .strict (.comparison c) => c.lexeme
  | .strict (.arithmetic a) => a.lexeme

/-- Operators in front of one operand. -/
inductive UnaryOp where
  | not | negate
  deriving DecidableEq, Repr

/-- How an operator is spelled. -/
def UnaryOp.lexeme : UnaryOp → String
  | .not => "!"
  | .negate => "-"

/-- A mention of a variable. -/
structure Ref where
  name : String
  line : Int
  /-- Where a local variable lives in its environment; none for a global. -/
  slot : Option Nat := none
  deriving DecidableEq, Repr

/-! ## §2. Expressions and statements. -/

/-- Expressions. -/
inductive Expr where
  | literal (value : Literal)
  | binary (op : BinaryOp) (line : Int) (left right : Expr)
  | group (inner : Expr)
  | unary (op : UnaryOp) (line : Int) (operand : Expr)
  | var (ref : Ref)
  | assign (target : Ref) (value : Expr)
  | call (line : Int) (callee : Expr) (arguments : List Expr)

/-- Statements. -/
inductive Stmt where
  /-- An expression, evaluated for its effect. -/
  | expr (e : Expr)
  /-- Print values on one line. -/
  | print (es : List Expr)
  | ifThen (condition : Expr) (thenBranch : Stmt)
  | ifElse (condition : Expr) (thenBranch elseBranch : Stmt)
  | block (body : List Stmt)
  | varDecl (name : String) (line : Int) (initial : Expr)
  | whileLoop (condition : Expr) (body : Stmt)
  | funDecl (name : String) (line : Int) (params : List String) (body : List Stmt)
  | ret (line : Int) (value : Expr)

/-- A for loop, of which any clause may be absent, in terms of blocks and a while loop:

    for (initial; condition; step) body
      stands for   { initial; while (condition) { body; step; } }

The body has a block of its own, so that `step` sees nothing declared in it. -/
def Stmt.forLoop (initial : Option Stmt) (condition step : Option Expr) (body : Stmt) : Stmt :=
  let turn := .block (body :: (step.map Stmt.expr).toList)
  .block (initial.toList ++ [.whileLoop (condition.getD (.literal (.bool true))) turn])

/-- A declared function, as a value refers to it. -/
structure FunDecl where
  name : String
  line : Int
  params : List String
  body : List Stmt

/-- The number of arguments that a call must give. -/
def FunDecl.arity (f : FunDecl) : Nat :=
  f.params.length

end LoxLang
