/-
  LoxLang.Grammar.Expression
  ──────────────────────────
  **Reading expressions.**  From the loosest binding to the tightest:

      assignment  — a name, an equals sign, an expression; to the right
      binary      — six levels of operators, each to the left
      unary       — any number of `!` and `-` in front
      call        — a primary followed by argument lists
      primary     — a literal, a name, or an expression in parentheses

  Each level is a reader made from the reader of nested expressions, and
  `expressionWithin` ties the knot: an expression is nested only behind a consumed
  token, so that the tokens at hand bound the nesting.
-/
import LoxLang.Grammar.Reading
import LoxLang.Tree.Basic

namespace LoxLang

/-! ## §1. Operators and their levels. -/

/-- The binary operator that a token stands for, if it does. -/
def BinaryOp.ofKind? : Token.Kind → Option BinaryOp
  | .keyword .orKw => some (.connective .or)
  | .keyword .andKw => some (.connective .and)
  | .symbol .bangEqual => some (.strict (.comparison .notEqual))
  | .symbol .equalEqual => some (.strict (.comparison .equal))
  | .symbol .greater => some (.strict (.comparison .greater))
  | .symbol .greaterEqual => some (.strict (.comparison .greaterEqual))
  | .symbol .less => some (.strict (.comparison .less))
  | .symbol .lessEqual => some (.strict (.comparison .lessEqual))
  | .symbol .minus => some (.strict (.arithmetic .subtract))
  | .symbol .plus => some (.strict .add)
  | .symbol .slash => some (.strict (.arithmetic .divide))
  | .symbol .star => some (.strict (.arithmetic .multiply))
  | _ => none

/-- How tightly an operator binds. -/
inductive BinaryOp.Level where
  | disjunction | conjunction | equality | comparison | term | factor
  deriving DecidableEq, Repr

/-- The levels, from the loosest to the tightest. -/
def BinaryOp.Level.all : List BinaryOp.Level :=
  [.disjunction, .conjunction, .equality, .comparison, .term, .factor]

/-- The level of an operator. -/
def BinaryOp.level : BinaryOp → BinaryOp.Level
  | .connective .or => .disjunction
  | .connective .and => .conjunction
  | .strict (.comparison .notEqual) | .strict (.comparison .equal) => .equality
  | .strict (.comparison _) => .comparison
  | .strict .add | .strict (.arithmetic .subtract) => .term
  | .strict (.arithmetic _) => .factor

/-- The unary operator that a token stands for, if it does. -/
def UnaryOp.ofKind? : Token.Kind → Option UnaryOp
  | .symbol .bang => some .not
  | .symbol .minus => some .negate
  | _ => none

/-- The expression that a single token makes. -/
def Expr.ofToken? (t : Token) : Option Expr :=
  match t.kind with
  | .keyword .falseKw => some (.literal (.bool false))
  | .keyword .trueKw => some (.literal (.bool true))
  | .keyword .nilKw => some (.literal .nil)
  | .number x => some (.literal (.number x))
  | .string s => some (.literal (.string s))
  | .identifier => some (.var { name := t.lexeme, line := t.line })
  | _ => none

namespace Reader

/-! ## §2. The levels, over a reader of nested expressions. -/

/-- A literal, a name, or an expression in parentheses. -/
def primary (nested : Reader Expr) : Reader Expr := do
  match ← take? Expr.ofToken? with
  | some e => return e
  | none =>
      if ← accept (.symbol .leftParen) then
        let inner ← nested
        let _ ← require (.symbol .rightParen) .groupEnd
        return .group inner
      else fail .expression

/-- The arguments of a call, whose opening parenthesis was just read. -/
def arguments (nested : Reader Expr) : Reader (List Expr) := do
  let es ← if (← peek) = some (.symbol .rightParen) then pure [] else commaList nested
  let _ ← require (.symbol .rightParen) .argumentsEnd
  return es

/-- The line of the next token, which is consumed if it opens an argument list. -/
def callLine? : Reader (Option Int) :=
  take? fun t => if t.kind = .symbol .leftParen then some t.line else none

/-- A primary followed by any number of argument lists. -/
def call (nested : Reader Expr) : Reader Expr := do
  let callee ← primary nested
  let calls ← many do
    match ← callLine? with
    | some line => return some (line, ← arguments nested)
    | none => return none
  return calls.foldl (fun callee (line, es) => .call line callee es) callee

/-- The next token as a unary operator with its line, consumed if it is one. -/
def unaryOp? : Reader (Option (UnaryOp × Int)) :=
  take? fun t => (UnaryOp.ofKind? t.kind).map (·, t.line)

/-- Any number of unary operators in front of a call. -/
def unary (nested : Reader Expr) : Reader Expr := do
  let ops ← many unaryOp?
  let operand ← call nested
  return ops.foldr (fun (op, line) operand => .unary op line operand) operand

/-- The next token as an operator of this level with its line, consumed if it is
one. -/
def binaryOp? (level : BinaryOp.Level) : Reader (Option (BinaryOp × Int)) :=
  take? fun t => ((BinaryOp.ofKind? t.kind).filter (·.level = level)).map (·, t.line)

/-- Operands with operators of this level in between, grouped to the left. -/
def binaryAt (level : BinaryOp.Level) (operand : Reader Expr) : Reader Expr := do
  let first ← operand
  let others ← many do
    match ← binaryOp? level with
    | some (op, line) => return some (op, line, ← operand)
    | none => return none
  return others.foldl (fun left (op, line, right) => .binary op line left right) first

/-- All levels of binary operators. -/
def binary (nested : Reader Expr) : Reader Expr :=
  BinaryOp.Level.all.foldr binaryAt (unary nested)

/-- An assignment, or an expression that is none.  The target is judged only after
the value has been read, and then the equals sign is blamed. -/
def assignment (nested : Reader Expr) : Reader Expr := do
  let left ← binary nested
  let here := (← get).input
  if ← accept (.symbol .equal) then
    let value ← nested
    match left with
    | .var target => return .assign target value
    | _ => throw ⟨here, .assignmentTarget⟩
  else return left

/-! ## §3. Expressions. -/

/-- An expression nested no deeper than there are tokens in `budget`. -/
def expressionWithin : List Token → Reader Expr
  | [] => fail .expression
  | _ :: budget => assignment (expressionWithin budget)

/-- An expression. -/
def expression : Reader Expr := do
  expressionWithin (← rest)

end Reader

end LoxLang
