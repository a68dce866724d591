/-
  LoxLang.Grammar.Statement
  ─────────────────────────
  **Reading programs.**  A declaration is read where a row of statements is
  expected, and nowhere else.  A fault ends the innermost declaration only: reading
  goes on behind it, and all faults of a program are given together.

  A `for` loop is read as what it abbreviates (`Stmt.forLoop`).

  Nesting of any depth is read: as deep as the tokens go.  On a host that bounds recursion a
  program may be too deep to be read there; that limit is left out, and `Limits.depth` is
  about running programs only.
-/
import LoxLang.Grammar.Expression

namespace LoxLang

namespace Reader

/-! ## §1. Statements without nested statements. -/

/-- An expression and its semicolon. -/
def exprStmt : Reader Stmt := do
  let e ← expression
  let _ ← require (.symbol .semicolon) .expressionEnd
  return .expr e

/-- The rest of a print statement. -/
def printStmt : Reader Stmt := do
  let es ← commaList expression
  let _ ← require (.symbol .semicolon) .printEnd
  return .print es

/-- An expression, unless a token of this kind comes next. -/
def expressionUnless (kind : Token.Kind) : Reader (Option Expr) := do
  if (← peek) = some kind then return none else return some (← expression)

/-- The rest of a return statement whose keyword stands on this line; without a
value, it returns nil. -/
def returnStmt (line : Int) : Reader Stmt := do
  let value ← expressionUnless (.symbol .semicolon)
  let _ ← require (.symbol .semicolon) .returnEnd
  return .ret line (value.getD (.literal .nil))

/-- The rest of a variable declaration; without an initial value, it is nil. -/
def varStmt : Reader Stmt := do
  let name ← require .identifier .variableName
  let initial ← if ← accept (.symbol .equal) then expression else pure (.literal .nil)
  let _ ← require (.symbol .semicolon) .variableEnd
  return .varDecl name.lexeme name.line initial

/-! ## §2. Statements over readers of nested statements. -/

/-- Statements up to the closing brace; a declaration that was recovered from
leaves nothing. -/
def block (declaration : Reader (Option Stmt)) : Reader (List Stmt) := do
  let body ← many do
    match ← peek with
    | none | some (.symbol .rightBrace) => return none
    | some _ => return some (← declaration)
  let _ ← require (.symbol .rightBrace) .blockEnd
  return body.filterMap id

/-- The rest of a function declaration. -/
def funStmt (declaration : Reader (Option Stmt)) : Reader Stmt := do
  let name ← require .identifier .functionName
  let _ ← require (.symbol .leftParen) .parametersStart
  let params ← if (← peek) = some (.symbol .rightParen) then pure []
    else commaList (require .identifier .parameterName)
  let _ ← require (.symbol .rightParen) .parametersEnd
  let _ ← require (.symbol .leftBrace) .bodyStart
  let body ← block declaration
  return .funDecl name.lexeme name.line (params.map Token.lexeme) body

/-- The rest of an if statement; an else belongs to the nearest if. -/
def ifStmt (statement : Reader Stmt) : Reader Stmt := do
  let _ ← require (.symbol .leftParen) .ifStart
  let condition ← expression
  let _ ← require (.symbol .rightParen) .ifEnd
  let thenBranch ← statement
  if ← accept (.keyword .elseKw) then
    return .ifElse condition thenBranch (← statement)
  else return .ifThen condition thenBranch

/-- The rest of a while statement. -/
def whileStmt (statement : Reader Stmt) : Reader Stmt := do
  let _ ← require (.symbol .leftParen) .whileStart
  let condition ← expression
  let _ ← require (.symbol .rightParen) .whileEnd
  return .whileLoop condition (← statement)

/-- The first clause of a for loop with its semicolon. -/
def forInitial : Reader (Option Stmt) := do
  match ← peek with
  | some (.symbol .semicolon) => skip; return none
  | some (.keyword .varKw) => skip; return some (← varStmt)
  | _ => return some (← exprStmt)

/-- The rest of a for statement. -/
def forStmt (statement : Reader Stmt) : Reader Stmt := do
  let _ ← require (.symbol .leftParen) .forStart
  let initial ← forInitial
  let condition ← expressionUnless (.symbol .semicolon)
  let _ ← require (.symbol .semicolon) .forConditionEnd
  let step ← expressionUnless (.symbol .rightParen)
  let _ ← require (.symbol .rightParen) .forEnd
  return .forLoop initial condition step (← statement)

/-- Any statement; a declaration only if `declares`. -/
def statementForm (declares : Bool) (statement : Reader Stmt)
    (declaration : Reader (Option Stmt)) : Reader Stmt := do
  let line := (← get).input.line
  match ← peek with
  | some (.keyword .funKw) =>
      if declares then skip; funStmt declaration else fail .misplacedDeclaration
  | some (.keyword .varKw) =>
      if declares then skip; varStmt else fail .misplacedDeclaration
  | some (.keyword .printKw) => skip; printStmt
  | some (.keyword .ifKw) => skip; ifStmt statement
  | some (.keyword .whileKw) => skip; whileStmt statement
  | some (.keyword .forKw) => skip; forStmt statement
  | some (.keyword .returnKw) => skip; returnStmt line
  | some (.symbol .leftBrace) => skip; return .block (← block declaration)
  | _ => exprStmt

/-! ## §3. Programs. -/

/-- A statement nested no deeper than there are tokens in `budget`. -/
def statementWithin : List Token → Bool → Reader Stmt
  | [], _ => fail .expression
  | _ :: budget, declares =>
      statementForm declares (statementWithin budget false)
        (recover (statementWithin budget true))

/-- A declaration or statement, recovered from if it is faulty. -/
def declaration : Reader (Option Stmt) := do
  recover (statementWithin (← rest) true)

/-- Declarations up to the end of input. -/
def program : Reader (List Stmt) := do
  let body ← many do
    match ← peek with
    | none => return none
    | some _ => return some (← declaration)
  return body.filterMap id

end Reader

/-- The statements that the tokens spell, or else every syntax fault in order. -/
def parse (input : Token.Stream) : Except (List SyntaxFault) (List Stmt) :=
  match Reader.program ⟨input, []⟩ with
  | (.ok body, ⟨_, []⟩) => .ok body
  | (.ok _, ⟨_, faults⟩) => .error faults
  | (.error fault, ⟨_, faults⟩) => .error (faults ++ [fault])

end LoxLang
