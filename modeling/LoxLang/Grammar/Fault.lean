/-
  LoxLang.Grammar.Fault
  ─────────────────────
  **Syntax faults.**  A fault is a cause together with the input from the blamed
  token on; with no input left, the end of input is blamed.
-/
import LoxLang.Token.Basic

namespace LoxLang

/-- What was missing, or out of place. -/
inductive SyntaxCause where
  | expression
  | assignmentTarget
  | groupEnd
  | argumentsEnd
  | expressionEnd
  | printEnd
  | returnEnd
  | ifStart
  | ifEnd
  | whileStart
  | whileEnd
  | forStart
  | forConditionEnd
  | forEnd
  | blockEnd
  | misplacedDeclaration
  | variableName
  | variableEnd
  | functionName
  | parametersStart
  | parameterName
  | parametersEnd
  | bodyStart
  deriving DecidableEq, Repr

/-- What is said about a syntax fault. -/
def SyntaxCause.message : SyntaxCause → String
  | .expression => "Expected expression"
  | .assignmentTarget => "Invalid assignment target"
  | .groupEnd => "Expected ')' after expression"
  | .argumentsEnd => "Expected ')' after call arguments"
  | .expressionEnd => "Expected ';' after expression"
  | .printEnd => "Expected ';' after print statement"
  | .returnEnd => "Expected ';' after return value"
  | .ifStart => "Expected '(' after 'if'"
  | .ifEnd => "Expected ')' after if condition"
  | .whileStart => "Expected '(' after 'while'"
  | .whileEnd => "Expected ')' after while condition"
  | .forStart => "Expected '(' after 'for'"
  | .forConditionEnd => "Expected ';' after for condition"
  | .forEnd => "Expected ')' after for clauses"
  | .blockEnd => "Expected '\x7d' after block"
  | .misplacedDeclaration => "Declaration is not allowed here, wrap it in a block"
  | .variableName => "Expected variable name after 'var'"
  | .variableEnd => "Expected ';' after variable declaration"
  | .functionName => "Expected function name after 'fun'"
  | .parametersStart => "Expected '(' after function name"
  | .parameterName => "Expected parameter name"
  | .parametersEnd => "Expected ')' after function parameters"
  | .bodyStart => "Expected '\x7b' before function body"

/-- A syntax fault. -/
structure SyntaxFault where
  /-- The input from the blamed token on. -/
  input : Token.Stream
  cause : SyntaxCause
  deriving DecidableEq

namespace SyntaxFault

/-- The line of the blamed token. -/
def line (f : SyntaxFault) : Int :=
  f.input.line

/-- How the blamed token is named. -/
def place (f : SyntaxFault) : String :=
  match f.input.tokens with
  | [] => "end"
  | t :: _ => "'" ++ t.lexeme ++ "'"

/-- The message of a syntax fault. -/
def message (f : SyntaxFault) : String :=
  "Line " ++ toString f.line ++ " at " ++ f.place ++ ": " ++ f.cause.message

end SyntaxFault

end LoxLang
