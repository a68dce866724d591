/-
  LoxLang.Tree.Printer
  ────────────────────
  **Trees as text.**  A tree is printed as a parenthesised form that leads with its
  operator: `var a = 1 + 2;` prints as `(var a (+ 1 2))`.
-/
import LoxLang.Number.Text
import LoxLang.Tree.Basic

namespace LoxLang

/-- A form of the given parts, in parentheses. -/
def formText (parts : List String) : String :=
  "(" ++ " ".intercalate parts ++ ")"

/-- A literal as it is printed: a string between quotes, with nothing escaped. -/
def Literal.render : Literal → String
  | .nil => "nil"
  | .bool true => "true"
  | .bool false => "false"
  | .number x => Number.literalText x
  | .string s => "\"" ++ s ++ "\""

mutual

/-- An expression as a form. -/
def Expr.render : Expr → String
  | .literal value => value.render
  | .binary op _ left right => formText [op.lexeme, left.render, right.render]
  | .group inner => formText ["group", inner.render]
  | .unary op _ operand => formText [op.lexeme, operand.render]
  | .var ref => ref.name
  | .assign target value => formText ["=", target.name, value.render]
  | .call _ callee arguments => formText ("call" :: callee.render :: Expr.renderAll arguments)

/-- Expressions as forms, one after the other. -/
def Expr.renderAll : List Expr → List String
  | [] => []
  | e :: es => e.render :: Expr.renderAll es

end

mutual

/-- A statement as a form. -/
def Stmt.render : Stmt → String
  | .expr e => formText [";", e.render]
  | .print es => formText ("print" :: Expr.renderAll es)
  | .ifThen condition thenBranch => formText ["if", condition.render, thenBranch.render]
  | .ifElse condition thenBranch elseBranch =>
      formText ["if-else", condition.render, thenBranch.render, elseBranch.render]
  | .block body => formText ("block" :: Stmt.renderAll body)
  | .varDecl name _ initial => formText ["var", name, initial.render]
  | .whileLoop condition body => formText ["while", condition.render, body.render]
  | .funDecl name _ params body =>
      formText ("fun" :: name :: ("(" ++ " ".intercalate params ++ ")") :: Stmt.renderAll body)
  | .ret _ value => formText ["return", value.render]

/-- Statements as forms, one after the other. -/
def Stmt.renderAll : List Stmt → List String
  | [] => []
  | s :: ss => s.render :: Stmt.renderAll ss

end

end LoxLang
