/-
  LoxLang.Machine.Value
  ─────────────────────
  **Values.**  Numbers, strings, booleans, nil and functions.  A function is a
  declaration together with the environment captured where it was declared; a
  function declared at top level captures nothing and sees the globals alone.

  No operator looks into what a function captured, so that values are those of any
  evaluator: what is captured is the parameter `κ`.
-/
import LoxLang.Number.Text
import LoxLang.Scope.Env
import LoxLang.Tree.Basic

namespace LoxLang

/-- The address of a cell. -/
abbrev Addr := Nat

/-- What a function has captured: an environment, unless it was declared at top
level. -/
abbrev Captured := Option (Env Addr)

/-- Values of a running program. -/
inductive Value (κ : Type := Captured) where
  | nil
  | bool (b : Bool)
  | number (x : Float)
  | string (s : String)
  | function (decl : FunDecl) (captured : κ)

variable {κ : Type}

/-- The value that a literal stands for. -/
def Literal.toValue : Literal → Value κ
  | .nil => .nil
  | .bool b => .bool b
  | .number x => .number x
  | .string s => .string s

namespace Value

/-- Is the value taken for true?  Nil, false, zero of either sign and the empty
string are not. -/
def truth : Value κ → Bool
  | .nil => false
  | .bool b => b
  | .number x => x != 0
  | .string s => s != ""
  | .function .. => true

/-- The value as a program prints it. -/
def text : Value κ → String
  | .nil => "nil"
  | .bool true => "true"
  | .bool false => "false"
  | .number x => Number.text x
  | .string s => s
  | .function decl _ => "<fn " ++ decl.name ++ ">"

end Value

end LoxLang
