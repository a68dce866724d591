/-
  LoxLang.Machine.Describe
  ────────────────────────
  **Descriptions for inspection.**  How environments and functions show themselves
  to whoever looks into a running program.
-/
import LoxLang.Machine.Value
import LoxLang.Text.Quoted

namespace LoxLang

/-- Items between square brackets. -/
def bracketed (items : List String) : String :=
  "[" ++ ", ".intercalate items ++ "]"

/-- An environment by its names and by where its scopes start, the outermost
first. -/
def Env.describe {α : Type} (e : Env α) : String :=
  "Environment(" ++ bracketed (e.names.map Text.quoted) ++ ", scopes="
    ++ bracketed (e.marks.reverse.map toString) ++ ")"

/-- A function by its name and the number of its parameters. -/
def FunDecl.describe (f : FunDecl) : String :=
  "LoxFunction(" ++ Text.quoted f.name ++ ", arity=" ++ toString f.arity ++ ")"

end LoxLang
