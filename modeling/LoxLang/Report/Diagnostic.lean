/-
  LoxLang.Report.Diagnostic
  ─────────────────────────
  **Diagnostics.**  Whatever is wrong with a program ends up as a diagnostic: the
  stage that found it, one message for each fault, and the line that the first
  message is about.
-/
import LoxLang.Grammar.Statement
import LoxLang.Machine.Operator
import LoxLang.Scope.Resolve
import LoxLang.Token.Scan

namespace LoxLang

/-- The stage that found something wrong. -/
inductive Stage where
  | general | scan | parse | resolve | run
  deriving DecidableEq, Repr

/-- What a stage calls its errors. -/
def Stage.label : Stage → String
  | .general => "error"
  | .scan => "scan error"
  | .parse => "syntax error"
  | .resolve => "resolve error"
  | .run => "runtime error"

/-- Something wrong, as it is reported. -/
structure Diagnostic where
  stage : Stage
  messages : List String
  /-- The line that the first message is about, if it is about one. -/
  line : Option Int := none
  /-- Is the interpreter itself to blame? -/
  internal : Bool := false
  deriving DecidableEq, Repr

namespace Diagnostic

/-- A diagnostic of no particular stage. -/
def general (message : String) : Diagnostic :=
  { stage := .general, messages := [message] }

/-- All lexical faults of a source. -/
def ofLexical (faults : List LexicalFault) : Diagnostic :=
  { stage := .scan
    messages := faults.map LexicalFault.message
    line := faults.head?.map LexicalFault.line }

/-- All syntax faults of a source. -/
def ofSyntactic (faults : List SyntaxFault) : Diagnostic :=
  { stage := .parse
    messages := faults.map SyntaxFault.message
    line := faults.head?.map SyntaxFault.line }

/-- A refusal of the resolver. -/
def ofResolve (e : ResolveError) : Diagnostic :=
  { stage := .resolve, messages := [e.message], line := some e.line }

/-- An error of the running program. -/
def ofRuntime (e : RuntimeError) : Diagnostic :=
  { stage := .run, messages := [e.message], line := some e.line }

/-- The diagnostic of a run that nests too deep. -/
def tooDeep : Diagnostic :=
  { stage := .run, messages := ["maximum recursion depth exceeded"] }

end Diagnostic

/-- Scan and parse a source whose first line is number `line`. -/
def readProgram (source : String) (line : Int) : Except Diagnostic (List Stmt) :=
  match scan source line with
  | .error faults => .error (.ofLexical faults)
  | .ok input =>
      match parse input with
      | .error faults => .error (.ofSyntactic faults)
      | .ok body => .ok body

end LoxLang
