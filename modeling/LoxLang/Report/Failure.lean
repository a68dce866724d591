/-
  LoxLang.Report.Failure
  ──────────────────────
  **Failures.**  What can end an activity of the interpreter early: a diagnosed
  error of the user's program, an orderly exit, an interrupt, a run that nests too
  deep, or a fault of the interpreter itself.
-/
import LoxLang.Machine.Basic
import LoxLang.Report.Diagnostic
import LoxLang.Text.Utf8

namespace LoxLang

/-- What the interpreter did not expect. -/
inductive Fault where
  /-- A source file is not UTF-8. -/
  | undecodable (f : Text.Utf8Fault)
  /-- The name of a file holds a null character. -/
  | nullInPath
  /-- A result was asked for when there was none. -/
  | noResult
  /-- A slot, a scope or an environment was missing. -/
  | machine
  /-- The depth limit is not positive. -/
  | limitTooLow
  /-- The depth limit does not fit into a machine word. -/
  | limitTooLarge
  /-- The depth limit is no number at all. -/
  | limitNotNumber
  /-- Anything else, by the name of its kind. -/
  | other (kind detail : String)
  deriving DecidableEq, Repr

/-- The name of the kind of a fault. -/
def Fault.kind : Fault → String
  | .undecodable _ => "UnicodeDecodeError"
  | .nullInPath => "ValueError"
  | .noResult => "IndexError"
  | .machine => "IndexError"
  | .limitTooLow => "ValueError"
  | .limitTooLarge => "OverflowError"
  | .limitNotNumber => "TypeError"
  | .other kind _ => kind

/-- What is said about a fault. -/
def Fault.detail : Fault → String
  | .undecodable f => f.message
  | .nullInPath => "embedded null byte"
  | .noResult => "pop from empty list"
  | .machine => "list index out of range"
  | .limitTooLow => "recursion limit must be greater or equal than 1"
  | .limitTooLarge => "Python int too large to convert to C int"
  | .limitNotNumber => "'list' object cannot be interpreted as an integer"
  | .other _ detail => detail

/-- The diagnostic of a fault, which blames the interpreter. -/
def Fault.diagnostic (f : Fault) : Diagnostic :=
  { stage := .general
    messages := ["unknown error: '" ++ f.kind ++ ": " ++ f.detail ++ "'"]
    internal := true }

/-- What ended an activity early. -/
inductive Failure where
  | diagnosed (d : Diagnostic)
  | exit (status : Option Int)
  | interrupted
  | tooDeep
  | fault (f : Fault)
  deriving DecidableEq, Repr

/-- The failure of a run that stopped half-way. -/
def Failure.ofHalt : Halt → Failure
  | .error e => .diagnosed (.ofRuntime e)
  | .exhausted => .tooDeep
  | .fault => .fault .machine

end LoxLang
