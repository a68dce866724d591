/-
  LoxLang.Machine.Eval
  ────────────────────
  **Running programs.**  Operands are evaluated from left to right before any of
  them is looked at; a callee comes before its arguments.  Every nested
  expression, statement and call is one level deeper, and a run that goes deeper
  than its limit stops.
-/
import LoxLang.Machine.Basic

namespace LoxLang

namespace Exec

/-- Call a value with arguments, where `env` finds the environment that a function
captured and `run` runs the body of a function. -/
def callValue {κ : Type} (env : κ → Captured) (run : FunDecl → κ → ExecWith κ (Completion κ))
    (line : Int) (callee : Value κ) (arguments : List (Value κ)) : ExecWith κ (Value κ) := do
  match callee with
  | .function decl captured =>
      if arguments.length = decl.arity then
        match ← inCall decl (env captured) captured arguments (run decl captured) with
        | .normal => return .nil
        | .returned v => return v
      else throw (.error ⟨.wrongArity decl.arity arguments.length, line⟩)
  | v => throw (.error ⟨.notCallable v.text, line⟩)

mutual

/-- The value of an expression. -/
def eval (turns : Nat) : Nat → Expr → Exec Value
  | 0, _ => throw .exhausted
  | _ + 1, .literal value => return value.toValue
  | depth + 1, .group inner => eval turns depth inner
  | depth + 1, .unary op line operand => do
      let v ← eval turns depth operand
      ofExcept (op.apply line v)
  | depth + 1, .binary (.connective c) _ left right => do
      let v ← eval turns depth left
      if c.settledBy v then return v else eval turns depth right
  | depth + 1, .binary (.strict op) line left right => do
      let v ← eval turns depth left
      let w ← eval turns depth right
      ofExcept (op.apply line v w)
  | _ + 1, .var ref => load ref
  | depth + 1, .assign target value => do
      let v ← eval turns depth value
      store target v
      return v
  | depth + 1, .call line callee arguments => do
      let f ← eval turns depth callee
      let vs ← Attempt.each (eval turns depth) arguments
      callValue id (fun decl _ => sequence (exec turns depth) decl.body) line f vs

/-- Run a statement. -/
def exec (turns : Nat) : Nat → Stmt → Exec Completion
  | 0, _ => throw .exhausted
  | depth + 1, .expr e => do
      let _ ← eval turns depth e
      return .normal
  | depth + 1, .print es => do
      let _ ← Attempt.each (fun e => do write ((← eval turns depth e).text ++ " ")) es
      write "\n"
      return .normal
  | depth + 1, .ifThen condition thenBranch => do
      if (← eval turns depth condition).truth then exec turns depth thenBranch
      else return .normal
  | depth + 1, .ifElse condition thenBranch elseBranch => do
      if (← eval turns depth condition).truth then exec turns depth thenBranch
      else exec turns depth elseBranch
  | depth + 1, .block body => inBlock (sequence (exec turns depth) body)
  | depth + 1, .varDecl name _ initial => do
      let v ← eval turns depth initial
      declare name v
      return .normal
  | depth + 1, .whileLoop condition body =>
      loop (return (← eval turns depth condition).truth) (exec turns depth body) turns
  | _ + 1, .funDecl name line params body => do
      let captured := (← get).locals.map Env.capture
      declare name (.function ⟨name, line, params, body⟩ captured)
      return .normal
  | depth + 1, .ret _ value => do
      let v ← eval turns depth value
      return .returned v

end

/-- Run top-level statements, where `last` is the value of the last expression
statement so far; a top-level return ends the program. -/
def program (limits : Limits) (last : Value) : List Stmt → Exec Value
  | [] => return last
  | .expr e :: rest => do
      let v ← eval limits.turns limits.depth e
      program limits v rest
  | s :: rest => do
      match ← exec limits.turns limits.depth s with
      | .normal => program limits last rest
      | .returned _ => return last

/-- A statement that is no expression statement gives the program no value. -/
theorem program_cons_of_ne {s : Stmt} (h : ∀ e, s ≠ .expr e) {limits : Limits} {last : Value}
    {rest : List Stmt} :
    program limits last (s :: rest) = (do
      match ← exec limits.turns limits.depth s with
      | .normal => program limits last rest
      | .returned _ => return last) := by
  cases s with
  | expr e => exact absurd rfl (h e)
  | _ => rfl

end Exec

/-- Run a program: its value is that of its last top-level expression statement, or
nil. -/
def Machine.run (m : Machine) (limits : Limits) (body : List Stmt) :
    Except Halt Value × Machine :=
  Exec.program limits .nil body m

end LoxLang
