/-
  LoxLang.Proofs.Scope.Lexical
  ────────────────────────────
  **Lexical scoping.**  A reference semantics without slots and without environments
  that change.  The local variables are a map from names to cells that is never
  modified:

    • a block runs on the map as it is, and what it declares is dropped with its copy,
    • a declaration extends the map with a fresh cell; an initial value is evaluated
      before, and a function captures the map as it was before,
    • a function is its declaration with the captured map, or with none if it was
      declared at top level,
    • a call extends the captured map with the name of the function and then with its
      parameters, each with a fresh cell,
    • a name means its cell in the map, and else its cell among the globals.

  Programs run as they were read.  The limits of a run are those of the machine.
-/
import LoxLang.Machine.Eval

namespace LoxLang

/-- Names in scope, with their cells. -/
abbrev Scope := String → Option Addr

namespace Scope

/-- No names. -/
def empty : Scope := fun _ => none

/-- The scope extended with a name, which may hide another of the kind. -/
def extend (scope : Scope) (name : String) (a : Addr) : Scope :=
  fun n => if n = name then some a else scope n

end Scope

namespace Lexical

/-! ## §1. State. -/

/-- What a function has captured. -/
abbrev Closure := Option Scope

/-- The cells, the globals and what was printed. -/
structure State where
  heap : Heap Closure
  globals : Scope
  output : String

/-- The state before any program has run. -/
def State.initial : State :=
  ⟨.empty, .empty, ""⟩

/-- A computation of the reference semantics. -/
abbrev Run := Attempt Halt State

/-- How a statement ends, and the scope behind it. -/
abbrev End := Option Scope × Completion Closure

/-- Print a text. -/
def write (text : String) : Run Unit :=
  modify fun ⟨heap, globals, output⟩ => ⟨heap, globals, output ++ text⟩

/-- A fresh cell that holds `v`. -/
def fresh (v : Value Closure) : Run Addr := do
  let a := (← get).heap.next
  modify fun ⟨heap, globals, output⟩ => ⟨heap.alloc v, globals, output⟩
  return a

/-! ## §2. Variables. -/

/-- The cell that a name means. -/
def cell (scope : Option Scope) (ref : Ref) : Run Addr := do
  match (scope.bind (· ref.name)).or ((← get).globals ref.name) with
  | some a => return a
  | none => throw (.error ⟨.undefinedVariable ref.name, ref.line⟩)

/-- The value of a variable. -/
def load (scope : Option Scope) (ref : Ref) : Run (Value Closure) := do
  let a ← cell scope ref
  return (← get).heap.read a

/-- Give a variable a new value. -/
def store (scope : Option Scope) (ref : Ref) (v : Value Closure) : Run Unit := do
  let a ← cell scope ref
  modify fun ⟨heap, globals, output⟩ => ⟨heap.write a v, globals, output⟩

/-- Declare a variable, and give the scope behind the declaration; at top level, the
variable is a global. -/
def declare (scope : Option Scope) (name : String) (v : Value Closure) : Run (Option Scope) := do
  let a ← fresh v
  match scope with
  | some scope => return some (scope.extend name a)
  | none =>
      modify fun ⟨heap, globals, output⟩ => ⟨heap, globals.extend name a, output⟩
      return none

/-- Extend a scope with several names, each with a fresh cell. -/
def extendAll (scope : Scope) : List (String × Value Closure) → Run Scope
  | [] => return scope
  | (name, v) :: rest => do
      let a ← fresh v
      extendAll (scope.extend name a) rest

/-! ## §3. Statements in order. -/

/-- Run one statement after the other, until one returns. -/
def sequence (step : Option Scope → Stmt → Run End) (scope : Option Scope) :
    List Stmt → Run End
  | [] => return (scope, .normal)
  | s :: rest => do
      match ← step scope s with
      | (scope, .normal) => sequence step scope rest
      | (scope, .returned v) => return (scope, .returned v)

/-- Run `body` for as long as `condition` holds, until it returns. -/
def loop (condition : Option Scope → Run Bool) (body : Option Scope → Run End)
    (scope : Option Scope) : Nat → Run End
  | 0 => throw .exhausted
  | turns + 1 => do
      if ← condition scope then
        match ← body scope with
        | (scope, .normal) => loop condition body scope turns
        | (scope, .returned v) => return (scope, .returned v)
      else return (scope, .normal)

/-- Call a function that captured a scope, where `run` runs its body. -/
def call (run : Option Scope → List Stmt → Run End) (decl : FunDecl) (captured : Closure)
    (arguments : List (Value Closure)) : Run End := do
  let scope ← extendAll (captured.getD .empty)
    ((decl.name, .function decl captured) :: decl.params.zip arguments)
  run (some scope) decl.body

/-- Call a value with arguments. -/
def callValue (run : Option Scope → List Stmt → Run End) (line : Int) (callee : Value Closure)
    (arguments : List (Value Closure)) : Run (Value Closure) := do
  match callee with
  | .function decl captured =>
      if arguments.length = decl.arity then
        match ← call run decl captured arguments with
        | (_, .normal) => return .nil
        | (_, .returned v) => return v
      else throw (.error ⟨.wrongArity decl.arity arguments.length, line⟩)
  | v => throw (.error ⟨.notCallable v.text, line⟩)

/-! ## §4. Running. -/

mutual

/-- The value of an expression. -/
def eval (turns : Nat) (scope : Option Scope) : Nat → Expr → Run (Value Closure)
  | 0, _ => throw .exhausted
  | _ + 1, .literal value => return value.toValue
  | depth + 1, .group inner => eval turns scope depth inner
  | depth + 1, .unary op line operand => do
      let v ← eval turns scope depth operand
      Exec.ofExcept (op.apply line v)
  | depth + 1, .binary (.connective c) _ left right => do
      let v ← eval turns scope depth left
      if c.settledBy v then return v else eval turns scope depth right
  | depth + 1, .binary (.strict op) line left right => do
      let v ← eval turns scope depth left
      let w ← eval turns scope depth right
      Exec.ofExcept (op.apply line v w)
  | _ + 1, .var ref => load scope ref
  | depth + 1, .assign target value => do
      let v ← eval turns scope depth value
      store scope target v
      return v
  | depth + 1, .call line callee arguments => do
      let f ← eval turns scope depth callee
      let vs ← Attempt.each (eval turns scope depth) arguments
      callValue (sequence fun scope s => exec turns scope depth s) line f vs

/-- Run a statement, and give the scope behind it. -/
def exec (turns : Nat) (scope : Option Scope) : Nat → Stmt → Run End
  | 0, _ => throw .exhausted
  | depth + 1, .expr e => do
      let _ ← eval turns scope depth e
      return (scope, .normal)
  | depth + 1, .print es => do
      let _ ← Attempt.each (fun e => do write ((← eval turns scope depth e).text ++ " ")) es
      write "\n"
      return (scope, .normal)
  | depth + 1, .ifThen condition thenBranch => do
      if (← eval turns scope depth condition).truth then exec turns scope depth thenBranch
      else return (scope, .normal)
  | depth + 1, .ifElse condition thenBranch elseBranch => do
      if (← eval turns scope depth condition).truth then exec turns scope depth thenBranch
      else exec turns scope depth elseBranch
  | depth + 1, .block body => do
      let (_, completion) ←
        sequence (fun scope s => exec turns scope depth s) (some (scope.getD .empty)) body
      return (scope, completion)
  | depth + 1, .varDecl name _ initial => do
      let v ← eval turns scope depth initial
      return (← declare scope name v, .normal)
  | depth + 1, .whileLoop condition body =>
      loop (fun scope => return (← eval turns scope depth condition).truth)
        (fun scope => exec turns scope depth body) scope turns
  | _ + 1, .funDecl name line params body => do
      return (← declare scope name (.function ⟨name, line, params, body⟩ scope), .normal)
  | depth + 1, .ret _ value => do
      let v ← eval turns scope depth value
      return (scope, .returned v)

end

/-- Run top-level statements, where `last` is the value of the last expression
statement so far. -/
def program (limits : Limits) (last : Value Closure) : List Stmt → Run (Value Closure)
  | [] => return last
  | .expr e :: rest => do
      let v ← eval limits.turns none limits.depth e
      program limits v rest
  | s :: rest => do
      match ← exec limits.turns none limits.depth s with
      | (_, .normal) => program limits last rest
      | (_, .returned _) => return last

/-- A statement that is no expression statement gives the program no value. -/
theorem program_cons_of_ne {s : Stmt} (h : ∀ e, s ≠ .expr e) {limits : Limits}
    {last : Value Closure} {rest : List Stmt} :
    program limits last (s :: rest) = (do
      match ← exec limits.turns none limits.depth s with
      | (_, .normal) => program limits last rest
      | (_, .returned _) => return last) := by
  cases s with
  | expr e => exact absurd rfl (h e)
  | _ => rfl

/-- Run a program: its value is that of its last top-level expression statement, or
nil. -/
def run (s : State) (limits : Limits) (body : List Stmt) :
    Except Halt (Value Closure) × State :=
  program limits .nil body s

-- a function does not see what is declared behind it
example : (run .initial ⟨20, 20⟩ [.varDecl "a" 1 (.literal (.string "outer")),
    .block [.funDecl "f" 2 [] [.ret 2 (.var ⟨"a", 2, none⟩)],
      .varDecl "a" 3 (.literal (.string "inner")),
      .print [.call 4 (.var ⟨"f", 4, none⟩) []]]]).2.output = "outer \n" := by
  rfl

end Lexical

end LoxLang
