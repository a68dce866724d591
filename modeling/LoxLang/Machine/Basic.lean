/-
  LoxLang.Machine.Basic
  ─────────────────────
  **The state of a running program**, and the computations on it.  A computation
  that stops half-way leaves the state as it was when it stopped: what was printed
  stays printed, and what was assigned stays assigned.

  Top-level code has no local environment.  A block and a call set one up for the
  code inside, and take it down again however that code ends.
-/
import LoxLang.Attempt
import LoxLang.Machine.Heap
import LoxLang.Machine.Operator

namespace LoxLang

/-! ## §1. State and outcomes. -/

/-- The state of a running program. -/
structure Machine (κ : Type := Captured) where
  heap : Heap κ
  globals : Env Addr
  /-- The variables of the innermost call or top-level block; none at top level. -/
  locals : Option (Env Addr)
  /-- The text printed so far. -/
  output : String

/-- The state before any program has run. -/
def Machine.initial {κ : Type} : Machine κ :=
  ⟨.empty, .empty, none, ""⟩

/-- Why a computation stopped half-way. -/
inductive Halt where
  /-- The program made an error. -/
  | error (e : RuntimeError)
  /-- The limits of the run were reached. -/
  | exhausted
  /-- A slot, a scope or an environment is missing that should be there. -/
  | fault
  deriving DecidableEq, Repr

/-- How a statement ends that does not stop half-way. -/
inductive Completion (κ : Type := Captured) where
  | normal
  | returned (v : Value κ)

/-- How far a run may go. -/
structure Limits where
  /-- How deep expressions, statements and calls may nest. -/
  depth : Nat
  /-- How often a single loop may turn. -/
  turns : Nat

/-- The limits of a run that may nest `depth` deep.  Its loops have a bound that no
run lives to see. -/
def Limits.ofDepth (depth : Nat) : Limits :=
  ⟨depth, Nat.pow 2 62⟩

/-- A computation of a running program, whose functions carry a `κ`. -/
abbrev ExecWith (κ : Type) := Attempt Halt (Machine κ)

/-- A computation of a running program. -/
abbrev Exec := ExecWith Captured

namespace Exec

variable {κ : Type}

/-- Give the result, or stop with the error. -/
def ofExcept {σ α : Type} : Except RuntimeError α → Attempt Halt σ α
  | .ok a => return a
  | .error e => throw (.error e)

/-- Print a text. -/
def write (text : String) : ExecWith κ Unit :=
  modify fun ⟨heap, globals, locals, output⟩ => ⟨heap, globals, locals, output ++ text⟩

/-! ## §2. Variables. -/

/-- The cell of a variable: its slot among the locals, or else its name among the
globals. -/
def cell (ref : Ref) : ExecWith κ Addr := do
  match ref.slot with
  | some slot =>
      match (← get).locals.bind (·.get? slot) with
      | some a => return a
      | none => throw .fault
  | none =>
      match (← get).globals.find? ref.name with
      | some a => return a
      | none => throw (.error ⟨.undefinedVariable ref.name, ref.line⟩)

/-- The value of a variable. -/
def load (ref : Ref) : ExecWith κ (Value κ) := do
  let a ← cell ref
  return (← get).heap.read a

/-- Give a variable a new value. -/
def store (ref : Ref) (v : Value κ) : ExecWith κ Unit := do
  let a ← cell ref
  modify fun ⟨heap, globals, locals, output⟩ => ⟨heap.write a v, globals, locals, output⟩

/-- Declare a variable: a local one, or at top level a global one. -/
def declare (name : String) (v : Value κ) : ExecWith κ Unit :=
  modify fun ⟨heap, globals, locals, output⟩ =>
    let a := heap.next
    match locals with
    | some e => ⟨heap.alloc v, globals, some (e.declare name a), output⟩
    | none => ⟨heap.alloc v, globals.declare name a, none, output⟩

/-! ## §3. Blocks and calls. -/

/-- Run `body` in a scope of its own; at top level, in a local environment of its
own. -/
def inBlock {α : Type} (body : ExecWith κ α) : ExecWith κ α :=
  fun ⟨heap, globals, locals, output⟩ =>
  match locals with
  | none =>
      let (result, ⟨heap, globals, _, output⟩) := body ⟨heap, globals, some .empty, output⟩
      (result, ⟨heap, globals, none, output⟩)
  | some e =>
      let (result, ⟨heap, globals, locals, output⟩) :=
        body ⟨heap, globals, some e.openScope, output⟩
      match locals.bind Env.closeScope? with
      | some e => (result, ⟨heap, globals, some e, output⟩)
      | none => (.error .fault, ⟨heap, globals, locals, output⟩)

/-- The environment in which the body of a function runs, with the heap that holds
its new cells: what the function captured (`env`, of all that it carries), then its own
name, then its parameters. -/
def activation (decl : FunDecl) (env : Captured) (captured : κ) (arguments : List (Value κ))
    (heap : Heap κ) : Env Addr × Heap κ :=
  ((env.map Env.capture).getD .empty).declareCells heap
    ((decl.name, .function decl captured) :: decl.params.zip arguments)

/-- Run the body of a function that captured `env`, and go back to the caller's
variables. -/
def inCall {α : Type} (decl : FunDecl) (env : Captured) (captured : κ)
    (arguments : List (Value κ)) (body : ExecWith κ α) : ExecWith κ α :=
  fun ⟨heap, globals, caller, output⟩ =>
    let (e, heap) := activation decl env captured arguments heap
    let (result, ⟨heap, globals, _, output⟩) := body ⟨heap, globals, some e, output⟩
    (result, ⟨heap, globals, caller, output⟩)

/-! ## §4. Repetition. -/

/-- Run one statement after the other, until one returns. -/
def sequence {σ α : Type} (step : α → Attempt Halt σ (Completion κ)) :
    List α → Attempt Halt σ (Completion κ)
  | [] => return .normal
  | a :: rest => do
      match ← step a with
      | .normal => sequence step rest
      | .returned v => return .returned v

/-- Run `body` for as long as `condition` holds, until it returns. -/
def loop {σ : Type} (condition : Attempt Halt σ Bool) (body : Attempt Halt σ (Completion κ)) :
    Nat → Attempt Halt σ (Completion κ)
  | 0 => throw .exhausted
  | turns + 1 => do
      if ← condition then
        match ← body with
        | .normal => loop condition body turns
        | .returned v => return .returned v
      else return .normal

end Exec

end LoxLang
