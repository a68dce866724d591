/-
  LoxLang.Proofs.InPlace.Evaluator
  ────────────────────────────────
  **Running in place.**  The machine hands environments around as values.  Here is an
  evaluator that does not: all environments stand in one row, code is told the number of the
  one in which it runs, and changes it there.

    • A block opens a scope in the environment at hand, and closes it however its body ends.
    • A function that is declared puts a copy of the environment into the row, and carries
      its number.
    • A call puts a copy of that copy into the row, and runs the body in it.
    • One table gives the slots of all mentions.  A function carries the table of the input
      that declared it; a call takes the table up, and puts the caller's back however the
      body ends.

  Nothing in this keeps code from changing an environment that is not its own, or from
  leaving a scope or a table behind.  So every expression and every statement is watched
  (`watch`): what it did must keep to a discipline (`Disciplined`), and it is a fault if it
  does not.
-/
import LoxLang.Machine.Eval
import LoxLang.Proofs.InPlace.Table

namespace LoxLang

/-! ## §1. Edits of an environment. -/

/-- At most one binding was put into the environment: in the place of one in the active scope,
or behind all others. -/
def Env.Edited {α : Type} (e e' : Env α) : Prop :=
  e'.marks = e.marks
    ∧ (e'.bindings = e.bindings
      ∨ (∃ slot, slot < e.size ∧ e.activeStart ≤ slot
          ∧ ∃ b ∈ e'.bindings[slot]?, e'.bindings = e.bindings.set slot b)
      ∨ ∃ b ∈ e'.bindings.getLast?, e'.bindings = e.bindings ++ [b])

instance {α : Type} [DecidableEq α] (e e' : Env α) : Decidable (e.Edited e') :=
  inferInstanceAs (Decidable (_ ∧ (_ ∨ _ ∨ _)))

namespace InPlace

/-! ## §2. The state. -/

/-- What a function carries: the number of the environment that it captured, unless it was
declared at top level, and the slots of its body. -/
structure Held where
  env : Option Nat
  table : SlotTable

/-- The state of a running program. -/
structure World where
  heap : Heap Held
  /-- All environments that there are. -/
  envs : List (Env Addr)
  globals : Env Addr
  /-- The slots of the mentions in the code that is running. -/
  table : SlotTable
  output : String
  /-- The numbers of the environments that functions have captured. -/
  captures : List Nat

namespace World

/-- The state before any program has run. -/
def initial : World := ⟨.empty, [], .empty, [], "", []⟩

/-- The environment in which code runs; none at top level. -/
def locals (w : World) (here : Option Nat) : Option (Env Addr) :=
  here.bind (w.envs[·]?)

/-- One more environment, whose number is `w.envs.length`. -/
def push (w : World) (e : Env Addr) : World :=
  { w with envs := w.envs ++ [e] }

/-- Change an environment where it stands. -/
def put (w : World) (id : Nat) (e : Env Addr) : World :=
  { w with envs := w.envs.set id e }

end World

/-- A computation that changes environments in place. -/
abbrev Walk := Attempt Halt World

/-! ## §3. The discipline. -/

/-- How code may change its own environment: not at all, or by a declaration. -/
def Allowed : Bool → Env Addr → Env Addr → Prop
  | false, e, e' => e' = e
  | true, e, e' => e.Edited e'

instance (declares : Bool) (e e' : Env Addr) : Decidable (Allowed declares e e') :=
  match declares with
  | false => inferInstanceAs (Decidable (e' = e))
  | true => inferInstanceAs (Decidable (e.Edited e'))

/-- Between these two states, code has run in the environment `here`: the table is the one it
was, every environment that a function had captured is what it was, and its own environment
has changed as it may. -/
structure Disciplined (declares : Bool) (here : Option Nat) (w w' : World) : Prop where
  table : w'.table = w.table
  captured : ∀ id ∈ w.captures, w'.envs[id]? = w.envs[id]?
  own : ∀ e ∈ w.locals here, ∃ e' ∈ w'.locals here, Allowed declares e e'

instance (declares : Bool) (here : Option Nat) (w w' : World) :
    Decidable (Disciplined declares here w w') :=
  decidable_of_iff (w'.table = w.table ∧ (∀ id ∈ w.captures, w'.envs[id]? = w.envs[id]?)
      ∧ ∀ e ∈ w.locals here, ∃ e' ∈ w'.locals here, Allowed declares e e')
    ⟨fun ⟨table, captured, own⟩ => ⟨table, captured, own⟩,
      fun h => ⟨h.table, h.captured, h.own⟩⟩

/-- Run code in the environment `here`, and see to it that it keeps to the discipline,
however it ends. -/
def watch {α : Type} (declares : Bool) (here : Option Nat) (x : Walk α) : Walk α :=
  fun w =>
    let (result, w') := x w
    if Disciplined declares here w w' then (result, w') else (.error .fault, w')

-- a scope that is left open
example : (watch false (some 0) (fun w => (.ok (), w.put 0 (.openScope .empty)))
    (World.initial.push .empty)).1 = .error .fault := rfl

/-! ## §4. Variables. -/

/-- Print a text. -/
def write (text : String) : Walk Unit :=
  modify fun w => { w with output := w.output ++ text }

/-- The cell of a variable: by its slot in the table, or else by its name among the
globals. -/
def cell (here : Option Nat) (ref : Ref) : Walk Addr := do
  let w ← get
  match w.table.slot? ref with
  | some slot =>
      match (w.locals here).bind (·.get? slot) with
      | some a => return a
      | none => throw .fault
  | none =>
      match w.globals.find? ref.name with
      | some a => return a
      | none => throw (.error ⟨.undefinedVariable ref.name, ref.line⟩)

/-- The value of a variable. -/
def load (here : Option Nat) (ref : Ref) : Walk (Value Held) := do
  let a ← cell here ref
  return (← get).heap.read a

/-- Give a variable a new value. -/
def store (here : Option Nat) (ref : Ref) (v : Value Held) : Walk Unit := do
  let a ← cell here ref
  modify fun w => { w with heap := w.heap.write a v }

/-- Declare a variable in an environment of the row, or at top level a global one. -/
def declare (here : Option Nat) (name : String) (v : Value Held) : Walk Unit :=
  modify fun w =>
    match here with
    | some id =>
        match w.envs[id]? with
        | some e => { w.put id (e.declare name w.heap.next) with heap := w.heap.alloc v }
        | none => w
    | none =>
        { w with heap := w.heap.alloc v, globals := w.globals.declare name w.heap.next }

/-- What a function carries that is declared here: a copy of the environment, with a number
of its own. -/
def capture (here : Option Nat) : Walk Held :=
  fun w =>
    match w.locals here with
    | some e =>
        (.ok ⟨some w.envs.length, w.table⟩,
          { w.push e.capture with captures := w.captures ++ [w.envs.length] })
    | none => (.ok ⟨none, w.table⟩, w)

/-! ## §5. Blocks and calls. -/

/-- Run `body` in a scope of its own; at top level, in an environment of its own. -/
def inBlock {α : Type} (here : Option Nat) (body : Option Nat → Walk α) : Walk α :=
  fun w =>
    match here with
    | none => body (some w.envs.length) (w.push .empty)
    | some id =>
        match w.envs[id]? with
        | none => (.error .fault, w)
        | some e =>
            let (result, w) := body (some id) (w.put id e.openScope)
            match w.envs[id]?.bind Env.closeScope? with
            | some e => (result, w.put id e)
            | none => (.error .fault, w)

/-- Run the body of a function in an environment of its own and with its own slots, and go
back to those of the caller. -/
def inCall {α : Type} (decl : FunDecl) (held : Held) (arguments : List (Value Held))
    (body : Option Nat → Walk α) : Walk α :=
  fun w =>
    let (e, heap) := Exec.activation decl (w.locals held.env) held arguments w.heap
    let (result, w') :=
      body (some w.envs.length) { w.push e with heap := heap, table := held.table }
    (result, { w' with table := w.table })

/-- Call a value with arguments, where `run` runs the body of a function. -/
def callValue (run : Option Nat → FunDecl → Walk (Completion Held)) (line : Int)
    (callee : Value Held) (arguments : List (Value Held)) : Walk (Value Held) := do
  match callee with
  | .function decl held =>
      if arguments.length = decl.arity then
        match ← inCall decl held arguments (run · decl) with
        | .normal => return .nil
        | .returned v => return v
      else throw (.error ⟨.wrongArity decl.arity arguments.length, line⟩)
  | v => throw (.error ⟨.notCallable v.text, line⟩)

/-! ## §6. Running programs. -/

mutual

/-- The value of an expression, evaluated under watch. -/
def eval (turns : Nat) : Nat → Option Nat → Expr → Walk (Value Held)
  | 0, _, _ => throw .exhausted
  | depth + 1, here, e => watch false here <| match e with
      | .literal value => return value.toValue
      | .group inner => eval turns depth here inner
      | .unary op line operand => do
          let v ← eval turns depth here operand
          Exec.ofExcept (op.apply line v)
      | .binary (.connective c) _ left right => do
          let v ← eval turns depth here left
          if c.settledBy v then return v else eval turns depth here right
      | .binary (.strict op) line left right => do
          let v ← eval turns depth here left
          let w ← eval turns depth here right
          Exec.ofExcept (op.apply line v w)
      | .var ref => load here ref
      | .assign target value => do
          let v ← eval turns depth here value
          store here target v
          return v
      | .call line callee arguments => do
          let f ← eval turns depth here callee
          let vs ← Attempt.each (eval turns depth here) arguments
          callValue (fun here decl => Exec.sequence (exec turns depth here) decl.body) line f vs

/-- Run a statement under watch. -/
def exec (turns : Nat) : Nat → Option Nat → Stmt → Walk (Completion Held)
  | 0, _, _ => throw .exhausted
  | depth + 1, here, s => watch s.declared?.isSome here <| match s with
      | .expr e => do
          let _ ← eval turns depth here e
          return .normal
      | .print es => do
          let _ ← Attempt.each (fun e => do write ((← eval turns depth here e).text ++ " ")) es
          write "\n"
          return .normal
      | .ifThen condition thenBranch => do
          if (← eval turns depth here condition).truth then exec turns depth here thenBranch
          else return .normal
      | .ifElse condition thenBranch elseBranch => do
          if (← eval turns depth here condition).truth then exec turns depth here thenBranch
          else exec turns depth here elseBranch
      | .block body => inBlock here fun here => Exec.sequence (exec turns depth here) body
      | .varDecl name _ initial => do
          let v ← eval turns depth here initial
          declare here name v
          return .normal
      | .whileLoop condition body =>
          Exec.loop (return (← eval turns depth here condition).truth)
            (exec turns depth here body) turns
      | .funDecl name line params body => do
          let held ← capture here
          declare here name (.function ⟨name, line, params, body⟩ held)
          return .normal
      | .ret _ value => do
          let v ← eval turns depth here value
          return .returned v

end

/-- Run top-level statements, where `last` is the value of the last expression statement so
far. -/
def program (limits : Limits) (last : Value Held) : List Stmt → Walk (Value Held)
  | [] => return last
  | .expr e :: rest => do
      let v ← eval limits.turns limits.depth none e
      program limits v rest
  | s :: rest => do
      match ← exec limits.turns limits.depth none s with
      | .normal => program limits last rest
      | .returned _ => return last

/-- Take up the slots of a program, and run it without them in its tree. -/
def World.run (w : World) (limits : Limits) (body : List Stmt) :
    Except Halt (Value Held) × World :=
  program limits .nil (Stmt.tagAll 0 body) { w with table := Stmt.slotsAll body }

-- the environment of a block, the copy that a function in it has captured, and that of a call
example : (World.run .initial ⟨9, 0⟩ [.block [.varDecl "a" 1 (.literal .nil),
      .funDecl "f" 1 [] [.ret 1 (.var ⟨"a", 1, some 0⟩)],
      .expr (.call 1 (.var ⟨"f", 1, some 1⟩) [])]]).2.envs
    = [⟨[("a", 0), ("f", 1)], []⟩, ⟨[("a", 0)], [1]⟩, ⟨[("a", 0), ("f", 2)], [1]⟩] := rfl

end InPlace

end LoxLang
