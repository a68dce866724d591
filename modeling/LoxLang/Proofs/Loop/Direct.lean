/-
  LoxLang.Proofs.Loop.Direct
  ──────────────────────────
  **For loops, without what they abbreviate.**  A for loop as it is written, with its three
  clauses and its body, and what it means by itself:

    • Its first clause runs once, in a scope of the loop's own.  A variable that it declares
      gets one cell, which all turns share.
    • Condition and step stand in that scope, and see nothing of the body.
    • The body runs in a scope inside, a new one for every turn.
    • A body that returns, or stops half-way, ends the loop at once, and the step is left out.
    • However the loop ends, the local variables are those there were.

  No block, no while loop and no scope that is closed again is needed to say this: each part
  runs with the local variables that it is given (`within`).
-/
import LoxLang.Machine.Eval
import LoxLang.Proofs.Grammar.Derivation
import LoxLang.Scope.Resolve

namespace LoxLang

/-! ## §1. The parts of a loop. -/

/-- The first clause of a for loop. -/
inductive ForInitial where
  | absent
  | expression (e : Expr)
  | declared (name : String) (line : Int) (value : Expr)

/-- The first clause as a statement, if there is one. -/
def ForInitial.toStmt? : ForInitial → Option Stmt
  | .absent => none
  | .expression e => some (.expr e)
  | .declared name line value => some (.varDecl name line value)

/-- A for loop as it is written. -/
structure ForLoop where
  initial : ForInitial
  condition : Option Expr
  step : Option Expr
  body : Stmt

/-- What a for loop abbreviates. -/
def ForLoop.toStmt (l : ForLoop) : Stmt :=
  .forLoop l.initial.toStmt? l.condition l.step l.body

/-- The tokens are those of a for loop with these parts. -/
inductive ForPhrase (rule : ElseRule) : List Token → ForLoop → Prop where
  | mk {start left semicolon right : Token} {is cs us ts : List Token} {l : ForLoop}
      {isOpen : Bool} (hstart : start.kind = .keyword .forKw)
      (hleft : left.kind = .symbol .leftParen) (hinitial : InitialPhrase is l.initial.toStmt?)
      (hcondition : OptionalPhrase cs l.condition)
      (hsemicolon : semicolon.kind = .symbol .semicolon) (hstep : OptionalPhrase us l.step)
      (hright : right.kind = .symbol .rightParen)
      (hbody : Sentence rule (.statement isOpen) ts l.body) :
      ForPhrase rule (start :: left :: (is ++ (cs ++ semicolon :: (us ++ right :: ts)))) l

/-! ## §2. The slots of a loop. -/

/-- Note the slots in an expression that may be absent. -/
def Resolve.optional (e : Option Expr) : Resolve (Option Expr) := do
  return e.map (Expr.resolve (← get))

/-- Note the slots in a first clause, and declare its variable. -/
def ForInitial.resolve : ForInitial → Resolve ForInitial
  | .absent => return .absent
  | .expression e => return .expression (← Resolve.expr e)
  | .declared name line value => do
      let value ← Resolve.expr value
      Resolve.declare name
      return .declared name line value

/-- Note the slots in a loop: in the clauses as they stand in the scope of the loop, and in
the body as it stands in a scope inside. -/
def ForLoop.resolve (l : ForLoop) : Resolve ForLoop :=
  Resolve.inBlock do
    let initial ← l.initial.resolve
    let condition ← Resolve.optional l.condition
    let step ← Resolve.optional l.step
    let body ← Resolve.inBlock l.body.resolve
    return ⟨initial, condition, step, body⟩

/-! ## §3. Running a loop. -/

namespace Exec

variable {α : Type}

/-- Run `x` with these local variables, and go back to those there were. -/
def within (e : Env Addr) (x : Exec α) : Exec α := fun m =>
  let (result, m') := x { m with locals := some e }
  (result, { m' with locals := m.locals })

/-- A new cell that holds `v`. -/
def newCell (v : Value) : Exec Addr := fun m =>
  (.ok m.heap.next, { m with heap := m.heap.alloc v })

end Exec

open Exec

/-- Run the first clause in a scope: the variables behind it. -/
def ForInitial.run (turns depth : Nat) (scope : Env Addr) : ForInitial → Exec (Env Addr)
  | .absent => return scope
  | .expression e => do
      let _ ← within scope (eval turns depth e)
      return scope
  | .declared name _ value => do
      let v ← within scope (eval turns depth value)
      let a ← newCell v
      return scope.declare name a

namespace ForLoop

/-- Does the loop go on?  Without a condition, it does. -/
def holds (turns depth : Nat) (l : ForLoop) : Exec Bool :=
  match l.condition with
  | none => return true
  | some c => do return (← eval turns depth c).truth

/-- The step of the loop; without one, nothing. -/
def advance (turns depth : Nat) (l : ForLoop) : Exec Unit :=
  match l.step with
  | none => return ()
  | some e => do
      let _ ← eval turns depth e
      return ()

/-- The turns of the loop, at most so many, all with the same variables `e`.  What is left of
`depth` to each part is what the place of that part leaves to it. -/
def repeated (turns depth : Nat) (l : ForLoop) (e : Env Addr) : Nat → Exec Completion
  | 0 => throw .exhausted
  | count + 1 => do
      if ← within e (l.holds turns (depth - 2)) then
        match ← within e.openScope (exec turns (depth - 3) l.body) with
        | .normal => do
            within e (l.advance turns (depth - 4))
            repeated turns depth l e count
        | .returned v => return .returned v
      else return .normal

/-- Run the loop: its scope is opened in the local variables at hand, or at top level in an
environment of its own. -/
def run (turns depth : Nat) (l : ForLoop) : Exec Completion := do
  let scope := (← get).locals.elim .empty Env.openScope
  let e ← l.initial.run turns (depth - 2) scope
  l.repeated turns depth e turns

end ForLoop

end LoxLang
