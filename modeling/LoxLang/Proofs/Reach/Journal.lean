/-
  LoxLang.Proofs.Reach.Journal
  ────────────────────────────
  **Running programs with a journal.**  An evaluator that does what the machine does and
  keeps book of the calls: every call, however it ends, is entered with the machine in front
  of it and behind it, and with the cells that were made for its own name, its parameters and
  the variables declared while it ran, but not while the calls inside of it did.

  The machine is not touched by the bookkeeping (`Journal.run_machine`), so that what the
  journal shows is what the machine has done.
-/
import LoxLang.Proofs.Machine.Evaluator

namespace LoxLang

/-! ## §1. Entries. -/

/-- A call that has ended. -/
structure Activation where
  decl : FunDecl
  captured : Captured
  arguments : List Value
  /-- The machine in front of the call. -/
  before : Machine
  /-- The machine behind it. -/
  after : Machine
  /-- The cells of its own name, its parameters and the variables that it declared. -/
  own : List Addr

/-- A machine that keeps book. -/
structure Journal where
  machine : Machine
  /-- The cells of the call that is running, or those of top-level code. -/
  own : List Addr
  /-- The calls that have ended, in this order. -/
  activations : List Activation

/-- The machine in the journal; what it does is not noted by itself. -/
def Journal.host : Host Journal :=
  ⟨Journal.machine, fun j m => { j with machine := m }, fun _ _ => rfl⟩

/-- The state before any program has run. -/
def Journal.initial : Journal := ⟨.initial, [], []⟩

/-- A computation that keeps book. -/
abbrev Log := Attempt Halt Journal

namespace Log

variable {α : Type}

/-! ## §2. Operations. -/

/-- Declare a variable, and note its cell. -/
def declare (name : String) (v : Value) : Log Unit := fun j =>
  (.ok (), ⟨(Exec.declare name v j.machine).2, j.own ++ [j.machine.heap.next], j.activations⟩)

/-- The journal at the start of a call: the cells of the function's name and of its
parameters are there. -/
def called (decl : FunDecl) (captured : Captured) (arguments : List Value) (j : Journal) :
    Journal :=
  let m := Exec.called decl captured captured arguments j.machine
  ⟨m, List.range' j.machine.heap.next (m.heap.next - j.machine.heap.next), j.activations⟩

/-- The entry for a call that began on `j` and whose body ended on `j'`. -/
def entry (decl : FunDecl) (captured : Captured) (arguments : List Value) (j j' : Journal) :
    Activation :=
  ⟨decl, captured, arguments, j.machine, { j'.machine with locals := j.machine.locals }, j'.own⟩

/-- The journal behind the call: the machine has gone back to the caller's variables. -/
def finished (decl : FunDecl) (captured : Captured) (arguments : List Value) (j j' : Journal) :
    Journal :=
  let c := entry decl captured arguments j j'
  ⟨c.after, j.own, j'.activations ++ [c]⟩

/-- Run the body of a function, and make an entry. -/
def inCall (decl : FunDecl) (captured : Captured) (arguments : List Value) (body : Log α) :
    Log α := fun j =>
  let (result, j') := body (called decl captured arguments j)
  (result, finished decl captured arguments j j')

/-! ## §3. The machine under the journal. -/

/-- The entry is made behind the call, when the machine is back with its caller. -/
theorem tells_inCall {x : Log α} {y : Exec α} (decl : FunDecl) (captured : Captured)
    (arguments : List Value) (h : Tells Journal.machine x y) :
    Tells Journal.machine (inCall decl captured arguments x)
      (Exec.inCall decl captured captured arguments y) := by
  refine tells_of_eq fun j => ?_
  exact Exec.inCall_eq (h.eq (called decl captured arguments j))

/-- How the journal is kept beside the machine. -/
def book : Bookkeeping Journal where
  toHost := Journal.host
  declare := declare
  inCall := inCall
  answered _ call := call
  ret v := return .returned v
  tells_declare _ _ := tells_of_eq fun _ => rfl
  tells_inCall := tells_inCall
  tells_answered _ h := h
  tells_ret _ := .pure _

/-- The evaluator that keeps the journal. -/
abbrev evaluator : Evaluator Captured Unit Journal :=
  book.evaluator

end Log

/-- Run a program. -/
def Journal.run (j : Journal) (limits : Limits) (body : List Stmt) :
    Except Halt Value × Journal :=
  Log.evaluator.program limits () .nil body j

/-- **A run under the journal is a run of the machine.** -/
theorem Journal.run_machine (j : Journal) (limits : Limits) (body : List Stmt) :
    j.machine.run limits body = ((j.run limits body).1, (j.run limits body).2.machine) :=
  Log.book.run_machine j limits body

end LoxLang
