/-
  LoxLang.Proofs.Return.Record
  ────────────────────────────
  **Running programs with a record of calls and returns.**  An evaluator that does what the
  machine does and writes down three kinds of events, in the order in which they happen: a
  function is called, a return statement has its value, and a call is over, with what it gave.

  A return is written down where the statement is run, and the end of a call where the caller
  goes on.  Nothing in the evaluator ties the two together: the statements around a return
  hand on what they are given, as they do on the machine.
-/
import LoxLang.Proofs.Machine.Evaluator

namespace LoxLang

/-! ## §1. Events. -/

/-- What happens to a call. -/
inductive Event where
  /-- The function is called. -/
  | call (decl : FunDecl)
  /-- A return statement has its value; `m` is the machine at this moment. -/
  | ret (v : Value) (m : Machine)
  /-- The call is over, and gives this to its caller; `m` is the machine behind it. -/
  | answer (result : Except Halt Value) (m : Machine)

/-- A machine with a record of what has happened, the latest last. -/
structure Record where
  machine : Machine
  events : List Event

/-- The machine in the record; what it does is no event by itself. -/
def Record.host : Host Record :=
  ⟨Record.machine, fun r m => { r with machine := m }, fun _ _ => rfl⟩

/-- A computation that keeps a record. -/
abbrev Recorded := Attempt Halt Record

namespace Recorded

variable {α : Type}

/-! ## §2. Operations. -/

/-- Write down an event of this moment. -/
def note (event : Machine → Event) : Recorded Unit :=
  modify fun r => { r with events := r.events ++ [event r.machine] }

/-- Run the body of a function, and go back to the caller's variables. -/
def inCall (decl : FunDecl) (captured : Captured) (arguments : List Value) (body : Recorded α) :
    Recorded α := fun r =>
  let (result, r') :=
    body { r with machine := Exec.called decl captured captured arguments r.machine }
  (result, { r' with machine := { r'.machine with locals := r.machine.locals } })

/-- Write down that the function is called, and what its caller is given. -/
def answered (decl : FunDecl) (call : Recorded Value) : Recorded Value := fun r =>
  let (result, r') := call { r with events := r.events ++ [.call decl] }
  (result, { r' with events := r'.events ++ [.answer result r'.machine] })

/-! ## §3. The machine under the record. -/

variable {x : Recorded α} {y : Exec α}

theorem tells_inCall (decl : FunDecl) (captured : Captured) (arguments : List Value)
    (h : Tells Record.machine x y) : Tells Record.machine (inCall decl captured arguments x)
      (Exec.inCall decl captured captured arguments y) := by
  refine tells_of_eq fun r => ?_
  exact Exec.inCall_eq
    (h.eq { r with machine := Exec.called decl captured captured arguments r.machine })

/-- The two events at the ends of a call do nothing to the machine. -/
theorem tells_answered {x : Recorded Value} {y : Exec Value} (decl : FunDecl)
    (h : Tells Record.machine x y) : Tells Record.machine (answered decl x) y :=
  tells_of_eq fun r => h.eq { r with events := r.events ++ [.call decl] }

/-- How the record is kept beside the machine. -/
def book : Bookkeeping Record where
  toHost := Record.host
  declare name v := Record.host.lift (Exec.declare name v)
  inCall := inCall
  answered := answered
  ret v := do
    note (.ret v)
    return .returned v
  tells_declare name v := Record.host.tells_lift (Exec.declare name v)
  tells_inCall := tells_inCall
  tells_answered := tells_answered
  tells_ret _ := tells_of_eq fun _ => rfl

/-- The evaluator that keeps the record. -/
abbrev evaluator : Evaluator Captured Unit Record :=
  book.evaluator

end Recorded

/-- Run a program, with a record of it alone. -/
def Machine.runRecorded (m : Machine) (limits : Limits) (body : List Stmt) :
    Except Halt Value × Record :=
  Recorded.evaluator.program limits () .nil body ⟨m, []⟩

/-- **A run with a record is a run of the machine.** -/
theorem Machine.run_eq_runRecorded (m : Machine) (limits : Limits) (body : List Stmt) :
    m.run limits body
      = ((m.runRecorded limits body).1, (m.runRecorded limits body).2.machine) :=
  Recorded.book.run_machine ⟨m, []⟩ limits body

end LoxLang
