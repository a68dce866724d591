/-
  LoxLang.Proofs.Film.Evaluator
  ─────────────────────────────
  **Running programs on film.**  An evaluator that does what the machine does and keeps every
  state that the machine passes through.  A call is filmed step by step: the environment that
  the function has captured, then the binding of its own name, then that of each parameter,
  then the body, and at last the variables of the caller again.

    • `Film.states`     — the states passed through, the present one first
    • `Film.calls`      — the calls, each with the state in which the function is bound under
                          its own name and its parameters are not bound yet
    • `Film.run_machine` — what is filmed is what the machine does
-/
import LoxLang.Proofs.Machine.Evaluator

namespace LoxLang

/-! ## §1. Films. -/

/-- A call that has begun. -/
structure Call where
  decl : FunDecl
  captured : Captured
  /-- The machine when the function's own name is bound, and no parameter. -/
  state : Machine

/-- A machine whose past is kept. -/
structure Film where
  machine : Machine
  /-- The states that are past, the latest first. -/
  past : List Machine
  /-- The calls so far, in the order in which they began. -/
  calls : List Call

namespace Film

/-- The state before any program has run. -/
def initial : Film := ⟨.initial, [], []⟩

/-- All states up to the present one, the latest first. -/
def states (f : Film) : List Machine :=
  f.machine :: f.past

/-- Go on to another state. -/
def advance (f : Film) (m : Machine) : Film :=
  ⟨m, f.states, f.calls⟩

/-- The machine on film; every state that it goes on to is kept. -/
def host : Host Film :=
  ⟨machine, advance, fun _ _ => rfl⟩

end Film

/-- A computation on film. -/
abbrev Filmed := Attempt Halt Film

namespace Filmed

variable {α : Type}

/-! ## §2. Operations. -/

/-- Run `body` with other local variables, and go back to those there were. -/
def within (locals : Captured) (body : Filmed α) : Filmed α := fun f =>
  let (result, f') := body (f.advance { f.machine with locals := locals })
  (result, f'.advance { f'.machine with locals := f.machine.locals })

/-- Declare variables, one after the other. -/
def declareAll : List (String × Value) → Filmed Unit
  | [] => return ()
  | (name, v) :: rest => do
      Film.host.lift (Exec.declare name v)
      declareAll rest

/-- Bind a function under its own name, and keep the state as the beginning of a call. -/
def begin (decl : FunDecl) (captured : Captured) : Filmed Unit := do
  Film.host.lift (Exec.declare decl.name (.function decl captured))
  modify fun f => { f with calls := f.calls ++ [⟨decl, captured, f.machine⟩] }

/-- Run the body of a function. -/
def inCall (decl : FunDecl) (captured : Captured) (arguments : List Value) (body : Filmed α) :
    Filmed α :=
  within (some ((captured.map Env.capture).getD .empty)) do
    begin decl captured
    declareAll (decl.params.zip arguments)
    body

/-! ## §3. The machine on film. -/

/-- Declarations one after the other make the cells that a call makes at once. -/
theorem machine_declareAll (xs : List (String × Value)) :
    ∀ (f : Film) (e : Env Addr), f.machine.locals = some e →
      ∃ f', declareAll xs f = (.ok (), f')
        ∧ f'.machine = ⟨(e.declareCells f.machine.heap xs).2, f.machine.globals,
            some (e.declareCells f.machine.heap xs).1, f.machine.output⟩ := by
  induction xs with
  | nil =>
    intro f e he
    refine ⟨f, rfl, ?_⟩
    show f.machine = ⟨f.machine.heap, f.machine.globals, some e, f.machine.output⟩
    rw [← he]
  | cons x xs ih =>
    intro f e he
    have hdeclare : (Exec.declare x.1 x.2 f.machine).2 = ⟨f.machine.heap.alloc x.2,
        f.machine.globals, some (e.declare x.1 f.machine.heap.next), f.machine.output⟩ := by
      obtain ⟨⟨heap, globals, locals, output⟩, past, calls⟩ := f
      cases he
      rfl
    obtain ⟨f', hrest, hmachine⟩ := ih (f.advance (Exec.declare x.1 x.2 f.machine).2)
      (e.declare x.1 f.machine.heap.next) (congrArg Machine.locals hdeclare)
    refine ⟨f', hrest, ?_⟩
    rw [hmachine]
    show Machine.mk _ (Exec.declare x.1 x.2 f.machine).2.globals _
      (Exec.declare x.1 x.2 f.machine).2.output = _
    simp only [Film.advance, hdeclare]
    rfl

/-- Step by step, a call comes to the state in which the machine runs the body. -/
theorem tells_inCall {x : Filmed α} {y : Exec α} (decl : FunDecl) (captured : Captured)
    (arguments : List Value) (h : Tells Film.machine x y) :
    Tells Film.machine (inCall decl captured arguments x)
      (Exec.inCall decl captured captured arguments y) := by
  refine tells_of_eq fun f => ?_
  -- the state in which the body starts
  let e := (captured.map Env.capture).getD .empty
  let m : Machine := { f.machine with locals := some e }
  let named : Film := (f.advance m).advance (Exec.declare decl.name (.function decl captured) m).2
  obtain ⟨f', hrest, hmachine⟩ := machine_declareAll (decl.params.zip arguments)
    { named with calls := named.calls ++ [⟨decl, captured, named.machine⟩] }
    (e.declare decl.name f.machine.heap.next) rfl
  have hstart : f'.machine = Exec.called decl captured captured arguments f.machine := hmachine
  have hbody := h.eq f'
  rw [hstart] at hbody
  have hinside : inCall decl captured arguments x f
      = ((x f').1, (x f').2.advance { (x f').2.machine with locals := f.machine.locals }) := by
    have hrun : (begin decl captured >>= fun _ =>
        declareAll (decl.params.zip arguments) >>= fun _ => x) (f.advance m) = x f' := by
      show (declareAll (decl.params.zip arguments) >>= fun _ => x)
        { named with calls := named.calls ++ [⟨decl, captured, named.machine⟩] } = x f'
      exact Attempt.bind_ok hrest _
    unfold inCall within
    dsimp only
    rw [hrun]
    rfl
  rw [hinside]
  exact Exec.inCall_eq hbody

/-- How the film is made beside the machine. -/
def book : Bookkeeping Film where
  toHost := Film.host
  declare name v := Film.host.lift (Exec.declare name v)
  inCall := inCall
  answered _ call := call
  ret v := return .returned v
  tells_declare name v := Film.host.tells_lift (Exec.declare name v)
  tells_inCall := tells_inCall
  tells_answered _ h := h
  tells_ret _ := .pure _

/-- The evaluator that makes the film. -/
abbrev evaluator : Evaluator Captured Unit Film :=
  book.evaluator

end Filmed

/-- Run a program. -/
def Film.run (f : Film) (limits : Limits) (body : List Stmt) : Except Halt Value × Film :=
  Filmed.evaluator.program limits () .nil body f

/-- **A run on film is a run of the machine.** -/
theorem Film.run_machine (f : Film) (limits : Limits) (body : List Stmt) :
    f.machine.run limits body = ((f.run limits body).1, (f.run limits body).2.machine) :=
  Filmed.book.run_machine f limits body

end LoxLang
