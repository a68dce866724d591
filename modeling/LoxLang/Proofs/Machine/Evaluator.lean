/-
  LoxLang.Proofs.Machine.Evaluator
  ────────────────────────────────
  **One evaluator for all kinds of bookkeeping.**  Whoever wants to see more of a run than the
  machine shows runs the program by an evaluator that keeps book: of the calls, of the states
  passed through, of the state in which the resolver came to the code.  Such evaluators differ
  in what they do at a dozen places, and in nothing else:

    • `Evaluator`   — what is done at these places, with the evaluator that it makes
                      (`eval`, `exec`, `program`),
    • `Bookkeeping` — an evaluator of resolved programs that has a machine in its state, with
                      the laws that at these places it does to the machine what the machine
                      does by itself.

  Main result:
    * `Bookkeeping.run_machine` — the machine of an evaluator that keeps book runs as the
                                  machine runs by itself.
-/
import LoxLang.Proofs.Carried
import LoxLang.Proofs.Machine.Locals

namespace LoxLang

/-! ## §1. Evaluators. -/

/-- What an evaluator does where evaluators differ.  Its states are `σ`, its functions carry a
`κ`, and it comes to code in a `ρ`: what is known of the place where the code stands. -/
structure Evaluator (κ ρ σ : Type) where
  /-- An operation of the machine: print, or give the result of an operator. -/
  lift : {α : Type} → ExecWith κ α → Attempt Halt σ α
  /-- The value of a variable. -/
  load : ρ → Ref → Attempt Halt σ (Value κ)
  /-- Give a variable the value of this computation. -/
  assign : ρ → Ref → Attempt Halt σ (Value κ) → Attempt Halt σ (Value κ)
  /-- Declare a variable. -/
  declare : String → Value κ → Attempt Halt σ Unit
  /-- What a function carries that is declared in this state. -/
  capture : ρ → σ → κ
  /-- Run the body of a block. -/
  inBlock : Attempt Halt σ (Completion κ) → Attempt Halt σ (Completion κ)
  /-- Run the body of a function, for these arguments. -/
  inCall : FunDecl → κ → List (Value κ) → Attempt Halt σ (Completion κ) →
    Attempt Halt σ (Completion κ)
  /-- A call of this function, from when its callee and its arguments are known. -/
  answered : FunDecl → Attempt Halt σ (Value κ) → Attempt Halt σ (Value κ)
  /-- End a statement by returning this value. -/
  ret : Value κ → Attempt Halt σ (Completion κ)
  /-- The place inside of a block. -/
  inside : ρ → ρ
  /-- The place inside of a function. -/
  within : FunDecl → κ → ρ
  /-- The place behind a statement. -/
  behind : ρ → Stmt → ρ

namespace Evaluator

variable {κ ρ σ : Type} (E : Evaluator κ ρ σ)

/-- Call a value with arguments, where `run` runs the body of a function. -/
def callValue (run : FunDecl → κ → Attempt Halt σ (Completion κ)) (line : Int)
    (callee : Value κ) (arguments : List (Value κ)) : Attempt Halt σ (Value κ) := do
  match callee with
  | .function decl captured =>
      if arguments.length = decl.arity then
        E.answered decl do
          match ← E.inCall decl captured arguments (run decl captured) with
          | .normal => return .nil
          | .returned v => return v
      else throw (.error ⟨.wrongArity decl.arity arguments.length, line⟩)
  | v => throw (.error ⟨.notCallable v.text, line⟩)

/-- Run one statement after the other, each at the place behind the one before it, until one
returns. -/
def sequence (step : ρ → Stmt → Attempt Halt σ (Completion κ)) (r : ρ) :
    List Stmt → Attempt Halt σ (Completion κ)
  | [] => return .normal
  | s :: rest => do
      match ← step r s with
      | .normal => sequence step (E.behind r s) rest
      | .returned v => return .returned v

mutual

/-- The value of an expression. -/
def eval (turns : Nat) : Nat → ρ → Expr → Attempt Halt σ (Value κ)
  | 0, _, _ => throw .exhausted
  | _ + 1, _, .literal value => return value.toValue
  | depth + 1, r, .group inner => eval turns depth r inner
  | depth + 1, r, .unary op line operand => do
      let v ← eval turns depth r operand
      E.lift (Exec.ofExcept (op.apply line v))
  | depth + 1, r, .binary (.connective c) _ left right => do
      let v ← eval turns depth r left
      if c.settledBy v then return v else eval turns depth r right
  | depth + 1, r, .binary (.strict op) line left right => do
      let v ← eval turns depth r left
      let w ← eval turns depth r right
      E.lift (Exec.ofExcept (op.apply line v w))
  | _ + 1, r, .var ref => E.load r ref
  | depth + 1, r, .assign target value => E.assign r target (eval turns depth r value)
  | depth + 1, r, .call line callee arguments => do
      let f ← eval turns depth r callee
      let vs ← Attempt.each (eval turns depth r) arguments
      E.callValue (fun decl captured =>
        E.sequence (exec turns depth) (E.within decl captured) decl.body) line f vs

/-- Run a statement. -/
def exec (turns : Nat) : Nat → ρ → Stmt → Attempt Halt σ (Completion κ)
  | 0, _, _ => throw .exhausted
  | depth + 1, r, .expr e => do
      let _ ← eval turns depth r e
      return .normal
  | depth + 1, r, .print es => do
      let _ ← Attempt.each (fun e => do
        E.lift (Exec.write ((← eval turns depth r e).text ++ " "))) es
      E.lift (Exec.write "\n")
      return .normal
  | depth + 1, r, .ifThen condition thenBranch => do
      if (← eval turns depth r condition).truth then exec turns depth r thenBranch
      else return .normal
  | depth + 1, r, .ifElse condition thenBranch elseBranch => do
      if (← eval turns depth r condition).truth then exec turns depth r thenBranch
      else exec turns depth (E.behind r thenBranch) elseBranch
  | depth + 1, r, .block body => E.inBlock (E.sequence (exec turns depth) (E.inside r) body)
  | depth + 1, r, .varDecl name _ initial => do
      let v ← eval turns depth r initial
      E.declare name v
      return .normal
  | depth + 1, r, .whileLoop condition body =>
      Exec.loop (return (← eval turns depth r condition).truth) (exec turns depth r body) turns
  | _ + 1, r, .funDecl name line params body => do
      let captured := E.capture r (← get)
      E.declare name (.function ⟨name, line, params, body⟩ captured)
      return .normal
  | depth + 1, r, .ret _ value => do
      let v ← eval turns depth r value
      E.ret v

end

/-- Run top-level statements, where `last` is the value of the last expression statement so
far. -/
def program (limits : Limits) (r : ρ) (last : Value κ) : List Stmt → Attempt Halt σ (Value κ)
  | [] => return last
  | .expr e :: rest => do
      let v ← E.eval limits.turns limits.depth r e
      program limits (E.behind r (.expr e)) v rest
  | s :: rest => do
      match ← E.exec limits.turns limits.depth r s with
      | .normal => program limits (E.behind r s) last rest
      | .returned _ => return last

/-- A statement that is no expression statement gives the program no value. -/
theorem program_cons_of_ne {s : Stmt} (h : ∀ e, s ≠ .expr e) {limits : Limits} {r : ρ}
    {last : Value κ} {rest : List Stmt} :
    E.program limits r last (s :: rest) = (do
      match ← E.exec limits.turns limits.depth r s with
      | .normal => E.program limits (E.behind r s) last rest
      | .returned _ => return last) := by
  cases s with
  | expr e => exact absurd rfl (h e)
  | _ => rfl

end Evaluator

/-! ## §2. What an evaluator does to the machine in its state. -/

section Tells

variable {σ α β : Type} {machine : σ → Machine} {x : Attempt Halt σ α} {y : Exec α}

/-- The computation does to the machine in its state what `y` does to the machine. -/
def Tells (machine : σ → Machine) (x : Attempt Halt σ α) (y : Exec α) : Prop :=
  Attempt.Carries id machine id x y

/-- A result is given without touching the machine. -/
theorem Tells.pure (a : α) : Tells machine (pure a) (pure a) :=
  Attempt.Carries.pure rfl

theorem Tells.throw (halt : Halt) : Tells machine (throw halt : Attempt Halt σ α) (throw halt) :=
  Attempt.Carries.throw rfl

/-- Telling is preserved by sequence. -/
theorem Tells.bind {f : α → Attempt Halt σ β} {g : α → Exec β} (h : Tells machine x y)
    (hf : ∀ a, Tells machine (f a) (g a)) : Tells machine (x >>= f) (y >>= g) :=
  Attempt.Carries.bind h hf

/-- What `y` does to the machine of a state is read off what `x` does to the state. -/
theorem Tells.eq (h : Tells machine x y) (s : σ) :
    y (machine s) = ((x s).1, machine (x s).2) := by
  have hs := h s
  rcases hx : x s with ⟨halt | a, s'⟩
  · rw [hx] at hs
    exact hs
  · rw [hx] at hs
    exact hs

/-- Results are not renamed, so that an equation of outcomes will do. -/
theorem tells_of_eq (h : ∀ s, y (machine s) = ((x s).1, machine (x s).2)) :
    Tells machine x y := by
  intro s
  rw [h s]
  rcases x s with ⟨halt | a, s'⟩
  · rfl
  · rfl

/-- A row of computations, each of which tells. -/
theorem tells_each {ι : Type} {f : ι → Attempt Halt σ α} {g : ι → Exec α}
    (h : ∀ i, Tells machine (f i) (g i)) :
    ∀ is : List ι, Tells machine (Attempt.each f is) (Attempt.each g is) := by
  intro is
  induction is with
  | nil => exact .pure _
  | cons i is ih => exact (h i).bind fun _ => ih.bind fun _ => .pure _

/-- A loop tells of the loop on the machine, turn by turn. -/
theorem tells_loop {condition : Attempt Halt σ Bool} {condition' : Exec Bool}
    {body : Attempt Halt σ Completion} {body' : Exec Completion}
    (hcondition : Tells machine condition condition') (hbody : Tells machine body body') :
    ∀ turns, Tells machine (Exec.loop condition body turns)
      (Exec.loop condition' body' turns) := by
  intro turns
  induction turns with
  | zero => exact .throw _
  | succ turns ih =>
    refine hcondition.bind fun holds => ?_
    split
    · refine hbody.bind fun c => ?_
      cases c with
      | normal => exact ih
      | returned v => exact .pure _
    · exact .pure _

end Tells

/-! ## §3. Machines inside of other states. -/

/-- States that have a machine in them. -/
structure Host (σ : Type) where
  machine : σ → Machine
  /-- Go on to another state of the machine. -/
  advance : σ → Machine → σ
  machine_advance : ∀ s m, machine (advance s m) = m

namespace Host

variable {σ α : Type} (H : Host σ)

/-- An operation of the machine. -/
def lift (x : Exec α) : Attempt Halt σ α := fun s =>
  ((x (H.machine s)).1, H.advance s (x (H.machine s)).2)

/-- Run `body` in a scope of its own; at top level, in a local environment of its own. -/
def inBlock (body : Attempt Halt σ α) : Attempt Halt σ α := fun s =>
  let (result, s') := body (H.advance s (Exec.entered (H.machine s)))
  let (result, m) := Exec.inBlock (fun _ => (result, H.machine s')) (H.machine s)
  (result, H.advance s' m)

variable {H} in
/-- An operation that is lifted moves the machine, and whatever goes with it, on. -/
theorem lift_eq {x : Exec α} {s : σ} {result : Except Halt α} {m : Machine}
    (h : x (H.machine s) = (result, m)) : H.lift x s = (result, H.advance s m) := by
  unfold lift
  rw [h]

/-- An operation that is lifted tells of itself. -/
theorem tells_lift (x : Exec α) : Tells H.machine (H.lift x) x :=
  tells_of_eq fun s => Prod.ext rfl (H.machine_advance s _).symm

/-- A scope is opened and closed on the machine alone, with the body between. -/
theorem tells_inBlock {x : Attempt Halt σ α} {y : Exec α} (h : Tells H.machine x y) :
    Tells H.machine (H.inBlock x) (Exec.inBlock y) := by
  refine tells_of_eq fun s => ?_
  have hbody := h.eq (H.advance s (Exec.entered (H.machine s)))
  rw [H.machine_advance] at hbody
  rw [Exec.inBlock_const, hbody]
  exact Prod.ext rfl (H.machine_advance _ _).symm

end Host

/-! ## §4. Bookkeeping. -/

/-- A way to keep book beside the machine: what is done where the machine declares a variable,
calls a function or returns, with the laws that the machine goes on as it does by itself. -/
structure Bookkeeping (σ : Type) extends Host σ where
  declare : String → Value → Attempt Halt σ Unit
  inCall : FunDecl → Captured → List Value → Attempt Halt σ Completion → Attempt Halt σ Completion
  answered : FunDecl → Attempt Halt σ Value → Attempt Halt σ Value
  ret : Value → Attempt Halt σ Completion
  tells_declare : ∀ name v, Tells machine (declare name v) (Exec.declare name v)
  tells_inCall : ∀ {x y} decl captured arguments, Tells machine x y →
    Tells machine (inCall decl captured arguments x)
      (Exec.inCall decl captured captured arguments y)
  tells_answered : ∀ {x y} decl, Tells machine x y → Tells machine (answered decl x) y
  tells_ret : ∀ v, Tells machine (ret v) (pure (.returned v))

namespace Bookkeeping

variable {σ : Type}

/-- The evaluator that keeps book in this way.  It runs resolved programs, so that it need not
know where the code stands. -/
def evaluator (B : Bookkeeping σ) : Evaluator Captured Unit σ where
  lift := B.lift
  load _ ref := B.lift (Exec.load ref)
  assign _ target value := do
    let v ← value
    B.lift (Exec.store target v)
    return v
  declare := B.declare
  capture _ s := (B.machine s).locals.map Env.capture
  inBlock := B.inBlock
  inCall := B.inCall
  answered := B.answered
  ret := B.ret
  inside _ := ()
  within _ _ := ()
  behind _ _ := ()

variable {B : Bookkeeping σ}

/-- A call: the laws of bookkeeping for its two parts, and the body in between. -/
theorem tells_callValue {run : FunDecl → Captured → Attempt Halt σ Completion}
    {run' : FunDecl → Captured → Exec Completion}
    (h : ∀ decl captured, Tells B.machine (run decl captured) (run' decl captured)) (line : Int)
    (callee : Value) (arguments : List Value) :
    Tells B.machine (B.evaluator.callValue run line callee arguments)
      (Exec.callValue id run' line callee arguments) := by
  cases callee with
  | function decl captured =>
    unfold Evaluator.callValue Exec.callValue
    dsimp only
    split
    · refine B.tells_answered decl ?_
      refine (B.tells_inCall decl captured arguments (h decl captured)).bind fun c => ?_
      cases c with
      | normal => exact .pure _
      | returned v => exact .pure _
    · exact .throw _
  | _ => exact .throw _

/-- A row of statements tells of the row on the machine. -/
theorem tells_sequence {step : Unit → Stmt → Attempt Halt σ Completion}
    {step' : Stmt → Exec Completion} (h : ∀ s, Tells B.machine (step () s) (step' s)) :
    ∀ body, Tells B.machine (B.evaluator.sequence step () body) (Exec.sequence step' body) := by
  intro body
  induction body with
  | nil => exact .pure _
  | cons s body ih =>
    refine (h s).bind fun c => ?_
    cases c with
    | normal => exact ih
    | returned v => exact .pure _

/-- **Whoever keeps book sees what the machine does.** -/
theorem tells_eval_exec (B : Bookkeeping σ) (turns : Nat) :
    ∀ depth,
      (∀ e, Tells B.machine (B.evaluator.eval turns depth () e) (Exec.eval turns depth e))
      ∧ ∀ s, Tells B.machine (B.evaluator.exec turns depth () s) (Exec.exec turns depth s) := by
  intro depth
  induction depth with
  | zero => exact ⟨fun _ => .throw _, fun _ => .throw _⟩
  | succ depth ih =>
    obtain ⟨heval, hexec⟩ := ih
    refine ⟨?_, ?_⟩
    · intro e
      cases e with
      | literal value => exact .pure _
      | group inner => exact heval inner
      | unary op line operand => exact (heval operand).bind fun _ => B.tells_lift _
      | binary op line left right =>
        cases op with
        | connective c =>
          refine (heval left).bind fun v => ?_
          split
          · exact .pure v
          · exact heval right
        | strict op => exact (heval left).bind fun _ => (heval right).bind fun _ => B.tells_lift _
      | var ref => exact B.tells_lift _
      | assign target value =>
        exact (heval value).bind fun _ => (B.tells_lift _).bind fun _ => .pure _
      | call line callee arguments =>
        exact (heval callee).bind fun _ => (tells_each heval arguments).bind fun _ =>
          tells_callValue (fun decl _ => tells_sequence hexec decl.body) _ _ _
    · intro s
      cases s with
      | expr e => exact (heval e).bind fun _ => .pure _
      | print es =>
        refine (tells_each (fun e => ?_) es).bind fun _ => (B.tells_lift _).bind fun _ => .pure _
        exact (heval e).bind fun _ => B.tells_lift _
      | ifThen condition thenBranch =>
        refine (heval condition).bind fun v => ?_
        split
        · exact hexec thenBranch
        · exact .pure _
      | ifElse condition thenBranch elseBranch =>
        refine (heval condition).bind fun v => ?_
        split
        · exact hexec thenBranch
        · exact hexec elseBranch
      | block body => exact B.tells_inBlock (tells_sequence hexec body)
      | varDecl name line initial =>
        exact (heval initial).bind fun v => (B.tells_declare name v).bind fun _ => .pure _
      | whileLoop condition body =>
        exact tells_loop ((heval condition).bind fun _ => .pure _) (hexec body) turns
      | funDecl name line params body =>
        -- both sides see the same local variables
        exact fun s => ((B.tells_declare name _).bind fun _ => .pure _) s
      | ret line value => exact (heval value).bind fun v => B.tells_ret v

/-- A program tells of the program on the machine, whatever value came last before it. -/
theorem tells_program (B : Bookkeeping σ) (limits : Limits) :
    ∀ (body : List Stmt) (last : Value), Tells B.machine (B.evaluator.program limits () last body)
      (Exec.program limits last body) := by
  intro body
  induction body with
  | nil => exact fun last => .pure last
  | cons s body ih =>
    intro last
    obtain ⟨heval, hexec⟩ := B.tells_eval_exec limits.turns limits.depth
    cases s with
    | expr e => exact (heval e).bind fun v => ih v
    | _ =>
      refine (hexec _).bind fun c => ?_
      cases c with
      | normal => exact ih last
      | returned v => exact .pure _

/-- **A run with bookkeeping is a run of the machine.** -/
theorem run_machine (B : Bookkeeping σ) (s : σ) (limits : Limits) (body : List Stmt) :
    (B.machine s).run limits body = ((B.evaluator.program limits () .nil body s).1,
      B.machine (B.evaluator.program limits () .nil body s).2) :=
  (B.tells_program limits body .nil).eq s

end Bookkeeping

end LoxLang
