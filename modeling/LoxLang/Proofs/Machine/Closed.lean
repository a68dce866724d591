/-
  LoxLang.Proofs.Machine.Closed
  ─────────────────────────────
  **Properties that computations hand on.**  Some properties hold of whatever gives a result
  or stops at once, and of two computations in a row if they hold of both (`Attempt.Closed`).
  To show one of running code, only the operations have to be looked at:

    • rows, loops and calls have the property if their parts have it,
    • and so have expressions, one level of depth after the other (`Closed.eval_succ`).
-/
import LoxLang.Machine.Eval

namespace LoxLang

/-- The property is handed on from computations to what they are put together to. -/
structure Attempt.Closed {ε σ : Type} (P : ∀ α : Type, Attempt ε σ α → Prop) : Prop where
  pure : ∀ {α : Type} (a : α), P α (pure a)
  throw : ∀ {α : Type} (e : ε), P α (throw e)
  bind : ∀ {α β : Type} {x : Attempt ε σ α} {f : α → Attempt ε σ β},
    P α x → (∀ a, P β (f a)) → P β (x >>= f)

namespace Attempt.Closed

/-! ## §1. Rows and loops. -/

section

variable {ε σ α ι : Type} {P : ∀ α : Type, Attempt ε σ α → Prop}

/-- Values are computed one after the other. -/
theorem each (closed : Closed P) {step : ι → Attempt ε σ α} (h : ∀ i, P α (step i)) :
    ∀ is : List ι, P (List α) (Attempt.each step is) := by
  intro is
  induction is with
  | nil => exact closed.pure _
  | cons i is ih => exact closed.bind (h i) fun _ => closed.bind ih fun _ => closed.pure _

end

section

variable {κ σ α ι : Type} {P : ∀ α : Type, Attempt Halt σ α → Prop}

/-- An operator gives a value or stops. -/
theorem ofExcept (closed : Closed P) (a : Except RuntimeError α) : P α (Exec.ofExcept a) := by
  cases a with
  | ok a => exact closed.pure a
  | error e => exact closed.throw _

/-- What follows a statement that may return runs behind a normal end. -/
theorem sequence (closed : Closed P) {step : ι → Attempt Halt σ (Completion κ)} {is : List ι}
    (h : ∀ i ∈ is, P _ (step i)) : P _ (Exec.sequence step is) := by
  induction is with
  | nil => exact closed.pure _
  | cons i is ih =>
    refine closed.bind (h i List.mem_cons_self) fun c => ?_
    cases c with
    | normal => exact ih fun j hj => h j (List.mem_cons_of_mem i hj)
    | returned v => exact closed.pure _

/-- However many turns a loop takes, each is the condition and the body. -/
theorem loop (closed : Closed P) {condition : Attempt Halt σ Bool}
    {body : Attempt Halt σ (Completion κ)} (hcondition : P _ condition) (hbody : P _ body) :
    ∀ turns : Nat, P _ (Exec.loop condition body turns) := by
  intro turns
  induction turns with
  | zero => exact closed.throw _
  | succ turns ih =>
    unfold Exec.loop
    refine closed.bind hcondition fun holds => ?_
    split
    · refine closed.bind hbody fun c => ?_
      cases c with
      | normal => exact ih
      | returned v => exact closed.pure _
    · exact closed.pure _

end

/-! ## §2. Calls and expressions. -/

/-- A call is the run of a body, or an error. -/
theorem callValue {κ : Type} {P : ∀ α : Type, ExecWith κ α → Prop} (closed : Closed P)
    {env : κ → Captured} {run : FunDecl → κ → ExecWith κ (Completion κ)}
    (h : ∀ decl captured arguments,
      P _ (Exec.inCall decl (env captured) captured arguments (run decl captured)))
    (line : Int) (callee : Value κ) (arguments : List (Value κ)) :
    P _ (Exec.callValue env run line callee arguments) := by
  cases callee with
  | function decl captured =>
    unfold Exec.callValue
    dsimp only
    split
    · refine closed.bind (h decl captured arguments) fun c => ?_
      cases c with
      | normal => exact closed.pure _
      | returned v => exact closed.pure _
    · exact closed.throw _
  | _ => exact closed.throw _

/-- One level of depth more: an expression does nothing but what its operands do, to look
variables up, to write to them and to call. -/
theorem eval_succ {P : ∀ α : Type, Exec α → Prop} (closed : Closed P) {turns depth : Nat}
    (hload : ∀ ref, P _ (Exec.load ref)) (hstore : ∀ ref v, P _ (Exec.store ref v))
    (hcall : ∀ decl captured arguments,
      P _ (Exec.inCall decl captured captured arguments
        (Exec.sequence (Exec.exec turns depth) decl.body)))
    (heval : ∀ e, P _ (Exec.eval turns depth e)) (e : Expr) :
    P _ (Exec.eval turns (depth + 1) e) := by
  cases e with
  | literal value => exact closed.pure _
  | group inner => exact heval inner
  | unary op line operand => exact closed.bind (heval operand) fun _ => closed.ofExcept _
  | binary op line left right =>
    cases op with
    | connective c =>
      refine closed.bind (heval left) fun v => ?_
      split
      · exact closed.pure _
      · exact heval right
    | strict op =>
      exact closed.bind (heval left) fun _ => closed.bind (heval right) fun _ => closed.ofExcept _
  | var ref => exact hload ref
  | assign target value =>
    exact closed.bind (heval value) fun _ => closed.bind (hstore target _) fun _ => closed.pure _
  | call line callee arguments =>
    exact closed.bind (heval callee) fun f => closed.bind (closed.each heval arguments) fun vs =>
      closed.callValue hcall line f vs

end Attempt.Closed

end LoxLang
