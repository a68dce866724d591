/-
  LoxLang.Proofs.Scope.Checked
  ────────────────────────────
  **The checked evaluator.**  It runs programs as they were read, on the same machine
  and by the same operations as the evaluator of resolved programs, and carries along
  the state of the resolver at the code it runs.  Whenever a variable is read or
  assigned, it checks that the local environment is laid out as the resolver had it
  when it came to that mention (`Aligned`), and stops with a fault if it is not.

  The second half says what running does to the local environment: expressions leave
  it alone, and statements change it in its active scope only.
-/
import LoxLang.Proofs.Machine.Evaluator
import LoxLang.Proofs.Machine.Locals
import LoxLang.Scope.Resolve

namespace LoxLang

/-! ## §1. What is checked. -/

/-- The mention `ref`, resolved in the state `r`, finds the local environment as the
resolver foresaw it:

    • a slot is a slot of the environment, and that of the innermost binding,
    • without a slot, there is no environment or the name is not bound in it,
    • there is an environment exactly if there was a template,
    • and then it has the names and the scopes of the template. -/
def Aligned (r : Resolver) (ref : Ref) (locals : Option (Env Addr)) : Prop :=
  (∀ slot ∈ (r.bind ref).slot, ∃ e ∈ locals, slot < e.size ∧ e.slotOf? ref.name = some slot)
    ∧ ((r.bind ref).slot = none → ∀ e ∈ locals, e.slotOf? ref.name = none)
    ∧ (locals = none ↔ r.active? = none)
    ∧ ∀ e ∈ locals, ∀ t ∈ r.active?, e.names = t.names ∧ e.marks = t.marks

instance (r : Resolver) (ref : Ref) (locals : Option (Env Addr)) :
    Decidable (Aligned r ref locals) :=
  inferInstanceAs (Decidable (_ ∧ _ ∧ _ ∧ _))

/-- What the checked evaluator keeps with a function: the state of the resolver where
it was declared, and the environment that it captured there. -/
structure Site where
  resolver : Resolver
  env : Captured

/-! ## §2. The evaluator. -/

namespace Checked

/-- Stop with a fault unless the environment is as the resolver foresaw it. -/
def check (r : Resolver) (ref : Ref) : ExecWith Site Unit := do
  if Aligned r ref (← get).locals then return () else throw .fault

/-- The evaluator of programs as they were read.  The place of code is the state in which the
resolver comes to it; a mention is resolved, and checked, when it is evaluated. -/
def evaluator : Evaluator Site Resolver (Machine Site) where
  lift x := x
  load r ref := do
    check r ref
    Exec.load (r.bind ref)
  assign r target value := do
    check r target
    let v ← value
    check r target
    Exec.store (r.bind target) v
    return v
  declare := Exec.declare
  capture r m := ⟨r, m.locals.map Env.capture⟩
  inBlock := Exec.inBlock
  inCall decl site := Exec.inCall decl site.env site
  answered _ call := call
  ret v := return .returned v
  inside := Resolver.enterBlock
  within decl site := site.resolver.enterFunction decl.name decl.params
  behind r s := (s.resolve r).2

/-- Run a program as it was read. -/
def run (m : Machine Site) (limits : Limits) (body : List Stmt) :
    Except Halt (Value Site) × Machine Site :=
  evaluator.program limits .initial .nil body m

/-- A value is called as the machine calls it. -/
theorem callValue_eq (run : FunDecl → Site → ExecWith Site (Completion Site)) (line : Int)
    (callee : Value Site) (arguments : List (Value Site)) :
    evaluator.callValue run line callee arguments
      = Exec.callValue Site.env run line callee arguments := by
  cases callee with
  | function decl site => rfl
  | _ => rfl

/-! ## §3. What running does to the local environment. -/

open Exec

/-- A check looks at the local environment, and does not touch it. -/
theorem still_check (r : Resolver) (ref : Ref) : Still (check r ref) := by
  unfold check
  refine .get_bind fun m => ?_
  split
  · exact .pure _
  · exact .throw _

/-- A row of statements changes the local environment in its active scope only, if each of
them does. -/
theorem keeps_sequence {step : Resolver → Stmt → ExecWith Site (Completion Site)}
    (h : ∀ r s, Keeps (step r s)) :
    ∀ (body : List Stmt) (r : Resolver), Keeps (evaluator.sequence step r body) := by
  intro body
  induction body with
  | nil => exact fun r => (Still.pure _).keeps
  | cons s body ih =>
    intro r
    refine (h r s).bind fun c => ?_
    cases c with
    | normal => exact ih _
    | returned v => exact (Still.pure _).keeps

/-- **Expressions leave the local environment alone, and statements change it in its
active scope only.** -/
theorem still_eval_keeps_exec (turns : Nat) :
    ∀ depth, (∀ r e, Still (evaluator.eval turns depth r e))
      ∧ ∀ r s, Keeps (evaluator.exec turns depth r s) := by
  intro depth
  induction depth with
  | zero => exact ⟨fun _ _ => .throw _, fun _ _ => (Still.throw _).keeps⟩
  | succ depth ih =>
    obtain ⟨heval, hexec⟩ := ih
    refine ⟨?_, ?_⟩
    · intro r e
      cases e with
      | literal value => exact .pure _
      | group inner => exact heval r inner
      | unary op line operand => exact (heval r operand).bind fun _ => still_closed.ofExcept _
      | binary op line left right =>
        cases op with
        | connective c =>
          refine (heval r left).bind fun v => ?_
          split
          · exact .pure _
          · exact heval r right
        | strict op =>
          exact (heval r left).bind fun _ => (heval r right).bind fun _ => still_closed.ofExcept _
      | var ref => exact (still_check r ref).bind fun _ => still_load _
      | assign target value =>
        exact (still_check r target).bind fun _ => (heval r value).bind fun _ =>
          (still_check r target).bind fun _ => (still_store _ _).bind fun _ => .pure _
      | call line callee arguments =>
        refine (heval r callee).bind fun f => ?_
        refine Still.bind (still_closed.each (heval r) arguments) fun vs => ?_
        rw [callValue_eq]
        exact still_closed.callValue (fun _ _ _ => still_inCall _ _ _ _ _) _ _ _
    · intro r s
      cases s with
      | expr e => exact ((heval r e).bind fun _ => .pure _).keeps
      | print es =>
        refine Still.keeps ((still_closed.each (fun e => ?_) es).bind fun _ =>
          (still_write _).bind fun _ => .pure _)
        exact (heval r e).bind fun _ => still_write _
      | ifThen condition thenBranch =>
        refine (heval r condition).keeps.bind fun v => ?_
        split
        · exact hexec r thenBranch
        · exact (Still.pure _).keeps
      | ifElse condition thenBranch elseBranch =>
        refine (heval r condition).keeps.bind fun v => ?_
        split
        · exact hexec r thenBranch
        · exact hexec _ elseBranch
      | block body => exact (still_inBlock (keeps_sequence hexec body _)).keeps
      | varDecl name line initial =>
        exact (heval r initial).keeps.bind fun v => (keeps_declare name v).bind fun _ =>
          (Still.pure _).keeps
      | whileLoop condition body =>
        have hcondition : Still (do return (← evaluator.eval turns depth r condition).truth) :=
          (heval r condition).bind fun _ => .pure _
        exact keeps_closed.loop hcondition.keeps (hexec r body) turns
      | funDecl name line params body =>
        intro m
        exact ((keeps_declare name _).bind fun _ => (Still.pure _).keeps) m
      | ret line value => exact ((heval r value).bind fun _ => .pure _).keeps

/-- A program changes nothing but the active scope of what there was in front of it. -/
theorem keeps_program (limits : Limits) :
    ∀ (body : List Stmt) (r : Resolver) (last : Value Site),
      Keeps (evaluator.program limits r last body) := by
  intro body
  induction body with
  | nil => exact fun r last => (Still.pure _).keeps
  | cons s body ih =>
    intro r last
    obtain ⟨heval, hexec⟩ := still_eval_keeps_exec limits.turns limits.depth
    -- the value of an expression statement is kept, any other statement may return
    cases s with
    | expr e => exact (heval r e).keeps.bind fun v => ih _ v
    | _ =>
      refine (hexec r _).bind fun c => ?_
      cases c with
      | normal => exact ih _ last
      | returned v => exact (Still.pure _).keeps

/-- A run at top level ends at top level. -/
theorem locals_run {m : Machine Site} (h : m.locals = none) (limits : Limits) (body : List Stmt) :
    (run m limits body).2.locals = none :=
  (keeps_program limits body .initial .nil).locals_eq_none h

end Checked

end LoxLang
