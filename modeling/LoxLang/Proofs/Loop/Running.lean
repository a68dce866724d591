/-
  LoxLang.Proofs.Loop.Running
  ───────────────────────────
  **A for loop runs as it is written.**  What it abbreviates is a block around a while loop
  around a block, in which the step stands behind the body.  Against the direct account this
  makes three differences, and none can be told by running:

    • scopes are closed again, where the direct account goes back to the variables there
      were: the scope that is closed is the one that was opened (`inBlock_eq_within`),
    • the step runs with a scope more, which is empty: the body is no declaration, and an
      expression does not notice an empty scope (`unmoved_eval`),
    • an absent condition is a literal that is evaluated (`whileCondition_eq`).
-/
import LoxLang.Proofs.Carried
import LoxLang.Proofs.InPlace.Discipline
import LoxLang.Proofs.Loop.Direct

namespace LoxLang

namespace Exec

variable {α β : Type} {e : Env Addr}

/-! ## §1. Local variables for a while. -/

/-- Once the computation is done in `e`, the local variables of before are put back. -/
theorem within_eq {x : Exec α} {m m' : Machine} {result : Except Halt α}
    (h : x { m with locals := some e } = (result, m')) :
    within e x m = (result, { m' with locals := m.locals }) := by
  unfold within
  rw [h]

/-- What leaves the local variables alone may be given them apart from what follows. -/
theorem within_bind {x : Exec α} (h : Still x) (f : α → Exec β) :
    within e (x >>= f) = within e x >>= fun a => within e (f a) := by
  funext m
  rcases hx : x { m with locals := some e } with ⟨halt | a, m'⟩
  · rw [within_eq (Attempt.bind_error hx f), Attempt.bind_error (within_eq hx)]
  · have hlocals : m'.locals = some e := by
      have hstill := h { m with locals := some e }
      rw [hx] at hstill
      exact hstill
    rw [Attempt.bind_ok (within_eq hx)]
    have hm' : ({ ({ m' with locals := m.locals } : Machine) with locals := some e } : Machine)
        = m' := by
      rw [← hlocals]
    unfold within
    rw [Attempt.bind_ok hx, hm']

/-- A block is run with a scope opened in the local variables at hand. -/
theorem inBlock_eq_within {body : Exec α} (h : Keeps body) (m : Machine) :
    inBlock body m = within (m.locals.elim .empty Env.openScope) body m := by
  have hgrown := h (entered m)
  rcases hrun : body (entered m) with ⟨result, m'⟩
  rw [hrun] at hgrown
  rw [inBlock_eq hrun hgrown]
  exact (within_eq hrun).symm

/-- A block inside of other local variables works on these with one more scope. -/
theorem within_inBlock {body : Exec α} (h : Keeps body) :
    within e (inBlock body) = within e.openScope body := by
  funext m
  unfold within
  rw [inBlock_eq_within h]
  rfl

/-- A variable that is declared is one of the variables of what follows, with a cell of its
own. -/
theorem within_declare_bind (name : String) (v : Value) (f : Unit → Exec β) :
    within e (declare name v >>= f)
      = newCell v >>= fun a => within (e.declare name a) (f ()) := by
  funext m
  rfl

/-! ## §2. Expressions in an opened scope. -/

/-- The machine with one more scope, which is empty. -/
def reopened (m : Machine) : Machine :=
  { m with locals := m.locals.map Env.openScope }

/-- The computation does not notice an empty scope. -/
def Unmoved (x : Exec α) : Prop :=
  Attempt.Carries id reopened id x x

/-- Not noticing the scope is handed on to what is put together. -/
theorem unmoved_closed : Attempt.Closed fun α (x : Exec α) => Unmoved x where
  pure _ := Attempt.Carries.pure rfl
  throw _ := Attempt.Carries.throw rfl
  bind := Attempt.Carries.bind

/-- An empty scope has no slots, and leaves those below it as they are. -/
theorem get?_reopened (m : Machine) (slot : Nat) :
    (reopened m).locals.bind (·.get? slot) = m.locals.bind (·.get? slot) := by
  unfold reopened
  cases m.locals with
  | none => rfl
  | some e => rfl

/-- A slot counts from the bottom, and a name is looked for in scopes that have it. -/
theorem unmoved_cell (ref : Ref) : Unmoved (cell ref) := by
  unfold cell
  split
  · refine Attempt.Carries.bind .get fun m => ?_
    rw [get?_reopened]
    split
    · exact .pure rfl
    · exact .throw rfl
  · refine Attempt.Carries.bind .get fun m => ?_
    rw [show (reopened m).globals = m.globals from rfl]
    split
    · exact .pure rfl
    · exact .throw rfl

theorem unmoved_load (ref : Ref) : Unmoved (load ref) :=
  Attempt.Carries.bind (unmoved_cell ref) fun _ => Attempt.Carries.bind .get fun _ => .pure rfl

theorem unmoved_store (ref : Ref) (v : Value) : Unmoved (store ref v) :=
  Attempt.Carries.bind (unmoved_cell ref) fun _ => Attempt.Carries.modify fun _ => rfl

/-- A call has variables of its own. -/
theorem unmoved_inCall (decl : FunDecl) (captured : Captured) (arguments : List Value)
    (body : Exec α) : Unmoved (inCall decl captured captured arguments body) := by
  intro m
  rcases hrun : body (called decl captured captured arguments m) with ⟨result, m'⟩
  have hrun' : body (called decl captured captured arguments (reopened m)) = (result, m') := hrun
  rw [inCall_eq hrun, inCall_eq hrun']
  cases result with
  | error halt => rfl
  | ok a => rfl

/-- **An expression does not notice an empty scope.** -/
theorem unmoved_eval (turns : Nat) : ∀ (depth : Nat) (e : Expr), Unmoved (eval turns depth e) := by
  intro depth
  induction depth with
  | zero => exact fun _ => unmoved_closed.throw _
  | succ depth ih =>
    refine unmoved_closed.eval_succ unmoved_load unmoved_store
      (fun decl captured arguments => ?_) ih
    exact unmoved_inCall decl captured arguments _

/-- For a computation that does not notice it, an opened scope makes no difference. -/
theorem within_openScope {x : Exec α} (h : Unmoved x) : within e.openScope x = within e x := by
  funext m
  have hm : x { m with locals := some e.openScope }
      = Attempt.renamed id reopened id (x { m with locals := some e }) :=
    h { m with locals := some e }
  rcases hx : x { m with locals := some e } with ⟨halt | a, m'⟩
  · rw [hx] at hm
    rw [within_eq hx, within_eq hm]
    rfl
  · rw [hx] at hm
    rw [within_eq hx, within_eq hm]
    rfl

/-! ## §3. One level of the machine. -/

section

variable (turns depth : Nat)

/-- An expression statement at any depth; where none is left, its expression finds that, too. -/
theorem exec_expr (e : Expr) :
    exec turns depth (.expr e) = eval turns (depth - 1) e >>= fun _ => pure .normal := by
  cases depth with
  | zero => rfl
  | succ depth => rfl

theorem exec_varDecl (name : String) (line : Int) (value : Expr) :
    exec turns depth (.varDecl name line value)
      = eval turns (depth - 1) value >>= fun v => declare name v >>= fun _ => pure .normal := by
  cases depth with
  | zero => rfl
  | succ depth => rfl

/-- The condition and the body share what depth is left. -/
theorem exec_whileLoop (c : Expr) (body : Stmt) :
    exec turns depth (.whileLoop c body)
      = loop (return (← eval turns (depth - 1) c).truth) (exec turns (depth - 1) body) turns := by
  cases depth with
  | zero =>
    cases turns with
    | zero => rfl
    | succ turns => rfl
  | succ depth => rfl

/-- A block in which there is something to run. -/
theorem exec_block {body : List Stmt} (hne : body ≠ []) :
    exec turns depth (.block body) = inBlock (sequence (exec turns (depth - 1)) body) := by
  cases depth with
  | zero =>
    funext m
    have hrun : sequence (exec turns 0) body (entered m) = (.error .exhausted, entered m) := by
      cases body with
      | nil => exact absurd rfl hne
      | cons s body => rfl
    exact (inBlock_eq hrun (grown_refl _)).symm
  | succ depth => rfl

/-- A row of one statement ends as this statement does. -/
theorem sequence_singleton (step : Stmt → Exec Completion) (s : Stmt) :
    sequence step [s] = step s := by
  funext m
  unfold sequence
  rcases hs : step s m with ⟨halt | c, m'⟩
  · exact Attempt.bind_error hs _
  · rw [Attempt.bind_ok hs]
    cases c with
    | normal => rfl
    | returned v => rfl

end

end Exec

/-! ## §4. Running. -/

namespace ForLoop

open Exec

/-- What stands for one turn: the body, and behind it the step. -/
def turn (l : ForLoop) : List Stmt :=
  l.body :: (l.step.map Stmt.expr).toList

/-- What stands for all turns. -/
def whileStmt (l : ForLoop) : Stmt :=
  .whileLoop (l.condition.getD (.literal (.bool true))) (.block l.turn)

/-- A turn has a body, and so its block opens a scope for something. -/
theorem turn_ne_nil (l : ForLoop) : l.turn ≠ [] :=
  List.cons_ne_nil _ _

/-- The loop is a block around its first clause and a while loop. -/
theorem toStmt_eq (l : ForLoop) :
    l.toStmt = .block (l.initial.toStmt?.toList ++ [l.whileStmt]) :=
  rfl

/-- The body declares nothing outside of itself. -/
structure Plain (l : ForLoop) : Prop where
  tidy : l.body.Tidy
  declares : l.body.declared? = none

variable {l : ForLoop} (turns depth : Nat) (e : Env Addr)

/-- The body of a loop declares no local variable. -/
theorem Plain.still (h : l.Plain) : Still (exec turns depth l.body) := by
  have hedits := (still_eval_edits_exec turns depth).2 h.tidy
  rw [h.declares] at hedits
  exact hedits.still

theorem still_eval (c : Expr) : Still (eval turns depth c) :=
  (still_eval_edits_exec turns depth).1 c

/-- A row of tidy statements gives back all scopes but the one it may declare in. -/
theorem keeps_row {body : List Stmt} (h : ∀ s ∈ body, s.Tidy) :
    Keeps (sequence (exec turns depth) body) :=
  keeps_closed.sequence fun s hs => ((still_eval_edits_exec turns depth).2 (h s hs)).keeps

theorem Plain.tidy_turn (h : l.Plain) : ∀ s ∈ l.turn, s.Tidy := by
  intro s hs
  rcases List.mem_cons.1 hs with rfl | hs
  · exact h.tidy
  · obtain ⟨step, -, rfl⟩ := Option.map_eq_some_iff.1 (Option.mem_toList.1 hs)
    exact .expr step

/-- What the block of the loop is made of is tidy, as the parser would have it. -/
theorem Plain.tidy_row (h : l.Plain) : ∀ s ∈ l.initial.toStmt?.toList ++ [l.whileStmt], s.Tidy := by
  intro s hs
  rcases List.mem_append.1 hs with hs | hs
  · cases hinitial : l.initial with
    | absent =>
      rw [hinitial] at hs
      cases hs
    | expression c =>
      rw [hinitial] at hs
      cases List.mem_singleton.1 hs
      exact .expr c
    | declared name line value =>
      rw [hinitial] at hs
      cases List.mem_singleton.1 hs
      exact .varDecl name line value
  · cases List.mem_singleton.1 hs
    exact .whileLoop _ (.block h.tidy_turn) rfl

/-- Behind the body, in its block, the step is evaluated as it is outside. -/
theorem within_step :
    within e.openScope (sequence (exec turns depth) (l.step.map Stmt.expr).toList)
      = within e (l.advance turns (depth - 1)) >>= fun _ => pure .normal := by
  unfold advance
  cases l.step with
  | none => rfl
  | some step =>
    show within e.openScope (sequence (exec turns depth) [.expr step]) = _
    have hstill := still_eval turns (depth - 1) step
    rw [sequence_singleton, exec_expr, within_bind hstill,
      within_openScope (unmoved_eval turns (depth - 1) step)]
    dsimp only
    rw [within_bind hstill, bind_assoc]
    rfl

/-- One turn, behind the condition. -/
theorem within_turn (h : l.Plain) :
    within e (exec turns depth (.block l.turn))
      = within e.openScope (exec turns (depth - 1) l.body) >>= fun
        | .normal => within e (l.advance turns (depth - 1 - 1)) >>= fun _ => pure .normal
        | .returned v => pure (.returned v) := by
  rw [exec_block turns depth l.turn_ne_nil,
    within_inBlock (keeps_row turns (depth - 1) h.tidy_turn)]
  unfold turn Exec.sequence
  rw [within_bind (h.still turns (depth - 1))]
  refine bind_congr fun c => ?_
  cases c with
  | normal => exact within_step turns (depth - 1) e
  | returned v => rfl

/-- The condition of the while loop. -/
def whileCondition (l : ForLoop) : Exec Bool := do
  return (← eval turns depth (l.condition.getD (.literal (.bool true)))).truth

/-- A condition that is missing holds, as `true` does wherever depth is left. -/
theorem whileCondition_eq (hdepth : depth ≠ 0) :
    l.whileCondition turns depth = l.holds turns depth := by
  obtain ⟨k, rfl⟩ := Nat.exists_eq_succ_of_ne_zero hdepth
  unfold whileCondition holds
  cases l.condition with
  | none => rfl
  | some c => rfl

/-- All turns. -/
theorem within_loop (h : l.Plain) (count : Nat) :
    within e (loop (l.whileCondition turns (depth - 2))
        (exec turns (depth - 2) (.block l.turn)) count)
      = l.repeated turns depth e count := by
  have hcondition : Still (l.whileCondition turns (depth - 2)) :=
    (still_eval turns (depth - 2) _).bind fun _ => .pure _
  have hturn : Still (exec turns (depth - 2) (.block l.turn)) := by
    rw [exec_block turns (depth - 2) l.turn_ne_nil]
    exact still_inBlock (keeps_row turns _ h.tidy_turn)
  induction count with
  | zero => rfl
  | succ count ih =>
    unfold loop repeated
    rw [within_bind hcondition]
    by_cases hdepth : depth - 2 = 0
    · -- without a condition, it is the body that finds no depth left
      have hbody : depth - 3 = 0 := by omega
      rw [hdepth, hbody]
      unfold holds
      cases l.condition with
      | none => rfl
      | some c => rfl
    · rw [whileCondition_eq turns (depth - 2) hdepth] at ih ⊢
      refine bind_congr fun goesOn => ?_
      cases goesOn with
      | false => rfl
      | true =>
        simp only [if_true]
        rw [within_bind hturn, within_turn turns (depth - 2) e h, bind_assoc]
        refine bind_congr fun c => ?_
        cases c with
        | normal =>
          simp only [bind_assoc, pure_bind]
          rw [ih]
          rfl
        | returned v => rfl

/-- The loop behind its first clause. -/
theorem within_while (h : l.Plain) :
    within e (sequence (exec turns (depth - 1)) [l.whileStmt])
      = l.repeated turns depth e turns := by
  rw [sequence_singleton, whileStmt, exec_whileLoop]
  exact within_loop turns depth e h turns

/-- The first clause, and then the loop. -/
theorem within_sequence (h : l.Plain) :
    within e (sequence (exec turns (depth - 1)) (l.initial.toStmt?.toList ++ [l.whileStmt]))
      = l.initial.run turns (depth - 2) e >>= fun e => l.repeated turns depth e turns := by
  have hwhile := fun e => within_while turns depth e h
  cases l.initial with
  | absent => exact hwhile e
  | expression c =>
    have hstill := still_eval turns (depth - 1 - 1) c
    show within e (sequence (exec turns (depth - 1)) (.expr c :: [_])) = _
    unfold Exec.sequence
    rw [exec_expr, bind_assoc, within_bind hstill]
    unfold ForInitial.run
    simp only [bind_assoc, pure_bind]
    refine bind_congr fun _ => ?_
    exact hwhile e
  | declared name line value =>
    have hstill := still_eval turns (depth - 1 - 1) value
    show within e (sequence (exec turns (depth - 1)) (.varDecl name line value :: [_])) = _
    unfold Exec.sequence
    rw [exec_varDecl, bind_assoc, within_bind hstill]
    unfold ForInitial.run
    simp only [bind_assoc, pure_bind]
    refine bind_congr fun v => ?_
    rw [within_declare_bind]
    refine bind_congr fun a => ?_
    exact hwhile (e.declare name a)

/-- **A for loop runs as it is written.** -/
theorem exec_toStmt (h : l.Plain) : exec turns depth l.toStmt = l.run turns depth := by
  funext m
  have hblock : exec turns depth l.toStmt = inBlock (sequence (exec turns (depth - 1))
      (l.initial.toStmt?.toList ++ [l.whileStmt])) :=
    exec_block turns depth (List.append_ne_nil_of_right_ne_nil _ (List.cons_ne_nil _ _))
  rw [hblock, inBlock_eq_within (keeps_row turns (depth - 1) h.tidy_row),
    within_sequence turns depth _ h]
  rfl

/-- Behind a loop, the local variables are those there were in front of it. -/
theorem still_run (h : l.Plain) : Still (l.run turns depth) := by
  have hedits : Edits false (exec turns depth l.toStmt) :=
    (still_eval_edits_exec turns depth).2 (.block h.tidy_row)
  rw [exec_toStmt turns depth h] at hedits
  exact hedits.still

end ForLoop

end LoxLang
