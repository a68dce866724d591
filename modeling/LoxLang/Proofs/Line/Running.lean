/-
  LoxLang.Proofs.Line.Running
  ───────────────────────────
  **Resolving and running do not look at lines.**  A program that is `d` lines further on
  is given the same slots, or refused for the same cause; and it runs as the program does:
  it prints the same, leaves the same variables in the same cells, and stops for the same
  reason, if it stops.  Where a line shows, in a reason or in a function, it is `d` lines
  further on.
-/
import LoxLang.Machine.Eval
import LoxLang.Proofs.Carried
import LoxLang.Proofs.Line.Shift

namespace LoxLang

open Attempt

/-! ## §1. Resolving. -/

mutual

/-- A slot is found by name. -/
theorem Expr.resolve_shift (d : Int) (r : Resolver) : ∀ e : Expr,
    (e.shift d).resolve r = (e.resolve r).shift d
  | .literal value => rfl
  | .binary op line left right => by
    show Expr.binary op (line + d) _ _ = Expr.binary op (line + d) _ _
    rw [Expr.resolve_shift d r left, Expr.resolve_shift d r right]
  | .group inner => by
    show Expr.group _ = Expr.group _
    rw [Expr.resolve_shift d r inner]
  | .unary op line operand => by
    show Expr.unary op (line + d) _ = Expr.unary op (line + d) _
    rw [Expr.resolve_shift d r operand]
  | .var ref => rfl
  | .assign target value => by
    show Expr.assign ((r.bind target).shift d) _ = Expr.assign ((r.bind target).shift d) _
    rw [Expr.resolve_shift d r value]
  | .call line callee arguments => by
    show Expr.call (line + d) _ _ = Expr.call (line + d) _ _
    rw [Expr.resolve_shift d r callee, Expr.resolveAll_shift d r arguments]

/-- Resolving a row of expressions commutes with a shift. -/
theorem Expr.resolveAll_shift (d : Int) (r : Resolver) : ∀ es : List Expr,
    Expr.resolveAll r (Expr.shiftAll d es) = Expr.shiftAll d (Expr.resolveAll r es)
  | [] => rfl
  | e :: es => by
    show _ :: _ = _ :: _
    rw [Expr.resolve_shift d r e, Expr.resolveAll_shift d r es]

end

namespace Resolve

variable {α β : Type} {d : Int}

/-- On the same templates, `y` resolves what `x` resolves, as `onResult` has it. -/
abbrev Shifts (d : Int) (onResult : α → β) (x : Resolve α) (y : Resolve β) : Prop :=
  Carries (ResolveError.shift d) id onResult x y

/-- Resolving an expression never fails, and leaves the resolver as it is. -/
theorem shifts_expr (e : Expr) : Shifts d (Expr.shift d) (expr e) (expr (e.shift d)) :=
  Carries.get.bind fun r => .pure (Expr.resolve_shift d r e).symm

theorem shifts_exprs (es : List Expr) :
    Shifts d (Expr.shiftAll d) (exprs es) (exprs (Expr.shiftAll d es)) :=
  Carries.get.bind fun r => .pure (Expr.resolveAll_shift d r es).symm

/-- Templates hold names, and a name has no line. -/
theorem shifts_declare (name : String) : Shifts d id (declare name) (declare name) :=
  .modify fun _ => rfl

/-- A block is left in the same way, whether its body was refused or not. -/
theorem shifts_inBlock {onResult : α → β} {x : Resolve α} {y : Resolve β}
    (h : Shifts d onResult x y) : Shifts d onResult (inBlock x) (inBlock y) := by
  intro r
  have hy := h r.enterBlock
  simp only [id_eq] at hy
  unfold inBlock
  rcases hx : x r.enterBlock with ⟨e | a, inner⟩
  · rw [hx] at hy
    simp only [id_eq, hy, renamed]
    split
    · rfl
    · rfl
  · rw [hx] at hy
    simp only [id_eq, hy, renamed]
    split
    · rfl
    · rfl

/-- A function is left in the same way, whether its body was refused or not. -/
theorem shifts_inFunction {onResult : α → β} {x : Resolve α} {y : Resolve β}
    (h : Shifts d onResult x y) (name : String) (params : List String) :
    Shifts d onResult (inFunction name params x) (inFunction name params y) := by
  intro r
  have hy := h (r.enterFunction name params)
  simp only [id_eq] at hy
  unfold inFunction
  rcases hx : x (r.enterFunction name params) with ⟨e | a, inner⟩
  · rw [hx] at hy
    simp only [id_eq, hy, renamed]
  · rw [hx] at hy
    simp only [id_eq, hy, renamed]

end Resolve

open Resolve in
mutual

/-- **A statement is given the same slots wherever it stands**, or refused for the same
cause. -/
theorem Stmt.shifts_resolve (d : Int) : ∀ s : Stmt,
    Resolve.Shifts d (Stmt.shift d) s.resolve (s.shift d).resolve
  | .expr e => by
    unfold Stmt.shift Stmt.resolve
    exact (shifts_expr e).bind fun _ => .pure rfl
  | .print es => by
    unfold Stmt.shift Stmt.resolve
    exact (shifts_exprs es).bind fun _ => .pure rfl
  | .ifThen c t => by
    unfold Stmt.shift Stmt.resolve
    exact (shifts_expr c).bind fun _ => (Stmt.shifts_resolve d t).bind fun _ => .pure rfl
  | .ifElse c t u => by
    unfold Stmt.shift Stmt.resolve
    exact (shifts_expr c).bind fun _ => (Stmt.shifts_resolve d t).bind fun _ =>
      (Stmt.shifts_resolve d u).bind fun _ => .pure rfl
  | .block body => by
    unfold Stmt.shift Stmt.resolve
    exact (shifts_inBlock (Stmt.shifts_resolveAll d body)).bind fun _ => .pure rfl
  | .varDecl name line initial => by
    unfold Stmt.shift Stmt.resolve
    exact (shifts_expr initial).bind fun _ => (shifts_declare name).bind fun _ => .pure rfl
  | .whileLoop c t => by
    unfold Stmt.shift Stmt.resolve
    exact (shifts_expr c).bind fun _ => (Stmt.shifts_resolve d t).bind fun _ => .pure rfl
  | .funDecl name line params body => by
    unfold Stmt.shift Stmt.resolve
    -- parameters have no lines of their own
    split
    · exact .throw rfl
    · exact (shifts_inFunction (Stmt.shifts_resolveAll d body) name params).bind fun _ =>
        (shifts_declare name).bind fun _ => .pure rfl
  | .ret line value => by
    unfold Stmt.shift Stmt.resolve
    refine Carries.get.bind fun r => ?_
    simp only [id_eq]
    split
    · exact .throw rfl
    · exact (shifts_expr value).bind fun _ => .pure rfl

/-- A row of statements is resolved alike, or refused on the shifted line. -/
theorem Stmt.shifts_resolveAll (d : Int) : ∀ body : List Stmt,
    Resolve.Shifts d (Stmt.shiftAll d) (Stmt.resolveAll body)
      (Stmt.resolveAll (Stmt.shiftAll d body))
  | [] => by
    unfold Stmt.shiftAll Stmt.resolveAll
    exact .pure rfl
  | s :: body => by
    unfold Stmt.shiftAll Stmt.resolveAll
    exact (Stmt.shifts_resolve d s).bind fun _ =>
      (Stmt.shifts_resolveAll d body).bind fun _ => .pure rfl

end

/-! ## §2. Operations of the machine. -/

namespace Exec

variable {α β : Type} {d : Int}

/-- On a machine whose values are `d` lines further on, `y` does what `x` does, as
`onResult` has it. -/
abbrev Shifts (d : Int) (onResult : α → β) (x : Exec α) (y : Exec β) : Prop :=
  Carries (Halt.shift d) (Machine.shift d) onResult x y

/-- An operator's error is on the shifted line of the operator. -/
theorem shifts_ofExcept {onResult : α → β} {a : Except RuntimeError α}
    {b : Except RuntimeError β} (h : b = (a.map onResult).mapError (RuntimeError.shift d)) :
    Shifts d onResult (ofExcept a) (ofExcept b) := by
  rw [h]
  cases a with
  | ok v => exact .pure rfl
  | error e => exact .throw rfl

theorem shifts_write (text : String) : Shifts d id (write text) (write text) :=
  .modify fun _ => rfl

/-- A cell is found by the slot or the name of a node, and an error names its line. -/
theorem shifts_cell (ref : Ref) : Shifts d id (cell ref) (cell (ref.shift d)) := by
  obtain ⟨name, line, slot⟩ := ref
  cases slot with
  | some slot =>
    refine Carries.get.bind fun m => ?_
    rw [show (m.shift d).locals = m.locals from rfl]
    split
    · exact .pure rfl
    · exact .throw rfl
  | none =>
    refine Carries.get.bind fun m => ?_
    rw [show (m.shift d).globals = m.globals from rfl]
    dsimp only [Ref.shift]
    split
    · exact .pure rfl
    · exact .throw rfl

/-- What is read was put there as a shifted value. -/
theorem shifts_load (ref : Ref) : Shifts d (Value.shift d) (load ref) (load (ref.shift d)) :=
  (shifts_cell ref).bind fun a => Carries.get.bind fun m =>
    .pure (Heap.read_shift d m.heap a).symm

/-- What is written is the shifted value. -/
theorem shifts_store (ref : Ref) (v : Value) :
    Shifts d id (store ref v) (store (ref.shift d) (v.shift d)) := by
  refine (shifts_cell ref).bind fun a => .modify fun m => ?_
  show (⟨(m.heap.shift d).write a (v.shift d), m.globals, m.locals, m.output⟩ : Machine) = _
  rw [Heap.write_shift]
  rfl

/-- A new cell has the same address and holds the shifted value. -/
theorem shifts_declare (name : String) (v : Value) :
    Shifts d id (declare name v) (declare name (v.shift d)) := by
  refine .modify fun m => ?_
  obtain ⟨heap, globals, locals, output⟩ := m
  simp only [Machine.shift, Heap.alloc_shift, Heap.next_shift]
  cases locals with
  | none => rfl
  | some e => rfl

/-- Scopes are opened and closed alike, since no cell of a variable moves. -/
theorem shifts_inBlock {onResult : α → β} {x : Exec α} {y : Exec β} (h : Shifts d onResult x y) :
    Shifts d onResult (inBlock x) (inBlock y) := by
  intro m
  obtain ⟨heap, globals, locals, output⟩ := m
  cases locals with
  | none =>
    have hy : y ⟨heap.shift d, globals, some .empty, output⟩ = _ :=
      h ⟨heap, globals, some .empty, output⟩
    show inBlock y ⟨heap.shift d, globals, none, output⟩ = _
    rcases hx : x ⟨heap, globals, some .empty, output⟩ with ⟨e | a, m'⟩
    · rw [hx] at hy
      simp only [inBlock, hx, hy, renamed, Machine.shift]
    · rw [hx] at hy
      simp only [inBlock, hx, hy, renamed, Machine.shift]
  | some env =>
    have hy : y ⟨heap.shift d, globals, some env.openScope, output⟩ = _ :=
      h ⟨heap, globals, some env.openScope, output⟩
    show inBlock y ⟨heap.shift d, globals, some env, output⟩ = _
    -- the scope is closed on both machines, or missing on both
    rcases hx : x ⟨heap, globals, some env.openScope, output⟩ with ⟨e | a, m'⟩
    · rw [hx] at hy
      simp only [inBlock, hx, hy, renamed, Machine.shift]
      cases m'.locals.bind Env.closeScope? with
      | none => rfl
      | some env' => rfl
    · rw [hx] at hy
      simp only [inBlock, hx, hy, renamed, Machine.shift]
      cases m'.locals.bind Env.closeScope? with
      | none => rfl
      | some env' => rfl

/-- The environment of a call has the same cells, with shifted values in them. -/
theorem activation_shift (d : Int) (decl : FunDecl) (captured : Captured)
    (arguments : List Value) (heap : Heap) :
    activation (decl.shift d) captured captured (arguments.map (Value.shift d)) (heap.shift d)
      = ((activation decl captured captured arguments heap).1,
          (activation decl captured captured arguments heap).2.shift d) := by
  have hcells := Env.declareCells_shift d
    ((decl.name, .function decl captured) :: decl.params.zip arguments)
    ((captured.map Env.capture).getD .empty) heap
  have hnames : ((decl.name, Value.function decl captured) :: decl.params.zip arguments).map
        (fun x => (x.1, x.2.shift d))
      = (decl.name, .function (decl.shift d) captured)
        :: decl.params.zip (arguments.map (Value.shift d)) := by
    rw [List.map_cons, List.zip_map_right]
    rfl
  rw [hnames] at hcells
  exact hcells

/-- A call puts the local variables back that were there before it. -/
theorem shifts_inCall {onResult : α → β} {x : Exec α} {y : Exec β} (h : Shifts d onResult x y)
    (decl : FunDecl) (captured : Captured) (arguments : List Value) :
    Shifts d onResult (inCall decl captured captured arguments x)
      (inCall (decl.shift d) captured captured (arguments.map (Value.shift d)) y) := by
  intro m
  obtain ⟨heap, globals, locals, output⟩ := m
  have hy := h ⟨(activation decl captured captured arguments heap).2, globals,
    some (activation decl captured captured arguments heap).1, output⟩
  unfold inCall
  simp only [Machine.shift, activation_shift] at hy ⊢
  rcases hx : x ⟨(activation decl captured captured arguments heap).2, globals,
      some (activation decl captured captured arguments heap).1, output⟩ with ⟨e | a, m'⟩
  · rw [hx] at hy
    simp only [hy, renamed, Machine.shift]
  · rw [hx] at hy
    simp only [hy, renamed, Machine.shift]

/-- A value is called alike, if the bodies of functions run alike. -/
theorem shifts_callValue {run run' : FunDecl → Captured → Exec Completion}
    (h : ∀ decl captured, Shifts d (Completion.shift d) (run decl captured)
      (run' (decl.shift d) captured)) (line : Int) (callee : Value) (arguments : List Value) :
    Shifts d (Value.shift d) (callValue id run line callee arguments)
      (callValue id run' (line + d) (callee.shift d) (arguments.map (Value.shift d))) := by
  cases callee with
  | function decl captured =>
    show Shifts d (Value.shift d)
      (if arguments.length = decl.arity then _ else throw _)
      (if (arguments.map (Value.shift d)).length = decl.arity then _ else throw _)
    rw [List.length_map]
    split
    · refine (shifts_inCall (h decl captured) decl captured arguments).bind fun c => ?_
      cases c with
      | normal => exact .pure rfl
      | returned v => exact .pure rfl
    · exact .throw rfl
  | bool b =>
    cases b with
    | true => exact .throw rfl
    | false => exact .throw rfl
  | _ => exact .throw rfl

/-- A row of statements runs alike if its statements do. -/
theorem shifts_sequence {x y : Stmt → Exec Completion}
    (h : ∀ s, Shifts d (Completion.shift d) (x s) (y (s.shift d))) (body : List Stmt) :
    Shifts d (Completion.shift d) (sequence x body) (sequence y (Stmt.shiftAll d body)) := by
  induction body with
  | nil => exact .pure rfl
  | cons s body ih =>
    refine (h s).bind fun c => ?_
    cases c with
    | normal => exact ih
    | returned v => exact .pure rfl

/-- A loop runs alike if its condition and its body do. -/
theorem shifts_loop {condition condition' : Exec Bool} {body body' : Exec Completion}
    (hcondition : Shifts d id condition condition')
    (hbody : Shifts d (Completion.shift d) body body') : ∀ turns : Nat,
    Shifts d (Completion.shift d) (loop condition body turns) (loop condition' body' turns) := by
  intro turns
  induction turns with
  | zero => exact .throw rfl
  | succ turns ih =>
    refine hcondition.bind fun holds => ?_
    cases holds with
    | false => exact .pure rfl
    | true =>
      refine hbody.bind fun c => ?_
      cases c with
      | normal => exact ih
      | returned v => exact .pure rfl

/-! ## §3. All code. -/

/-- The truth of a condition does not depend on lines. -/
theorem shifts_truth {x y : Exec Value} (h : Shifts d (Value.shift d) x y) :
    Shifts d id (return (← x).truth) (return (← y).truth) :=
  h.bind fun v => .pure (Value.truth_shift d v).symm

/-- **Code runs alike wherever it stands.**  By induction on the depth, with a case for each
form of expression and statement. -/
theorem shifts_eval_exec (d : Int) (turns : Nat) : ∀ depth,
    (∀ e, Shifts d (Value.shift d) (eval turns depth e) (eval turns depth (e.shift d)))
      ∧ ∀ s, Shifts d (Completion.shift d) (exec turns depth s) (exec turns depth (s.shift d)) := by
  intro depth
  induction depth with
  | zero =>
    refine ⟨fun e => ?_, fun s => ?_⟩
    · exact .throw rfl
    · exact .throw rfl
  | succ depth ih =>
    obtain ⟨heval, hexec⟩ := ih
    refine ⟨?_, ?_⟩
    · intro e
      cases e with
      | literal value => exact .pure (Value.shift_toValue d value)
      | group inner => exact heval inner
      | unary op line operand =>
        exact (heval operand).bind fun v => shifts_ofExcept (Value.unary_apply_shift d op line v)
      | binary op line left right =>
        cases op with
        | connective c =>
          refine (heval left).bind fun v => ?_
          rw [Value.settledBy_shift]
          split
          · exact .pure rfl
          · exact heval right
        | strict op =>
          exact (heval left).bind fun v => (heval right).bind fun w =>
            shifts_ofExcept (Value.strict_apply_shift d op line v w)
      | var ref => exact shifts_load ref
      | assign target value =>
        exact (heval value).bind fun v => (shifts_store target v).bind fun _ => .pure rfl
      | call line callee arguments =>
        refine (heval callee).bind fun f => ?_
        rw [Expr.shiftAll_eq_map]
        refine (Carries.each heval arguments).bind fun vs => ?_
        exact shifts_callValue (fun decl _ => shifts_sequence hexec decl.body) line f vs
    · intro s
      cases s with
      | expr e => exact (heval e).bind fun _ => .pure rfl
      | print es =>
        have hprint : ∀ e, Shifts d id (do write ((← eval turns depth e).text ++ " "))
            (do write ((← eval turns depth (e.shift d)).text ++ " ")) := by
          intro e
          refine (heval e).bind fun v => ?_
          rw [Value.text_shift]
          exact shifts_write _
        have hes : (Stmt.print es).shift d = .print (es.map (Expr.shift d)) := by
          show Stmt.print (Expr.shiftAll d es) = _
          rw [Expr.shiftAll_eq_map]
        rw [hes]
        exact (Carries.each hprint es).bind fun _ => (shifts_write _).bind fun _ => .pure rfl
      | ifThen condition thenBranch =>
        refine (heval condition).bind fun v => ?_
        rw [Value.truth_shift]
        split
        · exact hexec thenBranch
        · exact .pure rfl
      | ifElse condition thenBranch elseBranch =>
        refine (heval condition).bind fun v => ?_
        rw [Value.truth_shift]
        split
        · exact hexec thenBranch
        · exact hexec elseBranch
      | block body => exact shifts_inBlock (shifts_sequence hexec body)
      | varDecl name line initial =>
        exact (heval initial).bind fun v => (shifts_declare name v).bind fun _ => .pure rfl
      | whileLoop condition body =>
        exact shifts_loop (shifts_truth (heval condition)) (hexec body) turns
      | funDecl name line params body =>
        exact Carries.get.bind fun m => (shifts_declare name _).bind fun _ => .pure rfl
      | ret line value => exact (heval value).bind fun v => .pure rfl

/-- A program runs alike, with the value of its last expression statement shifted. -/
theorem shifts_program (limits : Limits) : ∀ (body : List Stmt) (last : Value),
    Shifts d (Value.shift d) (program limits last body)
      (program limits (last.shift d) (Stmt.shiftAll d body)) := by
  intro body
  induction body with
  | nil =>
    intro last
    exact .pure rfl
  | cons s body ih =>
    intro last
    obtain ⟨heval, hexec⟩ := shifts_eval_exec d limits.turns limits.depth
    -- only an expression statement gives the program a value
    cases s with
    | expr e => exact (heval e).bind fun v => ih v
    | _ =>
      refine (hexec _).bind fun c => ?_
      cases c with
      | normal => exact ih last
      | returned v => exact .pure rfl

end Exec

/-- **Running commutes with moving the program** and the values it finds. -/
theorem Machine.run_shift (d : Int) (m : Machine) (limits : Limits) (body : List Stmt) :
    (m.shift d).run limits (Stmt.shiftAll d body)
      = (((m.run limits body).1.map (Value.shift d)).mapError (Halt.shift d),
          (m.run limits body).2.shift d) := by
  rw [← renamed_eq]
  exact Exec.shifts_program limits body .nil m

/-- **Resolving commutes with moving the program**: the slots stay as they are. -/
theorem Resolver.resolve_shift (d : Int) (r : Resolver) (body : List Stmt) :
    r.resolve (Stmt.shiftAll d body)
      = (((r.resolve body).1.map (Stmt.shiftAll d)).mapError (ResolveError.shift d),
          (r.resolve body).2) := by
  have hresolve := Stmt.shifts_resolveAll d body r
  rw [renamed_eq] at hresolve
  exact hresolve

end LoxLang
