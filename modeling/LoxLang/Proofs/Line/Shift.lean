/-
  LoxLang.Proofs.Line.Shift
  ─────────────────────────
  **Moving everything by some lines.**  `shift d` adds `d` to every line number in a token,
  a fault, a tree, a value or a machine, and leaves all else alone.  Nothing here bounds a
  line: `d` may be negative, and so may the lines.

  A value has lines in it where it is a function, in the declaration that it refers to.
  The laws say that nothing a program can observe of a value depends on them.
-/
import LoxLang.Machine.Basic
import LoxLang.Report.Diagnostic

namespace LoxLang

/-! ## §1. Tokens and faults. -/

/-- The token, `d` lines further on. -/
def Token.shift (d : Int) (t : Token) : Token :=
  { t with line := t.line + d }

/-- The tokens and the end of input, `d` lines further on. -/
def Token.Stream.shift (d : Int) (s : Token.Stream) : Token.Stream :=
  ⟨s.tokens.map (Token.shift d), s.endLine + d⟩

/-- The lexical fault, `d` lines further on. -/
def LexicalFault.shift (d : Int) (f : LexicalFault) : LexicalFault :=
  { f with line := f.line + d }

/-- The syntax fault, with its input `d` lines further on. -/
def SyntaxFault.shift (d : Int) (f : SyntaxFault) : SyntaxFault :=
  { f with input := f.input.shift d }

/-- The refusal, `d` lines further on. -/
def ResolveError.shift (d : Int) (e : ResolveError) : ResolveError :=
  { e with line := e.line + d }

/-- The run-time error, `d` lines further on. -/
def RuntimeError.shift (d : Int) (e : RuntimeError) : RuntimeError :=
  { e with line := e.line + d }

/-- The reason to stop, `d` lines further on if it is about a line. -/
def Halt.shift (d : Int) : Halt → Halt
  | .error e => .error (e.shift d)
  | .exhausted => .exhausted
  | .fault => .fault

@[simp] theorem Token.kind_shift (d : Int) (t : Token) : (t.shift d).kind = t.kind := rfl

/-- A shift moves the line on which a row of tokens starts, be it the end of input. -/
theorem Token.Stream.line_shift (d : Int) (s : Token.Stream) :
    (s.shift d).line = s.line + d := by
  obtain ⟨ts, endLine⟩ := s
  cases ts with
  | nil => rfl
  | cons t ts => rfl

/-- A message names the token and not its line. -/
theorem SyntaxFault.place_shift (d : Int) (f : SyntaxFault) : (f.shift d).place = f.place := by
  obtain ⟨⟨ts, endLine⟩, cause⟩ := f
  cases ts with
  | nil => rfl
  | cons t ts => rfl

/-! ## §2. Trees. -/

/-- The mention, `d` lines further on; its slot stays. -/
def Ref.shift (d : Int) (ref : Ref) : Ref :=
  { ref with line := ref.line + d }

mutual

/-- The expression, `d` lines further on. -/
def Expr.shift (d : Int) : Expr → Expr
  | .literal value => .literal value
  | .binary op line left right => .binary op (line + d) (left.shift d) (right.shift d)
  | .group inner => .group (inner.shift d)
  | .unary op line operand => .unary op (line + d) (operand.shift d)
  | .var ref => .var (ref.shift d)
  | .assign target value => .assign (target.shift d) (value.shift d)
  | .call line callee arguments =>
      .call (line + d) (callee.shift d) (Expr.shiftAll d arguments)

/-- Several expressions, `d` lines further on. -/
def Expr.shiftAll (d : Int) : List Expr → List Expr
  | [] => []
  | e :: es => e.shift d :: Expr.shiftAll d es

end

mutual

/-- The statement, `d` lines further on. -/
def Stmt.shift (d : Int) : Stmt → Stmt
  | .expr e => .expr (e.shift d)
  | .print es => .print (Expr.shiftAll d es)
  | .ifThen condition thenBranch => .ifThen (condition.shift d) (thenBranch.shift d)
  | .ifElse condition thenBranch elseBranch =>
      .ifElse (condition.shift d) (thenBranch.shift d) (elseBranch.shift d)
  | .block body => .block (Stmt.shiftAll d body)
  | .varDecl name line initial => .varDecl name (line + d) (initial.shift d)
  | .whileLoop condition body => .whileLoop (condition.shift d) (body.shift d)
  | .funDecl name line params body => .funDecl name (line + d) params (Stmt.shiftAll d body)
  | .ret line value => .ret (line + d) (value.shift d)

/-- Several statements, `d` lines further on. -/
def Stmt.shiftAll (d : Int) : List Stmt → List Stmt
  | [] => []
  | s :: ss => s.shift d :: Stmt.shiftAll d ss

end

/-- The declared function, `d` lines further on. -/
def FunDecl.shift (d : Int) (f : FunDecl) : FunDecl :=
  ⟨f.name, f.line + d, f.params, Stmt.shiftAll d f.body⟩

theorem Expr.shiftAll_eq_map (d : Int) (es : List Expr) :
    Expr.shiftAll d es = es.map (Expr.shift d) := by
  induction es with
  | nil => rfl
  | cons e es ih =>
    show e.shift d :: Expr.shiftAll d es = _
    rw [ih]
    rfl

theorem Stmt.shiftAll_eq_map (d : Int) (body : List Stmt) :
    Stmt.shiftAll d body = body.map (Stmt.shift d) := by
  induction body with
  | nil => rfl
  | cons s body ih =>
    show s.shift d :: Stmt.shiftAll d body = _
    rw [ih]
    rfl

/-- A for loop is moved by moving its clauses. -/
theorem Stmt.shift_forLoop (d : Int) (initial : Option Stmt) (condition step : Option Expr)
    (body : Stmt) :
    (Stmt.forLoop initial condition step body).shift d
      = Stmt.forLoop (initial.map (Stmt.shift d)) (condition.map (Expr.shift d))
          (step.map (Expr.shift d)) (body.shift d) := by
  cases initial <;> cases condition <;> cases step <;> rfl

/-! ## §3. Values. -/

variable {κ : Type}

/-- The value, `d` lines further on if it is a function. -/
def Value.shift (d : Int) : Value κ → Value κ
  | .function decl captured => .function (decl.shift d) captured
  | v => v

/-- How a statement ended, with the value that it returned `d` lines further on. -/
def Completion.shift (d : Int) : Completion κ → Completion κ
  | .normal => .normal
  | .returned v => .returned (v.shift d)

/-- The cells, with their values `d` lines further on. -/
def Heap.shift (d : Int) (h : Heap κ) : Heap κ :=
  ⟨h.cells.map (Value.shift d)⟩

/-- The machine, with its values `d` lines further on; variables stay in their cells, and
what was printed stays printed. -/
def Machine.shift (d : Int) (m : Machine κ) : Machine κ :=
  { m with heap := m.heap.shift d }

namespace Value

/-- A literal's value is no function, and has no line in it. -/
theorem shift_toValue (d : Int) (l : Literal) :
    Value.shift d (l.toValue : Value κ) = l.toValue := by
  cases l <;> rfl

@[simp] theorem truth_shift (d : Int) (v : Value κ) : (v.shift d).truth = v.truth := by
  cases v <;> rfl

/-- A value prints the same wherever it was declared. -/
@[simp] theorem text_shift (d : Int) (v : Value κ) : (v.shift d).text = v.text := by
  cases v with
  | bool b => cases b <;> rfl
  | _ => rfl

/-- A connective looks at the truth of its first operand only. -/
@[simp] theorem settledBy_shift (d : Int) (v : Value κ) (c : Connective) :
    c.settledBy (v.shift d) = c.settledBy v := by
  cases c <;> simp [Connective.settledBy]

/-- An operator fails on the line where it stands. -/
theorem strict_apply_shift (d : Int) (op : StrictOp) (line : Int) (v w : Value κ) :
    op.apply (line + d) (v.shift d) (w.shift d)
      = ((op.apply line v w).map (Value.shift d)).mapError (RuntimeError.shift d) := by
  cases op <;> cases v <;> cases w <;> rfl

/-- A unary operator fails on the same operands, with the error on the shifted line. -/
theorem unary_apply_shift (d : Int) (op : UnaryOp) (line : Int) (v : Value κ) :
    op.apply (line + d) (v.shift d)
      = ((op.apply line v).map (Value.shift d)).mapError (RuntimeError.shift d) := by
  cases op with
  | not =>
    show Except.ok (Value.bool (!(v.shift d).truth)) = Except.ok (Value.bool (!v.truth))
    rw [truth_shift]
  | negate => cases v <;> rfl

end Value

/-! ## §4. Cells. -/

namespace Heap

@[simp] theorem next_shift (d : Int) (h : Heap κ) : (h.shift d).next = h.next := by
  simp [shift, next]

/-- A new cell has the same address. -/
theorem alloc_shift (d : Int) (h : Heap κ) (v : Value κ) :
    (h.shift d).alloc (v.shift d) = (h.alloc v).shift d := by
  simp [shift, alloc]

theorem write_shift (d : Int) (h : Heap κ) (a : Addr) (v : Value κ) :
    (h.shift d).write a (v.shift d) = (h.write a v).shift d := by
  simp [shift, write]

theorem read_shift (d : Int) (h : Heap κ) (a : Addr) :
    (h.shift d).read a = (h.read a).shift d := by
  by_cases ha : a < h.cells.size
  · simp [shift, read, Array.getD, ha]
  · -- no cell holds nil, which has no lines
    simp [shift, read, Array.getD, ha, Value.shift]

end Heap

/-- Names get the same cells, in the same order. -/
theorem Env.declareCells_shift (d : Int) (xs : List (String × Value κ)) :
    ∀ (e : Env Addr) (h : Heap κ),
      e.declareCells (h.shift d) (xs.map fun x => (x.1, x.2.shift d))
        = ((e.declareCells h xs).1, (e.declareCells h xs).2.shift d) := by
  induction xs with
  | nil =>
    intro e h
    rfl
  | cons x xs ih =>
    intro e h
    show (e.declare x.1 (h.shift d).next).declareCells ((h.shift d).alloc (x.2.shift d)) _ = _
    rw [Heap.next_shift, Heap.alloc_shift]
    exact ih _ _

end LoxLang
