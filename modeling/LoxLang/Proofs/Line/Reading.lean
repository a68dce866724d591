/-
  LoxLang.Proofs.Line.Reading
  ───────────────────────────
  **Reading does not look at lines.**  Tokens that are `d` lines further on are read as the
  same tree, `d` lines further on; or they are faulty for the same causes, at the same
  tokens.  No reader branches on a line: a reader takes lines from tokens and puts them
  into the tree.

  Every reader carries itself over to shifted tokens (`Shifts`), one law for each reader in
  the order of its definition.  A reader that is made from others has its law from theirs.
-/
import LoxLang.Proofs.Carried
import LoxLang.Proofs.Line.Shift

namespace LoxLang

/-- How far reading has come, `d` lines further on. -/
def Reading.shift (d : Int) (s : Reading) : Reading :=
  ⟨s.input.shift d, s.faults.map (SyntaxFault.shift d)⟩

namespace Reader

open Attempt

variable {α β : Type} {d : Int}

/-- On tokens `d` lines further on, `y` reads what `x` reads, as `onResult` has it. -/
abbrev Shifts (d : Int) (onResult : α → β) (x : Reader α) (y : Reader β) : Prop :=
  Carries (SyntaxFault.shift d) (Reading.shift d) onResult x y

/-! ## §1. Single tokens. -/

/-- The rest of the tokens is at hand, shifted. -/
theorem shifts_rest : Shifts d (List.map (Token.shift d)) rest rest :=
  Carries.get.bind fun _ => .pure rfl

/-- The kind of the next token is the same. -/
theorem shifts_peek : Shifts d id peek peek := by
  refine shifts_rest.bind fun ts => .pure ?_
  cases ts with
  | nil => rfl
  | cons t ts => rfl

/-- The same cause is blamed on the same place, which is shifted. -/
theorem shifts_fail {onResult : α → β} (cause : SyntaxCause) :
    Shifts d onResult (fail cause) (fail cause) :=
  Carries.get.bind fun _ => .throw rfl

theorem shifts_skip : Shifts d id skip skip := by
  refine .modify fun s => ?_
  obtain ⟨⟨ts, endLine⟩, faults⟩ := s
  cases ts with
  | nil => rfl
  | cons t ts => rfl

/-- A token is taken alike if the same is made of it. -/
theorem shifts_take? {onResult : α → β} {f : Token → Option α} {g : Token → Option β}
    (h : ∀ t, g (t.shift d) = (f t).map onResult) :
    Shifts d (Option.map onResult) (take? f) (take? g) := by
  unfold take?
  refine shifts_rest.bind fun ts => ?_
  have hhead : (ts.map (Token.shift d)).head?.bind g = (ts.head?.bind f).map onResult := by
    cases ts with
    | nil => rfl
    | cons t ts => exact h t
  rw [hhead]
  cases ts.head?.bind f with
  | some a => exact shifts_skip.bind fun _ => .pure rfl
  | none => exact .pure rfl

/-- Whether a token is of some kind does not depend on its line. -/
theorem shifts_takeKind (kind : Token.Kind) :
    Shifts d (Option.map (Token.shift d)) (take? fun t => if t.kind = kind then some t else none)
      (take? fun t => if t.kind = kind then some t else none) := by
  refine shifts_take? fun t => ?_
  rw [Token.kind_shift]
  split
  · rfl
  · rfl

theorem shifts_accept (kind : Token.Kind) : Shifts d id (accept kind) (accept kind) := by
  refine (shifts_takeKind kind).bind fun o => .pure ?_
  cases o with
  | none => rfl
  | some t => rfl

/-- What is required is found or missed alike. -/
theorem shifts_require (kind : Token.Kind) (cause : SyntaxCause) :
    Shifts d (Token.shift d) (require kind cause) (require kind cause) := by
  refine (shifts_takeKind kind).bind fun o => ?_
  cases o with
  | some t => exact .pure rfl
  | none => exact shifts_fail cause

/-! ## §2. Repetition and recovery. -/

/-- As many tokens allow as many turns, whatever lines they are on. -/
theorem shifts_manyWithin {onResult : α → β} {x : Reader (Option α)} {y : Reader (Option β)}
    (h : Shifts d (Option.map onResult) x y) (budget : List Token) :
    Shifts d (List.map onResult) (manyWithin x budget)
      (manyWithin y (budget.map (Token.shift d))) := by
  induction budget with
  | nil => exact .pure rfl
  | cons t budget ih =>
    refine h.bind fun o => ?_
    cases o with
    | none => exact .pure rfl
    | some a => exact ih.bind fun as => .pure rfl

/-- A repetition is carried over with its budget, which counts tokens and not lines. -/
theorem shifts_many {onResult : α → β} {x : Reader (Option α)} {y : Reader (Option β)}
    (h : Shifts d (Option.map onResult) x y) :
    Shifts d (List.map onResult) (many x) (many y) :=
  shifts_rest.bind (shifts_manyWithin h)

/-- A row with commas, from its items. -/
theorem shifts_commaList {onResult : α → β} {x : Reader α} {y : Reader β}
    (h : Shifts d onResult x y) :
    Shifts d (List.map onResult) (commaList x) (commaList y) := by
  refine h.bind fun first => (shifts_many ?_).bind fun others => .pure rfl
  refine (shifts_accept (.symbol .comma)).bind fun found => ?_
  cases found with
  | true => exact h.bind fun a => .pure rfl
  | false => exact .pure rfl

/-- The next statement begins at the same token: its keyword tells. -/
theorem nextStatement_shift (d : Int) (ts : List Token) : ∀ last : Token,
    nextStatement (last.shift d) (ts.map (Token.shift d))
      = (nextStatement last ts).map (Token.shift d) := by
  induction ts with
  | nil =>
    intro last
    rfl
  | cons t ts ih =>
    intro last
    by_cases hstart : last.kind = .symbol .semicolon ∨ startsStatement t.kind = true
    · have hstart' : (last.shift d).kind = .symbol .semicolon
          ∨ startsStatement (t.shift d).kind = true := hstart
      rw [List.map_cons, nextStatement, nextStatement, if_pos hstart, if_pos hstart']
      rfl
    · have hstart' : ¬ ((last.shift d).kind = .symbol .semicolon
          ∨ startsStatement (t.shift d).kind = true) := hstart
      rw [List.map_cons, nextStatement, nextStatement, if_neg hstart, if_neg hstart']
      exact ih t

/-- Reading is taken up again at the same token. -/
theorem resume_shift (d : Int) (ts : List Token) :
    resume (ts.map (Token.shift d)) = (resume ts).map (Token.shift d) := by
  cases ts with
  | nil => rfl
  | cons t ts => exact nextStatement_shift d ts t

/-- Recovery notes the shifted fault, and goes on from the same token. -/
theorem shifts_recover {onResult : α → β} {x : Reader α} {y : Reader β}
    (h : Shifts d onResult x y) :
    Shifts d (Option.map onResult) (recover x) (recover y) := by
  intro s
  have hy := h s
  unfold recover
  rcases hx : x s with ⟨fault | a, s'⟩
  · -- the noted fault is `d` lines further on, and so is where reading goes on
    rw [hx] at hy
    rw [hy]
    simp [renamed, Reading.shift, Token.Stream.shift, resume_shift]
  · rw [hx] at hy
    rw [hy]
    rfl

/-! ## §3. Expressions. -/

/-- What a token stands for on its own is told by its kind; a name keeps its line. -/
theorem ofToken?_shift (d : Int) (t : Token) :
    Expr.ofToken? (t.shift d) = (Expr.ofToken? t).map (Expr.shift d) := by
  obtain ⟨kind, lexeme, line⟩ := t
  cases kind with
  | keyword k => cases k <;> rfl
  | _ => rfl

/-- A primary expression, whose nested one is read alike. -/
theorem shifts_primary {x y : Reader Expr} (h : Shifts d (Expr.shift d) x y) :
    Shifts d (Expr.shift d) (primary x) (primary y) := by
  refine (shifts_take? (ofToken?_shift d)).bind fun o => ?_
  cases o with
  | some e => exact .pure rfl
  | none =>
    refine (shifts_accept (.symbol .leftParen)).bind fun found => ?_
    cases found with
    | true => exact h.bind fun inner => (shifts_require _ _).bind fun _ => .pure rfl
    | false => exact shifts_fail _

theorem shifts_arguments {x y : Reader Expr} (h : Shifts d (Expr.shift d) x y) :
    Shifts d (List.map (Expr.shift d)) (arguments x) (arguments y) := by
  refine shifts_peek.bind fun kind => ?_
  by_cases hkind : kind = some (.symbol .rightParen)
  · simp only [id_eq, hkind, if_true]
    exact (Carries.pure (r := List.map (Expr.shift d)) rfl).bind fun _ =>
      (shifts_require _ _).bind fun _ => .pure rfl
  · simp only [id_eq, hkind, if_false]
    exact (shifts_commaList h).bind fun _ => (shifts_require _ _).bind fun _ => .pure rfl

/-- An argument list behind its callee, `d` lines further on. -/
def shiftCall (d : Int) (c : Int × List Expr) : Int × List Expr :=
  (c.1 + d, c.2.map (Expr.shift d))

/-- Calls that follow a callee are applied in the same order. -/
theorem shift_foldl_call (d : Int) (calls : List (Int × List Expr)) : ∀ callee : Expr,
    (calls.foldl (fun callee (line, es) => .call line callee es) callee).shift d
      = (calls.map (shiftCall d)).foldl (fun callee (line, es) => .call line callee es)
          (callee.shift d) := by
  induction calls with
  | nil =>
    intro callee
    rfl
  | cons c calls ih =>
    intro callee
    rw [List.foldl_cons, ih, List.map_cons, List.foldl_cons]
    show List.foldl _ (Expr.call (c.1 + d) (callee.shift d) (Expr.shiftAll d c.2)) _ = _
    rw [Expr.shiftAll_eq_map]
    rfl

/-- A callee with the calls behind it, each on the line of its parenthesis. -/
theorem shifts_call {x y : Reader Expr} (h : Shifts d (Expr.shift d) x y) :
    Shifts d (Expr.shift d) (call x) (call y) := by
  refine (shifts_primary h).bind fun callee => ?_
  refine Carries.bind (r := List.map (shiftCall d)) (shifts_many ?_) fun calls =>
    .pure (shift_foldl_call d calls callee)
  refine Carries.bind (r := Option.map (· + d)) (shifts_take? fun t => ?_) fun o => ?_
  · rw [Token.kind_shift]
    split
    · rfl
    · rfl
  · cases o with
    | some line => exact (shifts_arguments h).bind fun es => .pure rfl
    | none => exact .pure rfl

theorem shifts_unary {x y : Reader Expr} (h : Shifts d (Expr.shift d) x y) :
    Shifts d (Expr.shift d) (unary x) (unary y) := by
  have hops : Shifts d (List.map (Prod.map id (· + d))) (many unaryOp?) (many unaryOp?) := by
    refine shifts_many (shifts_take? fun t => ?_)
    rw [Token.kind_shift, Option.map_map]
    rfl
  refine hops.bind fun ops => (shifts_call h).bind fun operand => .pure ?_
  induction ops with
  | nil => rfl
  | cons op ops ih =>
    show Expr.unary op.1 (op.2 + d) (Expr.shift d (List.foldr _ operand ops)) = _
    rw [ih]
    rfl

/-- An operator and its right operand, `d` lines further on. -/
def shiftOperand (d : Int) (o : BinaryOp × Int × Expr) : BinaryOp × Int × Expr :=
  (o.1, o.2.1 + d, o.2.2.shift d)

/-- Operands of one level are put together from the left in the same way. -/
theorem shift_foldl_binary (d : Int) (others : List (BinaryOp × Int × Expr)) : ∀ first : Expr,
    (others.foldl (fun left (op, line, right) => .binary op line left right) first).shift d
      = (others.map (shiftOperand d)).foldl
          (fun left (op, line, right) => .binary op line left right) (first.shift d) := by
  induction others with
  | nil =>
    intro first
    rfl
  | cons o others ih =>
    intro first
    rw [List.foldl_cons, ih, List.map_cons, List.foldl_cons]
    rfl

/-- One level of binary operators, each on the line of its token. -/
theorem shifts_binaryAt (level : BinaryOp.Level) {x y : Reader Expr}
    (h : Shifts d (Expr.shift d) x y) :
    Shifts d (Expr.shift d) (binaryAt level x) (binaryAt level y) := by
  have hop : Shifts d (Option.map (Prod.map id (· + d))) (binaryOp? level) (binaryOp? level) := by
    refine shifts_take? fun t => ?_
    rw [Token.kind_shift, Option.map_map]
    rfl
  refine h.bind fun first => ?_
  refine Carries.bind (r := List.map (shiftOperand d)) (shifts_many ?_) fun others =>
    .pure (shift_foldl_binary d others first)
  refine hop.bind fun o => ?_
  cases o with
  | some op => exact h.bind fun right => .pure rfl
  | none => exact .pure rfl

theorem shifts_binary {x y : Reader Expr} (h : Shifts d (Expr.shift d) x y) :
    Shifts d (Expr.shift d) (binary x) (binary y) := by
  unfold binary
  induction BinaryOp.Level.all with
  | nil => exact shifts_unary h
  | cons level levels ih => exact shifts_binaryAt level ih

/-- An assignment to no variable is blamed on its equals sign, wherever that stands. -/
theorem shifts_assignment {x y : Reader Expr} (h : Shifts d (Expr.shift d) x y) :
    Shifts d (Expr.shift d) (assignment x) (assignment y) := by
  refine (shifts_binary h).bind fun left => Carries.get.bind fun s => ?_
  refine (shifts_accept (.symbol .equal)).bind fun found => ?_
  cases found with
  | false => exact .pure rfl
  | true =>
    refine h.bind fun value => ?_
    cases left with
    | var target => exact .pure rfl
    | _ => exact .throw rfl

/-- An expression is read alike, within a budget that is as long for the shifted tokens. -/
theorem shifts_expressionWithin (budget : List Token) :
    Shifts d (Expr.shift d) (expressionWithin budget)
      (expressionWithin (budget.map (Token.shift d))) := by
  induction budget with
  | nil => exact shifts_fail _
  | cons t budget ih => exact shifts_assignment ih

theorem shifts_expression : Shifts d (Expr.shift d) expression expression :=
  shifts_rest.bind shifts_expressionWithin

/-! ## §4. Statements. -/

theorem shifts_exprStmt : Shifts d (Stmt.shift d) exprStmt exprStmt :=
  shifts_expression.bind fun _ => (shifts_require _ _).bind fun _ => .pure rfl

theorem shifts_printStmt : Shifts d (Stmt.shift d) printStmt printStmt := by
  refine (shifts_commaList shifts_expression).bind fun es => (shifts_require _ _).bind fun _ =>
    .pure ?_
  show Stmt.print (Expr.shiftAll d es) = _
  rw [Expr.shiftAll_eq_map]

theorem shifts_expressionUnless (kind : Token.Kind) :
    Shifts d (Option.map (Expr.shift d)) (expressionUnless kind) (expressionUnless kind) := by
  refine shifts_peek.bind fun next => ?_
  by_cases hnext : next = some kind
  · simp only [id_eq, hnext, if_true]
    exact .pure rfl
  · simp only [id_eq, hnext, if_false]
    exact shifts_expression.bind fun e => .pure rfl

/-- A return keeps the line of its keyword, which is handed over to its reader. -/
theorem shifts_returnStmt (line : Int) :
    Shifts d (Stmt.shift d) (returnStmt line) (returnStmt (line + d)) := by
  refine (shifts_expressionUnless _).bind fun value => (shifts_require _ _).bind fun _ => .pure ?_
  cases value with
  | none => rfl
  | some e => rfl

theorem shifts_varStmt : Shifts d (Stmt.shift d) varStmt varStmt := by
  refine (shifts_require _ _).bind fun name => (shifts_accept _).bind fun found => ?_
  cases found with
  | true => exact shifts_expression.bind fun e => (shifts_require _ _).bind fun _ => .pure rfl
  | false =>
    exact (Carries.pure (r := Expr.shift d) rfl).bind fun e =>
      (shifts_require _ _).bind fun _ => .pure rfl

/-- Leaving out the faulty declarations commutes with a shift. -/
theorem filterMap_id_shift (d : Int) (rows : List (Option Stmt)) :
    Stmt.shiftAll d (rows.filterMap id) = (rows.map (Option.map (Stmt.shift d))).filterMap id := by
  rw [Stmt.shiftAll_eq_map, List.map_filterMap, List.filterMap_map]
  rfl

theorem shifts_block {x y : Reader (Option Stmt)} (h : Shifts d (Option.map (Stmt.shift d)) x y) :
    Shifts d (Stmt.shiftAll d) (block x) (block y) := by
  refine Carries.bind (r := List.map (Option.map (Stmt.shift d))) (shifts_many ?_)
    fun body => (shifts_require _ _).bind fun _ => .pure (filterMap_id_shift d body)
  refine shifts_peek.bind fun kind => ?_
  simp only [id_eq]
  split
  · exact .pure rfl
  · exact .pure rfl
  · exact h.bind fun s => .pure rfl

/-- A function declaration, which keeps the line of its name, parameters or not. -/
theorem shifts_funStmt {x y : Reader (Option Stmt)}
    (h : Shifts d (Option.map (Stmt.shift d)) x y) :
    Shifts d (Stmt.shift d) (funStmt x) (funStmt y) := by
  refine (shifts_require _ _).bind fun name => (shifts_require _ _).bind fun _ =>
    shifts_peek.bind fun kind => ?_
  -- with or without parameters, the rest is the same
  have hrest : ∀ params : List Token, Shifts d (Stmt.shift d)
      (do
        let _ ← require (.symbol .rightParen) .parametersEnd
        let _ ← require (.symbol .leftBrace) .bodyStart
        let body ← block x
        return Stmt.funDecl name.lexeme name.line (params.map Token.lexeme) body)
      (do
        let _ ← require (.symbol .rightParen) .parametersEnd
        let _ ← require (.symbol .leftBrace) .bodyStart
        let body ← block y
        return Stmt.funDecl (name.shift d).lexeme (name.shift d).line
          ((params.map (Token.shift d)).map Token.lexeme) body) := by
    intro params
    refine (shifts_require _ _).bind fun _ => (shifts_require _ _).bind fun _ =>
      (shifts_block h).bind fun body => .pure ?_
    rw [List.map_map]
    rfl
  by_cases hkind : kind = some (.symbol .rightParen)
  · simp only [id_eq, hkind, if_true]
    exact (Carries.pure (r := List.map (Token.shift d)) rfl).bind hrest
  · simp only [id_eq, hkind, if_false]
    exact (shifts_commaList (shifts_require _ _)).bind hrest

theorem shifts_ifStmt {x y : Reader Stmt} (h : Shifts d (Stmt.shift d) x y) :
    Shifts d (Stmt.shift d) (ifStmt x) (ifStmt y) := by
  refine (shifts_require _ _).bind fun _ => shifts_expression.bind fun c =>
    (shifts_require _ _).bind fun _ => h.bind fun t => (shifts_accept _).bind fun found => ?_
  cases found with
  | true => exact h.bind fun u => .pure rfl
  | false => exact .pure rfl

theorem shifts_whileStmt {x y : Reader Stmt} (h : Shifts d (Stmt.shift d) x y) :
    Shifts d (Stmt.shift d) (whileStmt x) (whileStmt y) :=
  (shifts_require _ _).bind fun _ => shifts_expression.bind fun _ =>
    (shifts_require _ _).bind fun _ => h.bind fun _ => .pure rfl

theorem shifts_forInitial :
    Shifts d (Option.map (Stmt.shift d)) forInitial forInitial := by
  refine shifts_peek.bind fun kind => ?_
  simp only [id_eq]
  split
  · exact shifts_skip.bind fun _ => .pure rfl
  · exact shifts_skip.bind fun _ => shifts_varStmt.bind fun s => .pure rfl
  · exact shifts_exprStmt.bind fun s => .pure rfl

/-- The parts of a loop are read alike, and what they abbreviate commutes with a shift. -/
theorem shifts_forStmt {x y : Reader Stmt} (h : Shifts d (Stmt.shift d) x y) :
    Shifts d (Stmt.shift d) (forStmt x) (forStmt y) :=
  (shifts_require _ _).bind fun _ => shifts_forInitial.bind fun initial =>
    (shifts_expressionUnless _).bind fun condition => (shifts_require _ _).bind fun _ =>
      (shifts_expressionUnless _).bind fun step => (shifts_require _ _).bind fun _ =>
        h.bind fun body => .pure (Stmt.shift_forLoop d initial condition step body)

/-- The first token decides which statement it is, and its kind is not shifted. -/
theorem shifts_statementForm (declares : Bool) {x y : Reader Stmt} {x' y' : Reader (Option Stmt)}
    (h : Shifts d (Stmt.shift d) x y) (h' : Shifts d (Option.map (Stmt.shift d)) x' y') :
    Shifts d (Stmt.shift d) (statementForm declares x x') (statementForm declares y y') := by
  refine Carries.get.bind fun s => shifts_peek.bind fun kind => ?_
  -- a return keeps the line of its keyword
  have hline : (s.shift d).input.line = s.input.line + d := Token.Stream.line_shift d s.input
  simp only [id_eq, hline]
  split
  · split
    · exact shifts_skip.bind fun _ => shifts_funStmt h'
    · exact shifts_fail _
  · split
    · exact shifts_skip.bind fun _ => shifts_varStmt
    · exact shifts_fail _
  · exact shifts_skip.bind fun _ => shifts_printStmt
  · exact shifts_skip.bind fun _ => shifts_ifStmt h
  · exact shifts_skip.bind fun _ => shifts_whileStmt h
  · exact shifts_skip.bind fun _ => shifts_forStmt h
  · exact shifts_skip.bind fun _ => shifts_returnStmt _
  · exact shifts_skip.bind fun _ => (shifts_block h').bind fun body => .pure rfl
  · exact shifts_exprStmt

/-- A statement is read alike, within a budget that is as long for the shifted tokens. -/
theorem shifts_statementWithin (budget : List Token) : ∀ declares : Bool,
    Shifts d (Stmt.shift d) (statementWithin budget declares)
      (statementWithin (budget.map (Token.shift d)) declares) := by
  induction budget with
  | nil =>
    intro declares
    exact shifts_fail _
  | cons t budget ih =>
    intro declares
    exact shifts_statementForm declares (ih false) (shifts_recover (ih true))

/-- Declarations up to the end of input, which is at the same token. -/
theorem shifts_program : Shifts d (Stmt.shiftAll d) program program := by
  have hdeclaration : Shifts d (Option.map (Stmt.shift d)) declaration declaration :=
    shifts_rest.bind fun budget => shifts_recover (shifts_statementWithin budget true)
  refine Carries.bind (r := List.map (Option.map (Stmt.shift d))) (shifts_many ?_)
    fun body => .pure (filterMap_id_shift d body)
  refine shifts_peek.bind fun kind => ?_
  cases kind with
  | none => exact .pure rfl
  | some k => exact hdeclaration.bind fun s => .pure rfl

end Reader

/-! ## §5. Parsing. -/

/-- **Parsing commutes with moving the tokens**: the same tree, or the same faults in the
same order, each `d` lines further on. -/
theorem parse_shift (d : Int) (input : Token.Stream) :
    parse (input.shift d)
      = ((parse input).map (Stmt.shiftAll d)).mapError (List.map (SyntaxFault.shift d)) := by
  have hprogram := Reader.shifts_program (d := d) ⟨input, []⟩
  have hstart : Reading.shift d ⟨input, []⟩ = ⟨input.shift d, []⟩ := rfl
  rw [hstart] at hprogram
  unfold parse
  rw [hprogram]
  rcases Reader.program ⟨input, []⟩ with ⟨fault | body, ⟨rest, faults⟩⟩
  · show Except.error (faults.map (SyntaxFault.shift d) ++ [fault.shift d])
      = Except.error ((faults ++ [fault]).map (SyntaxFault.shift d))
    rw [List.map_append]
    rfl
  · cases faults with
    | nil => rfl
    | cons f faults => rfl

end LoxLang
