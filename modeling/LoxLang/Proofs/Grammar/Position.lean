/-
  LoxLang.Proofs.Grammar.Position
  ───────────────────────────────
  **Reading goes forward.**  Whatever a reader ends with, what it leaves is a suffix of
  what it started on, and so is the input that each of its faults blames.  The faults are
  noted in the order of the tokens that they blame, and reading goes on behind the blamed
  token (`Trail`).

  `InOrder quiet r`  — the reader follows a trail, on which nothing is noted if `quiet`

  There is a rule for every way in which readers are put together.  Only recovery notes a
  fault, so that expressions are read quietly; on this the blame of an assignment to no
  variable relies, which goes back to a token that was read before the value.
-/
import LoxLang.Grammar.Statement
import Mathlib.Data.List.Infix

namespace LoxLang

namespace Reader

variable {α β : Type} {quiet : Bool}

/-! ## §1. Trails. -/

/-- Reading may go from `ts` to `rest` and note these faults on the way: the first blames
a token at hand, and the others what is behind it. -/
inductive Trail (endLine : Int) : List Token → List SyntaxFault → List Token → Prop
  | clean {ts rest : List Token} (forward : rest <:+ ts) : Trail endLine ts [] rest
  | noted {ts us rest : List Token} {cause : SyntaxCause} {faults : List SyntaxFault}
      (forward : us <:+ ts) (behind : Trail endLine us.tail faults rest) :
      Trail endLine ts (⟨⟨us, endLine⟩, cause⟩ :: faults) rest

namespace Trail

variable {endLine : Int} {ts us mid rest : List Token} {faults more : List SyntaxFault}

/-- A trail goes on from further in front, too. -/
theorem of_suffix (h : Trail endLine us faults rest) (hus : us <:+ ts) :
    Trail endLine ts faults rest := by
  cases h with
  | clean forward => exact .clean (forward.trans hus)
  | noted forward behind => exact .noted (forward.trans hus) behind

/-- Trails that meet are one trail, and the faults of the first are noted first. -/
theorem trans (h : Trail endLine ts faults mid) (h' : Trail endLine mid more rest) :
    Trail endLine ts (faults ++ more) rest := by
  induction h with
  | clean forward => exact h'.of_suffix forward
  | noted forward _ ih => exact .noted forward (ih h')

/-- What reading leaves is a suffix of what it started on. -/
theorem suffix (h : Trail endLine ts faults rest) : rest <:+ ts := by
  induction h with
  | clean forward => exact forward
  | noted forward _ ih => exact ih.trans ((List.tail_suffix _).trans forward)

/-- Every fault blames a place in the input, or its end. -/
theorem suffix_of_mem (h : Trail endLine ts faults rest) :
    ∀ f ∈ faults, f.input.tokens <:+ ts ∧ f.input.endLine = endLine := by
  induction h with
  | clean => exact nofun
  | @noted ts us rest cause faults forward behind ih =>
    intro f hf
    rcases List.mem_cons.1 hf with rfl | hf
    · exact ⟨forward, rfl⟩
    · obtain ⟨hsuffix, hend⟩ := ih f hf
      exact ⟨hsuffix.trans ((List.tail_suffix us).trans forward), hend⟩

end Trail

/-! ## §2. Readers that follow a trail. -/

/-- How reading may end that started on `ts`: with a result, somewhere further on; or at
a fault, which blames nothing behind the place that was reached. -/
inductive Ends (quiet : Bool) (ts : List Token) (endLine : Int) (faults : List SyntaxFault) :
    Except SyntaxFault α × Reading → Prop
  | ok {a : α} {more : List SyntaxFault} {rest : List Token}
      (trail : Trail endLine ts more rest) (silent : quiet = true → more = []) :
      Ends quiet ts endLine faults (.ok a, ⟨⟨rest, endLine⟩, faults ++ more⟩)
  | error {cause : SyntaxCause} {more : List SyntaxFault} {us rest : List Token}
      (trail : Trail endLine ts more us) (silent : quiet = true → more = [])
      (forward : rest <:+ us) :
      Ends quiet ts endLine faults
        (.error ⟨⟨us, endLine⟩, cause⟩, ⟨⟨rest, endLine⟩, faults ++ more⟩)

/-- Wherever it starts, the reader follows a trail, without noting a fault if `quiet`. -/
def InOrder (quiet : Bool) (r : Reader α) : Prop :=
  ∀ ts endLine faults, Ends quiet ts endLine faults (r ⟨⟨ts, endLine⟩, faults⟩)

/-- A reader that never notes a fault does so where it would be allowed to. -/
theorem InOrder.of_quiet {r : Reader α} (h : InOrder true r) : InOrder quiet r := by
  intro ts endLine faults
  have hends := h ts endLine faults
  generalize r ⟨⟨ts, endLine⟩, faults⟩ = outcome at hends ⊢
  cases hends with
  | ok trail silent => exact .ok trail fun _ => silent rfl
  | error trail silent forward => exact .error trail (fun _ => silent rfl) forward

/-- A reader that only moves on. -/
theorem Ends.clean {a : α} {ts rest : List Token} {endLine : Int} {faults : List SyntaxFault}
    (h : rest <:+ ts) : Ends quiet ts endLine faults (.ok a, ⟨⟨rest, endLine⟩, faults⟩) := by
  have hends : Ends quiet ts endLine faults (.ok a, ⟨⟨rest, endLine⟩, faults ++ []⟩) :=
    .ok (.clean h) fun _ => rfl
  rwa [List.append_nil] at hends

/-- Trails are put together. -/
theorem Ends.after {ts mid : List Token} {endLine : Int} {faults more : List SyntaxFault}
    {outcome : Except SyntaxFault α × Reading} (trail : Trail endLine ts more mid)
    (silent : quiet = true → more = []) (h : Ends quiet mid endLine (faults ++ more) outcome) :
    Ends quiet ts endLine faults outcome := by
  cases h with
  | ok trail' silent' =>
    rw [List.append_assoc]
    refine .ok (trail.trans trail') fun hq => ?_
    rw [silent hq, silent' hq, List.append_nil]
  | error trail' silent' forward =>
    rw [List.append_assoc]
    refine .error (trail.trans trail') (fun hq => ?_) forward
    rw [silent hq, silent' hq, List.append_nil]

/-- What follows goes on from the place that the first reader reached. -/
theorem Ends.bind {r : Reader α} {f : α → Reader β} {s : Reading} {ts : List Token}
    {endLine : Int} {faults : List SyntaxFault} (h : Ends quiet ts endLine faults (r s))
    (hf : ∀ a more rest, Trail endLine ts more rest → (quiet = true → more = []) →
      Ends quiet ts endLine faults (f a ⟨⟨rest, endLine⟩, faults ++ more⟩)) :
    Ends quiet ts endLine faults ((r >>= f) s) := by
  rcases hr : r s with ⟨e | a, s'⟩
  · rw [hr] at h
    rw [Attempt.bind_error hr]
    cases h with
    | error trail silent forward => exact .error trail silent forward
  · rw [hr] at h
    rw [Attempt.bind_ok hr]
    cases h with
    | ok trail silent => exact hf a _ _ trail silent

/-- A result costs no token. -/
theorem InOrder.pure (a : α) : InOrder quiet (pure a) :=
  fun ts _ _ => .clean (List.suffix_refl ts)

/-- Readers in a row follow one trail, made of theirs. -/
theorem InOrder.bind {r : Reader α} {f : α → Reader β} (h : InOrder quiet r)
    (hf : ∀ a, InOrder quiet (f a)) : InOrder quiet (r >>= f) :=
  fun ts endLine faults => (h ts endLine faults).bind fun a _ mid trail silent =>
    .after trail silent (hf a mid endLine _)

/-- Looking at the input moves nothing, so that a reader may be chosen by what comes next. -/
theorem InOrder.get_bind {f : Reading → Reader β} (hf : ∀ s, InOrder quiet (f s)) :
    InOrder quiet (get >>= f) :=
  fun ts endLine faults => hf ⟨⟨ts, endLine⟩, faults⟩ ts endLine faults

theorem InOrder.ite {r r' : Reader α} {c : Prop} [Decidable c] (h : InOrder quiet r)
    (h' : InOrder quiet r') : InOrder quiet (if c then r else r') := by
  split
  · exact h
  · exact h'

/-- A failure blames the place at hand, which is the end of the trail so far. -/
theorem inOrder_fail (cause : SyntaxCause) : InOrder quiet (fail cause : Reader α) := by
  intro ts endLine faults
  have hends : Ends (α := α) quiet ts endLine faults
      (.error ⟨⟨ts, endLine⟩, cause⟩, ⟨⟨ts, endLine⟩, faults ++ []⟩) :=
    .error (.clean (List.suffix_refl ts)) (fun _ => rfl) (List.suffix_refl ts)
  rwa [List.append_nil] at hends

theorem inOrder_skip : InOrder quiet skip :=
  fun ts _ _ => .clean (List.tail_suffix ts)

theorem inOrder_rest : InOrder quiet rest :=
  .get_bind fun _ => .pure _

theorem inOrder_peek : InOrder quiet peek :=
  inOrder_rest.bind fun _ => .pure _

/-- A token that is taken is the first, and what is left is behind it. -/
theorem inOrder_take? (f : Token → Option α) : InOrder quiet (take? f) := by
  unfold take?
  refine inOrder_rest.bind fun ts => ?_
  cases ts.head?.bind f with
  | some a => exact inOrder_skip.bind fun _ => .pure _
  | none => exact .pure _

theorem inOrder_accept (kind : Token.Kind) : InOrder quiet (accept kind) :=
  (inOrder_take? _).bind fun _ => .pure _

theorem inOrder_require (kind : Token.Kind) (cause : SyntaxCause) :
    InOrder quiet (require kind cause) := by
  unfold require
  refine (inOrder_take? _).bind fun o => ?_
  cases o with
  | some t => exact .pure t
  | none => exact inOrder_fail cause

/-- A repetition follows the trails of its steps, however many its budget allows. -/
theorem inOrder_many {step : Reader (Option α)} (h : InOrder quiet step) :
    InOrder quiet (many step) := by
  refine inOrder_rest.bind fun budget => ?_
  induction budget with
  | nil => exact .pure _
  | cons _ budget ih =>
    unfold manyWithin
    refine h.bind fun o => ?_
    cases o with
    | none => exact .pure _
    | some a => exact ih.bind fun _ => .pure _

/-- A row with commas is an item, and then a repetition of commas and items. -/
theorem inOrder_commaList {item : Reader α} (h : InOrder quiet item) :
    InOrder quiet (commaList item) :=
  h.bind fun _ => (inOrder_many ((inOrder_accept _).bind fun _ =>
    .ite (h.bind fun _ => .pure _) (.pure _))).bind fun _ => .pure _

/-! ## §3. Expressions. -/

/-- A primary expression nests another in parentheses only. -/
theorem inOrder_primary {nested : Reader Expr} (h : InOrder quiet nested) :
    InOrder quiet (primary nested) := by
  unfold primary
  refine (inOrder_take? _).bind fun o => ?_
  cases o with
  | some e => exact .pure e
  | none =>
    exact (inOrder_accept _).bind fun _ =>
      .ite (h.bind fun _ => (inOrder_require _ _).bind fun _ => .pure _) (inOrder_fail _)

theorem inOrder_arguments {nested : Reader Expr} (h : InOrder quiet nested) :
    InOrder quiet (arguments nested) := by
  unfold arguments
  refine inOrder_peek.bind fun kind => ?_
  split
  · exact (InOrder.pure _).bind fun _ => (inOrder_require _ _).bind fun _ => .pure _
  · exact (inOrder_commaList h).bind fun _ => (inOrder_require _ _).bind fun _ => .pure _

theorem inOrder_call {nested : Reader Expr} (h : InOrder quiet nested) :
    InOrder quiet (call nested) := by
  unfold call
  refine (inOrder_primary h).bind fun callee => (inOrder_many ?_).bind fun _ => .pure _
  refine (inOrder_take? _).bind fun o => ?_
  cases o with
  | some line => exact (inOrder_arguments h).bind fun _ => .pure _
  | none => exact .pure _

theorem inOrder_unary {nested : Reader Expr} (h : InOrder quiet nested) :
    InOrder quiet (unary nested) :=
  (inOrder_many (inOrder_take? _)).bind fun _ => (inOrder_call h).bind fun _ => .pure _

/-- Operands and operators of one level are read by repetition, whatever the operand reader. -/
theorem inOrder_binaryAt (level : BinaryOp.Level) {operand : Reader Expr}
    (h : InOrder quiet operand) : InOrder quiet (binaryAt level operand) := by
  unfold binaryAt
  refine h.bind fun first => (inOrder_many ?_).bind fun _ => .pure _
  refine (inOrder_take? _).bind fun o => ?_
  cases o with
  | some op => exact h.bind fun _ => .pure _
  | none => exact .pure _

theorem inOrder_binary {nested : Reader Expr} (h : InOrder quiet nested) :
    InOrder quiet (binary nested) := by
  unfold binary
  induction BinaryOp.Level.all with
  | nil => exact inOrder_unary h
  | cons level levels ih => exact inOrder_binaryAt level ih

/-- The equals sign that is blamed for its target stands where the value has not been
read yet; since nothing is noted in the value, the order is kept. -/
theorem inOrder_assignment {nested : Reader Expr} (h : InOrder true nested) :
    InOrder true (assignment nested) := by
  unfold assignment
  refine (inOrder_binary h).bind fun left => ?_
  intro ts endLine faults
  change Ends true ts endLine faults ((accept (.symbol .equal) >>= _) ⟨⟨ts, endLine⟩, faults⟩)
  refine Ends.bind (inOrder_accept _ ts endLine faults) fun found more rest trail silent => ?_
  split
  · refine Ends.bind (.after trail silent (h rest endLine _)) fun value more rest trail silent => ?_
    split
    · exact .ok trail silent
    · -- nothing was noted since the equals sign, so that blaming it keeps the order
      cases silent rfl
      cases trail with
      | clean forward => exact .error (.clean (List.suffix_refl ts)) silent forward
  · exact .ok trail silent

/-- Within any budget, an expression is read forward and quietly. -/
theorem inOrder_expressionWithin (budget : List Token) :
    InOrder true (expressionWithin budget) := by
  induction budget with
  | nil => exact inOrder_fail _
  | cons _ budget ih => exact inOrder_assignment ih

theorem inOrder_expression : InOrder quiet expression :=
  .of_quiet (inOrder_rest.bind inOrder_expressionWithin)

/-! ## §4. Statements. -/

/-- Skipping to the next statement drops tokens from the front. -/
theorem nextStatement_suffix : ∀ (last : Token) (ts : List Token), nextStatement last ts <:+ ts
  | _, [] => List.suffix_refl _
  | last, t :: ts => by
    unfold nextStatement
    split
    · exact List.suffix_refl _
    · exact (nextStatement_suffix t ts).trans (List.suffix_cons t ts)

/-- Recovery discards the next token, and with it the blamed one, if that is not behind
already. -/
theorem resume_suffix {rest us : List Token} (h : rest <:+ us) : resume rest <:+ us.tail := by
  cases rest with
  | nil => exact List.nil_suffix
  | cons t rest =>
    cases us with
    | nil => cases List.suffix_nil.1 h
    | cons u us =>
      show nextStatement t rest <:+ us
      rcases List.suffix_cons_iff.1 h with heq | hlater
      · cases heq
        exact nextStatement_suffix t rest
      · exact ((nextStatement_suffix t rest).trans (List.suffix_cons t rest)).trans hlater

/-- A fault that is recovered from is noted last, and reading goes on behind it. -/
theorem inOrder_recover {r : Reader α} (h : InOrder quiet r) : InOrder false (recover r) := by
  intro ts endLine faults
  have hends := h ts endLine faults
  unfold recover
  generalize r ⟨⟨ts, endLine⟩, faults⟩ = outcome at hends ⊢
  cases hends with
  | ok trail => exact .ok trail nofun
  | @error cause more us rest trail silent forward =>
    show Ends false ts endLine faults (.ok none, ⟨⟨resume rest, endLine⟩, faults ++ more ++ [_]⟩)
    rw [List.append_assoc]
    exact .ok (trail.trans (.noted (List.suffix_refl us) (.clean (resume_suffix forward)))) nofun

theorem inOrder_exprStmt : InOrder quiet exprStmt :=
  inOrder_expression.bind fun _ => (inOrder_require _ _).bind fun _ => .pure _

theorem inOrder_printStmt : InOrder quiet printStmt :=
  (inOrder_commaList inOrder_expression).bind fun _ => (inOrder_require _ _).bind fun _ => .pure _

theorem inOrder_expressionUnless (kind : Token.Kind) : InOrder quiet (expressionUnless kind) :=
  inOrder_peek.bind fun _ => .ite (.pure _) (inOrder_expression.bind fun _ => .pure _)

theorem inOrder_returnStmt (line : Int) : InOrder quiet (returnStmt line) :=
  (inOrder_expressionUnless _).bind fun _ => (inOrder_require _ _).bind fun _ => .pure _

theorem inOrder_varStmt : InOrder quiet varStmt := by
  unfold varStmt
  refine (inOrder_require _ _).bind fun name => (inOrder_accept _).bind fun found => ?_
  split
  · exact inOrder_expression.bind fun _ => (inOrder_require _ _).bind fun _ => .pure _
  · exact (InOrder.pure _).bind fun _ => (inOrder_require _ _).bind fun _ => .pure _

theorem inOrder_block {declaration : Reader (Option Stmt)} (h : InOrder quiet declaration) :
    InOrder quiet (block declaration) := by
  unfold block
  refine (inOrder_many ?_).bind fun _ => (inOrder_require _ _).bind fun _ => .pure _
  refine inOrder_peek.bind fun kind => ?_
  split
  · exact .pure _
  · exact .pure _
  · exact h.bind fun _ => .pure _

/-- A function declaration, whose faults can only be noted in its body. -/
theorem inOrder_funStmt {declaration : Reader (Option Stmt)} (h : InOrder quiet declaration) :
    InOrder quiet (funStmt declaration) := by
  unfold funStmt
  refine (inOrder_require _ _).bind fun name => (inOrder_require _ _).bind fun _ =>
    inOrder_peek.bind fun kind => ?_
  -- with or without parameters, the rest is the same
  have hrest : ∀ params : List Token, InOrder quiet (do
      let _ ← require (.symbol .rightParen) .parametersEnd
      let _ ← require (.symbol .leftBrace) .bodyStart
      let body ← block declaration
      return Stmt.funDecl name.lexeme name.line (params.map Token.lexeme) body) :=
    fun params => (inOrder_require _ _).bind fun _ => (inOrder_require _ _).bind fun _ =>
      (inOrder_block h).bind fun _ => .pure _
  split
  · exact (InOrder.pure _).bind hrest
  · exact (inOrder_commaList (inOrder_require _ _)).bind hrest

theorem inOrder_ifStmt {statement : Reader Stmt} (h : InOrder quiet statement) :
    InOrder quiet (ifStmt statement) :=
  (inOrder_require _ _).bind fun _ => inOrder_expression.bind fun _ =>
    (inOrder_require _ _).bind fun _ => h.bind fun _ => (inOrder_accept _).bind fun _ =>
      .ite (h.bind fun _ => .pure _) (.pure _)

theorem inOrder_whileStmt {statement : Reader Stmt} (h : InOrder quiet statement) :
    InOrder quiet (whileStmt statement) :=
  (inOrder_require _ _).bind fun _ => inOrder_expression.bind fun _ =>
    (inOrder_require _ _).bind fun _ => h.bind fun _ => .pure _

theorem inOrder_forInitial : InOrder quiet forInitial := by
  unfold forInitial
  refine inOrder_peek.bind fun kind => ?_
  split
  · exact inOrder_skip.bind fun _ => .pure _
  · exact inOrder_skip.bind fun _ => inOrder_varStmt.bind fun _ => .pure _
  · exact inOrder_exprStmt.bind fun _ => .pure _

theorem inOrder_forStmt {statement : Reader Stmt} (h : InOrder quiet statement) :
    InOrder quiet (forStmt statement) :=
  (inOrder_require _ _).bind fun _ => inOrder_forInitial.bind fun _ =>
    (inOrder_expressionUnless _).bind fun _ => (inOrder_require _ _).bind fun _ =>
      (inOrder_expressionUnless _).bind fun _ => (inOrder_require _ _).bind fun _ =>
        h.bind fun _ => .pure _

/-- Each statement is told by its first token, and the readers for all of them are in order. -/
theorem inOrder_statementForm (declares : Bool) {statement : Reader Stmt}
    {declaration : Reader (Option Stmt)} (hs : InOrder quiet statement)
    (hd : InOrder quiet declaration) :
    InOrder quiet (statementForm declares statement declaration) := by
  unfold statementForm
  refine .get_bind fun s => inOrder_peek.bind fun kind => ?_
  split
  · exact .ite (inOrder_skip.bind fun _ => inOrder_funStmt hd) (inOrder_fail _)
  · exact .ite (inOrder_skip.bind fun _ => inOrder_varStmt) (inOrder_fail _)
  · exact inOrder_skip.bind fun _ => inOrder_printStmt
  · exact inOrder_skip.bind fun _ => inOrder_ifStmt hs
  · exact inOrder_skip.bind fun _ => inOrder_whileStmt hs
  · exact inOrder_skip.bind fun _ => inOrder_forStmt hs
  · exact inOrder_skip.bind fun _ => inOrder_returnStmt _
  · exact inOrder_skip.bind fun _ => (inOrder_block hd).bind fun _ => .pure _
  · exact inOrder_exprStmt

/-- Within any budget, a statement is read forward; blocks in it may have noted faults. -/
theorem inOrder_statementWithin (budget : List Token) :
    ∀ declares, InOrder false (statementWithin budget declares) := by
  induction budget with
  | nil => exact fun _ => inOrder_fail _
  | cons _ budget ih =>
    exact fun declares => inOrder_statementForm declares (ih false) (inOrder_recover (ih true))

/-- **A program is read in order.** -/
theorem inOrder_program : InOrder false program := by
  have hdeclaration : InOrder false declaration :=
    inOrder_rest.bind fun budget => inOrder_recover (inOrder_statementWithin budget true)
  unfold program
  refine (inOrder_many ?_).bind fun _ => .pure _
  refine inOrder_peek.bind fun kind => ?_
  cases kind with
  | none => exact .pure _
  | some k => exact hdeclaration.bind fun _ => .pure _

end Reader

/-! ## §5. Parsing. -/

/-- Reading never gets past the end of the input. -/
theorem suffix_of_program (input : Token.Stream) :
    (Reader.program ⟨input, []⟩).2.input.tokens <:+ input.tokens := by
  obtain ⟨ts, endLine⟩ := input
  have hends := Reader.inOrder_program ts endLine []
  generalize Reader.program ⟨⟨ts, endLine⟩, []⟩ = outcome at hends ⊢
  cases hends with
  | ok trail => exact trail.suffix
  | error trail _ forward => exact forward.trans trail.suffix

/-- **The faults of a source are at least one, and in the order of the tokens that they
blame.** -/
theorem trail_of_parse {input : Token.Stream} {faults : List SyntaxFault}
    (h : parse input = .error faults) :
    faults ≠ [] ∧ ∃ rest, Reader.Trail input.endLine input.tokens faults rest := by
  obtain ⟨ts, endLine⟩ := input
  have hends := Reader.inOrder_program ts endLine []
  unfold parse at h
  generalize Reader.program ⟨⟨ts, endLine⟩, []⟩ = outcome at h hends
  cases hends with
  | @ok body more rest trail =>
    cases more with
    | nil => cases h
    | cons f more =>
      cases h
      exact ⟨List.cons_ne_nil _ _, rest, trail⟩
  | @error cause more us rest trail silent forward =>
    -- the fault that ends the reading comes behind those that were noted
    cases h
    refine ⟨by simp, us.tail, ?_⟩
    exact trail.trans (.noted (List.suffix_refl us) (.clean (List.suffix_refl _)))

end LoxLang
