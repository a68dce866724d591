/-
  LoxLang.Proofs.Grammar.Parse
  ────────────────────────────
  **The parser accepts exactly its grammar.**  A program is accepted if and only if it
  is derived, with the statements of the derivation in which every else belongs to the
  nearest open if; and no derivation puts a declaration where a single statement is
  expected (`Stmt.Tidy`), on which the resolution of scopes relies.
-/
import LoxLang.Proofs.Grammar.Statement

namespace LoxLang

/-! ## §1. Every program has a derivation by the nearest-if rule. -/

/-- An else behind an open statement can be given to the if that is open in it. -/
theorem Sentence.exists_absorb {ts us : List Token} {s s' : Stmt} {other : Token} {isOpen : Bool}
    (h : Sentence .nearest (.statement true) ts s) (hother : other.kind = .keyword .elseKw)
    (h' : Sentence .nearest (.statement isOpen) us s') :
    ∃ isOpen' s'', Sentence .nearest (.statement isOpen') (ts ++ other :: us) s'' := by
  generalize hform : Form.statement true = form at h
  induction h with
  | @ifThen start left right cs ts c s isOpen₁ hstart hleft hc hright hs ih =>
    simp only [List.cons_append, List.append_assoc]
    by_cases hopen : isOpen₁ = true
    · -- the branch is open itself: the else goes further in
      subst hopen
      obtain ⟨isOpen', s'', hs''⟩ := ih rfl
      exact ⟨true, .ifThen c s'', .ifThen hstart hleft hc hright hs''⟩
    · have hclosed : isOpen₁ = false := Bool.eq_false_iff.2 hopen
      exact ⟨isOpen, .ifElse c s s',
        .ifElse hstart hleft hc hright hs (fun _ => hclosed) hother h'⟩
  | @ifElse start left right other' cs ts us' c s₁ s₂ isOpen₁ isOpen₂ hstart hleft hc hright hs₁
      hnearest hother' _ _ ih₂ =>
    -- the else branch is what is open
    obtain ⟨isOpen', s'', hs''⟩ := ih₂ hform
    simp only [List.cons_append, List.append_assoc]
    exact ⟨isOpen', .ifElse c s₁ s'',
      .ifElse hstart hleft hc hright hs₁ hnearest hother' hs''⟩
  | @whileLoop start left right cs ts c s isOpen₁ hstart hleft hc hright _ ih =>
    obtain ⟨isOpen', s'', hs''⟩ := ih hform
    simp only [List.cons_append, List.append_assoc]
    exact ⟨isOpen', .whileLoop c s'', .whileLoop hstart hleft hc hright hs''⟩
  | forLoop hstart hleft hinitial hcondition hsemicolon hstep hright _ ih =>
    obtain ⟨isOpen', s'', hs''⟩ := ih hform
    simp only [List.cons_append, List.append_assoc]
    exact ⟨isOpen', _,
      .forLoop hstart hleft hinitial hcondition hsemicolon hstep hright hs''⟩
  | _ => cases hform

/-- A declaration or statement of the same tokens, by the nearest-if rule. -/
def Form.HasNearest : Form → List Token → Prop
  | .declaration, ts => ∃ s, Sentence .nearest .declaration ts s
  | .statement _, ts => ∃ isOpen s, Sentence .nearest (.statement isOpen) ts s

/-- Rows that can be derived one by one can be derived as rows. -/
theorem exists_nearest_rows {rows : List (List Token × Stmt)}
    (h : ∀ x ∈ rows, ∃ s, Sentence .nearest .declaration x.1 s) :
    ∃ rows' : List (List Token × Stmt), (∀ x ∈ rows', Sentence .nearest .declaration x.1 x.2)
      ∧ rows'.flatMap Prod.fst = rows.flatMap Prod.fst := by
  induction rows with
  | nil => exact ⟨[], by simp, rfl⟩
  | cons x rows ih =>
    obtain ⟨s, hs⟩ := h x List.mem_cons_self
    obtain ⟨rows', hrows', heq⟩ := ih (fun y hy => h y (List.mem_cons_of_mem x hy))
    refine ⟨(x.1, s) :: rows', ?_, ?_⟩
    · intro y hy
      rcases List.mem_cons.1 hy with rfl | hy
      · exact hs
      · exact hrows' y hy
    · rw [List.flatMap_cons, List.flatMap_cons, heq]

/-- **Whatever is derived is derived by the nearest-if rule too**, if perhaps as another
tree. -/
theorem Sentence.exists_nearest {rule : ElseRule} {form : Form} {ts : List Token} {s : Stmt}
    (h : Sentence rule form ts s) : form.HasNearest ts := by
  induction h with
  | expression he hend => exact ⟨_, _, .expression he hend⟩
  | print hprint hitems hus hend => exact ⟨_, _, .print hprint hitems hus hend⟩
  | ifThen hstart hleft hc hright _ ih =>
    obtain ⟨isOpen, s, hs⟩ := ih
    exact ⟨_, _, .ifThen hstart hleft hc hright hs⟩
  | @ifElse start left right other cs ts us c s s' _ _ hstart hleft hc hright _ _ hother _ ih ih' =>
    obtain ⟨isOpen, s₁, hs₁⟩ := ih
    obtain ⟨isOpen', s₂, hs₂⟩ := ih'
    by_cases hopen : isOpen = true
    · -- the else belongs to an if inside the first branch
      subst hopen
      obtain ⟨isOpen'', s₃, hs₃⟩ := hs₁.exists_absorb hother hs₂
      exact ⟨_, _, .ifThen hstart hleft hc hright hs₃⟩
    · have hclosed : isOpen = false := Bool.eq_false_iff.2 hopen
      exact ⟨_, _, .ifElse hstart hleft hc hright hs₁ (fun _ => hclosed) hother hs₂⟩
  | whileLoop hstart hleft hc hright _ ih =>
    obtain ⟨isOpen, s, hs⟩ := ih
    exact ⟨_, _, .whileLoop hstart hleft hc hright hs⟩
  | forLoop hstart hleft hinitial hcondition hsemicolon hstep hright _ ih =>
    obtain ⟨isOpen, s, hs⟩ := ih
    exact ⟨_, _, .forLoop hstart hleft hinitial hcondition hsemicolon hstep hright hs⟩
  | ret hstart hvalue hend => exact ⟨_, _, .ret hstart hvalue hend⟩
  | block hleft _ hright ih =>
    obtain ⟨rows, hrows, heq⟩ := exists_nearest_rows ih
    rw [← heq]
    exact ⟨_, _, .block hleft hrows hright⟩
  | statement _ ih =>
    obtain ⟨isOpen, s, hs⟩ := ih
    exact ⟨_, .statement hs⟩
  | varDecl hs => exact ⟨_, .varDecl hs⟩
  | funDecl hstart hname hleft hparams hus hright hleftBrace _ hrightBrace ih =>
    obtain ⟨rows, hrows, heq⟩ := exists_nearest_rows ih
    rw [← heq]
    exact ⟨_, .funDecl hstart hname hleft hparams hus hright hleftBrace hrows hrightBrace⟩

/-- A program of any derivation has one by the nearest-if rule. -/
theorem exists_nearest_program {rule : ElseRule} {ts : List Token} {body : List Stmt}
    (h : Program rule ts body) : ∃ body', Program .nearest ts body' := by
  obtain ⟨rows, hrows, rfl, -⟩ := h
  obtain ⟨rows', hrows', heq⟩ := exists_nearest_rows fun x hx => (hrows x hx).exists_nearest
  exact ⟨_, rows', hrows', heq.symm, rfl⟩

/-- A derivation by the nearest-if rule is a derivation. -/
theorem Sentence.of_nearest {form : Form} {ts : List Token} {s : Stmt}
    (h : Sentence .nearest form ts s) : Sentence .any form ts s := by
  induction h with
  | expression he hend => exact .expression he hend
  | print hprint hitems hus hend => exact .print hprint hitems hus hend
  | ifThen hstart hleft hc hright _ ih => exact .ifThen hstart hleft hc hright ih
  | ifElse hstart hleft hc hright _ _ hother _ ih ih' =>
    exact .ifElse hstart hleft hc hright ih (nomatch ·) hother ih'
  | whileLoop hstart hleft hc hright _ ih => exact .whileLoop hstart hleft hc hright ih
  | forLoop hstart hleft hinitial hcondition hsemicolon hstep hright _ ih =>
    exact .forLoop hstart hleft hinitial hcondition hsemicolon hstep hright ih
  | ret hstart hvalue hend => exact .ret hstart hvalue hend
  | block hleft _ hright ih => exact .block hleft ih hright
  | statement _ ih => exact .statement ih
  | varDecl hs => exact .varDecl hs
  | funDecl hstart hname hleft hparams hus hright hleftBrace _ hrightBrace ih =>
    exact .funDecl hstart hname hleft hparams hus hright hleftBrace ih hrightBrace

/-! ## §2. Where declarations stand. -/

/-- The name that a declaration declares; none if the statement is no declaration. -/
def Stmt.declared? : Stmt → Option String
  | .varDecl name _ _ | .funDecl name _ _ _ => some name
  | _ => none

/-- Nowhere in the statement does a declaration stand alone where a single statement is
expected: as a branch of an if or as the body of a loop. -/
inductive Stmt.Tidy : Stmt → Prop where
  | expr (e : Expr) : Tidy (.expr e)
  | print (es : List Expr) : Tidy (.print es)
  | ifThen (c : Expr) {s : Stmt} (h : Tidy s) (hplain : s.declared? = none) :
      Tidy (.ifThen c s)
  | ifElse (c : Expr) {s s' : Stmt} (h : Tidy s) (hplain : s.declared? = none)
      (h' : Tidy s') (hplain' : s'.declared? = none) : Tidy (.ifElse c s s')
  | block {body : List Stmt} (h : ∀ s ∈ body, Tidy s) : Tidy (.block body)
  | varDecl (name : String) (line : Int) (initial : Expr) : Tidy (.varDecl name line initial)
  | whileLoop (c : Expr) {s : Stmt} (h : Tidy s) (hplain : s.declared? = none) :
      Tidy (.whileLoop c s)
  | funDecl (name : String) (line : Int) (params : List String) {body : List Stmt}
      (h : ∀ s ∈ body, Tidy s) : Tidy (.funDecl name line params body)
  | ret (line : Int) (value : Expr) : Tidy (.ret line value)

/-- A variable declaration has no nested statements. -/
theorem VariablePhrase.tidy {ts : List Token} {s : Stmt} (h : VariablePhrase ts s) : s.Tidy := by
  cases h with
  | bare => exact .varDecl _ _ _
  | initialised => exact .varDecl _ _ _

/-- What a `for` begins with has no nested statements. -/
theorem InitialPhrase.tidy {ts : List Token} {initial : Option Stmt}
    (h : InitialPhrase ts initial) : ∀ s ∈ initial, s.Tidy := by
  intro s hs
  cases h with
  | absent => cases hs
  | declared hvar =>
    cases hs
    exact hvar.tidy
  | expression =>
    cases hs
    exact .expr _

/-- What is derived is tidy, and a statement is no declaration. -/
theorem Sentence.tidy {rule : ElseRule} {form : Form} {ts : List Token} {s : Stmt}
    (h : Sentence rule form ts s) :
    s.Tidy ∧ (form ≠ .declaration → s.declared? = none) := by
  have hrow : ∀ {rows : List (List Token × Stmt)}, (∀ x ∈ rows, x.2.Tidy ∧
      (Form.declaration ≠ .declaration → x.2.declared? = none)) →
      ∀ s ∈ rows.map Prod.snd, s.Tidy := by
    intro rows hrows s hs
    obtain ⟨x, hx, rfl⟩ := List.mem_map.1 hs
    exact (hrows x hx).1
  induction h with
  | expression => exact ⟨.expr _, fun _ => rfl⟩
  | print => exact ⟨.print _, fun _ => rfl⟩
  | ifThen _ _ _ _ _ ih => exact ⟨.ifThen _ ih.1 (ih.2 (by simp)), fun _ => rfl⟩
  | ifElse _ _ _ _ _ _ _ _ ih ih' =>
    exact ⟨.ifElse _ ih.1 (ih.2 (by simp)) ih'.1 (ih'.2 (by simp)), fun _ => rfl⟩
  | whileLoop _ _ _ _ _ ih => exact ⟨.whileLoop _ ih.1 (ih.2 (by simp)), fun _ => rfl⟩
  | @forLoop _ _ _ _ _ _ _ _ initial condition step s _ _ _ hinitial _ _ _ _ _ ih =>
    refine ⟨.block ?_, fun _ => rfl⟩
    intro s₁ hs₁
    -- the first clause, and the loop around body and step
    rcases List.mem_append.1 hs₁ with hs₁ | hs₁
    · exact hinitial.tidy s₁ (Option.mem_toList.1 hs₁)
    · rw [List.mem_singleton.1 hs₁]
      refine .whileLoop _ (.block ?_) rfl
      intro s₂ hs₂
      rcases List.mem_cons.1 hs₂ with rfl | hs₂
      · exact ih.1
      · obtain ⟨e, -, rfl⟩ := Option.map_eq_some_iff.1 (Option.mem_toList.1 hs₂)
        exact .expr e
  | ret => exact ⟨.ret _ _, fun _ => rfl⟩
  | block _ _ _ ih => exact ⟨.block (hrow ih), fun _ => rfl⟩
  | statement _ ih => exact ⟨ih.1, fun h => absurd rfl h⟩
  | varDecl hs => exact ⟨hs.tidy, fun h => absurd rfl h⟩
  | funDecl _ _ _ _ _ _ _ _ _ ih => exact ⟨.funDecl _ _ _ (hrow ih), fun h => absurd rfl h⟩

/-! ## §3. The parser and the grammar. -/

/-- What is parsed is exactly what the grammar derives by the nearest-if rule. -/
theorem parse_eq_ok_iff (input : Token.Stream) (body : List Stmt) :
    parse input = .ok body ↔ Program .nearest input.tokens body := by
  unfold parse
  constructor
  · intro h
    split at h
    · next body' left hrun =>
      cases h
      -- the reading ended without faults, and then all tokens were used
      obtain ⟨used, htokens, hprogram, hnil⟩ := Reader.sound_program.used hrun rfl
      rw [hnil, List.append_nil] at htokens
      rw [htokens]
      exact hprogram
    · cases h
    · cases h
  · intro h
    have hrun := Reader.reads_program h input.endLine []
    rw [hrun]

/-- There are faults exactly where nothing can be derived, by whatever rule. -/
theorem parse_eq_error_iff (input : Token.Stream) :
    (∃ faults, parse input = .error faults) ↔ ¬ ∃ body, Program .any input.tokens body := by
  constructor
  · intro herror hprogram
    obtain ⟨faults, hfaults⟩ := herror
    obtain ⟨body, hbody⟩ := hprogram
    obtain ⟨body', hbody'⟩ := exists_nearest_program hbody
    rw [(parse_eq_ok_iff input body').2 hbody'] at hfaults
    cases hfaults
  · intro hno
    cases hparse : parse input with
    | error faults => exact ⟨faults, rfl⟩
    | ok body =>
      obtain ⟨rows, hrows, htokens, hbody⟩ := (parse_eq_ok_iff input body).1 hparse
      exact absurd ⟨body, rows, fun x hx => (hrows x hx).of_nearest, htokens, hbody⟩ hno

/-- Programs behind each other are a program. -/
theorem Program.append {rule : ElseRule} {ts us : List Token} {body more : List Stmt}
    (h : Program rule ts body) (h' : Program rule us more) :
    Program rule (ts ++ us) (body ++ more) := by
  obtain ⟨rows, hrows, rfl, rfl⟩ := h
  obtain ⟨rows', hrows', rfl, rfl⟩ := h'
  refine ⟨rows ++ rows', ?_, ?_, ?_⟩
  · intro x hx
    rcases List.mem_append.1 hx with hx | hx
    · exact hrows x hx
    · exact hrows' x hx
  · rw [List.flatMap_append]
  · rw [List.map_append]

/-- What was parsed is tidy, since the grammar has declarations in rows only. -/
theorem tidy_of_parse {input : Token.Stream} {body : List Stmt} (h : parse input = .ok body) :
    ∀ s ∈ body, s.Tidy := by
  obtain ⟨rows, hrows, -, rfl⟩ := (parse_eq_ok_iff input body).1 h
  intro s hs
  obtain ⟨x, hx, rfl⟩ := List.mem_map.1 hs
  exact (hrows x hx).tidy.1

/-- **The parser accepts exactly the programs of the grammar.**  It gives `body` if and
only if the tokens derive `body` with every else at the nearest open if; it faults if
and only if the tokens have no derivation at all; and what it gives is tidy. -/
theorem parse_reads_the_grammar (input : Token.Stream) :
    (∀ body, parse input = .ok body ↔ Program .nearest input.tokens body)
      ∧ ((∃ faults, parse input = .error faults) ↔ ¬ ∃ body, Program .any input.tokens body)
      ∧ ∀ body, parse input = .ok body → ∀ s ∈ body, s.Tidy := by
  refine ⟨parse_eq_ok_iff input, parse_eq_error_iff input, ?_⟩
  intro body hbody
  exact tidy_of_parse hbody

end LoxLang
