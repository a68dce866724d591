/-
  LoxLang.Proofs.Line.Blamed
  ──────────────────────────
  **Errors blame lines of the source.**  Every node of a tree names the line of a token that it
  was read from (`Program.within`); the resolver changes no line and blames one of them
  (`Resolve.keeps_resolve`), and so does a run (`Film.Proper.run`).  The tokens stand on
  lines of the source, and so do lexical faults and the end of input.  Whatever stage a source
  fails in, the line of its diagnostic is one of its own (`Passage.places_of_failure?`).
-/
import LoxLang.Proofs.Film.Confines
import LoxLang.Proofs.Line.Equivariance
import LoxLang.Proofs.Report.Recovery

namespace LoxLang

/-! ## §1. Trees that are read. -/

variable {c : Confines} {ts us : List Token}

/-- The items of a row with commas are part of it. -/
theorem Joined.mem_of_mem {α : Type} {items : List (List Token × α)} (h : Joined items us) :
    ∀ x ∈ items, ∀ t ∈ x.1, t ∈ us := by
  induction h with
  | one x =>
    intro y hy t ht
    rw [List.mem_singleton.1 hy] at ht
    exact ht
  | cons x hcomma h ih =>
    intro y hy t ht
    rcases List.mem_cons.1 hy with rfl | hy
    · exact List.mem_append_left _ ht
    · exact List.mem_append_right _ (List.mem_cons_of_mem _ (ih y hy t ht))

/-- The items of a list, which may be empty, are part of it. -/
theorem Listed.mem_of_mem {α : Type} {items : List (List Token × α)} (h : Listed items us) :
    ∀ x ∈ items, ∀ t ∈ x.1, t ∈ us := by
  rcases h with ⟨rfl, rfl⟩ | h
  · exact nofun
  · exact h.mem_of_mem

/-- An expression names the lines of its tokens. -/
theorem Phrase.within {rank : Rank} {e : Expr} (h : Phrase rank ts e) (hassigns : c.assigns)
    (hts : ∀ t ∈ ts, c.line t.line) : e.Within c := by
  induction h with
  | falseWord | trueWord | nilWord | number | string => exact .literal _
  | identifier => exact .var (hts _ List.mem_cons_self)
  | group _ _ _ ih => exact .group (ih fun t ht => hts t (by simp [ht]))
  | primary _ ih | operand _ ih | tighter _ ih | value _ ih => exact ih hts
  | @call left right ts us callee arguments _ _ _ hus _ ihcallee iharguments =>
    refine .call (hts left (by simp)) (ihcallee fun t ht => hts t (by simp [ht])) ?_
    intro e he
    obtain ⟨x, hx, rfl⟩ := List.mem_map.1 he
    exact iharguments x hx fun t ht => hts t (by simp [hus.mem_of_mem x hx t ht])
  | sign _ _ ih =>
    exact .unary (hts _ List.mem_cons_self) (ih fun t ht => hts t (by simp [ht]))
  | operate _ _ _ ihleft ihright =>
    exact .binary (hts _ (by simp)) (ihleft fun t ht => hts t (by simp [ht]))
      (ihright fun t ht => hts t (by simp [ht]))
  | assign _ _ _ ih =>
    exact .assign hassigns (hts _ List.mem_cons_self) (ih fun t ht => hts t (by simp [ht]))

/-- A phrase that may be missing names lines of its tokens. -/
theorem OptionalPhrase.within {e : Option Expr} (h : OptionalPhrase ts e) (hassigns : c.assigns)
    (hts : ∀ t ∈ ts, c.line t.line) : ∀ e' ∈ e, e'.Within c := by
  cases h with
  | absent => exact nofun
  | present h =>
    rintro e' ⟨⟩
    exact h.within hassigns hts

/-- A variable declaration names lines of its tokens, also where nil is its initial value. -/
theorem VariablePhrase.within {s : Stmt} (h : VariablePhrase ts s) (hassigns : c.assigns)
    (hts : ∀ t ∈ ts, c.line t.line) : s.Within c := by
  cases h with
  | bare => exact .varDecl (.literal .nil)
  | initialised _ _ _ he => exact .varDecl (he.within hassigns fun t ht => hts t (by simp [ht]))

/-- What a `for` begins with names lines of its tokens. -/
theorem InitialPhrase.within {initial : Option Stmt} (h : InitialPhrase ts initial)
    (hassigns : c.assigns) (hts : ∀ t ∈ ts, c.line t.line) : ∀ s ∈ initial, s.Within c := by
  cases h with
  | absent => exact nofun
  | declared h =>
    rintro s ⟨⟩
    exact h.within hassigns hts
  | expression he =>
    rintro s ⟨⟩
    exact .expr (he.within hassigns fun t ht => hts t (by simp [ht]))

/-- What may be absent is confined if what stands in its place is. -/
theorem Expr.within_getD {e : Option Expr} (h : ∀ e' ∈ e, e'.Within c) (value : Literal) :
    (e.getD (.literal value)).Within c := by
  cases e with
  | none => exact .literal value
  | some e => exact h e rfl

/-- A statement names the lines of its tokens. -/
theorem Sentence.within {rule : ElseRule} {form : Form} {s : Stmt} (h : Sentence rule form ts s)
    (hassigns : c.assigns) (hts : ∀ t ∈ ts, c.line t.line) : s.Within c := by
  have hrow : ∀ {rows : List (List Token × Stmt)},
      (∀ x ∈ rows, (∀ t ∈ x.1, c.line t.line) → x.2.Within c) →
      (∀ t ∈ rows.flatMap Prod.fst, c.line t.line) → ∀ s ∈ rows.map Prod.snd, s.Within c := by
    intro rows hrows hlines s hs
    obtain ⟨x, hx, rfl⟩ := List.mem_map.1 hs
    exact hrows x hx fun t ht => hlines t (List.mem_flatMap.2 ⟨x, hx, ht⟩)
  induction h with
  | expression he => exact .expr (he.within hassigns fun t ht => hts t (by simp [ht]))
  | print _ hitems hus =>
    refine .print ?_
    intro e he
    obtain ⟨x, hx, rfl⟩ := List.mem_map.1 he
    exact (hitems x hx).within hassigns fun t ht =>
      hts t (by simp [hus.mem_of_mem x hx t ht])
  | ifThen _ _ hc _ _ ih =>
    exact .ifThen (hc.within hassigns fun t ht => hts t (by simp [ht]))
      (ih fun t ht => hts t (by simp [ht]))
  | ifElse _ _ hc _ _ _ _ _ ih ih' =>
    exact .ifElse (hc.within hassigns fun t ht => hts t (by simp [ht]))
      (ih fun t ht => hts t (by simp [ht])) (ih' fun t ht => hts t (by simp [ht]))
  | whileLoop _ _ hc _ _ ih =>
    exact .whileLoop (hc.within hassigns fun t ht => hts t (by simp [ht]))
      (ih fun t ht => hts t (by simp [ht]))
  | forLoop _ _ hinitial hcondition _ hstep _ _ ih =>
    have hi := hinitial.within hassigns fun t ht => hts t (by simp [ht])
    have hc := hcondition.within hassigns fun t ht => hts t (by simp [ht])
    have hs := hstep.within hassigns fun t ht => hts t (by simp [ht])
    refine .block ?_
    intro s₁ hs₁
    -- the first clause, and the loop around body and step
    rcases List.mem_append.1 hs₁ with hs₁ | hs₁
    · exact hi s₁ (Option.mem_toList.1 hs₁)
    · rw [List.mem_singleton.1 hs₁]
      refine .whileLoop (Expr.within_getD hc _) (.block ?_)
      intro s₂ hs₂
      rcases List.mem_cons.1 hs₂ with rfl | hs₂
      · exact ih fun t ht => hts t (by simp [ht])
      · obtain ⟨e, he, rfl⟩ := Option.map_eq_some_iff.1 (Option.mem_toList.1 hs₂)
        exact .expr (hs e he)
  | ret _ hvalue =>
    refine .ret (hts _ List.mem_cons_self) (Expr.within_getD ?_ _)
    exact hvalue.within hassigns fun t ht => hts t (by simp [ht])
  | block _ _ _ ih => exact .block (hrow ih fun t ht => hts t (by simp [ht]))
  | statement _ ih => exact ih hts
  | varDecl h => exact h.within hassigns hts
  | funDecl _ _ _ _ _ _ _ _ _ ih =>
    exact .funDecl (hts _ (by simp)) (hrow ih fun t ht => hts t (by simp [ht]))

/-- A program names lines of its tokens, and no others. -/
theorem Program.within {rule : ElseRule} {body : List Stmt} (h : Program rule ts body)
    (hassigns : c.assigns) (hts : ∀ t ∈ ts, c.line t.line) : ∀ s ∈ body, s.Within c := by
  obtain ⟨rows, hrows, rfl, rfl⟩ := h
  intro s hs
  obtain ⟨x, hx, rfl⟩ := List.mem_map.1 hs
  exact (hrows x hx).within hassigns fun t ht => hts t (List.mem_flatMap.2 ⟨x, hx, ht⟩)

/-! ## §2. Trees that are resolved. -/

/-- What holds of every expression when it is resolved holds of the row. -/
theorem Expr.forall_mem_resolveAll {P : Expr → Prop} {r : Resolver} {es : List Expr}
    (h : ∀ e ∈ es, P (e.resolve r)) : ∀ e ∈ Expr.resolveAll r es, P e := by
  induction es with
  | nil => exact nofun
  | cons e es ih =>
    obtain ⟨he, hes⟩ := List.forall_mem_cons.1 h
    exact List.forall_mem_cons.2 ⟨he, ih hes⟩

/-- Noting a slot moves no mention to another line. -/
theorem Expr.Within.resolve {e : Expr} (h : e.Within c) (r : Resolver) :
    (e.resolve r).Within c := by
  induction h with
  | literal value =>
    unfold Expr.resolve
    exact .literal value
  | binary hline _ _ ihleft ihright =>
    unfold Expr.resolve
    exact .binary hline ihleft ihright
  | group _ ih =>
    unfold Expr.resolve
    exact .group ih
  | unary hline _ ih =>
    unfold Expr.resolve
    exact .unary hline ih
  | var hline =>
    unfold Expr.resolve
    exact .var hline
  | assign hassigns hline _ ih =>
    unfold Expr.resolve
    exact .assign hassigns hline ih
  | call hline _ _ ihcallee iharguments =>
    unfold Expr.resolve
    exact .call hline ihcallee (Expr.forall_mem_resolveAll iharguments)

namespace Resolve

variable {α β : Type} {P : α → Prop} {Q : β → Prop} {x : Resolve α} {k : α → Resolve β}

/-- What is asked of an answer: `P` of a result, and of a refusal that it name a line of the
code. -/
def Answers (c : Confines) (P : α → Prop) : Except ResolveError α → Prop
  | .ok a => P a
  | .error e => c.line e.line

/-- Whatever encloses the code, its resolution gives a proper answer. -/
def Keeps (c : Confines) (P : α → Prop) (x : Resolve α) : Prop :=
  ∀ r, Answers c P (x r).1

theorem Keeps.pure {a : α} (h : P a) : Keeps c P (pure a) :=
  fun _ => h

/-- A refusal is to be on one of the lines. -/
theorem Keeps.throw {e : ResolveError} (h : c.line e.line) : Keeps c P (throw e) :=
  fun _ => h

/-- What comes second is given a result of which `P` holds. -/
theorem Keeps.bind (h : Keeps c P x) (hk : ∀ a, P a → Keeps c Q (k a)) : Keeps c Q (x >>= k) := by
  intro r
  have hanswer := h r
  rcases hx : x r with ⟨e | a, r'⟩
  · rw [hx] at hanswer
    rw [Attempt.bind_error hx]
    exact hanswer
  · rw [hx] at hanswer
    rw [Attempt.bind_ok hx]
    exact hk a hanswer r'

theorem keeps_expr {e : Expr} (h : e.Within c) : Keeps c (Expr.Within c) (Resolve.expr e) :=
  fun r => h.resolve r

/-- Resolving expressions adds slots to them, and no lines. -/
theorem keeps_exprs {es : List Expr} (h : ∀ e ∈ es, e.Within c) :
    Keeps c (fun es' => ∀ e ∈ es', e.Within c) (Resolve.exprs es) :=
  fun r => Expr.forall_mem_resolveAll fun e he => (h e he).resolve r

theorem keeps_declare (name : String) : Keeps c (fun _ => True) (Resolve.declare name) :=
  fun _ => trivial

/-- Entering and leaving a block refuses nothing. -/
theorem keeps_inBlock (h : Keeps c P x) : Keeps c P (Resolve.inBlock x) := by
  intro r
  have hanswer := h r.enterBlock
  rcases hx : x r.enterBlock with ⟨result, inner⟩
  rw [hx] at hanswer
  unfold Resolve.inBlock
  simp only [hx]
  split
  · exact hanswer
  · exact hanswer

/-- A function is refused on no other lines than its body. -/
theorem keeps_inFunction (name : String) (params : List String) (h : Keeps c P x) :
    Keeps c P (Resolve.inFunction name params x) :=
  fun r => h (r.enterFunction name params)

/-- A row of statements stays confined as its statements do. -/
theorem keeps_resolveAll {body : List Stmt} (h : ∀ s ∈ body, Keeps c (Stmt.Within c) s.resolve) :
    Keeps c (fun body' => ∀ s ∈ body', s.Within c) (Stmt.resolveAll body) := by
  induction body with
  | nil =>
    unfold Stmt.resolveAll
    exact .pure nofun
  | cons s body ih =>
    obtain ⟨hs, hbody⟩ := List.forall_mem_cons.1 h
    unfold Stmt.resolveAll
    exact hs.bind fun s' hs' => (ih hbody).bind fun body' hbody' =>
      .pure (List.forall_mem_cons.2 ⟨hs', hbody'⟩)

/-- A statement is refused for one of its lines; if it is not, it names no others. -/
theorem keeps_resolve {s : Stmt} (h : s.Within c) : Keeps c (Stmt.Within c) s.resolve := by
  induction h with
  | expr h =>
    unfold Stmt.resolve
    exact (keeps_expr h).bind fun _ he => .pure (.expr he)
  | print h =>
    unfold Stmt.resolve
    exact (keeps_exprs h).bind fun _ hes => .pure (.print hes)
  | ifThen hcondition _ ih =>
    unfold Stmt.resolve
    exact (keeps_expr hcondition).bind fun _ hc => ih.bind fun _ hs => .pure (.ifThen hc hs)
  | ifElse hcondition _ _ ih ih' =>
    unfold Stmt.resolve
    exact (keeps_expr hcondition).bind fun _ hc => ih.bind fun _ hs => ih'.bind fun _ hs' =>
      .pure (.ifElse hc hs hs')
  | block _ ih =>
    unfold Stmt.resolve
    exact (keeps_inBlock (keeps_resolveAll ih)).bind fun _ hbody => .pure (.block hbody)
  | varDecl h =>
    unfold Stmt.resolve
    exact (keeps_expr h).bind fun _ he => (keeps_declare _).bind fun _ _ => .pure (.varDecl he)
  | whileLoop hcondition _ ih =>
    unfold Stmt.resolve
    exact (keeps_expr hcondition).bind fun _ hc => ih.bind fun _ hs => .pure (.whileLoop hc hs)
  | funDecl hline _ ih =>
    unfold Stmt.resolve
    split
    · exact .throw hline
    · exact (keeps_inFunction _ _ (keeps_resolveAll ih)).bind fun _ hbody =>
        (keeps_declare _).bind fun _ _ => .pure (.funDecl hline hbody)
  | ret hline h =>
    unfold Stmt.resolve
    refine Keeps.bind (P := fun _ => True) (fun _ => trivial) fun r _ => ?_
    split
    · exact .throw hline
    · exact (keeps_expr h).bind fun _ he => .pure (.ret hline he)

end Resolve

/-- A program is refused for one of its lines; if it is not, it names no others. -/
theorem Resolver.answers_resolve {body : List Stmt} (h : ∀ s ∈ body, s.Within c) (r : Resolver) :
    Resolve.Answers c (fun body' => ∀ s ∈ body', s.Within c) (r.resolve body).1 :=
  Resolve.keeps_resolveAll (fun s hs => Resolve.keeps_resolve (h s hs)) r

/-! ## §3. Lines of a source. -/

namespace Piece

/-- Pieces stand between the line on which a text starts and the one on which it ends. -/
theorem line_of_place {ps : List Piece} : ∀ {line : Int}, ∀ x ∈ place line ps,
    line ≤ x.1 ∧ x.1 ≤ lineAfter line ps := by
  induction ps with
  | nil => exact nofun
  | cons p ps ih =>
    intro line x hx
    have hlast := le_lineAfter (line + p.newlines) ps
    rw [lineAfter_cons]
    rcases List.mem_cons.1 hx with rfl | hx
    · show line ≤ line ∧ line ≤ lineAfter (line + p.newlines) ps
      omega
    · obtain ⟨hle, hge⟩ := ih x hx
      omega

end Piece

/-- A line of the source, whose first line is number `line`. -/
def IsLineOf (source : String) (line n : Int) : Prop :=
  line ≤ n ∧ n ≤ line + source.toList.count '\n'

/-- What names lines of the source alone. -/
def Confines.ofSource (source : String) (line : Int) : Confines := ⟨IsLineOf source line, True⟩

variable {source : String} {line : Int} {input : Token.Stream}

/-- A piece is placed on a line of the source. -/
theorem isLineOf_of_place {x : Int × Piece}
    (hx : x ∈ Piece.place line (Piece.cut source.toList)) : IsLineOf source line x.1 := by
  obtain ⟨hle, hge⟩ := Piece.line_of_place x hx
  rw [Piece.lineAfter_eq (Piece.flatMap_chars_cut source.toList)] at hge
  exact ⟨hle, hge⟩

/-- Lexical faults stand on lines of the source. -/
theorem isLineOf_of_scan_error {faults : List LexicalFault} (h : scan source line = .error faults) :
    ∀ f ∈ faults, IsLineOf source line f.line := by
  intro f hf
  unfold scan at h
  dsimp only at h
  split at h
  · cases h
  · cases h
    obtain ⟨x, hx, hfault⟩ := List.mem_filterMap.1 hf
    obtain ⟨cause, -, rfl⟩ := Option.map_eq_some_iff.1 hfault
    exact isLineOf_of_place hx

/-- Tokens stand on lines of the source, and so does its end. -/
theorem isLineOf_of_scan_ok (h : scan source line = .ok input) :
    (∀ t ∈ input.tokens, IsLineOf source line t.line) ∧ IsLineOf source line input.endLine := by
  unfold scan at h
  dsimp only at h
  split at h
  · cases h
    refine ⟨?_, ?_⟩
    · intro t ht
      obtain ⟨x, hx, htoken⟩ := List.mem_filterMap.1 ht
      rw [Piece.line_of_token? htoken]
      exact isLineOf_of_place hx
    · show line ≤ line + source.toList.count '\n' ∧ line + source.toList.count '\n' ≤ _
      omega
  · cases h

/-- Syntax faults blame lines of the source. -/
theorem isLineOf_of_parse_error (h : scan source line = .ok input) {faults : List SyntaxFault}
    (hparse : parse input = .error faults) : ∀ f ∈ faults, IsLineOf source line f.line := by
  obtain ⟨htokens, hend⟩ := isLineOf_of_scan_ok h
  obtain ⟨-, rest, htrail⟩ := trail_of_parse hparse
  intro f hf
  rw [(htrail.blames f hf).line_eq]
  unfold Token.Stream.lineAt
  cases htoken : input.tokens[f.position input]? with
  | none => exact hend
  | some t => exact htokens t (List.mem_of_getElem? htoken)

/-- A tree that is read names lines of the source. -/
theorem within_of_parse_ok (h : scan source line = .ok input) {body : List Stmt}
    (hparse : parse input = .ok body) : ∀ s ∈ body, s.Within (.ofSource source line) :=
  ((parse_eq_ok_iff input body).1 hparse).within trivial (isLineOf_of_scan_ok h).1

/-! ## §4. Diagnostics. -/

/-- A source that runs to an error fails with it. -/
theorem Passage.failure?_of_run {limits : Limits} {body program : List Stmt} {e : RuntimeError}
    {m : Machine} (hscan : scan source line = .ok input) (hparse : parse input = .ok body)
    (hresolve : (Resolver.initial.resolve body).1 = .ok program)
    (hrun : Machine.initial.run limits program = (.error (.error e), m)) :
    (Passage.of limits source line).failure? = some (.diagnosed (.ofRuntime e)) := by
  simp only [Passage.of, hscan, ofInput, hparse, ofBody, hresolve, hrun]
  rfl

/-- The diagnostic is about a line of the source, and does not blame the interpreter. -/
def Diagnostic.Places (source : String) (line : Int) (d : Diagnostic) : Prop :=
  d.internal = false ∧ ∃ n, d.line = some n ∧ IsLineOf source line n

/-- **Whatever stage a source fails in, it is diagnosed on one of its lines.** -/
theorem Passage.places_of_failure? {limits : Limits} {d : Diagnostic}
    (h : (Passage.of limits source line).failure? = some (.diagnosed d)) :
    d.Places source line := by
  cases conducted [] limits source line with
  | @unscanned faults scanned =>
    simp only [Passage.of, scanned] at h
    cases h
    have hlines := isLineOf_of_scan_error scanned
    cases faults with
    | nil => exact absurd rfl (ne_nil_of_scan scanned)
    | cons f faults => exact ⟨rfl, f.line, rfl, hlines f List.mem_cons_self⟩
  | @unparsed input faults scanned parsed =>
    simp only [Passage.of, scanned, ofInput, parsed] at h
    cases h
    have hlines := isLineOf_of_parse_error scanned parsed
    cases faults with
    | nil => exact absurd rfl (trail_of_parse parsed).1
    | cons f faults => exact ⟨rfl, f.line, rfl, hlines f List.mem_cons_self⟩
  | @unresolved input body e scanned parsed _ resolved =>
    simp only [Passage.of, scanned, ofInput, parsed, ofBody, resolved] at h
    cases h
    have hanswer := Resolver.answers_resolve (within_of_parse_ok scanned parsed) .initial
    rw [resolved] at hanswer
    exact ⟨rfl, e.line, rfl, hanswer⟩
  | @stopped input body program e m scanned parsed _ resolved run =>
    have hrun : Machine.initial.run limits program = (.error (.error e), m) := run
    rw [failure?_of_run scanned parsed (congrArg Prod.fst resolved) hrun] at h
    cases h
    have hanswer := Resolver.answers_resolve (within_of_parse_ok scanned parsed) .initial
    rw [resolved] at hanswer
    -- the run is filmed, and its error names a line of the program
    obtain ⟨-, hline⟩ := (Film.proper_initial _).run limits hanswer
    have hfilm : Machine.initial.run limits program = _ := Film.initial.run_machine limits program
    rw [hrun] at hfilm
    exact ⟨rfl, e.line, rfl, hline e (congrArg Prod.fst hfilm).symm⟩
  | @exhausted input body program m scanned parsed _ resolved run =>
    have hrun : Machine.initial.run limits program = (.error .exhausted, m) := run
    simp only [Passage.of, scanned, ofInput, parsed, ofBody, resolved, hrun] at h
    cases h
  | @completed input body program v m scanned parsed _ resolved run =>
    have hrun : Machine.initial.run limits program = (.ok v, m) := run
    simp only [Passage.of, scanned, ofInput, parsed, ofBody, resolved, hrun] at h
    cases h

end LoxLang
