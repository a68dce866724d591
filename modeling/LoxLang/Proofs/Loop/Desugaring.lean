/-
  LoxLang.Proofs.Loop.Desugaring
  ──────────────────────────────
  **A for loop means what it abbreviates.**  The slots of a loop are the same, whether they
  are noted in the loop as it is written or in what stands for it (`resolve_toStmt`): the
  step is resolved behind the body, but the body declares nothing, and an empty scope has no
  slots.  Together with the way it runs, this makes the direct account hold of every for
  loop in a program.
-/
import LoxLang.Proofs.Loop.Running
import LoxLang.Proofs.Scope.Unwinding

namespace LoxLang

/-! ## §1. Slots in an opened scope. -/

mutual

/-- The slots of an expression depend on the slots of names alone. -/
theorem Expr.resolve_congr {r r' : Resolver} (h : ∀ name, r.slot? name = r'.slot? name) :
    ∀ e : Expr, e.resolve r = e.resolve r'
  | .literal value => rfl
  | .binary op line left right => by
    unfold Expr.resolve
    rw [resolve_congr h left, resolve_congr h right]
  | .group inner => by
    unfold Expr.resolve
    rw [resolve_congr h inner]
  | .unary op line operand => by
    unfold Expr.resolve
    rw [resolve_congr h operand]
  | .var ref => by
    unfold Expr.resolve Resolver.bind
    rw [h ref.name]
  | .assign target value => by
    unfold Expr.resolve Resolver.bind
    rw [h target.name, resolve_congr h value]
  | .call line callee arguments => by
    unfold Expr.resolve
    rw [resolve_congr h callee, resolveAll_congr h arguments]

theorem Expr.resolveAll_congr {r r' : Resolver} (h : ∀ name, r.slot? name = r'.slot? name) :
    ∀ es : List Expr, Expr.resolveAll r es = Expr.resolveAll r' es
  | [] => rfl
  | e :: es => by
    unfold Expr.resolveAll
    rw [resolve_congr h e, resolveAll_congr h es]

end

/-- Inside of a block or a function, an empty scope changes no slot. -/
theorem Resolver.slot?_enterBlock {r : Resolver} (hne : r.templates ≠ []) (name : String) :
    r.enterBlock.slot? name = r.slot? name := by
  obtain ⟨templates, depth⟩ := r
  cases templates with
  | nil => exact absurd rfl hne
  | cons t ts => rfl

theorem Expr.resolve_enterBlock {r : Resolver} (hne : r.templates ≠ []) (e : Expr) :
    e.resolve r.enterBlock = e.resolve r :=
  e.resolve_congr (Resolver.slot?_enterBlock hne)

/-! ## §2. Resolving. -/

namespace ForLoop

variable {l : ForLoop} {r : Resolver}

/-- The loop with its clauses resolved as they stand, and another body. -/
def resolved (l : ForLoop) (initial : ForInitial) (r : Resolver) (body : Stmt) : ForLoop :=
  ⟨initial, l.condition.map (Expr.resolve r), l.step.map (Expr.resolve r), body⟩

/-- The step is resolved behind the body, in a scope in which nothing has been declared. -/
theorem resolveAll_turn (h : l.Plain) (hne : r.templates ≠ []) (initial : ForInitial) :
    (Stmt.resolveAll l.turn r.enterBlock).1
      = (l.body.resolve r.enterBlock).1.map fun body => (l.resolved initial r body).turn := by
  unfold turn Stmt.resolveAll
  rcases hbody : l.body.resolve r.enterBlock with ⟨err | body, r'⟩
  · rw [Attempt.bind_error hbody]
    rfl
  · cases resolve_state_of_plain h.tidy h.declares hbody
    rw [Attempt.bind_ok hbody]
    unfold resolved
    cases l.step with
    | none => rfl
    | some step =>
      show Except.ok [body, Stmt.expr (step.resolve r.enterBlock)] = _
      rw [Expr.resolve_enterBlock hne]
      rfl

theorem resolve_whileStmt (h : l.Plain) (hne : r.templates ≠ []) (initial : ForInitial) :
    l.whileStmt.resolve r
      = ((l.body.resolve r.enterBlock).1.map fun body => (l.resolved initial r body).whileStmt,
        r) := by
  have hturn : Resolve.inBlock (Stmt.resolveAll l.turn) r
      = ((l.body.resolve r.enterBlock).1.map fun body => (l.resolved initial r body).turn, r) := by
    rw [Resolve.inBlock_apply (unwinds_resolveAll l.turn), resolveAll_turn h hne]
  have hcondition : (l.condition.getD (.literal (.bool true))).resolve r
      = (l.condition.map (Expr.resolve r)).getD (.literal (.bool true)) := by
    cases l.condition with
    | none => rfl
    | some c => rfl
  generalize (l.body.resolve r.enterBlock).1 = result at hturn ⊢
  rcases result with err | body
  · have hblock : (Stmt.block l.turn).resolve r = (.error err, r) := by
      unfold Stmt.resolve
      exact Attempt.bind_error hturn _
    unfold whileStmt Stmt.resolve
    exact Attempt.bind_error hblock _
  · have hblock : (Stmt.block l.turn).resolve r
        = (.ok (.block (l.resolved initial r body).turn), r) := by
      unfold Stmt.resolve
      exact Attempt.bind_ok hturn _
    unfold whileStmt Stmt.resolve
    refine (Attempt.bind_ok hblock _).trans ?_
    rw [hcondition]
    rfl

/-- Behind the first clause. -/
theorem resolve_clauses (initial : ForInitial) (r : Resolver) :
    (do
      let condition ← Resolve.optional l.condition
      let step ← Resolve.optional l.step
      let body ← Resolve.inBlock l.body.resolve
      return (⟨initial, condition, step, body⟩ : ForLoop) : Resolve ForLoop) r
      = ((l.body.resolve r.enterBlock).1.map (l.resolved initial r), r) := by
  have hbody := Resolve.inBlock_apply (unwinds_resolve l.body) r
  rw [Attempt.bind_ok (show Resolve.optional l.condition r = (.ok _, r) from rfl),
    Attempt.bind_ok (show Resolve.optional l.step r = (.ok _, r) from rfl)]
  rcases hresult : (l.body.resolve r.enterBlock).1 with err | body
  · rw [hresult] at hbody
    rw [Attempt.bind_error hbody]
    rfl
  · rw [hresult] at hbody
    rw [Attempt.bind_ok hbody]
    rfl

end ForLoop

/-- A statement that is resolved without objection stands in front of the others. -/
theorem resolveAll_cons_of_ok {s s' : Stmt} {r r' : Resolver} (hs : s.resolve r = (.ok s', r'))
    (rest : List Stmt) : Stmt.resolveAll (s :: rest) r
      = (Stmt.resolveAll rest >>= fun rest' => pure ([s'] ++ rest')) r' := by
  rw [Stmt.resolveAll]
  exact Attempt.bind_ok hs _

/-- The first clause is resolved as the statement that stands for it. -/
theorem ForInitial.resolve_toStmt? (i : ForInitial) {r : Resolver} (hne : r.templates ≠ []) :
    ∃ i' r', i.resolve r = (.ok i', r') ∧ r'.templates ≠ [] ∧
      ∀ rest, Stmt.resolveAll (i.toStmt?.toList ++ rest) r
        = (Stmt.resolveAll rest >>= fun rest' => pure (i'.toStmt?.toList ++ rest')) r' := by
  cases i with
  | absent =>
    refine ⟨.absent, r, rfl, hne, ?_⟩
    intro rest
    exact congrFun (bind_pure _).symm r
  | expression e =>
    refine ⟨.expression (e.resolve r), r, rfl, hne, ?_⟩
    exact resolveAll_cons_of_ok (s := .expr e) (by rw [Stmt.resolve]; rfl)
  | declared name line value =>
    have hgrown := Resolve.unwinds_declare name r
    refine ⟨.declared name line (value.resolve r), _, rfl,
      Resolver.templates_ne_nil_of_grown hgrown hne, ?_⟩
    exact resolveAll_cons_of_ok (s := .varDecl name line value) (by rw [Stmt.resolve]; rfl)

theorem ForInitial.unwinds_resolve (i : ForInitial) : Resolve.Unwinds i.resolve := by
  cases i with
  | absent => exact .pure _
  | expression e => exact (Resolve.unwinds_expr e).bind fun _ => .pure _
  | declared name line value =>
    exact (Resolve.unwinds_expr value).bind fun _ =>
      (Resolve.unwinds_declare name).bind fun _ => .pure _

namespace ForLoop

variable {l : ForLoop} {r r' : Resolver} {initial : ForInitial}

theorem resolve_eq (h : l.initial.resolve r.enterBlock = (.ok initial, r')) :
    l.resolve r = ((l.body.resolve r'.enterBlock).1.map (l.resolved initial r'), r) := by
  have hoptional : ∀ e, Resolve.Unwinds (Resolve.optional e) := fun e => .get_bind fun _ => .pure _
  have hunwinds := l.initial.unwinds_resolve.bind fun initial =>
    (hoptional l.condition).bind fun condition => (hoptional l.step).bind fun step =>
      (Resolve.unwinds_inBlock (LoxLang.unwinds_resolve l.body)).bind fun body =>
        .pure (⟨initial, condition, step, body⟩ : ForLoop)
  unfold resolve
  rw [Resolve.inBlock_apply hunwinds, Attempt.bind_ok h, resolve_clauses]

/-- **A for loop is resolved as it is written.** -/
theorem resolve_toStmt (h : l.Plain) (r : Resolver) :
    l.toStmt.resolve r = (l.resolve >>= fun l' => pure l'.toStmt) r := by
  obtain ⟨initial, r', hinitial, hne, hrow⟩ :=
    l.initial.resolve_toStmt? r.templates_enterBlock_ne_nil
  have hwhile := resolve_whileStmt h hne initial
  have hwritten := resolve_eq hinitial
  have hstands : Resolve.inBlock (Stmt.resolveAll (l.initial.toStmt?.toList ++ [l.whileStmt])) r
      = ((l.body.resolve r'.enterBlock).1.map fun body =>
          initial.toStmt?.toList ++ [(l.resolved initial r' body).whileStmt], r) := by
    rw [Resolve.inBlock_apply (unwinds_resolveAll _), hrow]
    generalize (l.body.resolve r'.enterBlock).1 = result at hwhile
    rcases result with err | body
    · unfold Stmt.resolveAll
      rw [Attempt.bind_error (Attempt.bind_error hwhile _)]
      rfl
    · rw [Attempt.bind_ok (resolveAll_cons_of_ok hwhile [])]
      rfl
  rw [toStmt_eq, Stmt.resolve]
  generalize (l.body.resolve r'.enterBlock).1 = result at hwritten hstands
  rcases result with err | body
  · rw [Attempt.bind_error hstands, Attempt.bind_error hwritten]
  · rw [Attempt.bind_ok hstands, Attempt.bind_ok hwritten]
    rfl

/-- The body of a resolved loop declares what the body declares: nothing. -/
theorem Plain.resolve (h : l.Plain) {l' : ForLoop} (hl : (l.resolve r).1 = .ok l') : l'.Plain := by
  obtain ⟨initial, r', hinitial, -⟩ := l.initial.resolve_toStmt? r.templates_enterBlock_ne_nil
  rw [resolve_eq hinitial] at hl
  rcases hbody : l.body.resolve r'.enterBlock with ⟨err | body, r''⟩
  · rw [hbody] at hl
    cases hl
  · rw [hbody] at hl
    cases hl
    exact ⟨tidy_of_resolve h.tidy hbody, (declared?_of_resolve hbody).trans h.declares⟩

end ForLoop

/-! ## §3. For loops of a program. -/

theorem InitialPhrase.exists_forInitial {ts : List Token} {initial : Option Stmt}
    (h : InitialPhrase ts initial) : ∃ i : ForInitial, initial = i.toStmt? := by
  cases h with
  | absent => exact ⟨.absent, rfl⟩
  | declared hvar =>
    cases hvar with
    | bare => exact ⟨.declared _ _ _, rfl⟩
    | initialised => exact ⟨.declared _ _ _, rfl⟩
  | expression => exact ⟨.expression _, rfl⟩

/-- A sentence that begins with the word is a for loop. -/
theorem Sentence.exists_forPhrase {rule : ElseRule} {form : Form} {ts : List Token} {s : Stmt}
    (h : Sentence rule form ts s) (hfor : ∃ t ∈ ts.head?, t.kind = .keyword .forKw) :
    ∃ l, ForPhrase rule ts l ∧ s = l.toStmt := by
  obtain ⟨t, ht, hkind⟩ := hfor
  -- every other form begins with a token of another kind
  have hother : ∀ {start : Token} {us : List Token} {kind : Token.Kind}, start.kind = kind →
      kind ≠ .keyword .forKw → t ∉ (start :: us).head? := by
    rintro start us kind hstart hne ⟨⟩
    exact hne (hstart.symm.trans hkind)
  induction h with
  | expression he =>
    obtain ⟨start, us, rfl, hstarts⟩ := he.startedBy
    refine absurd ht (hother rfl ?_)
    rintro heq
    rw [heq] at hstarts
    cases hstarts
  | print hstart => exact absurd ht (hother hstart (by decide))
  | ifThen hstart => exact absurd ht (hother hstart (by decide))
  | ifElse hstart => exact absurd ht (hother hstart (by decide))
  | whileLoop hstart => exact absurd ht (hother hstart (by decide))
  | forLoop hstart hleft hinitial hcondition hsemicolon hstep hright hs =>
    obtain ⟨i, rfl⟩ := hinitial.exists_forInitial
    exact ⟨⟨i, _, _, _⟩, .mk hstart hleft hinitial hcondition hsemicolon hstep hright hs, rfl⟩
  | ret hstart => exact absurd ht (hother hstart (by decide))
  | block hstart => exact absurd ht (hother hstart (by decide))
  | statement _ ih => exact ih ht
  | varDecl hvar =>
    obtain ⟨start, us, rfl, hstart⟩ := hvar.startedBy
    exact absurd ht (hother hstart (by decide))
  | funDecl hstart => exact absurd ht (hother hstart (by decide))

theorem ForPhrase.plain {rule : ElseRule} {ts : List Token} {l : ForLoop}
    (h : ForPhrase rule ts l) : l.Plain := by
  cases h with
  | mk _ _ _ _ _ _ _ hbody => exact ⟨hbody.tidy.1, hbody.tidy.2 (by simp)⟩

/-- The variable of a loop has the cell that was made for it. -/
theorem ForInitial.find?_of_run {turns depth : Nat} {scope e : Env Addr} {name : String}
    {line : Int} {value : Expr} {m m' : Machine}
    (h : (ForInitial.declared name line value).run turns depth scope m = (.ok e, m')) :
    ∃ a, e.find? name = some a ∧ m'.heap.next = a + 1 := by
  obtain ⟨v, m₁, -, hcell⟩ := Attempt.bind_eq_ok_iff.1 h
  obtain ⟨a, m₂, hnew, hpure⟩ := Attempt.bind_eq_ok_iff.1 hcell
  cases hnew
  cases hpure
  refine ⟨m₁.heap.next, ?_, Heap.next_alloc _ v⟩
  rw [Env.find?_declare, if_pos rfl]

/-- **For loops mean what is written.**  A sentence that begins with the word spells a loop,
with or without each of its clauses, and the statement that is read stands for that loop:

    • wherever it stands, its slots are noted as they are in the clauses and the body on
      their own, where the step sees no name of the body; or it is refused as they are,
    • then, in every state of the machine and within any limits, it runs as the loop does
      directly, to the same end, the same output and the same cells, and the local variables
      are those there were,
    • and a variable that the first clause declares means, in all turns, the one cell that
      was made for it. -/
theorem for_loops_run_as_written {rule : ElseRule} {form : Form} {ts : List Token} {s : Stmt}
    (h : Sentence rule form ts s) (hfor : ∃ t ∈ ts.head?, t.kind = .keyword .forKw) :
    ∃ l, ForPhrase rule ts l ∧ s = l.toStmt
      ∧ (∀ r, s.resolve r = (l.resolve >>= fun l' => pure l'.toStmt) r)
      ∧ ∀ r l', (l.resolve r).1 = .ok l' → ∀ turns depth,
        (∀ m, Exec.exec turns depth l'.toStmt m = l'.run turns depth m
          ∧ (l'.run turns depth m).2.locals = m.locals)
        ∧ ∀ name line value, l'.initial = .declared name line value →
          ∀ scope m e m', l'.initial.run turns (depth - 2) scope m = (.ok e, m') →
            ∃ a, e.find? name = some a ∧ m'.heap.next = a + 1 := by
  obtain ⟨l, hphrase, rfl⟩ := h.exists_forPhrase hfor
  refine ⟨l, hphrase, rfl, ForLoop.resolve_toStmt hphrase.plain, ?_⟩
  intro r l' hl' turns depth
  have hplain := hphrase.plain.resolve hl'
  refine ⟨?_, ?_⟩
  · intro m
    exact ⟨congrFun (ForLoop.exec_toStmt turns depth hplain) m,
      ForLoop.still_run turns depth hplain m⟩
  · intro name line value hinitial scope m e m' hrun
    rw [hinitial] at hrun
    exact ForInitial.find?_of_run hrun

/-- A loop without condition and step, which returns from its first turn. -/
theorem for_loops_run_as_written_return :
    ∃ l : ForLoop, l.toStmt = .block [.varDecl "i" 1 (.literal .nil), .whileLoop
        (.literal (.bool true)) (.block [.ret 1 (.literal .nil)])]
      ∧ ∀ m, Exec.exec 1 9 l.toStmt m = l.run 1 9 m ∧ (l.run 1 9 m).2.locals = m.locals := by
  let word (k : Keyword) : Token := ⟨.keyword k, k.lexeme, 1⟩
  let sign (s : Symbol) : Token := ⟨.symbol s, s.lexeme, 1⟩
  let i : Token := ⟨.identifier, "i", 1⟩
  have hsentence : Sentence .any (.statement false)
      [word .forKw, sign .leftParen, word .varKw, i, sign .semicolon, sign .semicolon,
        sign .rightParen, word .returnKw, sign .semicolon] _ :=
    .forLoop rfl rfl (.declared (.bare rfl rfl rfl)) .absent rfl .absent rfl (.ret rfl .absent rfl)
  obtain ⟨l, -, -, hresolve, hrun⟩ := for_loops_run_as_written hsentence ⟨_, rfl, rfl⟩
  -- inside of a function, it is resolved
  obtain ⟨l', r', hl', hstmt⟩ := Attempt.bind_eq_ok_iff.1 (hresolve ⟨[.empty], 1⟩).symm
  refine ⟨l', (Except.ok.inj (congrArg Prod.fst hstmt)), fun m => ?_⟩
  exact (hrun _ l' (congrArg Prod.fst hl') 1 9).1 m

end LoxLang
