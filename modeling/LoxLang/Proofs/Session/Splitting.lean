/-
  LoxLang.Proofs.Session.Splitting
  ────────────────────────────────
  **An input may be split at any line between two programs.**  Two inputs with a newline
  between them are an input again, and to run it is to run the one and then, if that did
  not stop half-way, the other.

  Each stage contributes one law: tokens are cut on either side of the newline
  (`scan_append_newline`), programs behind each other are derived row by row
  (`Program.append`), the resolver is as fresh for the second as for the first
  (`resolve_append`), and top-level code never returns (`program_append`).
-/
import LoxLang.Proofs.Scope.Alignment
import LoxLang.Proofs.Scope.TopLevel
import LoxLang.Proofs.Token.Seam

namespace LoxLang

/-! ## §1. Reading. -/

/-- **Sources with a newline between them are read one by one.** -/
theorem readProgram_append_newline {first second : String} {line : Int} {body more : List Stmt}
    (h : readProgram first line = .ok body)
    (h' : readProgram second (line + 1 + first.toList.count '\n') = .ok more) :
    readProgram (first ++ "\n" ++ second) line = .ok (body ++ more) := by
  obtain ⟨input, hscan, hparse⟩ := readProgram_eq_ok_iff.1 h
  obtain ⟨input', hscan', hparse'⟩ := readProgram_eq_ok_iff.1 h'
  refine readProgram_eq_ok_iff.2 ⟨_, scan_append_newline hscan hscan', ?_⟩
  rw [parse_eq_ok_iff] at hparse hparse' ⊢
  exact hparse.append hparse'

/-! ## §2. Values. -/

theorem isExpr_of_resolve {s s' : Stmt} {r r' : Resolver} (hs : s.resolve r = (.ok s', r')) :
    s'.isExpr = s.isExpr := by
  by_cases hexpr : ∃ e, s = .expr e
  · obtain ⟨e, rfl⟩ := hexpr
    cases hs
    rfl
  · have hne : ∀ e, s ≠ .expr e := fun e he => hexpr ⟨e, he⟩
    rw [isExpr_eq_false_iff.2 hne, isExpr_eq_false_iff.2 (resolve_ne_expr hs hne)]

/-- Resolving turns nothing into an expression statement, and no expression statement
into anything else. -/
theorem any_isExpr_of_resolveAll : ∀ {body body' : List Stmt} {r r' : Resolver},
    Stmt.resolveAll body r = (.ok body', r') →
      body'.any Stmt.isExpr = body.any Stmt.isExpr := by
  intro body
  induction body with
  | nil =>
    intro body' r r' h
    obtain ⟨rfl, -⟩ := resolveAll_nil_ok h
    rfl
  | cons s body ih =>
    intro body' r r' h
    obtain ⟨s', rest, r₁, hs, hrest, rfl⟩ := resolveAll_cons_ok h
    rw [List.any_cons, List.any_cons, isExpr_of_resolve hs, ih hrest]

/-! ## §3. Running. -/

/-- **Inputs with a newline between them run in turn.**  If `second` starts on the line
behind `first`, the two are an input together.  On any machine and under any limits,
running it ends as running the first ends, if that stops half-way; otherwise as running
the second on the machine that the first left: with the same globals, the same output,
the same reason to stop.  Its value is that of the second, unless that has no expression
statement. -/
theorem joined_inputs_run_in_turn (first second : AcceptedInput)
    (hline : second.line = first.line + 1 + first.source.toList.count '\n') :
    ∃ joined : AcceptedInput,
      joined.source = first.source ++ "\n" ++ second.source ∧ joined.line = first.line
        ∧ ∀ (limits : Limits) (m : Machine), m.run limits joined.program
            = match m.run limits first.program with
              | (.error halt, m₁) => (.error halt, m₁)
              | (.ok v, m₁) =>
                  match m₁.run limits second.program with
                  | (.error halt, m₂) => (.error halt, m₂)
                  | (.ok w, m₂) => (.ok (if second.body.any Stmt.isExpr then w else v), m₂) := by
  have hread : readProgram (first.source ++ "\n" ++ second.source) first.line
      = .ok (first.body ++ second.body) := by
    refine readProgram_append_newline first.read ?_
    rw [← hline]
    exact second.read
  refine ⟨⟨_, first.line, first.limits, _, _, hread, resolve_append first.resolved second.resolved⟩,
    rfl, rfl, ?_⟩
  intro limits m
  obtain ⟨r', hsecond⟩ := Attempt.exists_eq_ok (x := Stmt.resolveAll second.body) second.resolved
  show Exec.program limits .nil (first.program ++ second.program) m = _
  rw [program_append (proceeds_program first.resolved _ _)]
  unfold Machine.run
  rcases hfirst : Exec.program limits .nil first.program m with ⟨halt | v, m₁⟩
  · rw [Attempt.bind_error hfirst]
  · -- the second input starts with a value from the first instead of nil
    rw [Attempt.bind_ok hfirst, program_eq_of_last (proceeds_program second.resolved _ _) v .nil,
      any_isExpr_of_resolveAll hsecond]
    dsimp only
    rcases Exec.program limits .nil second.program m₁ with ⟨halt | w, m₂⟩
    · rfl
    · rfl

/-- A comment at the end of the first input, and a call from the second into the first. -/
theorem joined_inputs_run_in_turn_comment :
    ∃ first second joined : AcceptedInput,
      first.source = "fun f() \x7b\x7d // f" ∧ second.source = "\x7b print f(); \x7d"
        ∧ joined.source = "fun f() \x7b\x7d // f\n\x7b print f(); \x7d"
        ∧ (Machine.run .initial ⟨9, 1⟩ joined.program).2.output = "nil \n" := by
  have hfirst : readProgram "fun f() \x7b\x7d // f" 1 = .ok [.funDecl "f" 1 [] []] := by
    with_unfolding_all rfl
  have hsecond : readProgram "\x7b print f(); \x7d" 2
      = .ok [.block [.print [.call 2 (.var ⟨"f", 2, none⟩) []]]] := by
    with_unfolding_all rfl
  let first : AcceptedInput := ⟨_, 1, ⟨9, 1⟩, _, _, hfirst, rfl⟩
  let second : AcceptedInput := ⟨_, 2, ⟨9, 1⟩, _, _, hsecond, rfl⟩
  have hline : (2 : Int) = 1 + 1 + "fun f() \x7b\x7d // f".toList.count '\n' := by
    decide
  obtain ⟨joined, hsource, -, hrun⟩ := joined_inputs_run_in_turn first second hline
  refine ⟨first, second, joined, rfl, rfl, hsource, ?_⟩
  rw [hrun ⟨9, 1⟩ .initial]
  rfl

end LoxLang
