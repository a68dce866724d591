/-
  LoxLang.Proofs.Grammar.Progress
  ───────────────────────────────
  **Reading makes progress.**  A declaration that is started with tokens at hand ends with
  fewer of them, whether it is read or recovered from:

    • a statement is given only behind a token that it consumed,
    • recovery discards the next token, unless reading has reached the end.

  A repetition whose every turn consumes a token therefore goes on until a turn declines
  (`many_unroll`): the bound on the number of turns never ends it.  So a program is read to
  its end, whatever it holds.
-/
import LoxLang.Proofs.Grammar.Position
import LoxLang.Proofs.Grammar.Reading

namespace LoxLang

namespace Reader

variable {α : Type} {s s' : Reading}

/-! ## §1. Declarations. -/

/-- What is left is a suffix of what there was, with the same end. -/
theorem InOrder.forward {r : Reader α} (h : InOrder false r) (s : Reading) :
    (r s).2.input.tokens <:+ s.input.tokens ∧ (r s).2.input.endLine = s.input.endLine := by
  obtain ⟨⟨ts, endLine⟩, faults⟩ := s
  have hends := h ts endLine faults
  generalize r ⟨⟨ts, endLine⟩, faults⟩ = outcome at hends ⊢
  cases hends with
  | ok trail => exact ⟨trail.suffix, rfl⟩
  | error trail _ forward => exact ⟨forward.trans trail.suffix, rfl⟩

/-- Reading does not add tokens. -/
theorem InOrder.length_le {r : Reader α} (h : InOrder false r) {outcome : Except SyntaxFault α}
    (hr : r s = (outcome, s')) : s'.input.tokens.length ≤ s.input.tokens.length := by
  have hforward := (h.forward s).1.length_le
  rwa [hr] at hforward

/-- Whatever is read behind a discarded token leaves fewer tokens. -/
theorem InOrder.length_lt_of_skip {r : Reader α} (h : InOrder false r)
    {outcome : Except SyntaxFault α} (hne : s.input.tokens ≠ [])
    (hrun : (skip >>= fun _ => r) s = (outcome, s')) :
    s'.input.tokens.length < s.input.tokens.length := by
  obtain ⟨⟨ts, endLine⟩, faults⟩ := s
  cases ts with
  | nil => exact absurd rfl hne
  | cons t ts =>
    rw [Attempt.bind_ok (reads_skip t ts endLine faults)] at hrun
    exact Nat.lt_succ_of_le (h.length_le hrun)

/-- What is required was there, and is gone. -/
theorem length_lt_of_require {kind : Token.Kind} {cause : SyntaxCause} {t : Token}
    (hrun : require kind cause s = (.ok t, s')) :
    s'.input.tokens.length < s.input.tokens.length := by
  obtain ⟨⟨ts, endLine⟩, faults⟩ := s
  cases ts with
  | nil => cases hrun
  | cons t' ts =>
    by_cases hkind : t'.kind = kind
    · rw [reads_require hkind] at hrun
      cases hrun
      exact Nat.lt_succ_self _
    · have hdeclines : ∀ t ∈ (t' :: ts).head?, (if t.kind = kind then some t else none) = none := by
        intro t ht
        cases ht
        rw [if_neg hkind]
      rw [require, Attempt.bind_ok (reads_take?_none hdeclines endLine faults)] at hrun
      cases hrun

/-- An expression statement that was read had a semicolon at least. -/
theorem length_lt_of_exprStmt {a : Stmt} (hrun : exprStmt s = (.ok a, s')) :
    s'.input.tokens.length < s.input.tokens.length := by
  obtain ⟨e, mid, he, hrest⟩ := Attempt.bind_eq_ok_iff.1 hrun
  obtain ⟨t, mid', hend, hpure⟩ := Attempt.bind_eq_ok_iff.1 hrest
  cases hpure
  exact Nat.lt_of_lt_of_le (length_lt_of_require hend) (inOrder_expression.length_le he)

/-- A statement is given only behind a token that it consumed: the word that it starts
with, or else the semicolon at its end. -/
theorem length_lt_of_statementForm {declares : Bool} {statement : Reader Stmt}
    {declaration : Reader (Option Stmt)} (hs : InOrder false statement)
    (hd : InOrder false declaration) {a : Stmt} (hne : s.input.tokens ≠ [])
    (hrun : statementForm declares statement declaration s = (.ok a, s')) :
    s'.input.tokens.length < s.input.tokens.length := by
  obtain ⟨s₁, s₂, hget, hrun⟩ := Attempt.bind_eq_ok_iff.1 hrun
  cases hget
  obtain ⟨kind, s₃, hpeek, hrun⟩ := Attempt.bind_eq_ok_iff.1 hrun
  have hs₃ : s₃ = s := by
    cases hpeek
    rfl
  subst hs₃
  split at hrun
  · split at hrun
    · exact (inOrder_funStmt hd).length_lt_of_skip hne hrun
    · cases hrun
  · split at hrun
    · exact inOrder_varStmt.length_lt_of_skip hne hrun
    · cases hrun
  · exact inOrder_printStmt.length_lt_of_skip hne hrun
  · exact (inOrder_ifStmt hs).length_lt_of_skip hne hrun
  · exact (inOrder_whileStmt hs).length_lt_of_skip hne hrun
  · exact (inOrder_forStmt hs).length_lt_of_skip hne hrun
  · exact (inOrder_returnStmt _).length_lt_of_skip hne hrun
  · exact ((inOrder_block hd).bind fun _ => .pure _).length_lt_of_skip hne hrun
  · exact length_lt_of_exprStmt hrun

/-- A statement that was read, had a token at least, if there was one to read. -/
theorem length_lt_of_statementWithin {budget : List Token} {declares : Bool} {a : Stmt}
    (hne : s.input.tokens ≠ []) (hrun : statementWithin budget declares s = (.ok a, s')) :
    s'.input.tokens.length < s.input.tokens.length := by
  cases budget with
  | nil => cases hrun
  | cons b budget =>
    exact length_lt_of_statementForm (inOrder_statementWithin budget false)
      (inOrder_recover (inOrder_statementWithin budget true)) hne hrun

/-- A proper suffix is a suffix of the tail. -/
theorem suffix_tail_of_length_lt {ts us : List Token} (h : ts <:+ us)
    (hlt : ts.length < us.length) : ts <:+ us.tail := by
  cases us with
  | nil => exact absurd hlt (Nat.not_lt_zero _)
  | cons u us =>
    rcases List.suffix_cons_iff.1 h with rfl | htail
    · exact absurd hlt (Nat.lt_irrefl _)
    · exact htail

/-- Started with tokens at hand, the reader gives a result, at least one token further on. -/
def MovesOn (r : Reader α) : Prop :=
  ∀ s, s.input.tokens ≠ [] → ∃ a s', r s = (.ok a, s')
    ∧ s'.input.tokens <:+ s.input.tokens.tail ∧ s'.input.endLine = s.input.endLine

/-- **A declaration moves on**, whether it is read or recovered from. -/
theorem movesOn_recover (budget : List Token) :
    MovesOn (recover (statementWithin budget true)) := by
  intro s hne
  obtain ⟨hsuffix, hend⟩ := (inOrder_statementWithin budget true).forward s
  unfold recover
  rcases hrun : statementWithin budget true s with ⟨fault | a, s'⟩
  · rw [hrun] at hsuffix hend
    exact ⟨none, _, rfl, resume_suffix hsuffix, hend⟩
  · rw [hrun] at hsuffix hend
    have hlt := length_lt_of_statementWithin hne hrun
    exact ⟨some a, s', rfl, suffix_tail_of_length_lt hsuffix hlt, hend⟩

/-- A declaration moves on, whether it is read or recovered from. -/
theorem movesOn_declaration : MovesOn declaration :=
  fun s => movesOn_recover s.input.tokens s

/-! ## §2. Repetition. -/

/-- Every turn consumes a token, and there is no turn without tokens. -/
structure Turning (step : Reader (Option α)) : Prop where
  shorter : ∀ {s a s'}, step s = (.ok (some a), s') →
    s'.input.tokens.length < s.input.tokens.length
  done : ∀ {s}, s.input.tokens = [] → step s = (.ok none, s)

/-- At the end of input a repetition is over, with whatever budget. -/
theorem Turning.manyWithin_done {step : Reader (Option α)} (h : Turning step)
    (hs : s.input.tokens = []) (budget : List Token) :
    manyWithin step budget s = (.ok [], s) := by
  cases budget with
  | nil => rfl
  | cons b budget =>
    unfold manyWithin
    rw [Attempt.bind_ok (h.done hs)]
    rfl

/-- Budgets that last as long as the tokens make no difference. -/
theorem Turning.manyWithin_eq {step : Reader (Option α)} (h : Turning step) :
    ∀ (budget budget' : List Token) (s : Reading), s.input.tokens.length ≤ budget.length →
      s.input.tokens.length ≤ budget'.length →
      manyWithin step budget s = manyWithin step budget' s := by
  intro budget
  induction budget with
  | nil =>
    intro budget' s hlen _
    have hs := List.length_eq_zero_iff.1 (Nat.le_zero.1 hlen)
    rw [h.manyWithin_done hs, h.manyWithin_done hs]
  | cons b budget ih =>
    intro budget' s hlen hlen'
    cases budget' with
    | nil =>
      have hs := List.length_eq_zero_iff.1 (Nat.le_zero.1 hlen')
      rw [h.manyWithin_done hs, h.manyWithin_done hs]
    | cons b' budget' =>
      unfold manyWithin
      rcases hstep : step s with ⟨e | _ | a, s'⟩
      · rw [Attempt.bind_error hstep, Attempt.bind_error hstep]
      · rw [Attempt.bind_ok hstep, Attempt.bind_ok hstep]
      · rw [Attempt.bind_ok hstep, Attempt.bind_ok hstep]
        have hlt := h.shorter hstep
        simp only [List.length_cons] at hlen hlen'
        have hsame := ih budget' s' (by omega) (by omega)
        show (manyWithin step budget >>= _) s' = (manyWithin step budget' >>= _) s'
        rw [Attempt.bind_apply, Attempt.bind_apply, hsame]

/-- **Repetition goes on until a turn declines.** -/
theorem Turning.many_unroll {step : Reader (Option α)} (h : Turning step) :
    many step = do
      match ← step with
      | none => return []
      | some a => return a :: (← many step) := by
  funext s
  show manyWithin step s.input.tokens s = _
  cases hts : s.input.tokens with
  | nil =>
    rw [h.manyWithin_done hts, Attempt.bind_ok (h.done hts)]
    rfl
  | cons t ts =>
    unfold manyWithin
    rcases hstep : step s with ⟨e | _ | a, s'⟩
    · rw [Attempt.bind_error hstep, Attempt.bind_error hstep]
    · rw [Attempt.bind_ok hstep, Attempt.bind_ok hstep]
    · rw [Attempt.bind_ok hstep, Attempt.bind_ok hstep]
      have hlt := h.shorter hstep
      rw [hts, List.length_cons] at hlt
      have hsame := h.manyWithin_eq ts s'.input.tokens s' (by omega) (Nat.le_refl _)
      show (manyWithin step ts >>= _) s' = (many step >>= _) s'
      rw [Attempt.bind_apply, Attempt.bind_apply, hsame]
      rfl

/-! ## §3. Programs. -/

/-- One turn of reading a program: a declaration, unless the input is at its end. -/
def programTurn : Reader (Option (Option Stmt)) := do
  match ← peek with
  | none => return none
  | some _ => return some (← declaration)

theorem program_eq : program = do return (← many programTurn).filterMap id :=
  rfl

/-- With tokens left, a turn reads a declaration and moves on. -/
theorem programTurn_of_ne_nil (hne : s.input.tokens ≠ []) :
    ∃ o s', programTurn s = (.ok (some o), s')
      ∧ s'.input.tokens <:+ s.input.tokens.tail ∧ s'.input.endLine = s.input.endLine := by
  obtain ⟨o, s', hrun, hforward⟩ := movesOn_declaration s hne
  refine ⟨o, s', ?_, hforward⟩
  obtain ⟨⟨ts, endLine⟩, faults⟩ := s
  cases ts with
  | nil => exact absurd rfl hne
  | cons t ts =>
    rw [programTurn, Attempt.bind_ok (reads_peek (t :: ts) endLine faults)]
    exact Attempt.bind_ok hrun _

/-- At the end of input a turn declines. -/
theorem programTurn_of_nil (hs : s.input.tokens = []) : programTurn s = (.ok none, s) := by
  obtain ⟨⟨ts, endLine⟩, faults⟩ := s
  cases hs
  rfl

theorem turning_programTurn : Turning programTurn where
  shorter := by
    intro s a s' hrun
    by_cases hs : s.input.tokens = []
    · rw [programTurn_of_nil hs] at hrun
      cases hrun
    · obtain ⟨o, t, hrun', hsuffix, -⟩ := programTurn_of_ne_nil hs
      rw [hrun'] at hrun
      cases hrun
      have hle := hsuffix.length_le
      have hpos := List.length_pos_iff.2 hs
      rw [List.length_tail] at hle
      omega
  done := programTurn_of_nil

/-- The turns end where the input ends. -/
theorem many_programTurn_reaches_end (s : Reading) :
    ∃ body faults, many programTurn s = (.ok body, ⟨⟨[], s.input.endLine⟩, faults⟩) := by
  -- every turn leaves fewer tokens
  induction hn : s.input.tokens.length using Nat.strongRecOn generalizing s with
  | _ n ih =>
    rw [turning_programTurn.many_unroll]
    by_cases hs : s.input.tokens = []
    · rw [Attempt.bind_ok (programTurn_of_nil hs)]
      obtain ⟨⟨ts, endLine⟩, faults⟩ := s
      cases hs
      exact ⟨[], faults, rfl⟩
    · obtain ⟨o, s', hturn, -, hend⟩ := programTurn_of_ne_nil hs
      obtain ⟨body, faults, hrest⟩ := ih _ (hn ▸ turning_programTurn.shorter hturn) s' rfl
      rw [Attempt.bind_ok hturn]
      refine ⟨o :: body, faults, ?_⟩
      rw [← hend]
      exact Attempt.bind_ok hrest _

/-- **A program is read to its end**, whatever it holds. -/
theorem program_reaches_end (input : Token.Stream) (noted : List SyntaxFault) :
    ∃ body faults, program ⟨input, noted⟩ = (.ok body, ⟨⟨[], input.endLine⟩, faults⟩) := by
  obtain ⟨body, faults, hmany⟩ := many_programTurn_reaches_end ⟨input, noted⟩
  exact ⟨body.filterMap id, faults, Attempt.bind_ok hmany _⟩

end Reader

/-- What reading a program notes is what it is refused for. -/
theorem parse_of_program {input : Token.Stream} {body : List Stmt} {left : Token.Stream}
    {faults : List SyntaxFault} (h : Reader.program ⟨input, []⟩ = (.ok body, ⟨left, faults⟩)) :
    parse input = if faults = [] then .ok body else .error faults := by
  unfold parse
  rw [h]
  cases faults with
  | nil => rfl
  | cons f faults => rfl

end LoxLang
