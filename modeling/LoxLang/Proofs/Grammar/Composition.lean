/-
  LoxLang.Proofs.Grammar.Composition
  ──────────────────────────────────
  **Programs are read one behind the other.**  Behind a program without faults, reading
  goes on as if the rest stood alone:

    • no statement looks past its own end, but for the else that an open if may take,
    • a turn of reading depends on the tokens at hand only, and neither on the turns before
      it nor on their number.

  So the statements of the rest are added to those of the program in front, and its faults
  are the faults of the whole.
-/
import LoxLang.Proofs.Grammar.Parse
import LoxLang.Proofs.Grammar.Progress

namespace LoxLang

namespace Reader

/-! ## §1. Behind rows of declarations. -/

/-- A turn reads a declaration, in front of whatever is no else. -/
theorem reads_programTurn {ts rest : List Token} {s : Stmt}
    (h : Sentence .nearest .declaration ts s) (hrest : NoElse rest) :
    Reads programTurn (ts ++ rest) (some (some s)) rest := by
  have hread : Reads Reader.declaration (ts ++ rest) (some s) rest := by
    unfold Reader.declaration
    refine (reads_rest _).bind (reads_recover ?_)
    exact reads_statementWithin h _ true rest (by simp) (fun _ => rfl) (fun _ => hrest)
  obtain ⟨t, us, hts, -⟩ := h.startedBy
  rw [hts] at hread ⊢
  refine (reads_peek _).bind ?_
  exact hread.bind (.pure _ _)

/-- No row begins with an else, and so neither do rows in front of something else. -/
theorem noElse_rows {rows : List (List Token × Stmt)} {rest : List Token}
    (hrows : ∀ x ∈ rows, Sentence .nearest .declaration x.1 x.2) (hrest : NoElse rest) :
    NoElse (rows.flatMap Prod.fst ++ rest) := by
  cases rows with
  | nil => exact hrest
  | cons x rows =>
    obtain ⟨t, us, hx, helse, -⟩ := (hrows x List.mem_cons_self).startedBy
    rw [List.flatMap_cons, hx]
    exact noElse_cons _ helse

/-- Rows of declarations are read one by one, and then the turns go on with the rest. -/
theorem many_programTurn_rows {rest : List Token} {endLine : Int} {faults : List SyntaxFault}
    {more : List (Option Stmt)} {s : Reading} (hrest : NoElse rest)
    (hmore : many programTurn ⟨⟨rest, endLine⟩, faults⟩ = (.ok more, s)) :
    ∀ rows : List (List Token × Stmt), (∀ x ∈ rows, Sentence .nearest .declaration x.1 x.2) →
      many programTurn ⟨⟨rows.flatMap Prod.fst ++ rest, endLine⟩, faults⟩
        = (.ok (rows.map (some ∘ Prod.snd) ++ more), s) := by
  intro rows
  induction rows with
  | nil =>
    intro _
    exact hmore
  | cons x rows ih =>
    intro hrows
    have hrows' : ∀ y ∈ rows, Sentence .nearest .declaration y.1 y.2 :=
      fun y hy => hrows y (List.mem_cons_of_mem x hy)
    have hturn := reads_programTurn (hrows x List.mem_cons_self) (noElse_rows hrows' hrest)
    rw [turning_programTurn.many_unroll, List.flatMap_cons, List.append_assoc,
      Attempt.bind_ok (hturn endLine faults)]
    exact Attempt.bind_ok (ih hrows') _

/-- **What follows a program is read as if it stood alone.** -/
theorem program_append {ts rest : List Token} {endLine : Int} {body more : List Stmt}
    {s : Reading} (h : Program .nearest ts body) (hrest : NoElse rest)
    (hmore : program ⟨⟨rest, endLine⟩, []⟩ = (.ok more, s)) :
    program ⟨⟨ts ++ rest, endLine⟩, []⟩ = (.ok (body ++ more), s) := by
  obtain ⟨rows, hrows, rfl, rfl⟩ := h
  rw [program_eq] at hmore ⊢
  obtain ⟨turns, left, hturns, hpure⟩ := Attempt.bind_eq_ok_iff.1 hmore
  cases hpure
  rw [Attempt.bind_ok (many_programTurn_rows hrest hturns rows hrows), ← filterMap_rows rows]
  simp only [List.filterMap_append]
  rfl

end Reader

/-! ## §2. Parsing. -/

theorem parse_append {ts rest : List Token} {endLine : Int} {body : List Stmt}
    (h : Program .nearest ts body) (hrest : Reader.NoElse rest) :
    parse ⟨ts ++ rest, endLine⟩ = (parse ⟨rest, endLine⟩).map (body ++ ·) := by
  obtain ⟨more, faults, hrun⟩ := Reader.program_reaches_end ⟨rest, endLine⟩ []
  rw [parse_of_program hrun, parse_of_program (Reader.program_append h hrest hrun)]
  split
  · rfl
  · rfl

/-- **Parsing goes on behind a program as if it stood at the start.**  Behind tokens that
parse, and unless an else comes first, what parses alone gives its statements behind those
of the program; and what is refused alone is refused for the same faults, in the same order
and at the same places, so that messages and line are the same. -/
theorem parse_behind_program {ts rest : List Token} {endLine endLine' : Int} {body : List Stmt}
    (h : parse ⟨ts, endLine'⟩ = .ok body) (hrest : Reader.NoElse rest) :
    (∀ more, parse ⟨rest, endLine⟩ = .ok more → parse ⟨ts ++ rest, endLine⟩ = .ok (body ++ more))
      ∧ ∀ faults, parse ⟨rest, endLine⟩ = .error faults →
        parse ⟨ts ++ rest, endLine⟩ = .error faults := by
  have happend : parse ⟨ts ++ rest, endLine⟩ = (parse ⟨rest, endLine⟩).map (body ++ ·) :=
    parse_append ((parse_eq_ok_iff _ _).1 h) hrest
  refine ⟨?_, ?_⟩
  · intro more hmore
    rw [happend, hmore]
    rfl
  · intro faults hfaults
    rw [happend, hfaults]
    rfl

/-- Behind an if that is still open, a statement is added to it, and two faults are found
as they are found alone. -/
theorem parse_behind_program_open_if :
    let word (k : Keyword) : Token := ⟨.keyword k, k.lexeme, 1⟩
    let sign (s : Symbol) : Token := ⟨.symbol s, s.lexeme, 1⟩
    let x : Token := ⟨.identifier, "x", 1⟩
    let front := [word .ifKw, sign .leftParen, x, sign .rightParen, x, sign .semicolon]
    let faulty := [sign .rightParen, sign .semicolon, word .printKw, sign .semicolon]
    parse ⟨front, 1⟩ = .ok [.ifThen (.var ⟨"x", 1, none⟩) (.expr (.var ⟨"x", 1, none⟩))]
      ∧ parse ⟨front ++ [x, sign .semicolon], 1⟩ = .ok
        [.ifThen (.var ⟨"x", 1, none⟩) (.expr (.var ⟨"x", 1, none⟩)),
          .expr (.var ⟨"x", 1, none⟩)]
      ∧ parse ⟨front ++ faulty, 1⟩ = .error
        [⟨⟨faulty, 1⟩, .expression⟩, ⟨⟨[sign .semicolon], 1⟩, .expression⟩] := by
  intro word sign x front faulty
  have hfront : parse ⟨front, 1⟩
      = .ok [.ifThen (.var ⟨"x", 1, none⟩) (.expr (.var ⟨"x", 1, none⟩))] := rfl
  refine ⟨hfront, ?_, ?_⟩
  · exact (parse_behind_program hfront (Reader.noElse_cons _ (by decide))).1 _ rfl
  · exact (parse_behind_program hfront (Reader.noElse_cons _ (by decide))).2 _ rfl

end LoxLang
