/-
  LoxLang.Proofs.Report.Recovery
  ──────────────────────────────
  **Faults are reported in order.**  A program is read to its end, and every fault on the
  way is noted with the place that it blames:

    • a declaration moves on, whether it is read or recovered from, so that no token is
      blamed twice; only the end of input may be,
    • the places follow each other, and in a scanned text the quoted lines do so too,
    • the program is refused if and only if a fault was noted, and the line of the refusal
      is the line of the first place.
-/
import LoxLang.Proofs.Grammar.Progress
import LoxLang.Proofs.Report.Discipline
import LoxLang.Proofs.Token.Seam

namespace LoxLang

/-! ## §1. Places. -/

/-- The line of the token at this position; behind the last token, the line on which the
text ends. -/
def Token.Stream.lineAt (input : Token.Stream) (position : Nat) : Int :=
  (input.tokens[position]?.map Token.line).getD input.endLine

/-- The line of what is left is that of its first token, or of the end of input. -/
theorem Token.Stream.line_drop (input : Token.Stream) (position : Nat) :
    Token.Stream.line ⟨input.tokens.drop position, input.endLine⟩ = input.lineAt position := by
  unfold Token.Stream.lineAt Token.Stream.line
  rw [← List.head?_drop]
  cases input.tokens.drop position with
  | nil => rfl
  | cons t ts => rfl

namespace SyntaxFault

/-- How many tokens of the input stand before the blamed one; all of them, if the end of
input is blamed. -/
def position (input : Token.Stream) (f : SyntaxFault) : Nat :=
  input.tokens.length - f.input.tokens.length

/-- The fault blames a place of the input: what it holds is the input from there on. -/
def Blames (input : Token.Stream) (f : SyntaxFault) : Prop :=
  f.input = ⟨input.tokens.drop (f.position input), input.endLine⟩

/-- The second fault blames a later place than the first, unless both blame the end of
input. -/
def Precedes (input : Token.Stream) (f g : SyntaxFault) : Prop :=
  f.position input < g.position input
    ∨ (f.position input = input.tokens.length ∧ g.position input = input.tokens.length)

variable {input : Token.Stream} {f : SyntaxFault}

/-- A fault whose input is a suffix blames the place where the suffix begins. -/
theorem blames_of_suffix (h : f.input.tokens <:+ input.tokens)
    (hend : f.input.endLine = input.endLine) : f.Blames input := by
  obtain ⟨⟨ts, endLine⟩, cause⟩ := f
  cases hend
  exact congrArg (Token.Stream.mk · _) (List.suffix_iff_eq_drop.1 h)

/-- The line of a fault is that of the place it blames. -/
theorem Blames.line_eq (h : f.Blames input) : f.line = input.lineAt (f.position input) :=
  (congrArg Token.Stream.line h).trans (input.line_drop _)

/-- The message quotes the line of the blamed place, and no other. -/
theorem Blames.quotes_iff (h : f.Blames input) (n : Int) :
    Stage.parse.Quotes n f.message ↔ n = input.lineAt (f.position input) := by
  have hquotes : Stage.parse.Quotes f.line f.message := by
    refine ⟨f.place ++ ": " ++ f.cause.message, ?_⟩
    simp only [SyntaxFault.message, String.append_assoc]
  rw [← h.line_eq]
  constructor
  · exact fun hn => hn.unique hquotes
  · rintro rfl
    exact hquotes

end SyntaxFault

/-! ## §2. The faults of a trail. -/

namespace Reader.Trail

variable {endLine : Int} {ts rest : List Token} {faults : List SyntaxFault}

/-- The faults of a trail blame places of the input that it started on. -/
theorem blames (h : Trail endLine ts faults rest) : ∀ f ∈ faults, f.Blames ⟨ts, endLine⟩ := by
  intro f hf
  obtain ⟨hsuffix, hend⟩ := h.suffix_of_mem f hf
  exact SyntaxFault.blames_of_suffix hsuffix hend

/-- The blamed places follow each other. -/
theorem pairwise_precedes (h : Trail endLine ts faults rest) {input : Token.Stream}
    (hts : ts <:+ input.tokens) : faults.Pairwise (SyntaxFault.Precedes input) := by
  induction h with
  | clean => exact .nil
  | @noted ts us rest cause faults forward behind ih =>
    refine .cons ?_ (ih ((List.tail_suffix us).trans (forward.trans hts)))
    intro g hg
    -- what comes later stands behind the token that is blamed first
    have hlater := (behind.suffix_of_mem g hg).1.length_le
    have hfirst := (forward.trans hts).length_le
    rw [List.length_tail] at hlater
    unfold SyntaxFault.Precedes SyntaxFault.position
    show input.tokens.length - us.length < _ ∨ (input.tokens.length - us.length = _ ∧ _)
    omega

end Reader.Trail

/-! ## §3. Lines of a scanned text. -/

/-- The lines of the tokens go up, as far as the line on which the text ends. -/
structure Token.Stream.Ascends (input : Token.Stream) : Prop where
  tokens : input.tokens.Pairwise fun t u => t.line ≤ u.line
  ends : ∀ t ∈ input.tokens, t.line ≤ input.endLine

/-- Places further on are on the same line or on later ones. -/
theorem Token.Stream.Ascends.lineAt_mono {input : Token.Stream} (h : input.Ascends) {p q : Nat}
    (hpq : p ≤ q) : input.lineAt p ≤ input.lineAt q := by
  unfold Token.Stream.lineAt
  by_cases hq : q < input.tokens.length
  · have hp : p < input.tokens.length := Nat.lt_of_le_of_lt hpq hq
    rw [List.getElem?_eq_getElem hp, List.getElem?_eq_getElem hq]
    rcases Nat.eq_or_lt_of_le hpq with rfl | hlt
    · exact Int.le_refl _
    · exact List.pairwise_iff_getElem.1 h.tokens p q hp hq hlt
  · -- behind the last token, the line is the last one
    rw [List.getElem?_eq_none (Nat.le_of_not_lt hq)]
    cases hp : input.tokens[p]? with
    | none => exact Int.le_refl _
    | some t => exact h.ends t (List.mem_of_getElem? hp)

namespace Piece

theorem line_of_token? {p : Piece} {line : Int} {t : Token} (h : p.token? line = some t) :
    t.line = line := by
  obtain ⟨kind, -, rfl⟩ := Option.map_eq_some_iff.1 h
  rfl

/-- Lines are only counted up. -/
theorem le_lineAfter (line : Int) (ps : List Piece) : line ≤ lineAfter line ps := by
  unfold lineAfter
  omega

/-- Tokens stand between the line on which a text starts and the one on which it ends. -/
theorem ascends_tokens (line : Int) (ps : List Piece) :
    Token.Stream.Ascends ⟨tokens line ps, lineAfter line ps⟩
      ∧ ∀ t ∈ tokens line ps, line ≤ t.line := by
  induction ps generalizing line with
  | nil => exact ⟨⟨.nil, nofun⟩, nofun⟩
  | cons p ps ih =>
    obtain ⟨⟨hsorted, hends⟩, hstarts⟩ := ih (line + p.newlines)
    have hlater : ∀ t ∈ tokens (line + p.newlines) ps, line ≤ t.line := by
      intro t ht
      have hle := hstarts t ht
      omega
    rw [tokens_cons, lineAfter_cons]
    cases htoken : p.token? line with
    | none => exact ⟨⟨hsorted, hends⟩, hlater⟩
    | some t =>
      have hline := line_of_token? htoken
      have hlast := le_lineAfter (line + p.newlines) ps
      refine ⟨⟨.cons ?_ hsorted, ?_⟩, ?_⟩
      · intro u hu
        rw [hline]
        exact hlater u hu
      · intro u hu
        rcases List.mem_cons.1 hu with rfl | hu
        · show u.line ≤ lineAfter (line + p.newlines) ps
          omega
        · exact hends u hu
      · intro u hu
        rcases List.mem_cons.1 hu with rfl | hu
        · exact Int.le_of_eq hline.symm
        · exact hlater u hu

end Piece

/-- The tokens of a scanned text are on ascending lines. -/
theorem ascends_of_scan {source : String} {line : Int} {input : Token.Stream}
    (h : scan source line = .ok input) : input.Ascends := by
  obtain ⟨ps, hcutting, -, rfl⟩ := Piece.exists_isCutting_of_scan h
  rw [← Piece.lineAfter_eq hcutting.flatMap_chars]
  exact (Piece.ascends_tokens line ps).1

/-! ## §4. All faults of a program. -/

theorem trail_of_program {input : Token.Stream} {body : List Stmt} {left : Token.Stream}
    {faults : List SyntaxFault} (h : Reader.program ⟨input, []⟩ = (.ok body, ⟨left, faults⟩)) :
    Reader.Trail input.endLine input.tokens faults left.tokens := by
  obtain ⟨ts, endLine⟩ := input
  have hends := Reader.inOrder_program ts endLine []
  rw [h] at hends
  cases hends with
  | ok trail => exact trail

/-- **Recovery makes progress, and faults are reported in order.**

    • A declaration that is started with tokens at hand, at the top level or however deep
      in blocks, is read or recovered from, and ends at least one token further on.
    • A program is read to its end.  Every fault noted on the way blames a place of the
      input, and each a later place than the one before, unless both blame the end.
    • The program is refused if and only if a fault was noted; the refusal holds the noted
      faults, and its line is the line of the first blamed place.
    • A message quotes the line of the place that it blames, and in a scanned text these
      lines go up. -/
theorem recovery_reports_in_order (input : Token.Stream) :
    Reader.MovesOn Reader.declaration
    ∧ (∀ budget, Reader.MovesOn (Reader.recover (Reader.statementWithin budget true)))
    ∧ ∃ body faults, Reader.program ⟨input, []⟩ = (.ok body, ⟨⟨[], input.endLine⟩, faults⟩)
      ∧ (∀ f ∈ faults, f.Blames input)
      ∧ faults.Pairwise (SyntaxFault.Precedes input)
      ∧ (∀ errors, parse input = .error errors ↔ faults ≠ [] ∧ errors = faults)
      ∧ (∀ f later, faults = f :: later →
        (Diagnostic.ofSyntactic faults).line = some (input.lineAt (f.position input)))
      ∧ (∀ f ∈ faults, ∀ n,
        Stage.parse.Quotes n f.message ↔ n = input.lineAt (f.position input))
      ∧ ∀ source line, scan source line = .ok input → faults.Pairwise fun f g =>
        input.lineAt (f.position input) ≤ input.lineAt (g.position input) := by
  refine ⟨Reader.movesOn_declaration, Reader.movesOn_recover, ?_⟩
  obtain ⟨body, faults, hrun⟩ := Reader.program_reaches_end input []
  have htrail := trail_of_program hrun
  have hblames := htrail.blames
  have hordered := htrail.pairwise_precedes (List.suffix_refl _)
  refine ⟨body, faults, hrun, hblames, hordered, ?_, ?_, ?_, ?_⟩
  · intro errors
    rw [parse_of_program hrun]
    by_cases hnone : faults = []
    · simp [hnone]
    · simp [hnone, eq_comm]
  · rintro f later rfl
    exact congrArg some (hblames f List.mem_cons_self).line_eq
  · intro f hf
    exact (hblames f hf).quotes_iff
  · intro source line hscan
    refine hordered.imp ?_
    intro f g hfg
    refine (ascends_of_scan hscan).lineAt_mono ?_
    unfold SyntaxFault.Precedes at hfg
    omega

end LoxLang
