/-
  LoxLang.Proofs.Console.Braces
  ─────────────────────────────
  **Braces that count and braces that are tokens.**  The console asks for another line if a
  text has more opening than closing braces, wherever they stand.  To the program, a brace in a
  comment or in a string is none.  For a text that scans, the braces of its characters are the
  brace tokens together with these hidden ones (`count_char_of_scan`); so that the console asks
  for another line exactly if a brace is unclosed, as long as as many braces of either side are
  hidden (`asks_for_more_iff`), and is mistaken otherwise (`asks_for_more_mistaken`).
-/
import LoxLang.Proofs.Console.Feeding
import LoxLang.Proofs.Token.Seam

namespace LoxLang

/-! ## §1. Braces. -/

/-- The two braces. -/
inductive Brace where
  | opening | closing
  deriving DecidableEq

/-- The character of a brace. -/
def Brace.char : Brace → Char
  | .opening => '\x7b'
  | .closing => '\x7d'

/-- The symbol of a brace. -/
def Brace.symbol : Brace → Symbol
  | .opening => .leftBrace
  | .closing => .rightBrace

/-- The number of tokens that are this brace. -/
def Token.Stream.braces (b : Brace) (input : Token.Stream) : Nat :=
  input.tokens.countP fun t => t.kind = .symbol b.symbol

/-- The characters that a comment or a string hides. -/
def Piece.hidden : Piece → List Char
  | .comment body => body
  | .string body => body
  | _ => []

/-- The number of these braces that stand in the comments and strings of a text. -/
def hiddenBraces (b : Brace) (text : String) : Nat :=
  ((Piece.cut text.toList).flatMap Piece.hidden).count b.char

namespace Brace

variable (b : Brace)

theorem isBlank_char : Text.isBlank b.char = false := by
  cases b <;> decide

theorem isWordChar_char : isWordChar b.char = false := by
  cases b <;> decide

theorem isDigit_char : b.char.isDigit = false := by
  cases b <;> decide

/-- A brace is a symbol of its own, and in no other. -/
theorem count_lexeme (s : Symbol) :
    s.lexeme.toList.count b.char = if s = b.symbol then 1 else 0 := by
  cases b <;> cases s <;> decide

end Brace

/-- Where all characters are of a kind that no brace is of, there is none. -/
theorem count_brace_eq_zero {cs : List Char} {P : Char → Bool} {b : Brace}
    (hcs : ∀ c ∈ cs, P c = true) (hb : P b.char = false) : cs.count b.char = 0 := by
  refine List.count_eq_zero.2 fun hmem => ?_
  rw [hcs b.char hmem] at hb
  cases hb

/-! ## §2. The braces of one piece. -/

namespace Piece

theorem count_numeral {whole : List Char} {fraction : Option (List Char)} {b : Brace}
    (h : IsNumeral whole fraction) : (numeral whole fraction).count b.char = 0 := by
  have hwhole := count_brace_eq_zero h.whole_digits b.isDigit_char
  cases fraction with
  | none => exact hwhole
  | some ds =>
    have hds := count_brace_eq_zero (h.fraction_digits ds rfl) b.isDigit_char
    have hpoint : '.' ≠ b.char := by cases b <;> decide
    show (whole ++ '.' :: ds).count b.char = 0
    rw [List.count_append, List.count_cons_of_ne hpoint, hwhole, hds]

/-- A brace is a token of its own, or it is hidden. -/
theorem count_chars {p : Piece} (hp : p.WellFormed) (hclean : p.isFault = false) (b : Brace) :
    p.chars.count b.char = (if p = .symbol b.symbol then 1 else 0) + p.hidden.count b.char := by
  cases hp with
  | @blank c h =>
    have hne : c ≠ b.char := by
      rintro rfl
      rw [b.isBlank_char] at h
      cases h
    simp [chars, hidden, hne]
  | comment h =>
    have hslash : '/' ≠ b.char := by cases b <;> decide
    simp [chars, hidden, hslash]
  | symbol s => simpa [chars, hidden] using b.count_lexeme s
  | @word c cs hc hcs =>
    have hall : ∀ d ∈ c :: cs, isWordChar d = true := by
      refine List.forall_mem_cons.2 ⟨?_, hcs⟩
      simp [isWordChar, hc]
    simpa [chars, hidden] using count_brace_eq_zero hall b.isWordChar_char
  | number h => simpa [chars, hidden] using count_numeral h
  | string h =>
    have hquote : '"' ≠ b.char := by cases b <;> decide
    simp [chars, hidden, hquote]
  | _ => cases hclean

/-! ## §3. The braces of a text. -/

theorem countP_token? (p : Piece) (line : Int) (b : Brace) :
    ((p.token? line).toList.countP fun t => t.kind = .symbol b.symbol)
      = if p = .symbol b.symbol then 1 else 0 := by
  cases p with
  | symbol s => simp [token?, kind?]
  | word cs =>
    simp only [token?, kind?]
    split <;> simp
  | _ => simp [token?, kind?]

/-- The brace tokens of a row of pieces, together with the hidden braces, are all braces. -/
theorem count_flatMap_chars {ps : List Piece} (hps : ∀ p ∈ ps, p.WellFormed)
    (hclean : ∀ p ∈ ps, p.isFault = false) (b : Brace) :
    ∀ line, (ps.flatMap chars).count b.char
      = ((tokens line ps).countP fun t => t.kind = .symbol b.symbol)
        + (ps.flatMap hidden).count b.char := by
  induction ps with
  | nil => exact fun line => rfl
  | cons p ps ih =>
    intro line
    obtain ⟨hp, hps⟩ := List.forall_mem_cons.1 hps
    obtain ⟨hpclean, hclean⟩ := List.forall_mem_cons.1 hclean
    have hfirst := count_chars hp hpclean b
    have hrest := ih hps hclean (line + p.newlines)
    rw [List.flatMap_cons, List.flatMap_cons, List.count_append, List.count_append, tokens_cons,
      List.countP_append, countP_token?]
    omega

/-- **The braces of a text that scans** are its brace tokens and those that are hidden. -/
theorem count_char_of_scan {text : String} {line : Int} {input : Token.Stream}
    (h : scan text line = .ok input) (b : Brace) :
    text.toList.count b.char = input.braces b + hiddenBraces b text := by
  obtain ⟨ps, hps, hclean, rfl⟩ := exists_isCutting_of_scan h
  have hcount := count_flatMap_chars hps.wellFormed hclean b line
  rw [hps.flatMap_chars] at hcount
  rw [hcount, hps.eq_cut]
  rfl

end Piece

/-! ## §4. Asking for another line. -/

/-- **When the console asks for another line.**  Of a text that scans, both its brace tokens
and the braces in its comments and strings are counted; so that the answer is that of the
tokens if as many braces of either side are hidden. -/
theorem asks_for_more_iff (text : String) (line : Int) (input : Token.Stream)
    (h : scan text line = .ok input) :
    (hasOpenBrace (Text.trimEnd text) = true ↔
        input.braces .closing + hiddenBraces .closing text
          < input.braces .opening + hiddenBraces .opening text)
      ∧ (hiddenBraces .closing text = hiddenBraces .opening text →
        (hasOpenBrace (Text.trimEnd text) = true ↔
          input.braces .closing < input.braces .opening)) := by
  have hopening : text.toList.count '\x7b' = _ := Piece.count_char_of_scan h .opening
  have hclosing : text.toList.count '\x7d' = _ := Piece.count_char_of_scan h .closing
  rw [hasOpenBrace_trimEnd, hasOpenBrace, hopening, hclosing, decide_eq_true_iff]
  refine ⟨Iff.rfl, ?_⟩
  intro hidden
  omega

/-- A block that is not closed yet, with both braces in its string and in its comment. -/
theorem asks_for_more_iff_unclosed :
    hiddenBraces .closing "\x7b\"\x7b\x7d\";//\x7d\x7b" = 2
      ∧ hasOpenBrace (Text.trimEnd "\x7b\"\x7b\x7d\";//\x7d\x7b") = true := by
  have hscan : scan "\x7b\"\x7b\x7d\";//\x7d\x7b" 1 = .ok ⟨[⟨.symbol .leftBrace, "\x7b", 1⟩,
      ⟨.string "\x7b\x7d", "\"\x7b\x7d\"", 1⟩, ⟨.symbol .semicolon, ";", 1⟩], 1⟩ := by
    with_unfolding_all rfl
  have hclosing : hiddenBraces .closing "\x7b\"\x7b\x7d\";//\x7d\x7b" = 2 := by
    with_unfolding_all rfl
  have hopening : hiddenBraces .opening "\x7b\"\x7b\x7d\";//\x7d\x7b" = 2 := by
    with_unfolding_all rfl
  obtain ⟨-, hiff⟩ := asks_for_more_iff _ 1 _ hscan
  exact ⟨hclosing, (hiff (hclosing.trans hopening.symm)).2 (by decide)⟩

/-- A complete input is held back for a brace in its string; and one with an unclosed brace is
not, for a brace in its comment. -/
theorem asks_for_more_mistaken :
    (∃ input, scan "print \"\x7b\";" 1 = .ok input ∧ input.braces .opening = 0
        ∧ input.braces .closing = 0 ∧ hasOpenBrace (Text.trimEnd "print \"\x7b\";") = true)
      ∧ ∃ input, scan "fun f() \x7b // \x7d" 1 = .ok input ∧ input.braces .opening = 1
        ∧ input.braces .closing = 0
        ∧ hasOpenBrace (Text.trimEnd "fun f() \x7b // \x7d") = false := by
  have hheld : scan "print \"\x7b\";" 1 = .ok ⟨[⟨.keyword .printKw, "print", 1⟩,
      ⟨.string "\x7b", "\"\x7b\"", 1⟩, ⟨.symbol .semicolon, ";", 1⟩], 1⟩ := by
    with_unfolding_all rfl
  have hearly : scan "fun f() \x7b // \x7d" 1 = .ok ⟨[⟨.keyword .funKw, "fun", 1⟩,
      ⟨.identifier, "f", 1⟩, ⟨.symbol .leftParen, "(", 1⟩, ⟨.symbol .rightParen, ")", 1⟩,
      ⟨.symbol .leftBrace, "\x7b", 1⟩], 1⟩ := by
    with_unfolding_all rfl
  exact ⟨⟨_, hheld, by decide, by decide, by decide⟩, ⟨_, hearly, by decide, by decide, by decide⟩⟩

end LoxLang
