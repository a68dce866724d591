/-
  LoxLang.Proofs.Number.Reading
  ─────────────────────────────
  **Numerals as programs.**  The language has no negative numerals: a minus sign in front of one
  is an operator.  With a semicolon behind it, either is a program whose value is the number
  (`evaluatesTo_numeral`), and no other (`EvaluatesTo.unique`).  A numeral with an exponent is not
  even scanned, whatever stands behind it (`exists_scan_eq_error`).
-/
import LoxLang.Machine.Eval
import LoxLang.Proofs.Grammar.Parse
import LoxLang.Proofs.Token.Seam
import LoxLang.Scope.Resolve

namespace LoxLang

/-- A text with a minus sign in front of it, if there is to be one. -/
def signed (negative : Bool) (cs : List Char) : List Char :=
  (if negative then ['-'] else []) ++ cs

/-- The text is scanned, parsed, resolved and run without an error, if expressions may nest at all,
and its value is `x`.  That is so whatever ran before, and nothing is changed by it. -/
def EvaluatesTo (source : String) (x : Float) : Prop :=
  ∀ (line : Int) (r : Resolver) (m : Machine) (limits : Limits), 2 ≤ limits.depth →
    ∃ input body program, scan source line = .ok input ∧ parse input = .ok body
      ∧ r.resolve body = (.ok program, r) ∧ m.run limits program = (.ok (.number x), m)

/-! ## §1. Scanning. -/

namespace Piece

variable {whole : List Char} {fraction : Option (List Char)}

/-- The pieces of a signed numeral with a semicolon behind it. -/
def signedNumeral (negative : Bool) (whole : List Char) (fraction : Option (List Char)) :
    List Piece :=
  (if negative then [.symbol .minus] else []) ++ [.number whole fraction, .symbol .semicolon]

theorem isCutting_signed {cs : List Char} {ps : List Piece} (negative : Bool)
    (h : IsCutting cs ps) :
    IsCutting (signed negative cs) ((if negative then [.symbol .minus] else []) ++ ps) := by
  cases negative with
  | false => exact h
  | true =>
    refine isCutting_cons.2 ⟨cs, rfl, .symbol .minus, ?_, h⟩
    exact ⟨fun hs => absurd hs (by decide), fun hs => absurd hs (by decide)⟩

theorem isCutting_signedNumeral (negative : Bool) (h : IsNumeral whole fraction) :
    IsCutting (signed negative (numeral whole fraction ++ [';']))
      (signedNumeral negative whole fraction) := by
  have hend : IsCutting [';'] [.symbol .semicolon] := by
    refine isCutting_cons.2 ⟨[], rfl, .symbol .semicolon, ?_, isCutting_nil⟩
    exact ⟨fun hs => absurd hs (by decide), fun hs => absurd hs (by decide)⟩
  refine isCutting_signed negative ?_
  refine isCutting_cons.2 ⟨[';'], rfl, .number h, ⟨?_, ?_⟩, hend⟩
  · intro c hc
    cases hc
    decide
  · intro _ d ds heq
    cases heq

theorem isFault_signedNumeral (negative : Bool) :
    ∀ p ∈ signedNumeral negative whole fraction, p.isFault = false := by
  cases negative <;> simp [signedNumeral, isFault]

/-- A word cannot start behind a numeral, and an exponent would. -/
theorem exists_scan_eq_error (negative : Bool) (h : IsNumeral whole fraction)
    (rest : List Char) (line : Int) :
    ∃ faults, scan (String.ofList (signed negative (numeral whole fraction ++ 'e' :: '-' :: rest)))
      line = .error faults := by
  have hbad : IsCutting (numeral whole fraction ++ 'e' :: '-' :: rest)
      (.badNumber (numeral whole fraction ++ ['e']) :: cut ('-' :: rest)) := by
    refine isCutting_cons.2 ⟨'-' :: rest, ?_, ?_, ?_, cut_isCutting _⟩
    · simp [chars]
    · exact .badNumber h (by decide) (by simp)
    · intro c hc
      cases hc
      decide
  have hcut := (isCutting_signed negative hbad).eq_cut
  refine ⟨_, scan_eq_error ⟨.badNumber (numeral whole fraction ++ ['e']), ?_, rfl⟩⟩
  rw [String.toList_ofList, ← hcut]
  simp

end Piece

/-! ## §2. Parsing. -/

/-- The tree of a signed numeral. -/
def Expr.signedNumber (negative : Bool) (line : Int) (x : Float) : Expr :=
  if negative then .unary .negate line (.literal (.number x)) else .literal (.number x)

/-- Every signed operand is an expression. -/
theorem Phrase.of_unary {ts : List Token} {e : Expr} (h : Phrase .unary ts e) :
    Phrase .assignment ts e :=
  .value (.tighter (.tighter (.tighter (.tighter (.tighter (.tighter h))))))

theorem Phrase.of_number {t : Token} {x : Float} (h : t.kind = .number x) :
    Phrase .unary [t] (.literal (.number x)) :=
  .operand (.primary (.number h))

/-- The tokens of a signed numeral are an expression and a semicolon. -/
theorem exists_phrase_tokens (negative : Bool) (whole : List Char)
    (fraction : Option (List Char)) (line : Int) :
    ∃ ts semicolon, Piece.tokens line (Piece.signedNumeral negative whole fraction)
        = ts ++ [semicolon] ∧ semicolon.kind = .symbol .semicolon
      ∧ Phrase .unary ts (.signedNumber negative line
          (Decimal.ofDigits whole (fraction.getD [])).toFloat) := by
  cases negative with
  | false =>
    refine ⟨[_], _, rfl, rfl, ?_⟩
    exact .of_number rfl
  | true =>
    refine ⟨[_, _], _, rfl, rfl, ?_⟩
    exact .sign .negate (.of_number rfl)

/-- An expression and a semicolon are a program. -/
theorem parse_eq_ok_of_phrase {ts : List Token} {semicolon : Token} {e : Expr} {endLine : Int}
    (he : Phrase .assignment ts e) (hend : semicolon.kind = .symbol .semicolon) :
    parse ⟨ts ++ [semicolon], endLine⟩ = .ok [.expr e] := by
  refine (parse_eq_ok_iff _ _).2 ⟨[(ts ++ [semicolon], .expr e)], ?_, by simp, rfl⟩
  intro x hx
  rw [List.mem_singleton.1 hx]
  exact .statement (.expression he hend)

/-! ## §3. Resolving and running. -/

/-- There is no variable to give a slot to. -/
theorem resolve_signedNumber (negative : Bool) (line : Int) (x : Float) (r : Resolver) :
    r.resolve [.expr (.signedNumber negative line x)]
      = (.ok [.expr (.signedNumber negative line x)], r) := by
  cases negative <;> rfl

/-- The minus sign applies to what the numeral denotes. -/
theorem eval_signedNumber (negative : Bool) (line : Int) (x : Float) (m : Machine)
    {turns depth : Nat} (hdepth : 2 ≤ depth) :
    Exec.eval turns depth (.signedNumber negative line x) m
      = (.ok (.number (if negative then -x else x)), m) := by
  obtain ⟨depth, rfl⟩ := Nat.exists_eq_add_of_le' hdepth
  cases negative <;> rfl

theorem run_signedNumber (negative : Bool) (line : Int) (x : Float) (m : Machine) {limits : Limits}
    (hdepth : 2 ≤ limits.depth) :
    m.run limits [.expr (.signedNumber negative line x)]
      = (.ok (.number (if negative then -x else x)), m) :=
  Attempt.bind_ok (eval_signedNumber negative line x m hdepth) _

/-- **A signed numeral, read as a program**, is the number that its digits denote, or the negative
of it. -/
theorem evaluatesTo_numeral (negative : Bool) {whole : List Char} {fraction : Option (List Char)}
    (h : Piece.IsNumeral whole fraction) :
    EvaluatesTo (String.ofList (signed negative (Piece.numeral whole fraction ++ [';'])))
      (if negative then -(Decimal.ofDigits whole (fraction.getD [])).toFloat
        else (Decimal.ofDigits whole (fraction.getD [])).toFloat) := by
  intro line r m limits hdepth
  obtain ⟨ts, semicolon, htokens, hend, hphrase⟩ :=
    exists_phrase_tokens negative whole fraction line
  have hcutting : Piece.IsCutting
      (String.ofList (signed negative (Piece.numeral whole fraction ++ [';']))).toList
      (Piece.signedNumeral negative whole fraction) := by
    rw [String.toList_ofList]
    exact Piece.isCutting_signedNumeral negative h
  have hscan := Piece.scan_of_isCutting hcutting (Piece.isFault_signedNumeral negative) line
  rw [htokens] at hscan
  exact ⟨_, _, _, hscan, parse_eq_ok_of_phrase hphrase.of_unary hend,
    resolve_signedNumber negative line _ r, run_signedNumber negative line _ m hdepth⟩

/-- A text is not read as two numbers. -/
theorem EvaluatesTo.unique {source : String} {x y : Float} (hx : EvaluatesTo source x)
    (hy : EvaluatesTo source y) : x = y := by
  have hdepth : 2 ≤ (Limits.ofDepth 2).depth := le_rfl
  obtain ⟨input, body, program, hscan, hparse, hresolve, hrun⟩ :=
    hx 1 .initial .initial (.ofDepth 2) hdepth
  obtain ⟨input', body', program', hscan', hparse', hresolve', hrun'⟩ :=
    hy 1 .initial .initial (.ofDepth 2) hdepth
  -- each stage has one result, and so has the whole
  obtain rfl := Except.ok.inj (hscan.symm.trans hscan')
  obtain rfl := Except.ok.inj (hparse.symm.trans hparse')
  obtain rfl := Except.ok.inj (congrArg Prod.fst (hresolve.symm.trans hresolve'))
  have hvalue := Except.ok.inj (congrArg Prod.fst (hrun.symm.trans hrun'))
  exact Value.number.inj hvalue

/-- What is not even scanned has no value. -/
theorem EvaluatesTo.scan_ne_error {source : String} {x : Float} (h : EvaluatesTo source x)
    (line : Int) (faults : List LexicalFault) : scan source line ≠ .error faults := by
  obtain ⟨input, -, -, hscan, -⟩ := h line .initial .initial (.ofDepth 2) le_rfl
  intro herror
  rw [hscan] at herror
  cases herror

end LoxLang
