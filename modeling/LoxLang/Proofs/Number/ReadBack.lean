/-
  LoxLang.Proofs.Number.ReadBack
  ──────────────────────────────
  **Printed numbers read back.**  The text of a finite double is a program with that double as its
  value, the sign of zero included, unless the text has an exponent, which only fractions below
  one ten-thousandth have (`printed_numbers_read_back`).  The language has no numerals with an
  exponent, and yet no two finite doubles are printed alike.
-/
import LoxLang.Proofs.Number.Double
import LoxLang.Proofs.Number.Numeral
import LoxLang.Proofs.Number.Reading
import LoxLang.Proofs.Number.Shortest

namespace LoxLang.Number

open Binary64 Decimal

/-! ## §1. Numbers that are printed without an exponent. -/

/-- A number that is whole, or not smaller than one ten-thousandth. -/
def IsPlain (q : ℚ) : Prop :=
  (∃ n : ℤ, q = n) ∨ 1 / 10000 ≤ |q|

theorem isWhole_iff (r : Nat) : isWhole r = true ↔ ∃ n : ℤ, magnitude r = n := by
  have hpos := unitsPerOne_pos
  unfold isWhole magnitude
  rw [beq_iff_eq]
  constructor
  · intro h
    obtain ⟨k, hk⟩ := Nat.dvd_of_mod_eq_zero h
    refine ⟨k, ?_⟩
    rw [hk]
    push_cast
    rw [mul_div_cancel_left₀ _ hpos.ne']
  · rintro ⟨n, hn⟩
    rw [div_eq_iff hpos.ne'] at hn
    have hint : (units r : ℤ) = n * unitsPerOne := by
      exact_mod_cast hn
    refine Nat.mod_eq_zero_of_dvd (Int.natCast_dvd_natCast.1 ?_)
    rw [hint]
    exact Dvd.intro_left n rfl

theorem le_magnitude_iff (r : Nat) : 1 / 10000 ≤ magnitude r ↔ unitsPerOne ≤ units r * 10 ^ 4 := by
  unfold magnitude
  rw [le_div_iff₀ unitsPerOne_pos, one_div, inv_mul_le_iff₀ (by norm_num)]
  norm_cast
  rw [Nat.mul_comm]
  norm_num

theorem magnitude_nonneg (r : Nat) : 0 ≤ magnitude r :=
  div_nonneg (Nat.cast_nonneg _) unitsPerOne_pos.le

/-- Whether a magnitude is plain is told by its rank. -/
theorem isPlain_magnitude_iff (r : Nat) :
    IsPlain (magnitude r) ↔ isWhole r = true ∨ unitsPerOne ≤ units r * 10 ^ 4 := by
  unfold IsPlain
  rw [isWhole_iff, abs_of_nonneg (magnitude_nonneg r), le_magnitude_iff]

theorem isPlain_neg_iff (q : ℚ) : IsPlain (-q) ↔ IsPlain q := by
  have hneg : (∃ n : ℤ, -q = n) ↔ ∃ n : ℤ, q = n := by
    constructor
    · rintro ⟨n, hn⟩
      exact ⟨-n, by rw [Int.cast_neg, ← hn, neg_neg]⟩
    · rintro ⟨n, hn⟩
      exact ⟨-n, by rw [Int.cast_neg, ← hn]⟩
  unfold IsPlain
  rw [hneg, abs_neg]

/-- A double is plain if its magnitude is, whatever its sign. -/
theorem isPlain_value_iff {x : Float} (h : x.isFinite = true) :
    IsPlain (value x) ↔ IsPlain (magnitude (rank x)) := by
  rw [value_eq h]
  split
  · exact isPlain_neg_iff _
  · exact Iff.rfl

/-! ## §2. The text of a magnitude. -/

variable {r : Nat}

/-- Zero is a whole number. -/
theorem pos_of_not_isWhole (h : ¬ isWhole r = true) : 0 < r := by
  refine Nat.pos_of_ne_zero ?_
  rintro rfl
  rw [isWhole, units_zero, Nat.zero_mod] at h
  exact h rfl

/-- A whole number is written out in full, and equals what is written. -/
theorem nearest_toDigits (hr : r < infinityRank) (hwhole : isWhole r = true) :
    (ofDigits (Nat.toDigits 10 (units r / unitsPerOne)) []).nearest = r := by
  refine nearest_of_value hr.le ?_
  have hdvd : unitsPerOne ∣ units r := Nat.dvd_of_mod_eq_zero (beq_iff_eq.1 hwhole)
  have hdiv : (units r / unitsPerOne : Nat) * (unitsPerOne : ℚ) = units r := by
    exact_mod_cast Nat.div_mul_cancel hdvd
  have hvalue : (ofDigits (Nat.toDigits 10 (units r / unitsPerOne)) []).value
      = (units r / unitsPerOne : Nat) := by
    simp [Decimal.value, ofDigits]
  rw [hvalue, hdiv]

/-- **A plain magnitude is printed as a numeral that reads as the magnitude.** -/
theorem exists_magnitudeText_eq_numeral (hr : r < infinityRank)
    (hplain : IsPlain (magnitude r)) :
    ∃ whole fraction, magnitudeText r = Piece.numeral whole fraction
      ∧ Piece.IsNumeral whole fraction ∧ (ofDigits whole (fraction.getD [])).nearest = r := by
  unfold magnitudeText
  rw [if_neg hr.ne]
  by_cases hwhole : isWhole r = true
  · rw [if_pos hwhole]
    refine ⟨Nat.toDigits 10 (units r / unitsPerOne), none, ?_, ?_, nearest_toDigits hr hwhole⟩
    · rw [Piece.numeral]
    · exact ⟨Nat.toDigits_ne_nil, isDigit_of_mem_toDigits, by simp, by simp⟩
  · have hle := ((isPlain_magnitude_iff r).1 hplain).resolve_left hwhole
    have hpos := pos_of_not_isWhole hwhole
    have hexponent : ¬ (shortest r).leadingExponent < FractionFormat.printed.leastPlain := by
      rw [FractionFormat.printed, leadingExponent_shortest_lt_iff hpos hr]
      exact Nat.not_lt.2 hle
    obtain ⟨whole, fraction, htext, hnumeral, hvalue⟩ := exists_plain_eq_numeral (shortest r)
    rw [if_neg hwhole, FractionFormat.write, if_neg hexponent]
    refine ⟨whole, some fraction, htext, hnumeral, ?_⟩
    rw [Option.getD_some, nearest_congr hvalue, nearest_shortest hr.le]

/-- Every other magnitude is printed with an exponent. -/
theorem magnitudeText_eq_scientific (hr : r < infinityRank)
    (hplain : ¬ IsPlain (magnitude r)) :
    0 < r ∧ (shortest r).leadingExponent < -4 ∧ magnitudeText r = scientific 2 (shortest r) := by
  obtain ⟨hwhole, hle⟩ := not_or.1 (mt (isPlain_magnitude_iff r).2 hplain)
  have hpos := pos_of_not_isWhole hwhole
  have hexponent := (leadingExponent_shortest_lt_iff hpos hr).2 (Nat.lt_of_not_le hle)
  refine ⟨hpos, hexponent, ?_⟩
  unfold magnitudeText
  rw [if_neg hr.ne, if_neg hwhole, FractionFormat.write]
  exact if_pos hexponent

/-! ## §3. The text of a number. -/

/-- A numeral, perhaps with a minus sign in front. -/
def IsSignedNumeral (text : String) : Prop :=
  ∃ negative whole fraction, Piece.IsNumeral whole fraction
    ∧ text = String.ofList (signed negative (Piece.numeral whole fraction))

/-- A numeral, perhaps with a minus sign in front, and an exponent behind it. -/
def HasExponent (text : String) : Prop :=
  ∃ negative whole fraction exponent, Piece.IsNumeral whole fraction
    ∧ exponent ≠ [] ∧ (∀ c ∈ exponent, c.isDigit = true)
    ∧ text = String.ofList
        (signed negative (Piece.numeral whole fraction ++ 'e' :: '-' :: exponent))

/-- The text is not even scanned, whatever stands behind it. -/
def IsRefused (text : String) : Prop :=
  ∀ (more : String) (line : Int), ∃ faults, scan (text ++ more) line = .error faults

variable {x y : Float}

theorem text_eq (h : x.isFinite = true) :
    text x = String.ofList (signed (isNegative x) (magnitudeText (rank x))) := by
  unfold text
  rw [isNaN_of_isFinite h]
  rfl

theorem signed_append (negative : Bool) (cs ds : List Char) :
    signed negative cs ++ ds = signed negative (cs ++ ds) :=
  List.append_assoc _ _ _

/-- **A plain number is printed as a signed numeral, and is the value of that.** -/
theorem text_of_isPlain (h : x.isFinite = true) (hplain : IsPlain (value x)) :
    IsSignedNumeral (text x) ∧ EvaluatesTo (text x ++ ";") x := by
  have hr := (isFinite_iff x).1 h
  obtain ⟨whole, fraction, htext, hnumeral, hnearest⟩ :=
    exists_magnitudeText_eq_numeral hr ((isPlain_value_iff h).1 hplain)
  rw [text_eq h, htext]
  refine ⟨⟨_, _, _, hnumeral, rfl⟩, ?_⟩
  -- the minus sign in front of a numeral turns over the sign of what it denotes
  have hvalue : (if isNegative x then -(ofDigits whole (fraction.getD [])).toFloat
      else (ofDigits whole (fraction.getD [])).toFloat) = x := by
    unfold toFloat
    rw [hnearest, neg_ofRank false hr.le]
    conv_rhs => rw [← ofRank_rank x]
    cases isNegative x <;> rfl
  have heval := evaluatesTo_numeral (isNegative x) hnumeral
  rw [hvalue, ← signed_append, String.ofList_append] at heval
  exact heval

/-- **Any other number is printed with an exponent**, and that the scanner refuses. -/
theorem text_of_not_isPlain (h : x.isFinite = true) (hplain : ¬ IsPlain (value x)) :
    HasExponent (text x) ∧ IsRefused (text x) := by
  have hr := (isFinite_iff x).1 h
  obtain ⟨hpos, -, hscientific⟩ :=
    magnitudeText_eq_scientific hr (mt (isPlain_value_iff h).2 hplain)
  obtain ⟨c, cs, -, hrow, htext⟩ := exists_scientific_eq 2 (coefficient_shortest_pos hpos)
  have hnumeral := isNumeral_mantissa hrow
  rw [text_eq h, hscientific, htext, mantissa]
  constructor
  · refine ⟨_, _, _, _, hnumeral, ?_, isDigit_of_mem_padZeros isDigit_of_mem_toDigits, rfl⟩
    exact List.append_ne_nil_of_right_ne_nil _ Nat.toDigits_ne_nil
  · intro more line
    rw [← String.ofList_toList (s := more), ← String.ofList_append, signed_append,
      List.append_assoc, List.cons_append, List.cons_append]
    exact Piece.exists_scan_eq_error _ hnumeral _ line

/-! ## §4. No two finite doubles are printed alike. -/

/-- A text without a sign of its own shows the sign in front of it. -/
theorem signed_inj {negative negative' : Bool} {cs cs' : List Char}
    (hcs : cs.head? ≠ some '-') (hcs' : cs'.head? ≠ some '-')
    (h : signed negative cs = signed negative' cs') : negative = negative' ∧ cs = cs' := by
  cases negative with
  | false =>
    cases negative' with
    | false => exact ⟨rfl, h⟩
    | true => exact absurd (congrArg List.head? h) hcs
  | true =>
    cases negative' with
    | false => exact absurd (congrArg List.head? h).symm hcs'
    | true => exact ⟨rfl, (List.cons.inj h).2⟩

theorem head?_scientific {width : Nat} {d : Decimal} (hd : 0 < d.coefficient) :
    (scientific width d).head? ≠ some '-' := by
  obtain ⟨c, cs, -, hrow, htext⟩ := exists_scientific_eq width hd
  have hhead : (scientific width d).head? = some c := by
    rw [htext]
    unfold mantissa
    split <;> rfl
  rw [hhead]
  rintro ⟨⟩
  exact absurd (hrow '-' List.mem_cons_self) (by decide)

/-- What is refused has no value. -/
theorem IsRefused.not_evaluatesTo {text : String} (h : IsRefused text) (x : Float) :
    ¬ EvaluatesTo (text ++ ";") x := by
  intro hread
  obtain ⟨faults, hfaults⟩ := h ";" 1
  exact hread.scan_ne_error 1 faults hfaults

/-- The texts with an exponent tell the doubles apart. -/
theorem eq_of_text_eq_of_not_isPlain (hx : x.isFinite = true) (hy : y.isFinite = true)
    (hxplain : ¬ IsPlain (value x)) (hyplain : ¬ IsPlain (value y)) (h : text x = text y) :
    x = y := by
  have hrx := (isFinite_iff x).1 hx
  have hry := (isFinite_iff y).1 hy
  obtain ⟨hposx, hltx, htextx⟩ :=
    magnitudeText_eq_scientific hrx (mt (isPlain_value_iff hx).2 hxplain)
  obtain ⟨hposy, hlty, htexty⟩ :=
    magnitudeText_eq_scientific hry (mt (isPlain_value_iff hy).2 hyplain)
  rw [text_eq hx, text_eq hy, htextx, htexty, String.ofList_inj] at h
  have hposx := coefficient_shortest_pos hposx
  have hposy := coefficient_shortest_pos hposy
  obtain ⟨hsign, hdigits⟩ := signed_inj (head?_scientific hposx) (head?_scientific hposy) h
  -- the decimals have one value, and the doubles that they stand for are read from it
  have hvalue := value_eq_of_scientific_eq hposx hposy (by omega) (by omega) hdigits
  have hrank := nearest_congr hvalue
  rw [nearest_shortest hrx.le, nearest_shortest hry.le] at hrank
  exact ext_of_rank hsign hrank

/-- **Finite doubles that are printed alike are the same.** -/
theorem text_injective (hx : x.isFinite = true) (hy : y.isFinite = true) (h : text x = text y) :
    x = y := by
  by_cases hxplain : IsPlain (value x)
  · have hread := (text_of_isPlain hx hxplain).2
    by_cases hyplain : IsPlain (value y)
    · -- the one text is read as both
      rw [h] at hread
      exact hread.unique (text_of_isPlain hy hyplain).2
    · rw [h] at hread
      exact absurd hread ((text_of_not_isPlain hy hyplain).2.not_evaluatesTo x)
  · by_cases hyplain : IsPlain (value y)
    · have hread := (text_of_isPlain hy hyplain).2
      rw [← h] at hread
      exact absurd hread ((text_of_not_isPlain hx hxplain).2.not_evaluatesTo y)
    · exact eq_of_text_eq_of_not_isPlain hx hy hxplain hyplain h

/-! ## §5. Reading back. -/

/-- **Printed numbers read back.**  The text of a finite double that is plain is a signed numeral
and, with a semicolon behind it, a program with exactly that double as its value.  The text of any
other finite double has an exponent and is refused.  So no two finite doubles are printed alike. -/
theorem printed_numbers_read_back :
    (∀ x : Float, x.isFinite = true → IsPlain (value x) →
      IsSignedNumeral (Value.number x : Value).text
        ∧ EvaluatesTo ((Value.number x : Value).text ++ ";") x)
    ∧ (∀ x : Float, x.isFinite = true → ¬ IsPlain (value x) →
      HasExponent (Value.number x : Value).text ∧ IsRefused (Value.number x : Value).text)
    ∧ ∀ x y : Float, x.isFinite = true → y.isFinite = true →
      (Value.number x : Value).text = (Value.number y : Value).text → x = y := by
  refine ⟨?_, ?_, ?_⟩
  · intro x hx hplain
    exact text_of_isPlain hx hplain
  · intro x hx hplain
    exact text_of_not_isPlain hx hplain
  · intro x y hx hy halike
    exact text_injective hx hy halike

/-- Zero with a minus sign, and the double nearest to one hundred-thousandth. -/
theorem negative_zero_and_hundred_thousandth_read_back :
    ((ofRank true 0).isFinite = true ∧ IsPlain (value (ofRank true 0))
      ∧ EvaluatesTo "-0;" (ofRank true 0))
    ∧ ((ofRank false 4532020583610935537).isFinite = true
      ∧ ¬ IsPlain (value (ofRank false 4532020583610935537)) ∧ IsRefused "1e-05")
    ∧ (Value.number (ofRank true 0) : Value).text = (Value.number (-ofRank false 0) : Value).text
    ∧ ofRank true 0 = -ofRank false 0 := by
  have hzero : (ofRank true 0).isFinite = true := by decide +kernel
  have hneg : (-ofRank false 0).isFinite = true := by decide +kernel
  have hplain : IsPlain (value (ofRank true 0)) :=
    (isPlain_value_iff hzero).2 ((isPlain_magnitude_iff _).2 (.inl (by decide +kernel)))
  have hfraction : (ofRank false 4532020583610935537).isFinite = true := by decide +kernel
  have hnot : ¬ IsPlain (value (ofRank false 4532020583610935537)) := by
    rw [isPlain_value_iff hfraction, isPlain_magnitude_iff]
    decide +kernel
  have htext : (Value.number (ofRank true 0) : Value).text = "-0" := by decide +kernel
  have htext' : (Value.number (ofRank false 4532020583610935537) : Value).text = "1e-05" := by
    decide +kernel
  have halike : (Value.number (ofRank true 0) : Value).text
      = (Value.number (-ofRank false 0) : Value).text := by
    decide +kernel
  have hread := (printed_numbers_read_back.1 _ hzero hplain).2
  have hrefused := (printed_numbers_read_back.2.1 _ hfraction hnot).2
  rw [htext] at hread
  rw [htext'] at hrefused
  exact ⟨⟨hzero, hplain, hread⟩, ⟨hfraction, hnot, hrefused⟩, halike,
    printed_numbers_read_back.2.2 _ _ hzero hneg halike⟩

end LoxLang.Number
