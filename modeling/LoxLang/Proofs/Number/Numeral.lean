/-
  LoxLang.Proofs.Number.Numeral
  ─────────────────────────────
  **What the text of a decimal says.**  Digits behind a point spell a fraction below one
  (`fractionValue`), whatever zeros are added to them or taken off their end.

  Main results:
    * `exists_plain_eq_numeral`    — a plain decimal is a numeral, whose digits spell the decimal,
    * `exists_scientific_eq`       — with an exponent it is a numeral with an exponent behind it,
    * `value_eq_of_scientific_eq`  — from which its value can be read.
-/
import LoxLang.Number.Text
import LoxLang.Proofs.Number.Decimal
import LoxLang.Proofs.Token.Cutting

namespace LoxLang

open Decimal

/-! ## §1. Rows of digits. -/

namespace Decimal

theorem digitsValue_eq (cs : List Char) : digitsValue cs = Nat.ofDigitChars 10 cs 0 := rfl

/-- Digits in front count for a power of ten each. -/
theorem digitsValue_append (cs ds : List Char) :
    digitsValue (cs ++ ds) = digitsValue cs * 10 ^ ds.length + digitsValue ds := by
  rw [digitsValue_eq, Nat.ofDigitChars_append, Nat.ofDigitChars_eq_ofDigitChars_zero, Nat.mul_comm]
  rfl

@[simp] theorem digitsValue_toDigits (n : Nat) : digitsValue (Nat.toDigits 10 n) = n :=
  Nat.ofDigitChars_ten_toDigits

@[simp] theorem digitsValue_replicate_zero (k : Nat) :
    digitsValue (List.replicate k '0') = 0 := by
  simp [digitsValue_eq]

/-- The fraction that these digits spell behind a point. -/
def fractionValue (cs : List Char) : ℚ :=
  digitsValue cs / 10 ^ cs.length

/-- Zeros at the end do not count. -/
theorem fractionValue_append_zeros (cs : List Char) (k : Nat) :
    fractionValue (cs ++ List.replicate k '0') = fractionValue cs := by
  unfold fractionValue
  rw [digitsValue_append, digitsValue_replicate_zero, List.length_append, List.length_replicate,
    pow_add]
  push_cast
  field_simp
  ring

/-- The value of a decimal, by its digits before and behind the point. -/
theorem value_ofDigits (whole fraction : List Char) :
    (ofDigits whole fraction).value = digitsValue whole + fractionValue fraction := by
  unfold ofDigits value fractionValue
  dsimp only
  rw [digitsValue_append]
  push_cast
  field_simp

end Decimal

namespace Number

/-- What is dropped at the end of a row is zeros. -/
theorem exists_eq_dropZerosEnd_append (cs : List Char) :
    ∃ k, cs = dropZerosEnd cs ++ List.replicate k '0' := by
  have hsplit := List.takeWhile_append_dropWhile (p := (· == '0')) (l := cs.reverse)
  have hzeros : cs.reverse.takeWhile (· == '0')
      = List.replicate (cs.reverse.takeWhile (· == '0')).length '0' := by
    refine List.eq_replicate_of_mem ?_
    intro c hc
    simpa using List.all_eq_true.1 List.all_takeWhile c hc
  refine ⟨(cs.reverse.takeWhile (· == '0')).length, ?_⟩
  rw [hzeros] at hsplit
  rw [dropZerosEnd, ← List.reverse_replicate, ← List.reverse_append, hsplit, List.reverse_reverse]

/-- Dropping zeros at the end leaves digits. -/
theorem isDigit_of_mem_dropZerosEnd {cs : List Char} (h : ∀ c ∈ cs, c.isDigit = true) :
    ∀ c ∈ dropZerosEnd cs, c.isDigit = true := by
  intro c hc
  obtain ⟨k, hk⟩ := exists_eq_dropZerosEnd_append cs
  refine h c ?_
  rw [hk]
  exact List.mem_append_left _ hc

/-- Zeros at the end of a fraction do not count. -/
theorem fractionValue_dropZerosEnd (cs : List Char) :
    fractionValue (dropZerosEnd cs) = fractionValue cs := by
  obtain ⟨k, hk⟩ := exists_eq_dropZerosEnd_append cs
  calc fractionValue (dropZerosEnd cs)
      = fractionValue (dropZerosEnd cs ++ List.replicate k '0') :=
        (fractionValue_append_zeros _ _).symm
    _ = fractionValue cs := by rw [← hk]

@[simp] theorem digitsValue_padZeros (width : Nat) (cs : List Char) :
    digitsValue (padZeros width cs) = digitsValue cs := by
  rw [padZeros, digitsValue_append, digitsValue_replicate_zero, Nat.zero_mul, Nat.zero_add]

/-- Padding with zeros leaves digits. -/
theorem isDigit_of_mem_padZeros {width : Nat} {cs : List Char} (h : ∀ c ∈ cs, c.isDigit = true) :
    ∀ c ∈ padZeros width cs, c.isDigit = true := by
  intro c hc
  rcases List.mem_append.1 hc with hc | hc
  · rw [List.eq_of_mem_replicate hc]
    rfl
  · exact h c hc

theorem isDigit_of_mem_toDigits {n : Nat} : ∀ c ∈ Nat.toDigits 10 n, c.isDigit = true :=
  fun _ hc => Nat.isDigit_of_mem_toDigits (by decide) (by decide) hc

/-! ## §2. Plain decimals. -/

/-- The digits of a remainder, filled up to the number of places, spell what the remainder is
behind the point. -/
theorem fractionValue_padZeros {n places : Nat} (h : n < 10 ^ places) :
    fractionValue (padZeros places (Nat.toDigits 10 n)) = n / 10 ^ places := by
  unfold fractionValue
  rw [digitsValue_padZeros, digitsValue_toDigits]
  rcases Nat.eq_zero_or_pos places with rfl | hpos
  · obtain rfl : n = 0 := by simpa using h
    simp
  · have hle := (Nat.length_toDigits_le_iff (b := 10) (by decide) hpos).2 h
    have hlength : (padZeros places (Nat.toDigits 10 n)).length = places := by
      rw [padZeros, List.length_append, List.length_replicate]
      omega
    rw [hlength]

/-- A single zero stands where no digit would. -/
theorem fractionValue_zero_of_isEmpty (kept : List Char) :
    fractionValue (if kept.isEmpty then ['0'] else kept) = fractionValue kept := by
  split
  · next h =>
    rw [List.isEmpty_iff.1 h]
    exact fractionValue_append_zeros [] 1
  · rfl

/-- **A plain decimal is a numeral** with a point, whose digits spell the decimal. -/
theorem exists_plain_eq_numeral (d : Decimal) :
    ∃ whole fraction, plain d = Piece.numeral whole (some fraction)
      ∧ Piece.IsNumeral whole (some fraction) ∧ (ofDigits whole fraction).value = d.value := by
  refine ⟨_, _, rfl, ?_, ?_⟩
  · refine ⟨Nat.toDigits_ne_nil, isDigit_of_mem_toDigits, ?_, ?_⟩
    · split <;> simp_all
    · rintro ds ⟨⟩ c hc
      split at hc
      · rw [List.mem_singleton.1 hc]
        rfl
      · exact isDigit_of_mem_dropZerosEnd (isDigit_of_mem_padZeros isDigit_of_mem_toDigits) c hc
  · rw [value_ofDigits, fractionValue_zero_of_isEmpty, fractionValue_dropZerosEnd,
      digitsValue_toDigits]
    simp only [Nat.pow_eq]
    rw [fractionValue_padZeros (Nat.mod_lt _ (Nat.pow_pos (by decide)))]
    have hdiv : (10 ^ d.places : ℚ) * (d.coefficient / 10 ^ d.places : Nat)
        + (d.coefficient % 10 ^ d.places : Nat) = d.coefficient := by
      exact_mod_cast Nat.div_add_mod d.coefficient (10 ^ d.places)
    unfold value
    rw [← hdiv, add_div, mul_div_cancel_left₀ _ (by positivity)]

/-! ## §3. Decimals with an exponent. -/

/-- The digits of a number other than zero are not all zeros. -/
theorem dropZerosEnd_toDigits_ne_nil {n : Nat} (hn : 0 < n) :
    dropZerosEnd (Nat.toDigits 10 n) ≠ [] := by
  intro h
  obtain ⟨k, hk⟩ := exists_eq_dropZerosEnd_append (Nat.toDigits 10 n)
  rw [h, List.nil_append] at hk
  have hzero := congrArg digitsValue hk
  rw [digitsValue_toDigits, digitsValue_replicate_zero] at hzero
  omega

/-- The numeral of which the first digit alone stands before the point; it has no point if
there is no other. -/
def mantissa (c : Char) (cs : List Char) : List Char :=
  Piece.numeral [c] (if cs.isEmpty then none else some cs)

/-- **With an exponent, a decimal is a numeral** of its digits with an exponent behind it. -/
theorem exists_scientific_eq (width : Nat) {d : Decimal} (hd : 0 < d.coefficient) :
    ∃ c cs, dropZerosEnd (Nat.toDigits 10 d.coefficient) = c :: cs
      ∧ (∀ x ∈ c :: cs, x.isDigit = true)
      ∧ scientific width d = mantissa c cs
        ++ 'e' :: '-' :: padZeros width (Nat.toDigits 10 d.leadingExponent.natAbs) := by
  obtain ⟨c, cs, hdigits⟩ := List.exists_cons_of_ne_nil (dropZerosEnd_toDigits_ne_nil hd)
  refine ⟨c, cs, hdigits, ?_, ?_⟩
  · rw [← hdigits]
    exact isDigit_of_mem_dropZerosEnd isDigit_of_mem_toDigits
  · unfold scientific mantissa
    rw [hdigits]
    cases cs with
    | nil => rfl
    | cons c' cs => rfl

/-- The digits of a mantissa are a numeral, with a fraction if there is more than one. -/
theorem isNumeral_mantissa {c : Char} {cs : List Char} (h : ∀ d ∈ c :: cs, d.isDigit = true) :
    Piece.IsNumeral [c] (if cs.isEmpty then none else some cs) := by
  obtain ⟨hc, hcs⟩ := List.forall_mem_cons.1 h
  refine ⟨by simp, by simpa using hc, ?_, ?_⟩
  · cases cs with
    | nil => simp
    | cons d ds => simp
  · cases cs with
    | nil => simp
    | cons d ds =>
      rintro _ ⟨⟩
      exact hcs

/-- A mantissa tells its digits. -/
theorem mantissa_inj {c c' : Char} {cs cs' : List Char} (h : mantissa c cs = mantissa c' cs') :
    c :: cs = c' :: cs' := by
  unfold mantissa at h
  cases cs <;> cases cs' <;> simp_all [Piece.numeral]

/-- The value of a decimal, by its digits and the exponent of the leading one. -/
theorem value_eq_fractionValue_mul (d : Decimal) :
    d.value = fractionValue (dropZerosEnd (Nat.toDigits 10 d.coefficient))
      * 10 ^ (d.leadingExponent + 1) := by
  have hexponent : d.leadingExponent + 1 = (d.digitCount : Int) - d.places := by
    unfold leadingExponent
    omega
  rw [fractionValue_dropZerosEnd, fractionValue, digitsValue_toDigits, hexponent, zpow_sub_places,
    value]
  unfold digitCount
  push_cast
  field_simp

/-- No letter is a digit or a point. -/
theorem e_notMem_numeral {whole : List Char} {fraction : Option (List Char)}
    (h : Piece.IsNumeral whole fraction) : 'e' ∉ Piece.numeral whole fraction := by
  have hdigit : ∀ {cs : List Char}, (∀ c ∈ cs, c.isDigit = true) → 'e' ∉ cs :=
    fun hcs he => absurd (hcs _ he) (by decide)
  have hwhole := hdigit h.whole_digits
  cases fraction with
  | none => exact hwhole
  | some ds =>
    have hfraction := hdigit (h.fraction_digits ds rfl)
    simp [Piece.numeral, hwhole, hfraction]

/-- **The text with an exponent tells the value** of a decimal below one. -/
theorem value_eq_of_scientific_eq {width : Nat} {d d' : Decimal} (hd : 0 < d.coefficient)
    (hd' : 0 < d'.coefficient) (hlt : d.leadingExponent < 0) (hlt' : d'.leadingExponent < 0)
    (h : scientific width d = scientific width d') : d.value = d'.value := by
  obtain ⟨c, cs, hdigits, -, htext⟩ := exists_scientific_eq width hd
  obtain ⟨c', cs', hdigits', hrow, htext'⟩ := exists_scientific_eq width hd'
  rw [htext, htext'] at h
  have hexponent : 'e' ∉ '-' :: padZeros width (Nat.toDigits 10 d'.leadingExponent.natAbs) := by
    intro he
    rcases List.mem_cons.1 he with he | he
    · exact absurd he (by decide)
    · exact absurd (isDigit_of_mem_padZeros isDigit_of_mem_toDigits _ he) (by decide)
  -- the only letter parts the digits from the exponent
  obtain ⟨hmantissa, -, htail⟩ := (List.append_cons_inj_of_notMem
    (e_notMem_numeral (isNumeral_mantissa hrow)) hexponent).1 h.symm
  have habs := congrArg digitsValue (List.cons.inj htail).2
  rw [digitsValue_padZeros, digitsValue_padZeros, digitsValue_toDigits,
    digitsValue_toDigits] at habs
  rw [value_eq_fractionValue_mul d, value_eq_fractionValue_mul d', hdigits, hdigits',
    mantissa_inj hmantissa, show d.leadingExponent = d'.leadingExponent by omega]

end Number

end LoxLang
