/-
  LoxLang.Proofs.Number.Double
  ────────────────────────────
  **Doubles by sign and rank.**  Core takes a double apart into a sign, a significand and an
  exponent.  What it finds there is told by the sign and the rank (`unpack_eq`), and so are the
  number that a finite double is (`value_eq`), whether it is finite, and its negation.

  That packing undoes unpacking is the library's (`pack_unpack`, `Float.ofBits_toBits`), in
  files that only `Mathlib` as a whole takes in.
-/
import LoxLang.Proofs.Number.Decimal
import Mathlib

namespace LoxLang.Binary64

open Float.Model Float.Model.UnpackedFloat

/-- The number that a finite double is; zero for infinities and for what is no number. -/
def value (x : Float) : ℚ :=
  match x.toModel.unpack with
  | .finite s m e _ => s.apply m * 2 ^ e
  | _ => 0

/-! ## §1. The fields of a word. -/

/-- The sign stands in the highest of 64 bits. -/
theorem signWeight_eq : signWeight = 9223372036854775808 := by
  decide

section Fields

variable (b : BitVec 64)

/-- The lowest bits of a word are the mantissa. -/
theorem toNat_unpackMantissa :
    (@unpackMantissa .binary64 b).toNat = b.toNat % signWeight % stride := by
  have hfield : (@unpackMantissa .binary64 b).toNat = b.toNat % stride := by
    rw [unpackMantissa_def, BitVec.extractLsb'_toNat, Nat.shiftRight_zero]
    rfl
  rw [hfield, stride_eq, signWeight_eq]
  omega

/-- The bits between the mantissa and the sign are the exponent. -/
theorem toNat_unpackExponent :
    (@unpackExponent .binary64 b).toNat = b.toNat % signWeight / stride := by
  have hfield : (@unpackExponent .binary64 b).toNat = b.toNat / stride % 2048 := by
    rw [unpackExponent_def, BitVec.extractLsb'_toNat, Nat.shiftRight_eq_div_pow]
    rfl
  rw [hfield, stride_eq, signWeight_eq]
  omega

theorem unpackMantissa_eq_zero_iff :
    @unpackMantissa .binary64 b = 0#_ ↔ b.toNat % signWeight % stride = 0 := by
  rw [← BitVec.toNat_inj, toNat_unpackMantissa]
  rfl

theorem unpackExponent_eq_zero_iff :
    @unpackExponent .binary64 b = 0#_ ↔ b.toNat % signWeight / stride = 0 := by
  rw [← BitVec.toNat_inj, toNat_unpackExponent]
  rfl

/-- The exponent of infinities and of what is no number. -/
theorem unpackExponent_eq_ones_iff :
    @unpackExponent .binary64 b = -1#_ ↔ b.toNat % signWeight / stride = 2047 := by
  rw [← BitVec.toNat_inj, toNat_unpackExponent]
  rfl

/-- The highest bit is the sign. -/
theorem toNat_unpackSign :
    (@unpackSign .binary64 b).toNat = b.toNat / signWeight % 2 := by
  rw [unpackSign_def, BitVec.extractLsb'_toNat, Nat.shiftRight_eq_div_pow]
  rfl

/-- The sign that the bit above the rank stands for. -/
def signOf (negative : Bool) : Sign :=
  if negative then .negative else .positive

theorem ofBitVec_unpackSign :
    Sign.ofBitVec (@unpackSign .binary64 b) = signOf (signWeight ≤ b.toNat) := by
  have hsign := toNat_unpackSign b
  have hlt := b.isLt
  have hzero : @unpackSign .binary64 b = 0#1 ↔ ¬ signWeight ≤ b.toNat := by
    rw [← BitVec.toNat_inj, hsign, signWeight_eq]
    simp
    omega
  unfold Sign.ofBitVec signOf
  by_cases h : signWeight ≤ b.toNat
  · simp [hzero, h]
  · simp [hzero, h]

end Fields

/-! ## §2. Taking a word apart. -/

/-- A rank that is not zero has a significand. -/
theorem significand_pos {r : Nat} (hr : r ≠ 0) : 0 < significand r := by
  have hsplit := doublings_mul_stride_add r
  rcases doublings_eq_zero_or r with h | h
  · rw [h] at hsplit
    omega
  · exact lt_of_lt_of_le (by decide) h

/-- A double taken apart, by its sign and its rank. -/
def unpacked (s : Sign) (r : Nat) : UnpackedFloat :=
  if hr : r = 0 then .zero s
  else if r < infinityRank then .finite s (significand r) (doublings r - 1074) (significand_pos hr)
  else if r = infinityRank then .infinity s
  else .notANumber

theorem finite_congr {s : Sign} {m m' : Nat} {e e' : Int} (hm : m = m') (he : e = e')
    (h : 0 < m) (h' : 0 < m') : finite s m e h = finite s m' e' h' := by
  subst hm he
  rfl

section Cases

variable {s : Sign} {r : Nat}

/-- Zeros in the exponent and the significand are zero. -/
theorem unpacked_zero (hexponent : r / stride = 0) (hmantissa : r % stride = 0) :
    unpacked s r = .zero s := by
  have hr : r = 0 := by
    rw [← Nat.div_add_mod r stride, hexponent, hmantissa, Nat.mul_zero]
  rw [unpacked, dif_pos hr]

/-- Zeros in the exponent alone are a subnormal double, whose significand has no hidden bit. -/
theorem unpacked_subnormal (hexponent : r / stride = 0) (hmantissa : 0 < r % stride) :
    unpacked s r = .finite s (r % stride) (-1074) hmantissa := by
  have hpos : r ≠ 0 := by
    rintro rfl
    exact absurd hmantissa (by decide)
  have hfinite : r < infinityRank := by
    rw [infinityRank_eq, stride_eq] at *
    omega
  have hdoublings : doublings r = 0 := by
    rw [doublings, hexponent]
  have hsplit := doublings_mul_stride_add r
  rw [unpacked, dif_neg hpos, if_pos hfinite]
  refine finite_congr ?_ ?_ _ _
  · rw [hdoublings] at hsplit
    rw [stride_eq] at *
    omega
  · rw [hdoublings]
    rfl

/-- A word with some bits of the exponent set, and some not, is a normal number. -/
theorem unpacked_normal (hzeros : r / stride ≠ 0) (hones : r / stride < 2047)
    (hpos : 0 < stride + r % stride) :
    unpacked s r = .finite s (stride + r % stride) ((r / stride : Nat) - 1075) hpos := by
  have hne : r ≠ 0 := by
    rintro rfl
    exact hzeros (Nat.zero_div _)
  have hfinite : r < infinityRank := by
    rw [infinityRank_eq, stride_eq] at *
    omega
  have hdoublings : doublings r = r / stride - 1 := rfl
  have hsplit := doublings_mul_stride_add r
  rw [unpacked, dif_neg hne, if_pos hfinite]
  refine finite_congr ?_ ?_ _ _
  · rw [hdoublings] at hsplit
    rw [stride_eq] at *
    omega
  · rw [stride_eq] at *
    omega

/-- With all ones in the exponent, a double is infinite or no number. -/
theorem unpacked_ones (hones : r / stride = 2047) :
    unpacked s r = if r % stride = 0 then .infinity s else .notANumber := by
  have hne : r ≠ 0 := by
    rintro rfl
    exact absurd hones (by decide)
  have hfinite : ¬ r < infinityRank := by
    rw [infinityRank_eq, stride_eq] at *
    omega
  have hinfinity : r = infinityRank ↔ r % stride = 0 := by
    rw [infinityRank_eq, stride_eq] at *
    omega
  rw [unpacked, dif_neg hne, if_neg hfinite]
  simp only [hinfinity]

end Cases

/-- A one in front of the mantissa counts one stride. -/
theorem toNat_one_append (m : BitVec 52) : (1#1 ++ m).toNat = stride + m.toNat := by
  have hor := Nat.two_pow_add_eq_or_of_lt m.isLt 1
  rw [BitVec.toNat_append, BitVec.toNat_ofNat, Nat.shiftLeft_eq, Nat.mul_comm]
  exact hor.symm

/-- **A word is taken apart by its sign and its rank.** -/
theorem unpack_eq (b : BitVec 64) :
    UnpackedFloat.unpack .binary64 b
      = unpacked (signOf (signWeight ≤ b.toNat)) (b.toNat % signWeight) := by
  have hmantissa := toNat_unpackMantissa b
  have hexponent := toNat_unpackExponent b
  have hempty := unpackMantissa_eq_zero_iff b
  have hzeros := unpackExponent_eq_zero_iff b
  have hones := unpackExponent_eq_ones_iff b
  have hlt : b.toNat % signWeight / stride < 2048 := by
    rw [stride_eq, signWeight_eq]
    omega
  unfold UnpackedFloat.unpack
  dsimp only
  rw [ofBitVec_unpackSign]
  generalize b.toNat % signWeight = r at *
  split
  · next h =>
    rw [unpacked_ones (hones.1 h)]
    exact if_congr hempty rfl rfl
  · next h =>
    have hnotOnes := mt hones.2 h
    split
    · next h =>
      split
      · next hm => rw [unpacked_zero (hzeros.1 h) (hempty.1 hm)]
      · next hm =>
        rw [unpacked_subnormal (hzeros.1 h) (Nat.pos_of_ne_zero (mt hempty.2 hm))]
        refine finite_congr hmantissa ?_ _ _
        rw [hexponent, hzeros.1 h]
        rfl
    · next h =>
      rw [unpacked_normal (mt hzeros.2 h) (by omega) (by rw [stride_eq]; omega)]
      refine finite_congr ?_ ?_ _ _
      · rw [toNat_one_append, hmantissa]
      · have hbias : Format.exponentBias .binary64 = 1023 := by decide
        rw [hexponent, hbias]
        omega

/-! ## §3. Doubles. -/

/-- A double is taken apart by its sign and its rank. -/
theorem toModel_unpack (x : Float) :
    x.toModel.unpack = unpacked (signOf (isNegative x)) (rank x) :=
  unpack_eq _

/-- A double has the sign and the rank that it is made of. -/
theorem ofRank_rank (x : Float) : ofRank (isNegative x) (rank x) = x := by
  have hword : (if isNegative x then signWeight + rank x else rank x) = x.toBits.toNat := by
    have hlt := x.toBits.toNat_lt
    unfold isNegative rank
    rw [signWeight_eq]
    split
    · next h =>
      simp only [decide_eq_true_eq] at h
      omega
    · next h =>
      simp only [decide_eq_true_eq] at h
      omega
  unfold ofRank
  rw [hword, UInt64.ofNat_toNat, Float.ofBits_toBits]

/-- Sign and rank tell doubles apart. -/
theorem ext_of_rank {x y : Float} (hsign : isNegative x = isNegative y) (hrank : rank x = rank y) :
    x = y := by
  rw [← ofRank_rank x, ← ofRank_rank y, hsign, hrank]

/-- The finite doubles are those below infinity. -/
theorem isFinite_iff (x : Float) : x.isFinite = true ↔ rank x < infinityRank := by
  have hpos : 0 < infinityRank := by decide
  change x.toModel.unpack.isFinite = true ↔ _
  rw [toModel_unpack]
  unfold unpacked
  split
  · next h =>
    simp [UnpackedFloat.isFinite, h, hpos]
  · split
    · next h =>
      simp [UnpackedFloat.isFinite, h]
    · next h =>
      split <;> simp [UnpackedFloat.isFinite, h]

/-- What is finite is a number. -/
theorem isNaN_of_isFinite {x : Float} (h : x.isFinite = true) : x.isNaN = false := by
  change x.toModel.unpack.isFinite = true at h
  change x.toModel.unpack.isNaN = false
  cases hx : x.toModel.unpack with
  | notANumber =>
    rw [hx] at h
    exact absurd h Bool.false_ne_true
  | infinity s => rfl
  | zero s => rfl
  | finite s m e hm => rfl

/-- The magnitude that a rank has as a number. -/
def magnitude (r : Nat) : ℚ :=
  units r / unitsPerOne

/-- The spacing of a binade, as a share of the units of one. -/
theorem two_zpow_sub (e : Nat) : (2 : ℚ) ^ ((e : Int) - 1074) = 2 ^ e / unitsPerOne := by
  have hunits : (1074 : Int) = (1074 : Nat) := rfl
  unfold unitsPerOne
  rw [hunits]
  generalize 1074 = n
  rw [zpow_sub₀ two_ne_zero, zpow_natCast, zpow_natCast, Nat.pow_eq, Nat.cast_pow, Nat.cast_ofNat]

/-- **A finite double is its magnitude, with its sign.** -/
theorem value_eq {x : Float} (h : x.isFinite = true) :
    value x = if isNegative x then -magnitude (rank x) else magnitude (rank x) := by
  rw [isFinite_iff] at h
  unfold value
  rw [toModel_unpack]
  unfold unpacked
  by_cases hzero : rank x = 0
  · rw [dif_pos hzero, hzero, magnitude, units_zero, Nat.cast_zero, zero_div, neg_zero, ite_self]
  · rw [dif_neg hzero, if_pos h, magnitude, units_eq]
    dsimp only
    rw [two_zpow_sub]
    cases isNegative x with
    | false =>
      simp only [signOf, Sign.apply]
      push_cast
      ring
    | true =>
      simp only [signOf, Sign.apply]
      push_cast
      ring

/-! ## §4. Negation. -/

/-- Negation turns the sign and leaves the rank. -/
theorem neg_unpacked (s : Bool) (r : Nat) :
    (unpacked (signOf s) r).neg = unpacked (signOf !s) r := by
  have hsign : -signOf s = signOf !s := by
    cases s <;> rfl
  unfold unpacked
  split
  · rw [← hsign]
    rfl
  · split
    · rw [← hsign]
      rfl
    · split
      · rw [← hsign]
        rfl
      · rfl

/-- The word that has this sign and rank. -/
theorem toNat_word (s : Bool) {r : Nat} (hr : r < signWeight) :
    (UInt64.ofNat (if s then signWeight + r else r)).toBitVec.toNat
      = if s then signWeight + r else r := by
  have hlt : (if s then signWeight + r else r) < 2 ^ 64 := by
    rw [signWeight_eq] at *
    split <;> omega
  exact Nat.mod_eq_of_lt hlt

/-- The rank is read back from a word, whatever its sign. -/
theorem word_mod (s : Bool) {r : Nat} (hr : r < signWeight) :
    (if s then signWeight + r else r) % signWeight = r := by
  cases s <;> simp [Nat.mod_eq_of_lt hr]

/-- A word that is made of a sign and a rank is taken apart into these. -/
theorem unpack_word (s : Bool) {r : Nat} (hr : r < signWeight) :
    UnpackedFloat.unpack .binary64 (UInt64.ofNat (if s then signWeight + r else r)).toBitVec
      = unpacked (signOf s) r := by
  have hword := toNat_word s hr
  have hsign : decide (signWeight ≤ if s then signWeight + r else r) = s := by
    cases s <;> simp [hr]
  rw [unpack_eq, hword, hsign, word_mod s hr]

/-- A double made of a sign and a rank is packed from them. -/
theorem ofRank_eq (s : Bool) {r : Nat} (hr : r < signWeight) :
    ofRank s r = ⟨pack (unpacked (signOf s) r)⟩ := by
  rw [← unpack_word s hr]
  rfl

/-- Packing what a word was taken apart into loses nothing, up to infinity. -/
theorem unpack_pack_unpacked (s : Bool) {r : Nat} (hr : r ≤ infinityRank) :
    (pack (unpacked (signOf s) r)).unpack = unpacked (signOf s) r := by
  have hlt : r < signWeight := lt_of_le_of_lt hr (by decide)
  have hunpack := unpack_word s hlt
  have hnumber : @isNaNBits .binary64
      (UInt64.ofNat (if s then signWeight + r else r)).toBitVec = false := by
    unfold isNaNBits
    rw [decide_eq_false_iff_not, ne_eq, unpackExponent_eq_ones_iff, unpackMantissa_eq_zero_iff,
      toNat_word s hlt, word_mod s hlt]
    rw [infinityRank_eq, stride_eq] at hr
    rw [stride_eq]
    omega
  rw [← hunpack]
  change UnpackedFloat.unpack .binary64 (UnpackedFloat.pack .binary64 _) = _
  rw [pack_unpack, hnumber, if_neg Bool.false_ne_true]

/-- **Negation turns the sign over and leaves the rank.** -/
theorem neg_ofRank (s : Bool) {r : Nat} (hr : r ≤ infinityRank) :
    -ofRank s r = ofRank (!s) r := by
  have hlt : r < signWeight := lt_of_le_of_lt hr (by decide)
  rw [ofRank_eq s hlt, ofRank_eq (!s) hlt, ← neg_unpacked]
  change Float.ofModel (pack (pack (unpacked (signOf s) r)).unpack.neg) = _
  rw [unpack_pack_unpacked s hr]

end LoxLang.Binary64
