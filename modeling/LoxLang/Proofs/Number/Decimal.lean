/-
  LoxLang.Proofs.Number.Decimal
  ─────────────────────────────
  **Decimals as numbers.**  What a decimal reads as depends on the number that it stands for
  only, and is the nearest double to it.

  Main results:
    * `nearest_eq`     — reading a decimal rounds its value once,
    * `nearest_mono`   — a larger decimal does not read as a smaller double,
    * `nearest_exact`  — the decimal that equals a double reads back as that double.
-/
import LoxLang.Number.Decimal
import LoxLang.Proofs.Number.Rounding
import Mathlib.Algebra.Order.Field.Power
import Mathlib.Tactic.FieldSimp
import Mathlib.Tactic.Positivity

namespace LoxLang.Decimal

open Binary64

/-! ## §1. Reading. -/

/-- The number that a decimal stands for. -/
def value (d : Decimal) : ℚ :=
  d.coefficient / 10 ^ d.places

theorem unitsPerOne_pos : (0 : ℚ) < unitsPerOne := by
  have h : 0 < unitsPerOne := by
    unfold unitsPerOne
    generalize 1074 = n
    exact Nat.pow_pos two_pos
  exact_mod_cast h

/-- The value in units, as the ratio that is rounded. -/
theorem value_mul_unitsPerOne (d : Decimal) :
    d.value * unitsPerOne = (d.coefficient * unitsPerOne : Nat) / (10 ^ d.places : Nat) := by
  unfold value
  push_cast
  ring

theorem exists_isNearest_value (d : Decimal) :
    ∃ r, IsNearest (d.value * unitsPerOne) r ∧ d.nearest = min r infinityRank := by
  rw [value_mul_unitsPerOne]
  exact exists_isNearest _ (Nat.pow_pos (by decide))

/-- **Reading a decimal rounds its value once**, to the nearest double. -/
theorem nearest_eq {d : Decimal} {r : Nat} (h : IsNearest (d.value * unitsPerOne) r) :
    d.nearest = min r infinityRank := by
  obtain ⟨s, hs, hnearest⟩ := d.exists_isNearest_value
  rw [hnearest, h.unique hs]

/-- A larger decimal does not read as a smaller double. -/
theorem nearest_mono {d d' : Decimal} (h : d.value ≤ d'.value) : d.nearest ≤ d'.nearest := by
  obtain ⟨r, hr, hd⟩ := d.exists_isNearest_value
  obtain ⟨s, hs, hd'⟩ := d'.exists_isNearest_value
  rw [hd, hd']
  refine min_le_min_right _ (hr.mono ?_ hs)
  exact mul_le_mul_of_nonneg_right h unitsPerOne_pos.le

/-- Decimals that stand for the same number read alike. -/
theorem nearest_congr {d d' : Decimal} (h : d.value = d'.value) : d.nearest = d'.nearest :=
  le_antisymm (nearest_mono h.le) (nearest_mono h.ge)

/-- A decimal that equals a double reads as that double. -/
theorem nearest_of_value {d : Decimal} {r : Nat} (hr : r ≤ infinityRank)
    (h : d.value * unitsPerOne = units r) : d.nearest = r := by
  have hnearest : IsNearest (d.value * unitsPerOne) r := by
    rw [h]
    exact isNearest_units r
  rw [nearest_eq hnearest, min_eq_left hr]

/-! ## §2. The decimal that equals a double. -/

/-- Five stands in for the halves that the exponent of ten brings in. -/
theorem two_pow_mul_five_pow_div (e n : Nat) :
    (2 : ℚ) ^ (e - n) * 5 ^ (n - e) / 10 ^ (n - e) * 2 ^ n = 2 ^ e := by
  have hten : (10 : ℚ) ^ (n - e) = 2 ^ (n - e) * 5 ^ (n - e) := by
    rw [← mul_pow]
    norm_num
  have hsplit : (2 : ℚ) ^ (e - n) * 2 ^ n = 2 ^ (n - e) * 2 ^ e := by
    rw [← pow_add, ← pow_add, show e - n + n = n - e + e by omega]
  rw [hten]
  field_simp
  exact hsplit

theorem value_exact (r : Nat) : (exact r).value * unitsPerOne = units r := by
  unfold exact value unitsPerOne
  rw [units_eq]
  simp only [Nat.pow_eq]
  generalize 1074 = n
  push_cast
  rw [← two_pow_mul_five_pow_div (doublings r) n]
  ring

theorem nearest_exact {r : Nat} (hr : r ≤ infinityRank) : (exact r).nearest = r :=
  nearest_of_value hr (value_exact r)

/-! ## §3. The leading digit. -/

section LeadingDigit

variable {d : Decimal}

theorem lt_digitCount_iff (hd : 0 < d.coefficient) (j : Nat) :
    j < d.digitCount ↔ 10 ^ j ≤ d.coefficient := by
  unfold digitCount
  rcases Nat.eq_zero_or_pos j with rfl | hj
  · exact iff_of_true Nat.length_toDigits_pos hd
  · rw [← Nat.not_le, Nat.length_toDigits_le_iff (by decide) hj, Nat.not_lt]

/-- The exponents of the leading digit and of the digit before it, as powers of ten. -/
theorem zpow_sub_places (d : Decimal) (j : Nat) :
    (10 : ℚ) ^ ((j : Int) - d.places) = (10 ^ j : Nat) / 10 ^ d.places := by
  rw [zpow_sub₀ (by norm_num), zpow_natCast, zpow_natCast]
  push_cast
  rfl

/-- A decimal lies in the decade of its leading digit. -/
theorem value_mem_decade (hd : 0 < d.coefficient) :
    (10 : ℚ) ^ d.leadingExponent ≤ d.value ∧ d.value < 10 ^ (d.leadingExponent + 1) := by
  obtain ⟨n, hn⟩ : ∃ n, d.digitCount = n + 1 :=
    Nat.exists_eq_add_one.2 ((lt_digitCount_iff hd 0).2 hd)
  have hlower : 10 ^ n ≤ d.coefficient := (lt_digitCount_iff hd n).1 (by omega)
  have hupper : d.coefficient < 10 ^ (n + 1) := by
    rw [← Nat.not_le, ← lt_digitCount_iff hd]
    omega
  have hexponent : d.leadingExponent = (n : Int) - d.places := by
    unfold leadingExponent
    omega
  have hnext : (n : Int) - d.places + 1 = ((n + 1 : Nat) : Int) - d.places := by
    omega
  unfold value
  rw [hexponent, hnext, zpow_sub_places, zpow_sub_places]
  constructor
  · gcongr
  · gcongr

theorem leadingExponent_lt_iff (hd : 0 < d.coefficient) (k : Int) :
    d.leadingExponent < k ↔ d.value < 10 ^ k := by
  obtain ⟨hle, hlt⟩ := value_mem_decade hd
  constructor
  · intro h
    exact hlt.trans_le (zpow_le_zpow_right₀ (by norm_num) h)
  · intro h
    exact (zpow_lt_zpow_iff_right₀ (by norm_num)).1 (hle.trans_lt h)

end LeadingDigit

end LoxLang.Decimal
