/-
  LoxLang.Proofs.Number.Rounding
  ──────────────────────────────
  **Rounding to the nearest double.**  A rank is nearest to a number if no other rank has a
  magnitude that is nearer to it, and one as near only if the rank is even (`IsNearest`).  This
  knows nothing of exponents and remainders, and of no largest double.

  Main results:
    * `exists_isNearest`   — rounding gives the nearest rank, or infinity beyond the range,
    * `IsNearest.mono`     — larger numbers have no smaller nearest rank, so that a number has no
                             more than one,
    * `isNearest_of_near`  — a double is nearest to whatever is near enough to it.
-/
import LoxLang.Number.Binary64
import Mathlib.Algebra.Order.Field.Basic
import Mathlib.Data.Rat.Cast.Order
import Mathlib.Order.Monotone.Basic
import Mathlib.Tactic.Linarith
import Mathlib.Tactic.Ring

namespace LoxLang.Binary64

/-! ## §1. Ranks and magnitudes. -/

theorem stride_eq : stride = 4503599627370496 := by
  decide

theorem infinityRank_eq : infinityRank = 2047 * stride := rfl

/-- A rank is its significand, moved on by its doublings. -/
theorem doublings_mul_stride_add (r : Nat) : doublings r * stride + significand r = r := by
  simp only [significand, doublings, stride_eq]
  omega

theorem significand_lt (r : Nat) : significand r < 2 * stride := by
  simp only [significand, doublings, stride_eq]
  omega

/-- Whatever is doubled has a significand of full length. -/
theorem doublings_eq_zero_or (r : Nat) : doublings r = 0 ∨ stride ≤ significand r := by
  simp only [significand, doublings, stride_eq]
  omega

/-- The magnitude of a significand that is doubled `e` times.  Twice the stride is none, but
stands for the least significand of the next binade. -/
theorem units_add {e m : Nat} (hm : m ≤ 2 * stride) (he : e = 0 ∨ stride ≤ m) :
    units (e * stride + m) = m * 2 ^ e := by
  unfold units
  rw [Nat.pow_eq]
  rcases Nat.lt_or_ge m (2 * stride) with hlt | hge
  · have hdoublings : doublings (e * stride + m) = e := by
      simp only [doublings, stride_eq] at *
      omega
    have hsignificand : significand (e * stride + m) = m := by
      simp only [significand, hdoublings, Nat.add_sub_cancel_left]
    rw [hdoublings, hsignificand]
  · obtain rfl : m = 2 * stride := le_antisymm hm hge
    have hdoublings : doublings (e * stride + 2 * stride) = e + 1 := by
      simp only [doublings, stride_eq]
      omega
    have hsignificand : significand (e * stride + 2 * stride) = stride := by
      rw [significand, hdoublings, stride_eq]
      omega
    rw [hdoublings, hsignificand, Nat.pow_succ, Nat.mul_comm 2 stride, Nat.mul_assoc,
      Nat.mul_comm 2]

@[simp] theorem units_zero : units 0 = 0 := by
  decide

theorem units_eq (r : Nat) : units r = significand r * 2 ^ doublings r := rfl

/-- The next rank is one more of what the binade counts in. -/
theorem units_succ (r : Nat) : units (r + 1) = units r + 2 ^ doublings r := by
  have hm : significand r + 1 ≤ 2 * stride := significand_lt r
  have he : doublings r = 0 ∨ stride ≤ significand r + 1 :=
    (doublings_eq_zero_or r).imp_right Nat.le_succ_of_le
  have hnext := units_add hm he
  rw [← Nat.add_assoc, doublings_mul_stride_add] at hnext
  rw [hnext, units_eq, Nat.succ_mul]

theorem strictMono_units : StrictMono units := by
  refine strictMono_nat_of_lt_succ ?_
  intro r
  rw [units_succ]
  exact Nat.lt_add_of_pos_right (Nat.two_pow_pos _)

/-! ## §2. The nearest rank. -/

/-- No rank is nearer to `x`, in units, than rank `r`, and another is as near only if `r` is
even. -/
def IsNearest (x : ℚ) (r : Nat) : Prop :=
  ∀ s, s ≠ r → |x - units r| ≤ |x - units s| ∧ (|x - units r| = |x - units s| → Even r)

/-- Of two numbers the right one is the nearer one to whatever is right of their middle. -/
theorem abs_sub_right_le_iff {a b : ℚ} (h : a < b) (x : ℚ) :
    |x - b| ≤ |x - a| ↔ a + b ≤ 2 * x := by
  have hsquares : (x - a) ^ 2 - (x - b) ^ 2 = (b - a) * (2 * x - (a + b)) := by ring
  rw [← sq_le_sq, ← sub_nonneg, hsquares, mul_nonneg_iff_of_pos_left (sub_pos.2 h), sub_nonneg]

/-- Of two numbers the left one is the nearer one to whatever is left of their middle. -/
theorem abs_sub_left_le_iff {a b : ℚ} (h : a < b) (x : ℚ) :
    |x - a| ≤ |x - b| ↔ 2 * x ≤ a + b := by
  have hsquares : (x - b) ^ 2 - (x - a) ^ 2 = (b - a) * (a + b - 2 * x) := by ring
  rw [← sq_le_sq, ← sub_nonneg, hsquares, mul_nonneg_iff_of_pos_left (sub_pos.2 h), sub_nonneg]

theorem units_cast_lt {r s : Nat} (h : r < s) : (units r : ℚ) < units s := by
  exact_mod_cast strictMono_units h

/-- A rank is nearest to what lies between its middles with the other ranks. -/
theorem isNearest_iff {x : ℚ} {r : Nat} :
    IsNearest x r ↔
      (∀ s < r, (units s + units r : ℚ) ≤ 2 * x ∧ ((units s + units r : ℚ) = 2 * x → Even r))
        ∧ ∀ s > r, 2 * x ≤ units r + units s ∧ (2 * x = units r + units s → Even r) := by
  have hleft : ∀ s < r, (|x - units r| ≤ |x - units s| ↔ (units s + units r : ℚ) ≤ 2 * x)
      ∧ (|x - units r| = |x - units s| ↔ (units s + units r : ℚ) = 2 * x) := by
    intro s hs
    have hle := abs_sub_right_le_iff (units_cast_lt hs) x
    have hge := abs_sub_left_le_iff (units_cast_lt hs) x
    exact ⟨hle, by rw [le_antisymm_iff, hle, hge, ← le_antisymm_iff]⟩
  have hright : ∀ s > r, (|x - units r| ≤ |x - units s| ↔ 2 * x ≤ units r + units s)
      ∧ (|x - units r| = |x - units s| ↔ 2 * x = units r + units s) := by
    intro s hs
    have hle := abs_sub_left_le_iff (units_cast_lt hs) x
    have hge := abs_sub_right_le_iff (units_cast_lt hs) x
    exact ⟨hle, by rw [le_antisymm_iff, hle, hge, ← le_antisymm_iff]⟩
  constructor
  · intro h
    refine ⟨?_, ?_⟩
    · intro s hs
      rw [← (hleft s hs).1, ← (hleft s hs).2]
      exact h s hs.ne
    · intro s hs
      rw [← (hright s hs).1, ← (hright s hs).2]
      exact h s hs.ne'
  · rintro ⟨hbelow, habove⟩ s hs
    rcases Nat.lt_or_gt_of_ne hs with hs | hs
    · rw [(hleft s hs).1, (hleft s hs).2]
      exact hbelow s hs
    · rw [(hright s hs).1, (hright s hs).2]
      exact habove s hs

/-- The lower of two neighbours is nearest up to their middle. -/
theorem isNearest_lower {x : ℚ} {s : Nat} (hx : units s ≤ x) (hle : 2 * x ≤ units s + units (s + 1))
    (heven : 2 * x = units s + units (s + 1) → Even s) : IsNearest x s := by
  refine isNearest_iff.2 ⟨?_, ?_⟩
  · intro t ht
    have hlt := units_cast_lt ht
    exact ⟨by linarith, fun heq => absurd heq (by linarith)⟩
  · intro t ht
    have hmono : (units (s + 1) : ℚ) ≤ units t := by
      exact_mod_cast strictMono_units.monotone ht
    exact ⟨by linarith, fun heq => heven (by linarith)⟩

/-- The upper of two neighbours is nearest from their middle on. -/
theorem isNearest_upper {x : ℚ} {s : Nat} (hx : x ≤ units (s + 1))
    (hle : (units s + units (s + 1) : ℚ) ≤ 2 * x)
    (heven : (units s + units (s + 1) : ℚ) = 2 * x → Even (s + 1)) : IsNearest x (s + 1) := by
  refine isNearest_iff.2 ⟨?_, ?_⟩
  · intro t ht
    have hmono : (units t : ℚ) ≤ units s := by
      exact_mod_cast strictMono_units.monotone (Nat.le_of_lt_succ ht)
    exact ⟨by linarith, fun heq => heven (by linarith)⟩
  · intro t ht
    have hlt := units_cast_lt ht
    exact ⟨by linarith, fun heq => absurd heq (by linarith)⟩

/-- A double is nearest to itself. -/
theorem isNearest_units (r : Nat) : IsNearest (units r) r := by
  have hlt := units_cast_lt (Nat.lt_succ_self r)
  refine isNearest_lower le_rfl (by linarith) ?_
  intro heq
  exact absurd heq (by linarith)

/-- A double is the nearest one to whatever is no further away from it than its share of `2⁵⁴`. -/
theorem isNearest_of_near {x : ℚ} {r : Nat} (h : 2 ^ 54 * |x - units r| < units r) :
    IsNearest x r := by
  have hgap : ∀ s, (units (s + 1) : ℚ) ≤ 2 ^ 53 * (units (s + 1) - units s) := by
    intro s
    have hsignificand : significand s + 1 ≤ 2 ^ 53 := significand_lt s
    rw [units_succ, units_eq]
    push_cast
    rw [add_sub_cancel_left, ← add_one_mul]
    gcongr
    exact_mod_cast hsignificand
  have hnear : |x - units r| < units r / 2 ^ 54 := by
    rw [lt_div_iff₀' (by norm_num)]
    exact h
  obtain ⟨hlow, hhigh⟩ := abs_lt.1 hnear
  refine isNearest_iff.2 ⟨?_, ?_⟩
  · intro s hs
    obtain ⟨t, rfl⟩ := Nat.exists_eq_add_one.2 (Nat.zero_lt_of_lt hs)
    have hmono : (units s : ℚ) ≤ units t := by
      exact_mod_cast strictMono_units.monotone (Nat.le_of_lt_succ hs)
    have hlower := hgap t
    exact ⟨by linarith, fun heq => absurd heq (by linarith)⟩
  · intro s hs
    have hmono : (units (r + 1) : ℚ) ≤ units s := by
      exact_mod_cast strictMono_units.monotone hs
    have hlt := units_cast_lt (Nat.lt_succ_self r)
    have hupper := hgap r
    exact ⟨by linarith, fun heq => absurd heq (by linarith)⟩

/-- **Rounding keeps the order**: larger numbers have no smaller nearest rank. -/
theorem IsNearest.mono {x y : ℚ} {r s : Nat} (hxy : x ≤ y) (hr : IsNearest x r)
    (hs : IsNearest y s) : r ≤ s := by
  by_contra! hlt
  obtain ⟨hx, hevenr⟩ := (isNearest_iff.1 hr).1 s hlt
  obtain ⟨hy, hevens⟩ := (isNearest_iff.1 hs).2 r hlt
  -- both numbers are the middle of the two ranks, which then are even
  have hr2 := hevenr (by linarith)
  have hs2 := hevens (by linarith)
  have hbetween : s + 1 < r := by
    rcases hr2 with ⟨k, rfl⟩
    rcases hs2 with ⟨l, rfl⟩
    omega
  -- so there is a rank in between, which is nearer
  have hnearer := ((isNearest_iff.1 hr).1 (s + 1) hbetween).1
  have hsucc := units_cast_lt (Nat.lt_succ_self s)
  linarith

/-- A number has no more than one nearest rank. -/
theorem IsNearest.unique {x : ℚ} {r s : Nat} (hr : IsNearest x r) (hs : IsNearest x s) : r = s :=
  le_antisymm (hr.mono le_rfl hs) (hs.mono le_rfl hr)

/-! ## §3. Rounding to integers. -/

/-- The nearest integer is the quotient or the one above it, by the middle between them. -/
theorem roundHalfEven_cases (n d : Nat) :
    (2 * (n % d) ≤ d ∧ (2 * (n % d) = d → Even (n / d)) ∧ roundHalfEven n d = n / d)
      ∨ (d ≤ 2 * (n % d) ∧ (2 * (n % d) = d → Even (n / d + 1))
        ∧ roundHalfEven n d = n / d + 1) := by
  unfold roundHalfEven
  dsimp only
  split
  · next h =>
    have hlt := Nat.compare_eq_lt.1 h
    exact .inl ⟨hlt.le, fun heq => absurd heq hlt.ne, rfl⟩
  · next h =>
    have heq := Nat.compare_eq_eq.1 h
    rcases Nat.even_or_odd (n / d) with heven | hodd
    · refine .inl ⟨heq.le, fun _ => heven, ?_⟩
      rw [Nat.even_iff.1 heven, Nat.add_zero]
    · refine .inr ⟨heq.ge, fun _ => hodd.add_one, ?_⟩
      rw [Nat.odd_iff.1 hodd]
  · next h =>
    have hgt := Nat.compare_eq_gt.1 h
    exact .inr ⟨hgt.le, fun heq => absurd heq hgt.ne', rfl⟩

/-! ## §4. Rounding to doubles. -/

/-- At the binade that rounding picks, the quotient is a significand: below two strides, and
of full length if anything is doubled. -/
theorem quotient_bounds (n d : Nat) :
    let e := (n / d).log2 - 52
    n / (d * 2 ^ e) < 2 * stride ∧ (e = 0 ∨ stride ≤ n / (d * 2 ^ e)) := by
  intro e
  have hstride : stride = 2 ^ 52 := rfl
  rw [← Nat.div_div_eq_div_mul, hstride]
  refine ⟨?_, ?_⟩
  · rw [Nat.div_lt_iff_lt_mul (Nat.two_pow_pos e), ← Nat.pow_succ', ← Nat.pow_add]
    refine lt_of_lt_of_le Nat.lt_log2_self (Nat.pow_le_pow_right two_pos ?_)
    omega
  · by_cases he : e = 0
    · exact .inl he
    · right
      have hne : n / d ≠ 0 := by
        intro h
        exact he (by simp only [e, h, Nat.log2_zero, Nat.zero_sub])
      rw [Nat.le_div_iff_mul_le (Nat.two_pow_pos e), ← Nat.pow_add]
      refine le_trans (Nat.pow_le_pow_right two_pos ?_) (Nat.log2_self_le hne)
      omega

/-- The neighbour below a ratio of naturals is nearest to it up to their middle with the
neighbour above, and the neighbour above from there on. -/
theorem isNearest_div {n d s : Nat} (hd : 0 < d) (hlower : units s * d ≤ n)
    (hupper : n ≤ units (s + 1) * d) :
    (2 * n ≤ (units s + units (s + 1)) * d → (2 * n = (units s + units (s + 1)) * d → Even s) →
        IsNearest (n / d) s)
      ∧ ((units s + units (s + 1)) * d ≤ 2 * n →
        (2 * n = (units s + units (s + 1)) * d → Even (s + 1)) → IsNearest (n / d) (s + 1)) := by
  have hd' : (0 : ℚ) < d := by exact_mod_cast hd
  have hmiddle : ((units s + units (s + 1) : ℚ) = 2 * (n / d)) ↔
      2 * n = (units s + units (s + 1)) * d := by
    rw [← mul_div_assoc, eq_div_iff hd'.ne', eq_comm]
    exact_mod_cast Iff.rfl
  refine ⟨?_, ?_⟩
  · intro hle heven
    refine isNearest_lower ?_ ?_ fun heq => heven (hmiddle.1 heq.symm)
    · rw [le_div_iff₀ hd']
      exact_mod_cast hlower
    · rw [← mul_div_assoc, div_le_iff₀ hd']
      exact_mod_cast hle
  · intro hle heven
    refine isNearest_upper ?_ ?_ fun heq => heven (hmiddle.1 heq)
    · rw [div_le_iff₀ hd']
      exact_mod_cast hupper
    · rw [← mul_div_assoc, le_div_iff₀ hd']
      exact_mod_cast hle

/-- **Rounding gives the nearest rank**, and infinity beyond the range. -/
theorem exists_isNearest (n : Nat) {d : Nat} (hd : 0 < d) :
    ∃ r, IsNearest (n / d) r ∧ nearestRank n d = min r infinityRank := by
  obtain ⟨hlt, hfull⟩ := quotient_bounds n d
  set e := (n / d).log2 - 52
  have hrank : nearestRank n d = min (e * stride + roundHalfEven n (d * 2 ^ e)) infinityRank := rfl
  have hcases := roundHalfEven_cases n (d * 2 ^ e)
  have hdiv := Nat.div_add_mod n (d * 2 ^ e)
  have hmod := Nat.mod_lt n (Nat.mul_pos hd (Nat.two_pow_pos e))
  set q := n / (d * 2 ^ e)
  -- the ranks of the quotient and of its successor are neighbours of the number
  have hlower : units (e * stride + q) * d = d * 2 ^ e * q := by
    rw [units_add hlt.le hfull]
    ring
  have hupper : units (e * stride + q + 1) * d = d * 2 ^ e * q + d * 2 ^ e := by
    rw [Nat.add_assoc, units_add (m := q + 1) hlt (hfull.imp_right Nat.le_succ_of_le)]
    ring
  have heven : Even (e * stride) := Nat.even_mul.2 (.inr (by decide))
  obtain ⟨hbelow, habove⟩ := isNearest_div (n := n) (s := e * stride + q) hd (by omega) (by omega)
  rw [Nat.add_mul, hlower, hupper] at hbelow habove
  rcases hcases with ⟨hle, htie, hround⟩ | ⟨hle, htie, hround⟩
  · refine ⟨e * stride + q, hbelow (by omega) ?_, by rw [hrank, hround]⟩
    intro heq
    exact heven.add (htie (by omega))
  · refine ⟨e * stride + q + 1, habove (by omega) ?_, by rw [hrank, hround, Nat.add_assoc]⟩
    intro heq
    rw [Nat.add_assoc]
    exact heven.add (htie (by omega))

end LoxLang.Binary64
