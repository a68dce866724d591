/-
  LoxLang.Proofs.Number.Fewest
  ────────────────────────────
  **The decimal of a double has the fewest digits** that read back as the double, never more than
  17; and of the decimals with so few digits that do, none is nearer to the double
  (`shortest_has_fewest_digits`).

  The numbers of `n` digits in the decade of the double are a grid, and the double has a neighbour
  on either side there.  If any number of the grid reads back, then the neighbour on its side does,
  since rounding keeps the order.  So it is enough to look at the two.
-/
import LoxLang.Proofs.Number.Shortest

namespace LoxLang.Decimal

open Binary64

/-! ## §1. Numbers of few digits. -/

/-- A number that is spelled with at most `n` digits and zeros, wherever its point stands. -/
def HasDigits (q : ℚ) (n : Nat) : Prop :=
  ∃ (m : Nat) (k : ℤ), m < 10 ^ n ∧ q = m * 10 ^ k

variable {r n : Nat}

/-- How far the double is from its neighbours on a grid. -/
theorem value_exact_sub_below (r n : Nat) :
    (exact r).value - (below r n).value
      = ((exact r).coefficient % step r n : Nat) / 10 ^ (exact r).places := by
  have hdiv := Nat.div_add_mod' (exact r).coefficient (step r n)
  unfold below value
  dsimp only
  rw [← sub_div, ← Nat.cast_sub (Nat.div_mul_le_self _ _)]
  congr 2
  omega

theorem value_above_sub_exact (r n : Nat) :
    (above r n).value - (exact r).value
      = (step r n - (exact r).coefficient % step r n : Nat) / 10 ^ (exact r).places := by
  have hdiv := Nat.div_add_mod' (exact r).coefficient (step r n)
  have hmod := Nat.mod_lt (exact r).coefficient (step_pos r n)
  unfold above value
  dsimp only
  rw [← sub_div, ← Nat.cast_sub (by rw [Nat.succ_mul]; omega)]
  congr 2
  rw [Nat.succ_mul]
  omega

theorem value_below_le (r n : Nat) : (below r n).value ≤ (exact r).value := by
  rw [← sub_nonneg, value_exact_sub_below]
  positivity

theorem value_le_above (r n : Nat) : (exact r).value ≤ (above r n).value := by
  rw [← sub_nonneg, value_above_sub_exact]
  positivity

/-- Few digits make a large number only if zeros follow them. -/
theorem lt_add_of_pow_lt {m j : Nat} {k : ℤ} (hm : m < 10 ^ n) (h : (10 ^ j : ℚ) < m * 10 ^ k) :
    (j : ℤ) < n + k := by
  have hpow : (10 : ℚ) ^ (j : ℤ) < 10 ^ ((n : ℤ) + k) := by
    calc (10 : ℚ) ^ (j : ℤ) < m * 10 ^ k := by
          rw [zpow_natCast]
          exact h
      _ ≤ 10 ^ n * 10 ^ k := by
          gcongr
          exact_mod_cast hm.le
      _ = 10 ^ ((n : ℤ) + k) := by
          rw [zpow_add₀ (by norm_num), zpow_natCast]
  exact (zpow_lt_zpow_iff_right₀ (by norm_num)).1 hpow

/-- **No number of `n` digits lies between the neighbours** on the grid of `n` digits. -/
theorem HasDigits.le_below_or_above_le {q : ℚ} (h : HasDigits q n) (hr : 0 < r) (hn : 0 < n)
    (hle : n ≤ (exact r).digitCount) : q ≤ (below r n).value ∨ (above r n).value ≤ q := by
  obtain ⟨m, k, hm, rfl⟩ := h
  set places := (exact r).places
  set digits := (exact r).digitCount
  have hstart := pow_le_coefficient_below hr hn
  set row := (exact r).coefficient / step r n
  have hbelow : (below r n).value = (row * step r n : Nat) / 10 ^ places := rfl
  have habove : (above r n).value = ((row + 1) * step r n : Nat) / 10 ^ places := rfl
  by_contra! hbetween
  obtain ⟨hlow, hhigh⟩ := hbetween
  rw [hbelow, div_lt_iff₀ (by positivity)] at hlow
  rw [habove, lt_div_iff₀ (by positivity)] at hhigh
  -- in the decade, digits that are so few are followed by zeros up to the grid
  have hshift : (m : ℚ) * 10 ^ k * 10 ^ places = m * 10 ^ (k + places) := by
    rw [zpow_add₀ (by norm_num), zpow_natCast, mul_assoc]
  rw [hshift] at hlow hhigh
  have hexponent : ((digits - n : Nat) : ℤ) ≤ k + places := by
    have hpow : (10 ^ (digits - 1) : ℚ) < m * 10 ^ (k + places) := by
      refine lt_of_le_of_lt ?_ hlow
      exact_mod_cast hstart
    have hlt := lt_add_of_pow_lt hm hpow
    omega
  obtain ⟨j, hj⟩ := Int.le.dest hexponent
  have hgrid : (m : ℚ) * 10 ^ (k + places) = (m * 10 ^ j * step r n : Nat) := by
    rw [← hj, zpow_add₀ (by norm_num), zpow_natCast, zpow_natCast, step]
    push_cast
    ring
  rw [hgrid] at hlow hhigh
  have hlow' := Nat.lt_of_mul_lt_mul_right (Nat.cast_lt.1 hlow)
  have hhigh' := Nat.lt_of_mul_lt_mul_right (Nat.cast_lt.1 hhigh)
  omega

/-! ## §2. Neighbours that read back. -/

section Neighbours

variable {d e : Decimal}

/-- What reads back from below makes the neighbour read back that is closer to the double. -/
theorem nearest_below (hr : r ≤ infinityRank) (hd : d.nearest = r)
    (hle : d.value ≤ (below r n).value) : (below r n).nearest = r := by
  have hupper := nearest_mono (value_below_le r n)
  have hlower := nearest_mono hle
  rw [nearest_exact hr] at hupper
  rw [hd] at hlower
  exact le_antisymm hupper hlower

theorem nearest_above (hr : r ≤ infinityRank) (hd : d.nearest = r)
    (hle : (above r n).value ≤ d.value) : (above r n).nearest = r := by
  have hupper := nearest_mono hle
  have hlower := nearest_mono (value_le_above r n)
  rw [hd] at hupper
  rw [nearest_exact hr] at hlower
  exact le_antisymm hupper hlower

/-- Nothing is found on a grid only if neither neighbour reads back. -/
theorem onGrid?_eq_none_iff : (exact r).onGrid? r (step r n) = none
    ↔ (below r n).nearest ≠ r ∧ (above r n).nearest ≠ r := by
  rw [onGrid?_exact]
  split
  · next hbelow => split <;> simp [hbelow]
  · next hbelow => split <;> simp_all

/-- What is found on a grid is no further from the double than a neighbour that reads back. -/
theorem abs_sub_exact_le_of_onGrid? (h : (exact r).onGrid? r (step r n) = some e) :
    ((below r n).nearest = r →
        |e.value - (exact r).value| ≤ (exact r).value - (below r n).value)
      ∧ ((above r n).nearest = r →
        |e.value - (exact r).value| ≤ (above r n).value - (exact r).value) := by
  have hbelow : |(below r n).value - (exact r).value| = (exact r).value - (below r n).value := by
    rw [abs_sub_comm, abs_of_nonneg (sub_nonneg.2 (value_below_le r n))]
  have habove : |(above r n).value - (exact r).value| = (above r n).value - (exact r).value :=
    abs_of_nonneg (sub_nonneg.2 (value_le_above r n))
  rw [onGrid?_exact] at h
  split at h
  · split at h
    · -- the nearer of two that read back
      obtain rfl := Option.some.inj h
      rcases nearer_cases r n with ⟨hle, heq⟩ | ⟨hle, heq⟩
      · rw [heq, hbelow]
        refine ⟨fun _ => le_rfl, fun _ => ?_⟩
        rw [value_exact_sub_below, value_above_sub_exact]
        gcongr
        omega
      · rw [heq, habove]
        refine ⟨fun _ => ?_, fun _ => le_rfl⟩
        rw [value_exact_sub_below, value_above_sub_exact]
        gcongr
        omega
    · next hnot =>
      obtain rfl := Option.some.inj h
      exact ⟨fun _ => hbelow.le, fun h => absurd h hnot⟩
  · next hnot =>
    split at h
    · obtain rfl := Option.some.inj h
      exact ⟨fun h => absurd h hnot, fun _ => habove.le⟩
    · cases h

end Neighbours

/-! ## §3. Seventeen digits are enough. -/

theorem nearest_of_near {d : Decimal} (hr : r ≤ infinityRank)
    (h : 2 ^ 54 * |d.value - (exact r).value| < (exact r).value) : d.nearest = r := by
  have hpos := unitsPerOne_pos
  have hnear : IsNearest (d.value * unitsPerOne) r := by
    refine isNearest_of_near ?_
    rw [← value_exact, ← sub_mul, abs_mul, abs_of_pos hpos, ← mul_assoc]
    exact mul_lt_mul_of_pos_right h hpos
  rw [nearest_eq hnear, min_eq_left hr]

/-- With all the digits of the double, the grid has the double itself on it. -/
theorem below_of_digitCount_le (hn : (exact r).digitCount ≤ n) : below r n = exact r := by
  unfold below step
  rw [Nat.sub_eq_zero_of_le hn, pow_zero, Nat.div_one, Nat.mul_one]

/-- Half a step of the grid of 17 digits is less than the double's share of `2⁵⁴`. -/
theorem half_step_lt (hr : 0 < r) (hdigits : 17 ≤ (exact r).digitCount) {j : Nat}
    (hj : 2 * j ≤ step r 17) : 2 ^ 54 * ((j : ℚ) / 10 ^ (exact r).places) < (exact r).value := by
  have hstep : 10 ^ ((exact r).digitCount - 1) = 10 ^ 16 * step r 17 := by
    rw [step, ← Nat.pow_add]
    congr 1
    omega
  have hlarge := pow_le_coefficient_exact hr
  rw [hstep] at hlarge
  have hpos := step_pos r 17
  have hlt : 2 ^ 54 * j < (exact r).coefficient := by
    omega
  unfold value
  rw [← mul_div_assoc]
  gcongr
  exact_mod_cast hlt

/-- **On the grid of 17 digits a neighbour reads back.** -/
theorem onGrid?_seventeen_ne_none (hr : 0 < r) (hfinite : r ≤ infinityRank) :
    (exact r).onGrid? r (step r 17) ≠ none := by
  rw [ne_eq, onGrid?_eq_none_iff, not_and_or, not_not, not_not]
  rcases Nat.le_total (exact r).digitCount 17 with hdigits | hdigits
  · left
    rw [below_of_digitCount_le hdigits]
    exact nearest_exact hfinite
  · rcases nearer_cases r 17 with ⟨hle, -⟩ | ⟨hle, -⟩
    · left
      refine nearest_of_near hfinite ?_
      rw [abs_sub_comm, abs_of_nonneg (sub_nonneg.2 (value_below_le r 17)), value_exact_sub_below]
      exact half_step_lt hr hdigits hle
    · right
      refine nearest_of_near hfinite ?_
      rw [abs_of_nonneg (sub_nonneg.2 (value_le_above r 17)), value_above_sub_exact]
      exact half_step_lt hr hdigits (by omega)

/-! ## §4. The decimal of a double. -/

/-- The grids are tried from the coarsest on, and one is found. -/
theorem exists_first_grid (hr : 0 < r) (hfinite : r ≤ infinityRank) :
    ∃ n, 0 < n ∧ n ≤ 17 ∧ (exact r).onGrid? r (step r n) = some (shortest r)
      ∧ ∀ k, 0 < k → k < n → (exact r).onGrid? r (step r k) = none := by
  have hfound := onGrid?_seventeen_ne_none hr hfinite
  unfold shortest
  dsimp only
  cases hfind : (List.range 17).findSome? fun p => (exact r).onGrid? r (step r (p + 1)) with
  | none =>
    rw [List.findSome?_eq_none_iff] at hfind
    exact absurd (hfind 16 (List.mem_range.2 (by decide))) hfound
  | some d =>
    obtain ⟨before, p, after, hrange, hp, hbefore⟩ := List.findSome?_eq_some_iff.1 hfind
    have hsorted := List.pairwise_lt_range (n := 17)
    rw [hrange, List.pairwise_append, List.pairwise_cons] at hsorted
    have hmem : p ∈ List.range 17 := by
      rw [hrange]
      simp
    have hlt := List.mem_range.1 hmem
    refine ⟨p + 1, Nat.succ_pos p, hlt, ?_, ?_⟩
    · change _ = some (Option.getD (List.findSome? (fun p => (exact r).onGrid? r (step r (p + 1)))
        (List.range 17)) (exact r))
      rw [hfind]
      exact hp
    · intro k hk hkp
      obtain ⟨j, rfl⟩ := Nat.exists_eq_add_one.2 hk
      -- what is smaller than `p` was tried before it
      have hj : j ∈ List.range 17 := List.mem_range.2 (by omega)
      rw [hrange, List.mem_append, List.mem_cons] at hj
      rcases hj with hj | hj | hj
      · exact hbefore j hj
      · omega
      · have hgt := hsorted.2.1.1 j hj
        omega

/-- On the grid of all its digits the double itself reads back. -/
theorem onGrid?_digitCount_ne_none (hfinite : r ≤ infinityRank) :
    (exact r).onGrid? r (step r (exact r).digitCount) ≠ none := by
  rw [ne_eq, onGrid?_eq_none_iff, not_and_or, not_not]
  left
  rw [below_of_digitCount_le le_rfl]
  exact nearest_exact hfinite

/-- Where nothing is found on a grid, nothing of its digits reads back. -/
theorem not_hasDigits_of_onGrid?_eq_none {d : Decimal} (hr : 0 < r) (hfinite : r ≤ infinityRank)
    (hn : 0 < n) (hle : n ≤ (exact r).digitCount)
    (hnone : (exact r).onGrid? r (step r n) = none) (hd : d.nearest = r) :
    ¬ HasDigits d.value n := by
  obtain ⟨hbelow, habove⟩ := onGrid?_eq_none_iff.1 hnone
  intro h
  rcases h.le_below_or_above_le hr hn hle with hle | hle
  · exact hbelow (nearest_below hfinite hd hle)
  · exact habove (nearest_above hfinite hd hle)

/-- Only zero needs no digit, and it does not read back as another double. -/
theorem pos_of_hasDigits {d : Decimal} (hr : 0 < r) (hd : d.nearest = r)
    (h : HasDigits d.value n) : 0 < n := by
  refine Nat.pos_of_ne_zero ?_
  rintro rfl
  obtain ⟨m, k, hm, hvalue⟩ := h
  obtain rfl : m = 0 := by omega
  have hzero : d.nearest = 0 := by
    refine nearest_of_value (Nat.zero_le _) ?_
    rw [hvalue, units_zero, Nat.cast_zero, zero_mul, zero_mul]
  omega

/-- A number on the grid has `n` digits unless it is beyond the decade, and then it has one. -/
theorem hasDigits_mul_step (hn : 0 < n) {row : Nat} (hrow : row ≤ 10 ^ n) :
    HasDigits (value { exact r with coefficient := row * step r n }) n := by
  have hvalue : value { exact r with coefficient := row * step r n }
      = row * 10 ^ (((exact r).digitCount - n : Nat) - (exact r).places : ℤ) := by
    rw [zpow_sub_places, value, step, ← mul_div_assoc]
    push_cast
    rfl
  rcases Nat.lt_or_eq_of_le hrow with hlt | rfl
  · exact ⟨row, _, hlt, hvalue⟩
  · refine ⟨1, n + (((exact r).digitCount - n : Nat) - (exact r).places), ?_, ?_⟩
    · exact Nat.one_lt_pow hn.ne' (by decide)
    · rw [hvalue, zpow_add₀ (by norm_num), zpow_natCast]
      push_cast
      ring

/-- What is found on the grid of `n` digits has no more than those. -/
theorem hasDigits_of_onGrid? {e : Decimal} (hr : 0 < r) (hn : 0 < n)
    (hle : n ≤ (exact r).digitCount) (h : (exact r).onGrid? r (step r n) = some e) :
    HasDigits e.value n := by
  have hdecade : (exact r).coefficient < 10 ^ n * step r n := by
    rw [step, ← Nat.pow_add, Nat.add_sub_cancel' hle, ← Nat.not_le,
      ← lt_digitCount_iff (coefficient_exact_pos hr)]
    exact lt_irrefl _
  have hrow := (Nat.div_lt_iff_lt_mul (step_pos r n)).2 hdecade
  rcases (of_onGrid? h).2 with rfl | rfl
  · exact hasDigits_mul_step hn hrow.le
  · exact hasDigits_mul_step hn hrow

/-- **The decimal of a double has the fewest digits** that read back as the double, at most 17, and
no decimal with as few digits that reads back is nearer to the double. -/
theorem shortest_has_fewest_digits (hr : 0 < r) (hfinite : r ≤ infinityRank) :
    ∃ n ≤ 17, HasDigits (shortest r).value n ∧ ∀ d : Decimal, d.nearest = r →
      (∀ k, HasDigits d.value k → n ≤ k)
        ∧ (HasDigits d.value n →
          |(shortest r).value - (exact r).value| ≤ |d.value - (exact r).value|) := by
  obtain ⟨n, hn, hseventeen, hfound, hfirst⟩ := exists_first_grid hr hfinite
  have hle : n ≤ (exact r).digitCount := by
    by_contra! hlt
    exact onGrid?_digitCount_ne_none hfinite (hfirst _ (digitCount_exact_pos hr) hlt)
  obtain ⟨hbelow, habove⟩ := abs_sub_exact_le_of_onGrid? hfound
  refine ⟨n, hseventeen, hasDigits_of_onGrid? hr hn hle hfound, ?_⟩
  intro d hd
  refine ⟨?_, ?_⟩
  · intro k hdigits
    by_contra! hlt
    have hk := pos_of_hasDigits hr hd hdigits
    exact not_hasDigits_of_onGrid?_eq_none hr hfinite hk (hlt.le.trans hle) (hfirst k hk hlt) hd
      hdigits
  · intro hdigits
    rcases hdigits.le_below_or_above_le hr hn hle with hside | hside
    · refine (hbelow (nearest_below hfinite hd hside)).trans ?_
      rw [abs_sub_comm]
      exact (sub_le_sub_left hside _).trans (le_abs_self _)
    · refine (habove (nearest_above hfinite hd hside)).trans ?_
      exact (sub_le_sub_right hside _).trans (le_abs_self _)

end LoxLang.Decimal
