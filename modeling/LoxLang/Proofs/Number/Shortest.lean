/-
  LoxLang.Proofs.Number.Shortest
  ──────────────────────────────
  **The decimal that stands for a double.**  It reads back as the double, and its leading digit
  is where that of the double is, or one place higher.
-/
import LoxLang.Proofs.Number.Decimal

namespace LoxLang.Decimal

open Binary64

/-! ## §1. Neighbours on a grid. -/

section Grid

variable (r n : Nat)

/-- The grid whose numbers have at most `n` digits in the decade of rank `r`. -/
def step : Nat :=
  10 ^ ((exact r).digitCount - n)

/-- The greatest number of the grid that is not above the double. -/
def below : Decimal :=
  { exact r with coefficient := (exact r).coefficient / step r n * step r n }

/-- The number of the grid that comes next. -/
def above : Decimal :=
  { exact r with coefficient := ((exact r).coefficient / step r n + 1) * step r n }

/-- The one of the two that is nearer to the double. -/
def nearer : Decimal :=
  { exact r with coefficient := roundHalfEven (exact r).coefficient (step r n) * step r n }

theorem step_pos : 0 < step r n :=
  Nat.pow_pos (by decide)

/-- The nearer neighbour is at most half a step away. -/
theorem nearer_cases :
    (2 * ((exact r).coefficient % step r n) ≤ step r n ∧ nearer r n = below r n)
      ∨ (step r n ≤ 2 * ((exact r).coefficient % step r n) ∧ nearer r n = above r n) := by
  unfold nearer below above
  rcases roundHalfEven_cases (exact r).coefficient (step r n) with
    ⟨hle, -, hround⟩ | ⟨hle, -, hround⟩
  · exact .inl ⟨hle, by rw [hround]⟩
  · exact .inr ⟨hle, by rw [hround]⟩

theorem onGrid?_exact : (exact r).onGrid? r (step r n) =
    if (below r n).nearest = r then
      if (above r n).nearest = r then some (nearer r n) else some (below r n)
    else if (above r n).nearest = r then some (above r n)
    else none := rfl

end Grid

variable {r : Nat}

/-- What is found on a grid reads back, and is a neighbour on that grid. -/
theorem of_onGrid? {n : Nat} {e : Decimal} (h : (exact r).onGrid? r (step r n) = some e) :
    e.nearest = r ∧ (e = below r n ∨ e = above r n) := by
  rw [onGrid?_exact] at h
  split at h
  · next hbelow =>
    split at h
    · next habove =>
      obtain rfl := Option.some.inj h
      rcases nearer_cases r n with ⟨-, heq⟩ | ⟨-, heq⟩
      · rw [heq]
        exact ⟨hbelow, .inl rfl⟩
      · rw [heq]
        exact ⟨habove, .inr rfl⟩
    · obtain rfl := Option.some.inj h
      exact ⟨hbelow, .inl rfl⟩
  · split at h
    · next habove =>
      obtain rfl := Option.some.inj h
      exact ⟨habove, .inr rfl⟩
    · cases h

/-! ## §2. The decimal of a double. -/

/-- The decimal of a double is on one of the grids, or equals the double. -/
theorem shortest_cases (r : Nat) :
    (∃ p < 17, (exact r).onGrid? r (step r (p + 1)) = some (shortest r))
      ∨ shortest r = exact r := by
  unfold shortest
  dsimp only
  generalize hfind : List.findSome? _ (List.range 17) = found
  cases found with
  | none => exact .inr rfl
  | some e =>
    obtain ⟨p, hp, he⟩ := List.exists_of_findSome?_eq_some hfind
    exact .inl ⟨p, List.mem_range.1 hp, he⟩

/-- **The decimal of a double reads back** as that double. -/
theorem nearest_shortest (hr : r ≤ infinityRank) : (shortest r).nearest = r := by
  rcases shortest_cases r with ⟨p, -, h⟩ | h
  · exact (of_onGrid? h).1
  · rw [h]
    exact nearest_exact hr

/-- A shortened decimal keeps its places: digits become zeros. -/
theorem places_shortest (r : Nat) : (shortest r).places = (exact r).places := by
  rcases shortest_cases r with ⟨p, -, h⟩ | h
  · rcases (of_onGrid? h).2 with h | h
    · rw [h]
      rfl
    · rw [h]
      rfl
  · rw [h]

theorem coefficient_exact_pos (hr : 0 < r) : 0 < (exact r).coefficient := by
  have hunits : (0 : ℚ) < units r := by
    have hzero := strictMono_units hr
    exact_mod_cast Nat.zero_lt_of_lt hzero
  refine Nat.pos_of_ne_zero ?_
  intro h
  rw [← value_exact, value, h, Nat.cast_zero, zero_div, zero_mul] at hunits
  exact lt_irrefl _ hunits

theorem digitCount_exact_pos (hr : 0 < r) : 0 < (exact r).digitCount :=
  (lt_digitCount_iff (coefficient_exact_pos hr) 0).2 (coefficient_exact_pos hr)

/-- The exact decimal begins with the first of its digits. -/
theorem pow_le_coefficient_exact (hr : 0 < r) :
    10 ^ ((exact r).digitCount - 1) ≤ (exact r).coefficient := by
  have hdigits := digitCount_exact_pos hr
  exact (lt_digitCount_iff (coefficient_exact_pos hr) _).1 (by omega)

/-- The beginning of the decade is on every grid. -/
theorem pow_le_coefficient_below (hr : 0 < r) {n : Nat} (hn : 0 < n) :
    10 ^ ((exact r).digitCount - 1) ≤ (below r n).coefficient := by
  have hdvd : step r n ∣ 10 ^ ((exact r).digitCount - 1) := pow_dvd_pow 10 (by omega)
  rw [← Nat.div_mul_cancel hdvd]
  exact Nat.mul_le_mul_right _ (Nat.div_le_div_right (pow_le_coefficient_exact hr))

/-- The decimal of a double does not fall below the decade of the double. -/
theorem pow_le_coefficient_shortest (hr : 0 < r) :
    10 ^ ((exact r).digitCount - 1) ≤ (shortest r).coefficient := by
  rcases shortest_cases r with ⟨p, -, h⟩ | h
  · have hgrid := pow_le_coefficient_below hr (Nat.succ_pos p)
    rcases (of_onGrid? h).2 with h | h
    · rw [h]
      exact hgrid
    · rw [h]
      exact hgrid.trans (Nat.mul_le_mul_right _ (Nat.le_succ _))
  · rw [h]
    exact pow_le_coefficient_exact hr

theorem coefficient_shortest_pos (hr : 0 < r) : 0 < (shortest r).coefficient :=
  lt_of_lt_of_le (Nat.pow_pos (by decide)) (pow_le_coefficient_shortest hr)

/-- Shortening may carry into a new leading digit, and never loses one. -/
theorem leadingExponent_exact_le (hr : 0 < r) :
    (exact r).leadingExponent ≤ (shortest r).leadingExponent := by
  have hdigits := digitCount_exact_pos hr
  have hlt := (lt_digitCount_iff (coefficient_shortest_pos hr) _).2 (pow_le_coefficient_shortest hr)
  unfold leadingExponent
  rw [places_shortest]
  omega

/-! ## §3. Where plain numerals begin. -/

/-- The double nearest to one ten-thousandth is no less than that. -/
theorem le_units_nearest_tenThousandth :
    unitsPerOne ≤ 10 ^ 4 * units (nearest ⟨1, 4⟩) := by
  decide +kernel

theorem zpow_neg_four : (10 : ℚ) ^ (-4 : Int) = 1 / 10 ^ 4 := by
  norm_num

/-- The comparison with one ten-thousandth, in units. -/
theorem value_exact_lt_iff (r : Nat) :
    (exact r).value < 10 ^ (-4 : Int) ↔ units r * 10 ^ 4 < unitsPerOne := by
  have hcast : (units r * 10 ^ 4 : ℚ) < unitsPerOne ↔ units r * 10 ^ 4 < unitsPerOne := by
    exact_mod_cast Iff.rfl
  rw [← hcast, ← value_exact, zpow_neg_four, lt_div_iff₀ (by norm_num), mul_right_comm]
  exact (mul_lt_iff_lt_one_left unitsPerOne_pos).symm

/-- **A double is written from the place of one ten-thousandth on** exactly if it is no less
than that.  Its decimal may be larger than the double, but not so as to get there. -/
theorem leadingExponent_shortest_lt_iff (hr : 0 < r) (hfinite : r < infinityRank) :
    (shortest r).leadingExponent < -4 ↔ units r * 10 ^ 4 < unitsPerOne := by
  rw [← value_exact_lt_iff]
  constructor
  · intro h
    rw [← leadingExponent_lt_iff (coefficient_exact_pos hr)]
    exact (leadingExponent_exact_le hr).trans_lt h
  · intro h
    by_contra hge
    rw [leadingExponent_lt_iff (coefficient_shortest_pos hr), not_lt, zpow_neg_four] at hge
    -- the double nearest to a ten-thousandth would be no larger than this one
    have hmono : nearest ⟨1, 4⟩ ≤ (shortest r).nearest := nearest_mono (by simpa [value] using hge)
    rw [nearest_shortest hfinite.le] at hmono
    have hle := le_units_nearest_tenThousandth.trans
      (Nat.mul_le_mul_left _ (strictMono_units.monotone hmono))
    rw [value_exact_lt_iff] at h
    omega

end LoxLang.Decimal
