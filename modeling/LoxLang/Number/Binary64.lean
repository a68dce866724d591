/-
  LoxLang.Number.Binary64
  ───────────────────────
  **Doubles as exact numbers.**  The finite doubles without their sign, in
  increasing order, are numbered 0, 1, 2, …: this number is the *rank* of a
  double, and it is what its bits spell once the sign is removed.  The double
  of rank `r` is `units r · 2⁻¹⁰⁷⁴`, so that comparisons and rounding need
  natural numbers only.

  `units`        — the exact magnitude of a rank, in units of `2⁻¹⁰⁷⁴`
  `nearestRank`  — the rank nearest to a ratio of naturals, a tie to even
-/

namespace LoxLang.Binary64

/-! ## §1. Sign, rank and magnitude. -/

/-- The weight of the sign bit. -/
def signWeight : Nat := Nat.pow 2 63

/-- The number of ranks that share an exponent. -/
def stride : Nat := Nat.pow 2 52

/-- The number of units in the number one: a unit is the least positive double. -/
def unitsPerOne : Nat := Nat.pow 2 1074

/-- The rank of infinity, one past the largest finite rank. -/
def infinityRank : Nat := 0x7FF * stride

/-- Is the sign bit of `x` set? -/
def isNegative (x : Float) : Bool :=
  signWeight ≤ x.toBits.toNat

/-- The rank of the magnitude of `x`. -/
def rank (x : Float) : Nat :=
  x.toBits.toNat % signWeight

/-- The double with this sign and rank. -/
def ofRank (negative : Bool) (r : Nat) : Float :=
  Float.ofBits (UInt64.ofNat (if negative then signWeight + r else r))

/-- How often the unit is doubled in the binade of rank `r`: the subnormal
doubles and the least normal ones share the unit itself. -/
def doublings (r : Nat) : Nat :=
  r / stride - 1

/-- The significand of rank `r`, as an integer below `2⁵³`. -/
def significand (r : Nat) : Nat :=
  r - doublings r * stride

/-- The magnitude of rank `r` in units. -/
def units (r : Nat) : Nat :=
  significand r * Nat.pow 2 (doublings r)

/-! ## §2. Rounding. -/

/-- The integer nearest to `n / d`; of two equally near, the even one. -/
def roundHalfEven (n d : Nat) : Nat :=
  let q := n / d
  match compare (2 * (n % d)) d with
  | .lt => q
  | .eq => q + q % 2
  | .gt => q + 1

/-- The rank of the double nearest to `n / d` units, with the even significand
on a tie, and infinity beyond the range. -/
def nearestRank (n d : Nat) : Nat :=
  let e := (n / d).log2 - 52
  min (e * stride + roundHalfEven n (d * Nat.pow 2 e)) infinityRank

end LoxLang.Binary64
