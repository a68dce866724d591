/-
  LoxLang.Number.Decimal
  ──────────────────────
  **Decimal fractions.**  Reading a numeral rounds its exact value once.
  Writing a double takes the fewest digits that read back as the same double;
  among those, the decimal nearest to it.

  `Decimal.toFloat`   — the double nearest to a decimal
  `Decimal.exact`     — the decimal that equals a finite double
  `Decimal.shortest`  — the decimal a finite double is written as
-/
import LoxLang.Number.Binary64

namespace LoxLang

open Binary64

/-- The decimal fraction `coefficient / 10 ^ places`. -/
structure Decimal where
  /-- The digits, read as a natural number. -/
  coefficient : Nat
  /-- How many of the digits stand after the point. -/
  places : Nat
  deriving DecidableEq, Repr

namespace Decimal

/-! ## §1. Reading. -/

/-- The rank of the double nearest to a decimal. -/
def nearest (d : Decimal) : Nat :=
  nearestRank (d.coefficient * unitsPerOne) (Nat.pow 10 d.places)

/-- The double nearest to a decimal. -/
def toFloat (d : Decimal) : Float :=
  ofRank false d.nearest

/-- The natural number that a row of decimal digits spells. -/
def digitsValue (cs : List Char) : Nat :=
  cs.foldl (fun n c => 10 * n + (c.toNat - '0'.toNat)) 0

/-- The decimal with these digits before and after its point. -/
def ofDigits (whole fraction : List Char) : Decimal :=
  ⟨digitsValue (whole ++ fraction), fraction.length⟩

/-! ## §2. Writing. -/

/-- The decimal equal to the finite double of rank `r`. -/
def exact (r : Nat) : Decimal :=
  let places := 1074 - doublings r
  ⟨significand r * Nat.pow 2 (doublings r - 1074) * Nat.pow 5 places, places⟩

/-- The number of digits of the coefficient. -/
def digitCount (d : Decimal) : Nat :=
  (Nat.toDigits 10 d.coefficient).length

/-- The exponent of ten of the leading digit of a positive decimal. -/
def leadingExponent (d : Decimal) : Int :=
  (d.digitCount : Int) - 1 - d.places

/-- The decimal near `d` whose coefficient is a multiple of `step` and that reads
back as rank `r`, if one of the two neighbours of `d` does: the nearer of them, and
on a tie the one with the even last digit. -/
def onGrid? (d : Decimal) (r step : Nat) : Option Decimal :=
  let below : Decimal := { d with coefficient := d.coefficient / step * step }
  let above : Decimal := { d with coefficient := (d.coefficient / step + 1) * step }
  if below.nearest = r then
    if above.nearest = r then
      some { d with coefficient := roundHalfEven d.coefficient step * step }
    else some below
  else if above.nearest = r then some above
  else none

/-- The decimal that stands for the finite double of rank `r`: the one with the
fewest digits up to 17, which always suffice, and else the exact one. -/
def shortest (r : Nat) : Decimal :=
  let d := exact r
  let digits := d.digitCount
  ((List.range 17).findSome? fun p => d.onGrid? r (Nat.pow 10 (digits - (p + 1)))).getD d

end Decimal

end LoxLang
