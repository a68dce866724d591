/-
  LoxLang.Number.Text
  ───────────────────
  **The written form of a number.**  A whole number is written out digit by
  digit whatever its size, a fraction takes its shortest digits, and an
  exponent appears only for fractions below one ten-thousandth.
-/
import LoxLang.Number.Decimal

namespace LoxLang.Number

open Binary64

/-! ## §1. The rules of the format. -/

/-- What a format for fractions decides. -/
structure FractionFormat where
  /-- The least exponent of ten, of the leading digit, that is written without
  an exponent. -/
  leastPlain : Int
  /-- The least number of digits of an exponent. -/
  exponentWidth : Nat

/-- Fractions from `0.0001` on are written plainly, and an exponent has at least
two digits. -/
def FractionFormat.printed : FractionFormat := ⟨-4, 2⟩

/-! ## §2. Layout. -/

/-- `cs` with zeros in front, up to `width` characters. -/
def padZeros (width : Nat) (cs : List Char) : List Char :=
  List.replicate (width - cs.length) '0' ++ cs

/-- `cs` without the zeros at its end. -/
def dropZerosEnd (cs : List Char) : List Char :=
  (cs.reverse.dropWhile (· == '0')).reverse

/-- A decimal with digits on both sides of a point. -/
def plain (d : Decimal) : List Char :=
  let whole := Nat.toDigits 10 (d.coefficient / Nat.pow 10 d.places)
  let fraction := padZeros d.places (Nat.toDigits 10 (d.coefficient % Nat.pow 10 d.places))
  let kept := dropZerosEnd fraction
  whole ++ '.' :: (if kept.isEmpty then ['0'] else kept)

/-- A positive decimal below one, with an exponent of ten of at least `width`
digits. -/
def scientific (width : Nat) (d : Decimal) : List Char :=
  let exponent := padZeros width (Nat.toDigits 10 d.leadingExponent.natAbs)
  match dropZerosEnd (Nat.toDigits 10 d.coefficient) with
  | [] => ['0']
  | [c] => c :: 'e' :: '-' :: exponent
  | c :: cs => c :: '.' :: cs ++ 'e' :: '-' :: exponent

/-- The text of a positive decimal that is not a whole number. -/
def FractionFormat.write (f : FractionFormat) (d : Decimal) : List Char :=
  if d.leadingExponent < f.leastPlain then scientific f.exponentWidth d else plain d

/-! ## §3. Numbers. -/

/-- Is the finite double of rank `r` a whole number? -/
def isWhole (r : Nat) : Bool :=
  units r % unitsPerOne == 0

/-- The text of a magnitude, given by its rank. -/
def magnitudeText (r : Nat) : List Char :=
  if r = infinityRank then ['i', 'n', 'f']
  else if isWhole r then Nat.toDigits 10 (units r / unitsPerOne)
  else FractionFormat.printed.write (Decimal.shortest r)

/-- The text of a number as programs print it: both zeros keep their sign. -/
def text (x : Float) : String :=
  if x.isNaN then "nan"
  else String.ofList ((if isNegative x then ['-'] else []) ++ magnitudeText (rank x))

/-- The text of a number in a printed tree, where zero has no sign. -/
def literalText (x : Float) : String :=
  if rank x = 0 then "0" else text x

end LoxLang.Number
