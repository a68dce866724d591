/-
  LoxLang.Machine.Operator
  ────────────────────────
  **Operators on values**, and what goes wrong at run time.  Only numbers are
  compared, even for equality; numbers and strings are added.
-/
import LoxLang.Machine.Value

namespace LoxLang

/-! ## §1. Run-time errors. -/

/-- What went wrong. -/
inductive RuntimeCause where
  | operandNotNumber
  | operandsNotNumbers
  | operandsNotNumbersOrStrings
  | undefinedVariable (name : String)
  /-- A value was called that is no function; its text is quoted. -/
  | notCallable (text : String)
  | wrongArity (expected given : Nat)
  deriving DecidableEq, Repr

/-- What is said about a run-time error, up to its line. -/
def RuntimeCause.message : RuntimeCause → String
  | .operandNotNumber => "Operand must be a number"
  | .operandsNotNumbers => "Operands must be numbers"
  | .operandsNotNumbersOrStrings => "Operands must be numbers or strings"
  | .undefinedVariable name => "Undefined variable " ++ name
  | .notCallable text => "Can only call functions, not " ++ text
  | .wrongArity expected given =>
      "Expected " ++ toString expected ++ " arguments but got " ++ toString given

/-- An error of the running program. -/
structure RuntimeError where
  cause : RuntimeCause
  line : Int
  deriving DecidableEq, Repr

/-- The message of a run-time error. -/
def RuntimeError.message (e : RuntimeError) : String :=
  e.cause.message ++ " at line " ++ toString e.line

/-! ## §2. Division. -/

namespace Number

open Binary64

/-- The quotient of two numbers.  There is none by zero, of either sign. -/
def quotient? (x y : Float) : Option Float :=
  if y == 0 then none else some (x / y)

/-- A result that is no number. -/
def nan : Float := .ofBits 0x7FF8000000000000

/-- The infinity of this sign. -/
def infinity (negative : Bool) : Float := ofRank negative infinityRank

/-- Division.  By zero, what is zero or no number gives no number, and anything else gives an
infinity, whose sign both signs decide; otherwise the quotient is asked for. -/
def divide? (x y : Float) : Option Float :=
  if y == 0 then
    if x == 0 || x.isNaN then some nan else some (infinity (isNegative x != isNegative y))
  else quotient? x y

/-- No quotient is asked for where there is none. -/
theorem isSome_divide? (x y : Float) : (divide? x y).isSome := by
  unfold divide?
  split
  · split
    · rfl
    · rfl
  · next hzero =>
    -- the guard has seen the one divisor for which there is no quotient
    unfold quotient?
    rw [if_neg hzero]
    rfl

end Number

/-! ## §3. Applying operators. -/

variable {κ : Type}

/-- Does the comparison hold of two numbers?  Nothing but "not equal" holds of a
number that is not one. -/
def Comparison.holds (x y : Float) : Comparison → Bool
  | .notEqual => x != y
  | .equal => x == y
  | .greater => decide (y < x)
  | .greaterEqual => decide (y ≤ x)
  | .less => decide (x < y)
  | .lessEqual => decide (x ≤ y)

/-- The result of an arithmetic operator; a division has one as well. -/
def Arithmetic.apply (x y : Float) : Arithmetic → Float
  | .subtract => x - y
  | .divide => (Number.divide? x y).get (Number.isSome_divide? x y)
  | .multiply => x * y

/-- The result of an operator between two values. -/
def StrictOp.apply (op : StrictOp) (line : Int) (left right : Value κ) :
    Except RuntimeError (Value κ) :=
  match op, left, right with
  | .add, .number x, .number y => .ok (.number (x + y))
  | .add, .string s, .string t => .ok (.string (s ++ t))
  | .add, _, _ => .error ⟨.operandsNotNumbersOrStrings, line⟩
  | .comparison c, .number x, .number y => .ok (.bool (c.holds x y))
  | .arithmetic a, .number x, .number y => .ok (.number (a.apply x y))
  | _, _, _ => .error ⟨.operandsNotNumbers, line⟩

/-- The result of an operator in front of a value. -/
def UnaryOp.apply (op : UnaryOp) (line : Int) (operand : Value κ) :
    Except RuntimeError (Value κ) :=
  match op, operand with
  | .not, v => .ok (.bool (!v.truth))
  | .negate, .number x => .ok (.number (-x))
  | .negate, _ => .error ⟨.operandNotNumber, line⟩

/-- Does the left operand of a connective settle its value? -/
def Connective.settledBy (left : Value κ) : Connective → Bool
  | .or => left.truth
  | .and => !left.truth

end LoxLang
