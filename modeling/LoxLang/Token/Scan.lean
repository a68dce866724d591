/-
  LoxLang.Token.Scan
  ──────────────────
  **From pieces to tokens.**  The line of a piece is the start line plus the
  newlines before it.  A source in which some piece is a fault has no tokens: all
  its faults are given instead, in order.
-/
import LoxLang.Number.Decimal
import LoxLang.Token.Piece

namespace LoxLang

/-! ## §1. Lexical faults. -/

/-- What is wrong with a piece of the source. -/
inductive LexicalCause where
  /-- A character that starts nothing. -/
  | unexpectedCharacter (c : Char)
  /-- A numeral that runs into a word. -/
  | invalidNumber (text : String)
  /-- A string without its closing quote. -/
  | unterminatedString
  deriving DecidableEq

/-- What is said about a lexical fault. -/
def LexicalCause.message : LexicalCause → String
  | .unexpectedCharacter c => "Unexpected character '" ++ c.toString ++ "'"
  | .invalidNumber text => "Invalid number '" ++ text ++ "'"
  | .unterminatedString => "Unterminated string"

/-- A faulty piece, with the line it starts on. -/
structure LexicalFault where
  line : Int
  cause : LexicalCause
  deriving DecidableEq

/-- The message of a lexical fault. -/
def LexicalFault.message (f : LexicalFault) : String :=
  "Line " ++ toString f.line ++ ": " ++ f.cause.message

/-! ## §2. Pieces, placed on lines. -/

namespace Piece

/-- The number of newlines in the piece. -/
def newlines (p : Piece) : Nat :=
  p.chars.count '\n'

/-- Pair every piece with the line it starts on, the first one being `line`. -/
def place (line : Int) : List Piece → List (Int × Piece)
  | [] => []
  | p :: ps => (line, p) :: place (line + p.newlines) ps

/-- The kind of the token that a piece is, if it is one. -/
def kind? : Piece → Option Token.Kind
  | .symbol s => some (.symbol s)
  | .word cs =>
      match Keyword.ofWord? (String.ofList cs) with
      | some k => some (.keyword k)
      | none => some .identifier
  | .number whole fraction =>
      some (.number (Decimal.ofDigits whole (fraction.getD [])).toFloat)
  | .string body => some (.string (String.ofList body))
  | _ => none

/-- What is wrong with a piece, if it is a fault. -/
def cause? : Piece → Option LexicalCause
  | .unexpected c => some (.unexpectedCharacter c)
  | .badNumber cs => some (.invalidNumber (String.ofList cs))
  | .openString _ => some .unterminatedString
  | _ => none

/-- The token that a piece on this line is, if it is one. -/
def token? (line : Int) (p : Piece) : Option Token :=
  p.kind?.map fun kind => ⟨kind, String.ofList p.chars, line⟩

/-- The fault that a piece on this line is, if it is one. -/
def fault? (line : Int) (p : Piece) : Option LexicalFault :=
  p.cause?.map fun cause => ⟨line, cause⟩

end Piece

/-! ## §3. Scanning. -/

/-- The tokens of `source`, whose first line is number `line`; or, if some piece is
a fault, every fault in order. -/
def scan (source : String) (line : Int) : Except (List LexicalFault) Token.Stream :=
  let placed := Piece.place line (Piece.cut source.toList)
  match placed.filterMap fun (l, p) => p.fault? l with
  | [] => .ok ⟨placed.filterMap fun (l, p) => p.token? l, line + source.toList.count '\n'⟩
  | faults => .error faults

end LoxLang
