/-
  LoxLang.Token.Piece
  ───────────────────
  **Cutting a source into pieces.**  Every source is one row of pieces, each as
  long as it can be: blanks, comments, tokens, and the three kinds of lexical
  fault.  A piece remembers all of its characters (`Piece.chars`), so that the
  pieces of a source, put together, are the source again (`flatMap_chars_cut`).
-/
import LoxLang.Text.Blank
import LoxLang.Token.Basic

namespace LoxLang

/-! ## §1. Character classes. -/

/-- A character that may start a word: a letter or an underscore.  Letters and digits
are those of ASCII alone. -/
def isWordStart (c : Char) : Bool := c.isAlpha || c == '_'

/-- A character that may go on a word. -/
def isWordChar (c : Char) : Bool := isWordStart c || c.isDigit

/-! ## §2. Pieces. -/

/-- One piece of a source. -/
inductive Piece where
  /-- A single white-space character, a newline among them. -/
  | blank (c : Char)
  /-- Two slashes and `body`, which reaches up to the end of the line. -/
  | comment (body : List Char)
  /-- Punctuation or an operator. -/
  | symbol (s : Symbol)
  /-- A keyword or an identifier. -/
  | word (cs : List Char)
  /-- A numeral, with the digits after its point if it has one. -/
  | number (whole : List Char) (fraction : Option (List Char))
  /-- `body` between two quotes. -/
  | string (body : List Char)
  /-- A character that starts nothing. -/
  | unexpected (c : Char)
  /-- A numeral that runs into a word. -/
  | badNumber (cs : List Char)
  /-- A quote that no later quote answers, and all that follows it. -/
  | openString (body : List Char)
  deriving DecidableEq

namespace Piece

/-- The characters of a numeral. -/
def numeral (whole : List Char) : Option (List Char) → List Char
  | none => whole
  | some fraction => whole ++ '.' :: fraction

/-- The characters that the piece takes up in the source. -/
def chars : Piece → List Char
  | .blank c => [c]
  | .comment body => '/' :: '/' :: body
  | .symbol s => s.lexeme.toList
  | .word cs => cs
  | .number whole fraction => numeral whole fraction
  | .string body => '"' :: (body ++ ['"'])
  | .unexpected c => [c]
  | .badNumber cs => cs
  | .openString body => '"' :: body

/-! ## §3. The first piece of a text. -/

/-- The symbol that `c` makes whatever follows it. -/
def single? : Char → Option Symbol
  | '(' => some .leftParen
  | ')' => some .rightParen
  | '\x7b' => some .leftBrace
  | '\x7d' => some .rightBrace
  | ',' => some .comma
  | '.' => some .dot
  | '-' => some .minus
  | '+' => some .plus
  | ';' => some .semicolon
  | '*' => some .star
  | _ => none

/-- The symbols that `c` makes without and with an equals sign after it. -/
def pair? : Char → Option (Symbol × Symbol)
  | '!' => some (.bang, .bangEqual)
  | '=' => some (.equal, .equalEqual)
  | '>' => some (.greater, .greaterEqual)
  | '<' => some (.less, .lessEqual)
  | _ => none

/-- The piece of a string whose opening quote was just read. -/
def firstString (cs : List Char) : Piece × List Char :=
  match cs.dropWhile (· != '"') with
  | [] => (.openString cs, [])
  | _ :: rest => (.string (cs.takeWhile (· != '"')), rest)

/-- The digits after a point, and what follows them: a point belongs to a numeral
only if a digit stands behind it. -/
def firstFraction? : List Char → Option (List Char × List Char)
  | '.' :: d :: cs =>
      if d.isDigit then some (d :: cs.takeWhile Char.isDigit, cs.dropWhile Char.isDigit)
      else none
  | _ => none

/-- A numeral just read is a fault if a word starts right behind it, and takes that
word with it. -/
def closeNumber (whole : List Char) (fraction : Option (List Char)) (cs : List Char) :
    Piece × List Char :=
  match cs with
  | [] => (.number whole fraction, [])
  | c :: rest =>
      if isWordStart c then
        (.badNumber (numeral whole fraction ++ c :: rest.takeWhile isWordChar),
          rest.dropWhile isWordChar)
      else (.number whole fraction, c :: rest)

/-- The piece of a numeral that starts with the digit `c`. -/
def firstNumber (c : Char) (cs : List Char) : Piece × List Char :=
  let whole := c :: cs.takeWhile Char.isDigit
  let rest := cs.dropWhile Char.isDigit
  match firstFraction? rest with
  | some (fraction, rest) => closeNumber whole (some fraction) rest
  | none => closeNumber whole none rest

/-- The piece of a slash: a comment if a second slash follows. -/
def firstSlash : List Char → Piece × List Char
  | '/' :: cs => (.comment (cs.takeWhile (· != '\n')), cs.dropWhile (· != '\n'))
  | cs => (.symbol .slash, cs)

/-- The symbol of a pair that the next character picks. -/
def firstPair (alone withEqual : Symbol) : List Char → Piece × List Char
  | '=' :: cs => (.symbol withEqual, cs)
  | cs => (.symbol alone, cs)

/-- The first piece of a text that starts with `c`, and the text behind it. -/
def first (c : Char) (cs : List Char) : Piece × List Char :=
  if Text.isBlank c then (.blank c, cs)
  else if c = '/' then firstSlash cs
  else if c = '"' then firstString cs
  else if c.isDigit then firstNumber c cs
  else if isWordStart c then (.word (c :: cs.takeWhile isWordChar), cs.dropWhile isWordChar)
  else match single? c, pair? c with
    | some s, _ => (.symbol s, cs)
    | none, some (alone, withEqual) => firstPair alone withEqual cs
    | none, none => (.unexpected c, cs)

/-! ## §4. The first piece is a beginning of the text. -/

/-- A string takes its quotes with it. -/
theorem firstString_chars (cs : List Char) :
    (firstString cs).1.chars ++ (firstString cs).2 = '"' :: cs := by
  unfold firstString
  have hsplit := List.takeWhile_append_dropWhile (p := (· != '"')) (l := cs)
  split
  · simp [chars]
  · next q rest h =>
    have hq : q = '"' := by
      have := List.head_dropWhile_not (p := (· != '"')) (l := cs) (by simp [h])
      simpa [h] using this
    rw [h, hq] at hsplit
    simp [chars, hsplit]

/-- A fraction is taken with the point in front of it. -/
theorem firstFraction?_chars {cs fraction rest : List Char}
    (h : firstFraction? cs = some (fraction, rest)) : cs = '.' :: (fraction ++ rest) := by
  unfold firstFraction? at h
  split at h
  · split at h
    · simp only [Option.some.injEq, Prod.mk.injEq] at h
      obtain ⟨rfl, rfl⟩ := h
      simp
    · simp at h
  · simp at h

/-- A number and what is behind it are the numeral and what was behind that. -/
theorem closeNumber_chars (whole : List Char) (fraction : Option (List Char))
    (cs : List Char) :
    (closeNumber whole fraction cs).1.chars ++ (closeNumber whole fraction cs).2
      = numeral whole fraction ++ cs := by
  unfold closeNumber
  split
  · simp [chars]
  · split <;> simp [chars]

/-- A number begins with the digit that started it. -/
theorem firstNumber_chars (c : Char) (cs : List Char) :
    (firstNumber c cs).1.chars ++ (firstNumber c cs).2 = c :: cs := by
  unfold firstNumber
  have hsplit := List.takeWhile_append_dropWhile (p := Char.isDigit) (l := cs)
  dsimp only
  split
  · next fraction rest h =>
    rw [closeNumber_chars]
    have := firstFraction?_chars h
    simp only [numeral, List.cons_append, List.append_assoc]
    rw [← this, hsplit]
  · rw [closeNumber_chars]
    simp [numeral]

/-- A comment takes its slashes with it, and leaves the newline. -/
theorem firstSlash_chars (cs : List Char) :
    (firstSlash cs).1.chars ++ (firstSlash cs).2 = '/' :: cs := by
  unfold firstSlash
  split
  · simp [chars]
  · rfl

/-- A symbol of two characters takes the equals sign with it. -/
theorem firstPair_chars {c : Char} {alone withEqual : Symbol}
    (h : pair? c = some (alone, withEqual)) (cs : List Char) :
    (firstPair alone withEqual cs).1.chars ++ (firstPair alone withEqual cs).2 = c :: cs := by
  unfold pair? at h
  unfold firstPair
  split at h <;> simp at h <;> obtain ⟨rfl, rfl⟩ := h <;> split <;> rfl

theorem single?_chars {c : Char} {s : Symbol} (h : single? c = some s) :
    s.lexeme.toList = [c] := by
  unfold single? at h
  split at h <;> simp at h <;> subst h <;> rfl

/-- The first piece and the text behind it are the whole text. -/
theorem first_chars (c : Char) (cs : List Char) :
    (first c cs).1.chars ++ (first c cs).2 = c :: cs := by
  unfold first
  split
  · rfl
  split
  · next h => rw [firstSlash_chars, h]
  split
  · next h => rw [firstString_chars, h]
  split
  · rw [firstNumber_chars]
  split
  · simp [chars]
  split
  · next h => simp [chars, single?_chars h]
  · next h => exact firstPair_chars h cs
  · rfl

/-- No piece is empty. -/
theorem first_chars_ne_nil (c : Char) (cs : List Char) : (first c cs).1.chars ≠ [] := by
  unfold first
  split
  · simp [chars]
  split
  · unfold firstSlash; split <;> simp [chars, Symbol.lexeme]
  split
  · unfold firstString; split <;> simp [chars]
  split
  · unfold firstNumber closeNumber
    dsimp only
    split <;> split <;> (try split) <;> simp [chars, numeral]
  split
  · simp [chars]
  split
  · next h => simp [chars, single?_chars h]
  · unfold firstPair; split <;> exact Symbol.lexeme_toList_ne_nil _
  · simp [chars]

/-- The text behind the first piece is shorter than the text. -/
theorem length_first_lt (c : Char) (cs : List Char) :
    (first c cs).2.length < cs.length + 1 := by
  have h := congrArg List.length (first_chars c cs)
  have hpos := List.length_pos_iff.2 (first_chars_ne_nil c cs)
  simp only [List.length_append, List.length_cons] at h
  omega

/-! ## §5. All pieces of a text. -/

/-- The pieces of a text, in order. -/
def cut : List Char → List Piece
  | [] => []
  | c :: cs => (first c cs).1 :: cut (first c cs).2
termination_by cs => cs.length
decreasing_by exact length_first_lt c cs

/-- The pieces of a text, put together, are the text. -/
theorem flatMap_chars_cut (cs : List Char) : (cut cs).flatMap chars = cs := by
  fun_induction cut cs with
  | case1 => rfl
  | case2 c cs ih => rw [List.flatMap_cons, ih, first_chars]

end Piece

end LoxLang
