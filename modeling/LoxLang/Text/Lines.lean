/-
  LoxLang.Text.Lines
  ──────────────────
  **Lines of a stored source.**  A report shows the line an error was found
  on, and cuts the source it stored at every line boundary that a text can
  hold, not at the newline alone.

  `storedLines`    — the lines of a stored source, without their boundaries
  `unifyNewlines`  — the newline convention of text read from a file
  `typedLines`     — the lines of a text that is typed in
  `LineSource`     — where a console takes its lines from
-/

namespace LoxLang.Text

/-- Does `c` end a line of a stored source? -/
def isLineBoundary (c : Char) : Bool :=
  let n := c.toNat
  (0x0A ≤ n && n ≤ 0x0D) || (0x1C ≤ n && n ≤ 0x1E) || n == 0x85 || n == 0x2028
    || n == 0x2029

/-- Cut `cs` at its line boundaries; `line` holds, last character first, the
line read so far.  A carriage return and the newline after it are one boundary,
and no empty line follows a final boundary. -/
def cutLines (line : List Char) : List Char → List (List Char)
  | [] => if line.isEmpty then [] else [line.reverse]
  | '\r' :: '\n' :: cs => line.reverse :: cutLines [] cs
  | c :: cs =>
      if isLineBoundary c then line.reverse :: cutLines [] cs
      else cutLines (c :: line) cs

/-- The lines of `s`, in order and without their boundaries. -/
def storedLines (s : String) : List String :=
  (cutLines [] s.toList).map String.ofList

/-- Write every carriage return, alone or before a newline, as one newline. -/
def unifyNewlineChars : List Char → List Char
  | [] => []
  | '\r' :: '\n' :: cs => '\n' :: unifyNewlineChars cs
  | c :: cs => (if c = '\r' then '\n' else c) :: unifyNewlineChars cs

/-- The text of a file with its newline convention unified. -/
def unifyNewlines (s : String) : String :=
  String.ofList (unifyNewlineChars s.toList)

/-- Cut `cs` at its newlines; `line` holds, last character first, the line read so
far. -/
def cutTyped (line : List Char) : List Char → List (List Char)
  | [] => if line.isEmpty then [] else [line.reverse]
  | c :: cs => if c = '\n' then line.reverse :: cutTyped [] cs else cutTyped (c :: line) cs

/-- The lines of a text that is typed in: a newline ends each, and the last one may
do without. -/
def typedLines (s : String) : List String :=
  (cutTyped [] s.toList).map String.ofList

/-- A line without the carriage returns at its end. -/
def dropReturns (s : String) : String :=
  String.ofList (s.toList.reverse.dropWhile (· = '\r')).reverse

/-- Where a console takes its lines from. -/
inductive LineSource where
  /-- Somebody types; a line loses its newline only. -/
  | terminal
  /-- A stream is read to its end; a line loses its carriage returns, too. -/
  | stream
  deriving DecidableEq, Repr

/-- The lines of a text from this source. -/
def LineSource.lines (source : LineSource) (s : String) : List String :=
  match source with
  | .terminal => typedLines s
  | .stream => (typedLines s).map dropReturns

end LoxLang.Text
