/-
  LoxLang.Text.Styled
  ───────────────────
  **Coloured text.**  Reports set some of their texts in a colour.  What that does to a text
  is left to whoever asks for reports (`Reporter.paint`): on a terminal it is `bold`, or `plain`
where no colours are wanted.
-/

namespace LoxLang.Text

/-- The colours that reports use. -/
inductive Colour where
  | red | yellow
  deriving DecidableEq, Repr

/-- The terminal's number for a colour. -/
def Colour.code : Colour → String
  | .red => "31"
  | .yellow => "33"

/-- What becomes of a text that is set in a colour. -/
abbrev Colouring := Colour → String → String

/-- Every text as it is. -/
def plain : Colouring := fun _ s => s

/-- A text in bold and colour, as a terminal shows it. -/
def bold : Colouring := fun colour s =>
  "\x1b[1m\x1b[" ++ colour.code ++ "m" ++ s ++ "\x1b[0m"

end LoxLang.Text
