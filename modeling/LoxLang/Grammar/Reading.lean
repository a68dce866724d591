/-
  LoxLang.Grammar.Reading
  ───────────────────────
  **Reading tokens.**  A reader consumes tokens and either gives a result or stops
  at a fault; the input left over survives a fault, because reading goes on from
  there.  Every repetition is bounded by the tokens at hand: a turn that consumes
  nothing is the last.

  `accept`    — consume the next token if it is of a given kind
  `require`   — consume a token of a given kind, or stop
  `many`      — repeat a reader until it declines
  `recover`   — note a fault and skip to where a statement may start
-/
import LoxLang.Attempt
import LoxLang.Grammar.Fault

namespace LoxLang

/-- How far reading has come. -/
structure Reading where
  /-- The tokens not yet consumed. -/
  input : Token.Stream
  /-- The faults recovered from, in order. -/
  faults : List SyntaxFault

/-- A computation that reads tokens. -/
abbrev Reader := Attempt SyntaxFault Reading

namespace Reader

/-! ## §1. Single tokens. -/

/-- The tokens not yet consumed. -/
def rest : Reader (List Token) := do
  return (← get).input.tokens

/-- The kind of the next token, if there is one. -/
def peek : Reader (Option Token.Kind) := do
  return (← rest).head?.map Token.kind

/-- Stop, and blame the next token. -/
def fail {α : Type} (cause : SyntaxCause) : Reader α := do
  throw ⟨(← get).input, cause⟩

/-- Consume the next token, if there is one. -/
def skip : Reader Unit :=
  modify fun s => { s with input := { s.input with tokens := s.input.tokens.tail } }

/-- Consume the next token if `f` makes something of it. -/
def take? {α : Type} (f : Token → Option α) : Reader (Option α) := do
  match (← rest).head?.bind f with
  | some a => skip; return some a
  | none => return none

/-- Consume the next token if it is of this kind, and tell whether it was. -/
def accept (kind : Token.Kind) : Reader Bool := do
  return (← take? fun t => if t.kind = kind then some t else none).isSome

/-- Consume a token of this kind, or stop. -/
def require (kind : Token.Kind) (cause : SyntaxCause) : Reader Token := do
  match ← take? fun t => if t.kind = kind then some t else none with
  | some t => return t
  | none => fail cause

/-! ## §2. Repetition. -/

/-- Repeat `step` until it declines, at most once for every token of `budget`. -/
def manyWithin {α : Type} (step : Reader (Option α)) : List Token → Reader (List α)
  | [] => return []
  | _ :: budget => do
      match ← step with
      | none => return []
      | some a => return a :: (← manyWithin step budget)

/-- Repeat `step`, each turn of which consumes a token, until it declines. -/
def many {α : Type} (step : Reader (Option α)) : Reader (List α) := do
  manyWithin step (← rest)

/-- One or more of `item`, with commas in between. -/
def commaList {α : Type} (item : Reader α) : Reader (List α) := do
  let first ← item
  let others ← many do
    if ← accept (.symbol .comma) then return some (← item) else return none
  return first :: others

/-! ## §3. Recovery. -/

/-- Does a token of this kind start a statement? -/
def startsStatement : Token.Kind → Bool
  | .keyword .classKw | .keyword .funKw | .keyword .varKw | .keyword .forKw
  | .keyword .ifKw | .keyword .whileKw | .keyword .printKw | .keyword .returnKw => true
  | _ => false

/-- The tokens from the next statement on, where `last` was just discarded: a
statement starts behind a semicolon or with a word that starts one. -/
def nextStatement (last : Token) : List Token → List Token
  | [] => []
  | t :: ts =>
      if last.kind = .symbol .semicolon ∨ startsStatement t.kind then t :: ts
      else nextStatement t ts

/-- Discard at least one token, up to where a statement may start. -/
def resume : List Token → List Token
  | [] => []
  | t :: ts => nextStatement t ts

/-- Run `reader`; if it stops at a fault, note the fault and go on behind it. -/
def recover {α : Type} (reader : Reader α) : Reader (Option α) := fun s =>
  match reader s with
  | (.ok a, s) => (.ok (some a), s)
  | (.error fault, s) =>
      (.ok none, ⟨{ s.input with tokens := resume s.input.tokens }, s.faults ++ [fault]⟩)

end Reader

end LoxLang
