/-
  LoxLang.Token.Basic
  ───────────────────
  **Tokens.**  A token is a classified lexeme with the line it starts on.  The
  token list of a program comes with the line its text ends on, in a `Stream`, so
  that "the end of input" is a place of its own and not one more kind of token.
-/

namespace LoxLang

/-! ## §1. Punctuation and keywords. -/

/-- Punctuation and operators. -/
inductive Symbol where
  | leftParen | rightParen | leftBrace | rightBrace
  | comma | dot | minus | plus | semicolon | slash | star
  | bang | bangEqual | equal | equalEqual
  | greater | greaterEqual | less | lessEqual
  deriving DecidableEq, Repr

/-- How a symbol is spelled. -/
def Symbol.lexeme : Symbol → String
  | .leftParen => "("
  | .rightParen => ")"
  | .leftBrace => "\x7b"
  | .rightBrace => "\x7d"
  | .comma => ","
  | .dot => "."
  | .minus => "-"
  | .plus => "+"
  | .semicolon => ";"
  | .slash => "/"
  | .star => "*"
  | .bang => "!"
  | .bangEqual => "!="
  | .equal => "="
  | .equalEqual => "=="
  | .greater => ">"
  | .greaterEqual => ">="
  | .less => "<"
  | .lessEqual => "<="

theorem Symbol.lexeme_toList_ne_nil (s : Symbol) : s.lexeme.toList ≠ [] := by
  cases s <;> decide

/-- The reserved words. -/
inductive Keyword where
  | andKw | classKw | elseKw | falseKw | funKw | forKw | ifKw | nilKw
  | orKw | printKw | returnKw | superKw | thisKw | trueKw | varKw | whileKw
  deriving DecidableEq, Repr

/-- How a keyword is spelled. -/
def Keyword.lexeme : Keyword → String
  | .andKw => "and"
  | .classKw => "class"
  | .elseKw => "else"
  | .falseKw => "false"
  | .funKw => "fun"
  | .forKw => "for"
  | .ifKw => "if"
  | .nilKw => "nil"
  | .orKw => "or"
  | .printKw => "print"
  | .returnKw => "return"
  | .superKw => "super"
  | .thisKw => "this"
  | .trueKw => "true"
  | .varKw => "var"
  | .whileKw => "while"

/-- Every keyword, once. -/
def Keyword.all : List Keyword :=
  [.andKw, .classKw, .elseKw, .falseKw, .funKw, .forKw, .ifKw, .nilKw,
   .orKw, .printKw, .returnKw, .superKw, .thisKw, .trueKw, .varKw, .whileKw]

/-- The keyword spelled `word`, if there is one. -/
def Keyword.ofWord? (word : String) : Option Keyword :=
  Keyword.all.find? (·.lexeme == word)

/-! ## §2. Tokens. -/

/-- What a token is; a literal carries its value. -/
inductive Token.Kind where
  | symbol (s : Symbol)
  | keyword (k : Keyword)
  | identifier
  | string (value : String)
  | number (value : Float)
  deriving DecidableEq

/-- A classified lexeme. -/
structure Token where
  kind : Token.Kind
  /-- The characters of the source that make up the token. -/
  lexeme : String
  /-- The line of its first character. -/
  line : Int
  deriving DecidableEq

/-- Tokens still to be read, and the line on which the text ends. -/
structure Token.Stream where
  tokens : List Token
  endLine : Int
  deriving DecidableEq

namespace Token.Stream

/-- The line of the next token, or of the end of input. -/
def line (s : Stream) : Int :=
  match s.tokens with
  | [] => s.endLine
  | t :: _ => t.line

end Token.Stream

end LoxLang
