/-
  LoxLang.Proofs.Grammar.Derivation
  ─────────────────────────────────
  **The grammar, with the tree that each derivation builds.**

      <program>     ::= <declaration>*
      <declaration> ::= "fun" IDENTIFIER "(" <parameters>? ")" <block>
                      | <variable>
                      | <statement>
      <variable>    ::= "var" IDENTIFIER ( "=" <expression> )? ";"
      <statement>   ::= <expression> ";"
                      | "print" <expression> ( "," <expression> )* ";"
                      | "if" "(" <expression> ")" <statement> ( "else" <statement> )?
                      | "while" "(" <expression> ")" <statement>
                      | "for" "(" ( <variable> | <expression> ";" | ";" )
                              <expression>? ";" <expression>? ")" <statement>
                      | "return" <expression>? ";"
                      | <block>
      <block>       ::= "{" <declaration>* "}"
      <expression>  ::= <assignment>
      <assignment>  ::= IDENTIFIER "=" <assignment> | <disjunction>
      <level>       ::= <tighter level> | <level> <operator of level> <tighter level>
      <unary>       ::= ( "!" | "-" ) <unary> | <call>
      <call>        ::= <primary> | <call> "(" <arguments>? ")"
      <primary>     ::= NUMBER | STRING | "true" | "false" | "nil" | IDENTIFIER
                      | "(" <expression> ")"

  A derivation relates the tokens it covers to the tree it builds.  As it stands the
  grammar is ambiguous about an else behind two ifs; `ElseRule.nearest` keeps, of all
  derivations, those in which every else belongs to the nearest open if.
-/
import LoxLang.Grammar.Expression

namespace LoxLang

/-! ## §1. Operators. -/

/-- The operators of each level, by the kind of token that spells them. -/
inductive IsOperator : BinaryOp.Level → Token.Kind → BinaryOp → Prop where
  | or : IsOperator .disjunction (.keyword .orKw) (.connective .or)
  | and : IsOperator .conjunction (.keyword .andKw) (.connective .and)
  | notEqual : IsOperator .equality (.symbol .bangEqual) (.strict (.comparison .notEqual))
  | equal : IsOperator .equality (.symbol .equalEqual) (.strict (.comparison .equal))
  | greater : IsOperator .comparison (.symbol .greater) (.strict (.comparison .greater))
  | greaterEqual :
      IsOperator .comparison (.symbol .greaterEqual) (.strict (.comparison .greaterEqual))
  | less : IsOperator .comparison (.symbol .less) (.strict (.comparison .less))
  | lessEqual : IsOperator .comparison (.symbol .lessEqual) (.strict (.comparison .lessEqual))
  | subtract : IsOperator .term (.symbol .minus) (.strict (.arithmetic .subtract))
  | add : IsOperator .term (.symbol .plus) (.strict .add)
  | divide : IsOperator .factor (.symbol .slash) (.strict (.arithmetic .divide))
  | multiply : IsOperator .factor (.symbol .star) (.strict (.arithmetic .multiply))

/-- The operators in front of an operand. -/
inductive IsSign : Token.Kind → UnaryOp → Prop where
  | not : IsSign (.symbol .bang) .not
  | negate : IsSign (.symbol .minus) .negate

/-! ## §2. Lists with commas. -/

/-- `us` are the tokens of `items`, at least one, with commas in between. -/
inductive Joined {α : Type} : List (List Token × α) → List Token → Prop where
  | one (x : List Token × α) : Joined [x] x.1
  | cons (x : List Token × α) {comma : Token} {items : List (List Token × α)}
      {us : List Token} (hcomma : comma.kind = .symbol .comma) (h : Joined items us) :
      Joined (x :: items) (x.1 ++ comma :: us)

/-- As `Joined`, but the list may be empty. -/
def Listed {α : Type} (items : List (List Token × α)) (us : List Token) : Prop :=
  (items = [] ∧ us = []) ∨ Joined items us

/-! ## §3. Expressions. -/

/-- The ranks of expressions, from the loosest to the tightest. -/
inductive Rank where
  | assignment | binary (level : BinaryOp.Level) | unary | call | primary
  deriving DecidableEq

/-- The rank of the operands of each level. -/
def BinaryOp.Level.operand : BinaryOp.Level → Rank
  | .disjunction => .binary .conjunction
  | .conjunction => .binary .equality
  | .equality => .binary .comparison
  | .comparison => .binary .term
  | .term => .binary .factor
  | .factor => .unary

/-- `Phrase rank ts e`: the tokens `ts` are an expression of this rank, and `e` is its
tree. -/
inductive Phrase : Rank → List Token → Expr → Prop where
  | falseWord {t : Token} (h : t.kind = .keyword .falseKw) :
      Phrase .primary [t] (.literal (.bool false))
  | trueWord {t : Token} (h : t.kind = .keyword .trueKw) :
      Phrase .primary [t] (.literal (.bool true))
  | nilWord {t : Token} (h : t.kind = .keyword .nilKw) : Phrase .primary [t] (.literal .nil)
  | number {t : Token} {x : Float} (h : t.kind = .number x) :
      Phrase .primary [t] (.literal (.number x))
  | string {t : Token} {s : String} (h : t.kind = .string s) :
      Phrase .primary [t] (.literal (.string s))
  | identifier {t : Token} (h : t.kind = .identifier) :
      Phrase .primary [t] (.var ⟨t.lexeme, t.line, none⟩)
  | group {left right : Token} {ts : List Token} {e : Expr}
      (hleft : left.kind = .symbol .leftParen) (he : Phrase .assignment ts e)
      (hright : right.kind = .symbol .rightParen) :
      Phrase .primary (left :: (ts ++ [right])) (.group e)
  | primary {ts : List Token} {e : Expr} (h : Phrase .primary ts e) : Phrase .call ts e
  | call {left right : Token} {ts us : List Token} {callee : Expr}
      {arguments : List (List Token × Expr)} (hcallee : Phrase .call ts callee)
      (hleft : left.kind = .symbol .leftParen)
      (harguments : ∀ x ∈ arguments, Phrase .assignment x.1 x.2)
      (hus : Listed arguments us)
      (hright : right.kind = .symbol .rightParen) :
      Phrase .call (ts ++ left :: (us ++ [right]))
        (.call left.line callee (arguments.map Prod.snd))
  | operand {ts : List Token} {e : Expr} (h : Phrase .call ts e) : Phrase .unary ts e
  | sign {t : Token} {op : UnaryOp} {ts : List Token} {e : Expr} (ht : IsSign t.kind op)
      (he : Phrase .unary ts e) : Phrase .unary (t :: ts) (.unary op t.line e)
  | tighter {level : BinaryOp.Level} {ts : List Token} {e : Expr}
      (h : Phrase level.operand ts e) : Phrase (.binary level) ts e
  | operate {level : BinaryOp.Level} {op : BinaryOp} {t : Token} {ts us : List Token}
      {left right : Expr} (hleft : Phrase (.binary level) ts left)
      (ht : IsOperator level t.kind op) (hright : Phrase level.operand us right) :
      Phrase (.binary level) (ts ++ t :: us) (.binary op t.line left right)
  | value {ts : List Token} {e : Expr} (h : Phrase (.binary .disjunction) ts e) :
      Phrase .assignment ts e
  | assign {name equal : Token} {ts : List Token} {e : Expr} (hname : name.kind = .identifier)
      (hequal : equal.kind = .symbol .equal) (he : Phrase .assignment ts e) :
      Phrase .assignment (name :: equal :: ts) (.assign ⟨name.lexeme, name.line, none⟩ e)

/-- An expression that may be absent. -/
inductive OptionalPhrase : List Token → Option Expr → Prop where
  | absent : OptionalPhrase [] none
  | present {ts : List Token} {e : Expr} (h : Phrase .assignment ts e) :
      OptionalPhrase ts (some e)

/-! ## §4. Statements. -/

/-- A variable declaration; without an initial value, the variable is nil. -/
inductive VariablePhrase : List Token → Stmt → Prop where
  | bare {var name semicolon : Token} (hvar : var.kind = .keyword .varKw)
      (hname : name.kind = .identifier) (hend : semicolon.kind = .symbol .semicolon) :
      VariablePhrase [var, name, semicolon] (.varDecl name.lexeme name.line (.literal .nil))
  | initialised {var name equal semicolon : Token} {ts : List Token} {e : Expr}
      (hvar : var.kind = .keyword .varKw) (hname : name.kind = .identifier)
      (hequal : equal.kind = .symbol .equal) (he : Phrase .assignment ts e)
      (hend : semicolon.kind = .symbol .semicolon) :
      VariablePhrase (var :: name :: equal :: (ts ++ [semicolon]))
        (.varDecl name.lexeme name.line e)

/-- The first clause of a for loop, with its semicolon. -/
inductive InitialPhrase : List Token → Option Stmt → Prop where
  | absent {semicolon : Token} (hend : semicolon.kind = .symbol .semicolon) :
      InitialPhrase [semicolon] none
  | declared {ts : List Token} {s : Stmt} (h : VariablePhrase ts s) : InitialPhrase ts (some s)
  | expression {semicolon : Token} {ts : List Token} {e : Expr} (he : Phrase .assignment ts e)
      (hend : semicolon.kind = .symbol .semicolon) :
      InitialPhrase (ts ++ [semicolon]) (some (.expr e))

/-- What is asked of an else behind two ifs. -/
inductive ElseRule where
  /-- Nothing: the grammar as it is written. -/
  | any
  /-- That it belong to the nearest if which is still open. -/
  | nearest
  deriving DecidableEq

/-- What a derivation is of.  A statement is open if it ends in an if without else, to
which an else behind the statement could still belong. -/
inductive Form where
  | declaration
  | statement (isOpen : Bool)
  deriving DecidableEq

/-- `Sentence rule form ts s`: the tokens `ts` are a declaration or a statement, and `s`
is its tree. -/
inductive Sentence (rule : ElseRule) : Form → List Token → Stmt → Prop where
  | expression {semicolon : Token} {ts : List Token} {e : Expr} (he : Phrase .assignment ts e)
      (hend : semicolon.kind = .symbol .semicolon) :
      Sentence rule (.statement false) (ts ++ [semicolon]) (.expr e)
  | print {print semicolon : Token} {us : List Token} {items : List (List Token × Expr)}
      (hprint : print.kind = .keyword .printKw)
      (hitems : ∀ x ∈ items, Phrase .assignment x.1 x.2)
      (hus : Joined items us) (hend : semicolon.kind = .symbol .semicolon) :
      Sentence rule (.statement false) (print :: (us ++ [semicolon]))
        (.print (items.map Prod.snd))
  | ifThen {start left right : Token} {cs ts : List Token} {c : Expr} {s : Stmt}
      {isOpen : Bool} (hstart : start.kind = .keyword .ifKw)
      (hleft : left.kind = .symbol .leftParen) (hc : Phrase .assignment cs c)
      (hright : right.kind = .symbol .rightParen) (hs : Sentence rule (.statement isOpen) ts s) :
      Sentence rule (.statement true) (start :: left :: (cs ++ right :: ts)) (.ifThen c s)
  | ifElse {start left right other : Token} {cs ts us : List Token} {c : Expr} {s s' : Stmt}
      {isOpen isOpen' : Bool} (hstart : start.kind = .keyword .ifKw)
      (hleft : left.kind = .symbol .leftParen) (hc : Phrase .assignment cs c)
      (hright : right.kind = .symbol .rightParen) (hs : Sentence rule (.statement isOpen) ts s)
      (hnearest : rule = .nearest → isOpen = false) (hother : other.kind = .keyword .elseKw)
      (hs' : Sentence rule (.statement isOpen') us s') :
      Sentence rule (.statement isOpen')
        (start :: left :: (cs ++ right :: (ts ++ other :: us))) (.ifElse c s s')
  | whileLoop {start left right : Token} {cs ts : List Token} {c : Expr} {s : Stmt}
      {isOpen : Bool} (hstart : start.kind = .keyword .whileKw)
      (hleft : left.kind = .symbol .leftParen) (hc : Phrase .assignment cs c)
      (hright : right.kind = .symbol .rightParen) (hs : Sentence rule (.statement isOpen) ts s) :
      Sentence rule (.statement isOpen) (start :: left :: (cs ++ right :: ts)) (.whileLoop c s)
  | forLoop {start left semicolon right : Token} {is cs us ts : List Token}
      {initial : Option Stmt} {condition step : Option Expr} {s : Stmt} {isOpen : Bool}
      (hstart : start.kind = .keyword .forKw) (hleft : left.kind = .symbol .leftParen)
      (hinitial : InitialPhrase is initial) (hcondition : OptionalPhrase cs condition)
      (hsemicolon : semicolon.kind = .symbol .semicolon) (hstep : OptionalPhrase us step)
      (hright : right.kind = .symbol .rightParen) (hs : Sentence rule (.statement isOpen) ts s) :
      Sentence rule (.statement isOpen)
        (start :: left :: (is ++ (cs ++ semicolon :: (us ++ right :: ts))))
        (.block (initial.toList ++
          [.whileLoop (condition.getD (.literal (.bool true)))
            (.block (s :: (step.map Stmt.expr).toList))]))
  | ret {start semicolon : Token} {ts : List Token} {value : Option Expr}
      (hstart : start.kind = .keyword .returnKw) (hvalue : OptionalPhrase ts value)
      (hend : semicolon.kind = .symbol .semicolon) :
      Sentence rule (.statement false) (start :: (ts ++ [semicolon]))
        (.ret start.line (value.getD (.literal .nil)))
  | block {left right : Token} {rows : List (List Token × Stmt)}
      (hleft : left.kind = .symbol .leftBrace)
      (hrows : ∀ x ∈ rows, Sentence rule .declaration x.1 x.2)
      (hright : right.kind = .symbol .rightBrace) :
      Sentence rule (.statement false) (left :: (rows.flatMap Prod.fst ++ [right]))
        (.block (rows.map Prod.snd))
  | statement {isOpen : Bool} {ts : List Token} {s : Stmt}
      (h : Sentence rule (.statement isOpen) ts s) : Sentence rule .declaration ts s
  | varDecl {ts : List Token} {s : Stmt} (h : VariablePhrase ts s) :
      Sentence rule .declaration ts s
  | funDecl {start name left right leftBrace rightBrace : Token} {us : List Token}
      {params : List (List Token × Token)} {rows : List (List Token × Stmt)}
      (hstart : start.kind = .keyword .funKw)
      (hname : name.kind = .identifier) (hleft : left.kind = .symbol .leftParen)
      (hparams : ∀ x ∈ params, x.1 = [x.2] ∧ x.2.kind = .identifier) (hus : Listed params us)
      (hright : right.kind = .symbol .rightParen)
      (hleftBrace : leftBrace.kind = .symbol .leftBrace)
      (hrows : ∀ x ∈ rows, Sentence rule .declaration x.1 x.2)
      (hrightBrace : rightBrace.kind = .symbol .rightBrace) :
      Sentence rule .declaration
        (start :: name :: left ::
          (us ++ right :: leftBrace :: (rows.flatMap Prod.fst ++ [rightBrace])))
        (.funDecl name.lexeme name.line (params.map fun x => x.2.lexeme) (rows.map Prod.snd))

/-- `Program rule ts body`: the tokens `ts` are a program, and `body` its statements. -/
def Program (rule : ElseRule) (ts : List Token) (body : List Stmt) : Prop :=
  ∃ rows : List (List Token × Stmt), (∀ x ∈ rows, Sentence rule .declaration x.1 x.2)
    ∧ ts = rows.flatMap Prod.fst ∧ body = rows.map Prod.snd

end LoxLang
