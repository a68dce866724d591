/-
  LoxLang.Scope.Resolve
  ─────────────────────
  **Static scopes.**  Before a program runs, every mention of a local variable is
  given the slot that the variable will occupy.  To that end the resolver keeps
  *templates*: environments of names that grow and shrink as the environments of
  the running program will.  There is one template for each enclosing function,
  and one for a top-level block.

  A return outside of every function and a repeated parameter are refused; the
  first such error ends the resolution, and leaves no template behind.

  Resolution follows the tree to any depth.  On a host that bounds recursion a tree may be
  too deep to be resolved there; that limit is left out, and `Limits.depth` is about running
  programs only.
-/
import LoxLang.Attempt
import LoxLang.Scope.Env
import LoxLang.Tree.Basic

namespace LoxLang

/-! ## §1. Errors. -/

/-- What is refused before a program runs. -/
inductive ResolveCause where
  | topLevelReturn
  | repeatedParameter (parameter function : String)
  deriving DecidableEq, Repr

/-- What is said about a refusal, up to its line. -/
def ResolveCause.message : ResolveCause → String
  | .topLevelReturn => "Cannot return from top-level code"
  | .repeatedParameter parameter function =>
      "Duplicate parameter '" ++ parameter ++ "' in function '" ++ function ++ "'"

/-- A refusal, with the line of the return or of the function's name. -/
structure ResolveError where
  cause : ResolveCause
  line : Int
  deriving DecidableEq, Repr

/-- The message of a refusal. -/
def ResolveError.message (e : ResolveError) : String :=
  e.cause.message ++ " at line " ++ toString e.line

/-! ## §2. The resolver's state. -/

/-- Names in the places that values will take. -/
abbrev Template := Env Unit

/-- What encloses the code being resolved. -/
structure Resolver where
  /-- The templates, the innermost first; none at top level. -/
  templates : List Template
  /-- The number of enclosing functions. -/
  functionDepth : Nat
  deriving DecidableEq

namespace Resolver

/-- Nothing encloses top-level code. -/
def initial : Resolver := ⟨[], 0⟩

/-- The template of the innermost function or top-level block. -/
def active? (r : Resolver) : Option Template :=
  r.templates.head?

/-- Change the active template, if there is one. -/
def modifyActive (r : Resolver) (f : Template → Template) : Resolver :=
  match r.templates with
  | [] => r
  | t :: ts => { r with templates := f t :: ts }

/-- The slot of a mention of `name`, if it is a local variable. -/
def slot? (r : Resolver) (name : String) : Option Nat :=
  r.active?.bind (·.slotOf? name)

/-- Note in a mention the slot of its variable. -/
def bind (r : Resolver) (ref : Ref) : Ref :=
  { ref with slot := r.slot? ref.name }

/-- The template of a function declared here: what it captures, then its own name,
then its parameters. -/
def functionTemplate (r : Resolver) (name : String) (params : List String) : Template :=
  let base := (r.active?.map Env.capture).getD .empty
  (name :: params).foldl (fun t n => t.declare n ()) base

/-- Inside a block: in a scope of the active template, or at top level in a template
of its own. -/
def enterBlock (r : Resolver) : Resolver :=
  if r.templates.isEmpty then { r with templates := [.empty] } else r.modifyActive Env.openScope

/-- Inside a function declared here, in a template of its own. -/
def enterFunction (r : Resolver) (name : String) (params : List String) : Resolver :=
  ⟨r.functionTemplate name params :: r.templates, r.functionDepth + 1⟩

end Resolver

/-- The first parameter that repeats an earlier one. -/
def firstRepeated? (seen : List String) : List String → Option String
  | [] => none
  | p :: ps => if p ∈ seen then some p else firstRepeated? (p :: seen) ps

/-! ## §3. Expressions. -/

mutual

/-- Note the slots of all local variables in an expression. -/
def Expr.resolve (r : Resolver) : Expr → Expr
  | .literal value => .literal value
  | .binary op line left right => .binary op line (left.resolve r) (right.resolve r)
  | .group inner => .group (inner.resolve r)
  | .unary op line operand => .unary op line (operand.resolve r)
  | .var ref => .var (r.bind ref)
  | .assign target value => .assign (r.bind target) (value.resolve r)
  | .call line callee arguments =>
      .call line (callee.resolve r) (Expr.resolveAll r arguments)

/-- Note the slots in each of several expressions. -/
def Expr.resolveAll (r : Resolver) : List Expr → List Expr
  | [] => []
  | e :: es => e.resolve r :: Expr.resolveAll r es

end

/-! ## §4. Statements. -/

/-- A computation that resolves statements. -/
abbrev Resolve := Attempt ResolveError Resolver

namespace Resolve

/-- Resolve an expression where it stands. -/
def expr (e : Expr) : Resolve Expr := do
  return e.resolve (← get)

/-- Resolve several expressions where they stand. -/
def exprs (es : List Expr) : Resolve (List Expr) := do
  return Expr.resolveAll (← get) es

/-- Declare a name in the active template; a global needs no slot. -/
def declare (name : String) : Resolve Unit :=
  modify fun r => r.modifyActive (·.declare name ())

/-- Resolve the inside of a block, and drop its scope or its template again. -/
def inBlock {α : Type} (body : Resolve α) : Resolve α := fun r =>
  let (result, inner) := body r.enterBlock
  if r.templates.isEmpty then (result, { inner with templates := inner.templates.tail })
  else (result, inner.modifyActive Env.closeScope)

/-- Resolve the inside of a function, and drop its template again. -/
def inFunction {α : Type} (name : String) (params : List String) (body : Resolve α) :
    Resolve α := fun r =>
  let (result, inner) := body (r.enterFunction name params)
  (result, ⟨inner.templates.tail, inner.functionDepth - 1⟩)

end Resolve

mutual

/-- Resolve a statement.  The initial value of a variable is resolved before its
name is declared, and so is the body of a function. -/
def Stmt.resolve : Stmt → Resolve Stmt
  | .expr e => return .expr (← Resolve.expr e)
  | .print es => return .print (← Resolve.exprs es)
  | .ifThen condition thenBranch => do
      let condition ← Resolve.expr condition
      let thenBranch ← thenBranch.resolve
      return .ifThen condition thenBranch
  | .ifElse condition thenBranch elseBranch => do
      let condition ← Resolve.expr condition
      let thenBranch ← thenBranch.resolve
      let elseBranch ← elseBranch.resolve
      return .ifElse condition thenBranch elseBranch
  | .block body => return .block (← Resolve.inBlock (Stmt.resolveAll body))
  | .varDecl name line initial => do
      let initial ← Resolve.expr initial
      Resolve.declare name
      return .varDecl name line initial
  | .whileLoop condition body => do
      let condition ← Resolve.expr condition
      let body ← body.resolve
      return .whileLoop condition body
  | .funDecl name line params body => do
      match firstRepeated? [] params with
      | some parameter => throw ⟨.repeatedParameter parameter name, line⟩
      | none =>
          let body ← Resolve.inFunction name params (Stmt.resolveAll body)
          Resolve.declare name
          return .funDecl name line params body
  | .ret line value => do
      if (← get).functionDepth = 0 then throw ⟨.topLevelReturn, line⟩
      else return .ret line (← Resolve.expr value)

/-- Resolve statements in order. -/
def Stmt.resolveAll : List Stmt → Resolve (List Stmt)
  | [] => return []
  | s :: ss => do
      let s ← s.resolve
      let ss ← Stmt.resolveAll ss
      return s :: ss

end

/-- Resolve a program; the resolver can be used again, whatever the result. -/
def Resolver.resolve (r : Resolver) (body : List Stmt) :
    Except ResolveError (List Stmt) × Resolver :=
  Stmt.resolveAll body r

end LoxLang
