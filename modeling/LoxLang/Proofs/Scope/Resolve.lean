/-
  LoxLang.Proofs.Scope.Resolve
  ────────────────────────────
  **What resolving does to the templates.**  A statement that stands where the grammar
  allows it declares at most one name, its own, in the active template, and leaves
  everything else as it was (`resolve_state`): blocks close their scope, and functions
  drop their template.
-/
import LoxLang.Machine.Basic
import LoxLang.Proofs.Grammar.Parse
import LoxLang.Proofs.Scope.Env
import LoxLang.Report.Diagnostic

namespace LoxLang

/-! ## §1. Resolvers that have changed in the active scope. -/

namespace Resolver

/-- The resolver behind a statement: a declaration is in the active template. -/
def after (r : Resolver) (s : Stmt) : Resolver :=
  match s.declared? with
  | some name => r.modifyActive (·.declare name ())
  | none => r

/-- The same templates enclose the code, and the active one has changed in its active
scope only. -/
def Grown (r r' : Resolver) : Prop :=
  r'.functionDepth = r.functionDepth ∧ r'.templates.tail = r.templates.tail
    ∧ Option.Rel Env.Grown r.active? r'.active?

/-- Nothing has changed in any scope. -/
theorem Grown.refl (r : Resolver) : r.Grown r := by
  refine ⟨rfl, rfl, ?_⟩
  cases r.active? with
  | none => exact .none
  | some t => exact .some (Env.Grown.refl t)

/-- Changes in the active scope add up. -/
theorem Grown.trans {r r' r'' : Resolver} (h : r.Grown r') (h' : r'.Grown r'') : r.Grown r'' := by
  obtain ⟨hdepth, htail, hactive⟩ := h
  obtain ⟨hdepth', htail', hactive'⟩ := h'
  refine ⟨hdepth'.trans hdepth, htail'.trans htail, ?_⟩
  generalize r.active? = a, r'.active? = b, r''.active? = c at hactive hactive'
  cases hactive with
  | none => exact hactive'
  | some hgrown =>
    cases hactive' with
    | some hgrown' => exact .some (hgrown.trans hgrown')

/-- A statement declares in the active scope at most. -/
theorem grown_after (r : Resolver) (s : Stmt) : r.Grown (r.after s) := by
  unfold after
  split
  · next name _ =>
    obtain ⟨templates, depth⟩ := r
    cases templates with
    | nil => exact Grown.refl _
    | cons t ts => exact ⟨rfl, rfl, .some (Env.grown_declare t name ())⟩
  · exact Grown.refl r

/-- So do all statements of a row. -/
theorem grown_foldl_after (body : List Stmt) : ∀ r : Resolver, r.Grown (body.foldl after r) := by
  induction body with
  | nil =>
    intro r
    exact Grown.refl r
  | cons s body ih =>
    intro r
    exact (grown_after r s).trans (ih (r.after s))

/-- Leaving a block undoes what has changed since it was entered. -/
theorem leaveBlock_of_grown {r inner : Resolver} (h : r.enterBlock.Grown inner) :
    (if r.templates.isEmpty then { inner with templates := inner.templates.tail }
      else inner.modifyActive Env.closeScope) = r := by
  obtain ⟨templates, depth⟩ := r
  obtain ⟨inners, innerDepth⟩ := inner
  obtain ⟨hdepth, htail, hactive⟩ := h
  -- at top level the block had a template of its own, elsewhere a scope
  cases templates with
  | nil =>
    show (⟨inners.tail, innerDepth⟩ : Resolver) = ⟨[], depth⟩
    rw [show innerDepth = depth from hdepth, show inners.tail = [] from htail]
  | cons t ts =>
    cases inners with
    | nil => cases hactive
    | cons t' ts' =>
      cases hactive with
      | some hgrown =>
        have hclose : t'.closeScope = t := by
          unfold Env.closeScope
          rw [hgrown.closeScope?]
          rfl
        show (⟨t'.closeScope :: ts', innerDepth⟩ : Resolver) = ⟨t :: ts, depth⟩
        rw [hclose, show innerDepth = depth from hdepth, show ts' = ts from htail]

/-- Leaving a function undoes what has changed since it was entered. -/
theorem leaveFunction_of_grown {r inner : Resolver} {name : String} {params : List String}
    (h : (r.enterFunction name params).Grown inner) :
    (⟨inner.templates.tail, inner.functionDepth - 1⟩ : Resolver) = r := by
  obtain ⟨hdepth, htail, -⟩ := h
  rw [hdepth, htail]
  rfl

end Resolver

/-! ## §2. What a resolved statement looks like. -/

variable {r r' : Resolver} {s s' t u : Stmt} {body body' : List Stmt} {c e : Expr}

/-- A resolved `if` without `else`: condition first, then the branch. -/
theorem resolve_ifThen_ok (h : Stmt.resolve (.ifThen c t) r = (.ok s', r')) :
    ∃ t', t.resolve r = (.ok t', r') ∧ s' = .ifThen (c.resolve r) t' := by
  unfold Stmt.resolve at h
  obtain ⟨c', r₁, hc, h⟩ := Attempt.bind_eq_ok_iff.1 h
  cases hc
  obtain ⟨t', r₂, ht, h⟩ := Attempt.bind_eq_ok_iff.1 h
  cases h
  exact ⟨t', ht, rfl⟩

/-- The branches of an `if` are resolved in order, the second where the first has led. -/
theorem resolve_ifElse_ok (h : Stmt.resolve (.ifElse c t u) r = (.ok s', r')) :
    ∃ t' u' r₁, t.resolve r = (.ok t', r₁) ∧ u.resolve r₁ = (.ok u', r')
      ∧ s' = .ifElse (c.resolve r) t' u' := by
  unfold Stmt.resolve at h
  obtain ⟨c', r₀, hc, h⟩ := Attempt.bind_eq_ok_iff.1 h
  cases hc
  obtain ⟨t', r₁, ht, h⟩ := Attempt.bind_eq_ok_iff.1 h
  obtain ⟨u', r₂, hu, h⟩ := Attempt.bind_eq_ok_iff.1 h
  cases h
  exact ⟨t', u', r₁, ht, hu, rfl⟩

/-- A resolved loop: condition first, then the body. -/
theorem resolve_whileLoop_ok (h : Stmt.resolve (.whileLoop c t) r = (.ok s', r')) :
    ∃ t', t.resolve r = (.ok t', r') ∧ s' = .whileLoop (c.resolve r) t' := by
  unfold Stmt.resolve at h
  obtain ⟨c', r₁, hc, h⟩ := Attempt.bind_eq_ok_iff.1 h
  cases hc
  obtain ⟨t', r₂, ht, h⟩ := Attempt.bind_eq_ok_iff.1 h
  cases h
  exact ⟨t', ht, rfl⟩

/-- A block is resolved inside, and then left: at the top level its template goes. -/
theorem resolve_block_ok (h : Stmt.resolve (.block body) r = (.ok s', r')) :
    ∃ body' inner, Stmt.resolveAll body r.enterBlock = (.ok body', inner)
      ∧ r' = (if r.templates.isEmpty then { inner with templates := inner.templates.tail }
          else inner.modifyActive Env.closeScope)
      ∧ s' = .block body' := by
  unfold Stmt.resolve at h
  obtain ⟨body', r₁, hbody, h⟩ := Attempt.bind_eq_ok_iff.1 h
  cases h
  unfold Resolve.inBlock at hbody
  -- the scope is left in either way, whatever the body gives
  rcases hrun : Stmt.resolveAll body r.enterBlock with ⟨result, inner⟩
  rw [hrun] at hbody
  dsimp only at hbody
  by_cases hempty : r.templates.isEmpty
  · rw [if_pos hempty] at hbody
    cases hbody
    exact ⟨body', inner, rfl, (if_pos hempty).symm, rfl⟩
  · rw [if_neg hempty] at hbody
    cases hbody
    exact ⟨body', inner, rfl, (if_neg hempty).symm, rfl⟩

/-- A function is resolved in a template of its own, and then its name is declared. -/
theorem resolve_funDecl_ok {name : String} {line : Int} {params : List String}
    (h : Stmt.resolve (.funDecl name line params body) r = (.ok s', r')) :
    ∃ body' inner, Stmt.resolveAll body (r.enterFunction name params) = (.ok body', inner)
      ∧ r' = (⟨inner.templates.tail, inner.functionDepth - 1⟩ : Resolver).modifyActive
          (·.declare name ())
      ∧ s' = .funDecl name line params body' := by
  unfold Stmt.resolve at h
  cases hrepeated : firstRepeated? [] params with
  | some parameter =>
    rw [hrepeated] at h
    cases h
  | none =>
    rw [hrepeated] at h
    obtain ⟨body', r₁, hbody, h⟩ := Attempt.bind_eq_ok_iff.1 h
    obtain ⟨_, r₂, hdeclare, h⟩ := Attempt.bind_eq_ok_iff.1 h
    cases h
    unfold Resolve.inFunction at hbody
    rcases hrun : Stmt.resolveAll body (r.enterFunction name params) with ⟨result, inner⟩
    rw [hrun] at hbody
    cases hbody
    cases hdeclare
    exact ⟨body', inner, rfl, rfl, rfl⟩

/-- A return was accepted: it is in a function, and changes nothing. -/
theorem resolve_ret_ok {line : Int} (h : Stmt.resolve (.ret line e) r = (.ok s', r')) :
    r' = r ∧ s' = .ret line (e.resolve r) := by
  unfold Stmt.resolve at h
  obtain ⟨_, r₁, hget, h⟩ := Attempt.bind_eq_ok_iff.1 h
  cases hget
  split at h
  · cases h
  · obtain ⟨e', r₂, he, h⟩ := Attempt.bind_eq_ok_iff.1 h
    cases he
    cases h
    exact ⟨rfl, rfl⟩

/-- A row is resolved one statement after the other. -/
theorem resolveAll_cons_ok (h : Stmt.resolveAll (s :: body) r = (.ok body', r')) :
    ∃ s' rest r₁, s.resolve r = (.ok s', r₁) ∧ Stmt.resolveAll body r₁ = (.ok rest, r')
      ∧ body' = s' :: rest := by
  unfold Stmt.resolveAll at h
  obtain ⟨s', r₁, hs, h⟩ := Attempt.bind_eq_ok_iff.1 h
  obtain ⟨rest, r₂, hrest, h⟩ := Attempt.bind_eq_ok_iff.1 h
  cases h
  exact ⟨s', rest, r₁, hs, hrest, rfl⟩

theorem resolveAll_nil_ok (h : Stmt.resolveAll [] r = (.ok body', r')) :
    body' = [] ∧ r' = r := by
  unfold Stmt.resolveAll at h
  cases h
  exact ⟨rfl, rfl⟩

/-! ## §3. The resolver behind a statement. -/

/-- A row leads to where its statements lead. -/
theorem resolveAll_state_of (h : ∀ s ∈ body, ∀ {r s' r'}, s.resolve r = (.ok s', r') →
      r' = r.after s) : ∀ {r body' r'}, Stmt.resolveAll body r = (.ok body', r') →
      r' = body.foldl Resolver.after r := by
  induction body with
  | nil =>
    intro r body' r' hrun
    exact (resolveAll_nil_ok hrun).2
  | cons s body ih =>
    intro r body' r' hrun
    obtain ⟨s', rest, r₁, hs, hrest, -⟩ := resolveAll_cons_ok hrun
    -- each statement moves the resolver on by what it declares
    have hr₁ := h s List.mem_cons_self hs
    have hr' := ih (fun s' hs' => h s' (List.mem_cons_of_mem s hs')) hrest
    rw [hr', hr₁]
    rfl

/-- **A tidy statement leaves nothing behind but what it declares.** -/
theorem resolve_state (h : s.Tidy) : ∀ {r s' r'}, s.resolve r = (.ok s', r') → r' = r.after s := by
  induction h with
  | expr e =>
    intro r s' r' hrun
    cases hrun
    rfl
  | print es =>
    intro r s' r' hrun
    cases hrun
    rfl
  | ifThen c _ hplain ih =>
    intro r s' r' hrun
    obtain ⟨t', ht, -⟩ := resolve_ifThen_ok hrun
    rw [ih ht]
    unfold Resolver.after
    rw [hplain]
    rfl
  | ifElse c _ hplain _ hplain' ih ih' =>
    intro r s' r' hrun
    obtain ⟨t', u', r₁, ht, hu, -⟩ := resolve_ifElse_ok hrun
    rw [ih' hu, ih ht]
    unfold Resolver.after
    rw [hplain, hplain']
    rfl
  | @block body _ ih =>
    intro r s' r' hrun
    -- what the block declares is in its own scope, and goes with it
    obtain ⟨body', inner, hbody, hleave, -⟩ := resolve_block_ok hrun
    have hinner := resolveAll_state_of ih hbody
    rw [hleave]
    refine Resolver.leaveBlock_of_grown ?_
    rw [hinner]
    exact Resolver.grown_foldl_after body _
  | varDecl name line initial =>
    intro r s' r' hrun
    cases hrun
    rfl
  | whileLoop c _ hplain ih =>
    intro r s' r' hrun
    obtain ⟨t', ht, -⟩ := resolve_whileLoop_ok hrun
    rw [ih ht]
    unfold Resolver.after
    rw [hplain]
    rfl
  | @funDecl name line params body _ ih =>
    intro r s' r' hrun
    obtain ⟨body', inner, hbody, hleave, -⟩ := resolve_funDecl_ok hrun
    -- the body leaves its template, and the name is declared around it
    have hinner := resolveAll_state_of ih hbody
    have hgrown : (r.enterFunction name params).Grown inner := by
      rw [hinner]
      exact Resolver.grown_foldl_after body _
    rw [hleave, Resolver.leaveFunction_of_grown hgrown]
    rfl
  | ret line value =>
    intro r s' r' hrun
    exact (resolve_ret_ok hrun).1

/-- A tidy statement that declares nothing leaves the resolver as it was. -/
theorem resolve_state_of_plain (h : s.Tidy) (hplain : s.declared? = none)
    (hrun : s.resolve r = (.ok s', r')) : r' = r := by
  rw [resolve_state h hrun]
  unfold Resolver.after
  rw [hplain]

/-! ## §4. Inputs. -/

/-- An input is read if it can be cut into tokens, and these are a program. -/
theorem readProgram_eq_ok_iff {source : String} {line : Int} {body : List Stmt} :
    readProgram source line = .ok body
      ↔ ∃ input, scan source line = .ok input ∧ parse input = .ok body := by
  constructor
  · intro h
    unfold readProgram at h
    split at h
    · cases h
    · next input hscan =>
      split at h
      · cases h
      · next hparse =>
        cases h
        exact ⟨input, hscan, hparse⟩
  · rintro ⟨input, hscan, hparse⟩
    unfold readProgram
    rw [hscan]
    dsimp only
    rw [hparse]

/-- An input that can be read and resolved, with the limits under which it runs. -/
structure AcceptedInput where
  source : String
  /-- The number of its first line. -/
  line : Int
  limits : Limits
  /-- The statements as they were read. -/
  body : List Stmt
  /-- The statements with their slots. -/
  program : List Stmt
  read : readProgram source line = .ok body
  resolved : (Resolver.initial.resolve body).1 = .ok program

-- a block with a closure in it
example : ∃ i : AcceptedInput, i.source = "\x7b var a; fun f() \x7b return a; \x7d print f(); \x7d"
    ∧ i.program = [.block [.varDecl "a" 1 (.literal .nil),
      .funDecl "f" 1 [] [.ret 1 (.var ⟨"a", 1, some 0⟩)],
      .print [.call 1 (.var ⟨"f", 1, some 1⟩) []]]] := by
  refine ⟨⟨_, 1, .ofDepth 100, [.block [.varDecl "a" 1 (.literal .nil),
    .funDecl "f" 1 [] [.ret 1 (.var ⟨"a", 1, none⟩)],
    .print [.call 1 (.var ⟨"f", 1, none⟩) []]]], _, ?_, rfl⟩, rfl, rfl⟩
  cbv

/-- What was read is tidy. -/
theorem AcceptedInput.tidy (i : AcceptedInput) : ∀ s ∈ i.body, s.Tidy := by
  obtain ⟨input, -, hparse⟩ := readProgram_eq_ok_iff.1 i.read
  exact tidy_of_parse hparse

/-- Run inputs in turn on one machine, whatever each of them ends with. -/
def inTurn {σ ι α : Type} (run : σ → ι → α × σ) : σ → List ι → List α × σ
  | m, [] => ([], m)
  | m, i :: is => ((run m i).1 :: (inTurn run (run m i).2 is).1, (inTurn run (run m i).2 is).2)

/-- What comes later finds what came before. -/
theorem inTurn_append {σ ι α : Type} (run : σ → ι → α × σ) (js : List ι) :
    ∀ (is : List ι) (m : σ), (inTurn run m (is ++ js)).2
      = (inTurn run (inTurn run m is).2 js).2 := by
  intro is
  induction is with
  | nil => exact fun _ => rfl
  | cons i is ih => exact fun m => ih (run m i).2

end LoxLang
