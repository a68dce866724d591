/-
  LoxLang.Proofs.Scope.Unwinding
  ──────────────────────────────
  **The resolver cleans up on every way out.**  A statement may be refused at any depth
  of blocks and functions.  Refused or not, it leaves the enclosing templates alone and
  changes the active one in its active scope only (`unwinds_resolve`).

  Consequences:
    * `closable_of_grown`    — a block that is left has a scope, or a template, to drop,
    * `resolve_initial`      — a program leaves the resolver as fresh as it was,
    * `resolve_append`       — programs behind each other are resolved one by one.
-/
import LoxLang.Proofs.Scope.Resolve

namespace LoxLang

/-! ## §1. Attempts that clean up. -/

namespace Resolve

variable {α β : Type}

/-- Whatever the attempt ends with, only the active scope of the active template has
changed. -/
def Unwinds (x : Resolve α) : Prop :=
  ∀ r : Resolver, r.Grown (x r).2

theorem Unwinds.pure (a : α) : Unwinds (pure a : Resolve α) :=
  fun r => Resolver.Grown.refl r

/-- A refusal leaves the resolver as it is, before any block or function is left. -/
theorem Unwinds.throw (e : ResolveError) : Unwinds (throw e : Resolve α) :=
  fun r => Resolver.Grown.refl r

/-- Cleaning up is preserved by sequence. -/
theorem Unwinds.bind {x : Resolve α} {f : α → Resolve β} (h : Unwinds x)
    (hf : ∀ a, Unwinds (f a)) : Unwinds (x >>= f) := by
  intro r
  have hr := h r
  rcases hx : x r with ⟨e | a, r'⟩
  · rw [hx] at hr
    rw [Attempt.bind_error hx]
    exact hr
  · rw [hx] at hr
    rw [Attempt.bind_ok hx]
    exact hr.trans (hf a r')

theorem Unwinds.get_bind {f : Resolver → Resolve β} (hf : ∀ r, Unwinds (f r)) :
    Unwinds (get >>= f) :=
  fun r => hf r r

theorem unwinds_expr (e : Expr) : Unwinds (expr e) :=
  .get_bind fun _ => .pure _

theorem unwinds_exprs (es : List Expr) : Unwinds (exprs es) :=
  .get_bind fun _ => .pure _

/-- A declaration changes the active scope only. -/
theorem unwinds_declare (name : String) : Unwinds (declare name) := by
  intro r
  obtain ⟨templates, depth⟩ := r
  cases templates with
  | nil => exact Resolver.Grown.refl _
  | cons t ts => exact ⟨rfl, rfl, .some (Env.grown_declare t name ())⟩

/-- A block gives back the resolver that it was entered with. -/
theorem inBlock_state {body : Resolve α} (h : Unwinds body) (r : Resolver) :
    (inBlock body r).2 = r := by
  have hleave := Resolver.leaveBlock_of_grown (h r.enterBlock)
  by_cases hempty : r.templates.isEmpty
  · rw [if_pos hempty] at hleave
    unfold inBlock
    simp only [hempty, if_true]
    exact hleave
  · rw [if_neg hempty] at hleave
    unfold inBlock
    simp only [hempty, Bool.false_eq_true, if_false]
    exact hleave

/-- A block is resolved in its own scope, and leaves the resolver as it was. -/
theorem inBlock_apply {body : Resolve α} (h : Unwinds body) (r : Resolver) :
    inBlock body r = ((body r.enterBlock).1, r) := by
  refine Prod.ext ?_ (inBlock_state h r)
  rcases hbody : body r.enterBlock with ⟨result, inner⟩
  unfold inBlock
  rw [hbody]
  dsimp only
  split
  · rfl
  · rfl

/-- A function gives back the resolver that it was declared in. -/
theorem inFunction_state {body : Resolve α} (h : Unwinds body) (name : String)
    (params : List String) (r : Resolver) : (inFunction name params body r).2 = r :=
  Resolver.leaveFunction_of_grown (h (r.enterFunction name params))

/-- A block is left whether its body was refused or not. -/
theorem unwinds_inBlock {body : Resolve α} (h : Unwinds body) : Unwinds (inBlock body) := by
  intro r
  rw [inBlock_state h]
  exact Resolver.Grown.refl r

/-- A function is left whether its body was refused or not. -/
theorem unwinds_inFunction {body : Resolve α} (h : Unwinds body) (name : String)
    (params : List String) : Unwinds (inFunction name params body) := by
  intro r
  rw [inFunction_state h]
  exact Resolver.Grown.refl r

end Resolve

/-! ## §2. All statements. -/

open Resolve

mutual

/-- **A statement cleans up behind itself**, refused or not. -/
theorem unwinds_resolve : ∀ s : Stmt, Unwinds s.resolve
  | .expr e => by
    unfold Stmt.resolve
    exact (unwinds_expr e).bind fun _ => .pure _
  | .print es => by
    unfold Stmt.resolve
    exact (unwinds_exprs es).bind fun _ => .pure _
  | .ifThen c t => by
    unfold Stmt.resolve
    exact (unwinds_expr c).bind fun _ => (unwinds_resolve t).bind fun _ => .pure _
  | .ifElse c t u => by
    unfold Stmt.resolve
    exact (unwinds_expr c).bind fun _ => (unwinds_resolve t).bind fun _ =>
      (unwinds_resolve u).bind fun _ => .pure _
  | .block body => by
    unfold Stmt.resolve
    exact (unwinds_inBlock (unwinds_resolveAll body)).bind fun _ => .pure _
  | .varDecl name line initial => by
    unfold Stmt.resolve
    exact (unwinds_expr initial).bind fun _ => (unwinds_declare name).bind fun _ => .pure _
  | .whileLoop c t => by
    unfold Stmt.resolve
    exact (unwinds_expr c).bind fun _ => (unwinds_resolve t).bind fun _ => .pure _
  | .funDecl name line params body => by
    unfold Stmt.resolve
    -- a repeated parameter is refused before the body is entered
    split
    · exact .throw _
    · exact (unwinds_inFunction (unwinds_resolveAll body) name params).bind fun _ =>
        (unwinds_declare name).bind fun _ => .pure _
  | .ret line value => by
    unfold Stmt.resolve
    refine .get_bind fun r => ?_
    split
    · exact .throw _
    · exact (unwinds_expr value).bind fun _ => .pure _

/-- A row of statements cleans up as its statements do. -/
theorem unwinds_resolveAll : ∀ body : List Stmt, Unwinds (Stmt.resolveAll body)
  | [] => by
    unfold Stmt.resolveAll
    exact .pure _
  | s :: body => by
    unfold Stmt.resolveAll
    exact (unwinds_resolve s).bind fun _ => (unwinds_resolveAll body).bind fun _ => .pure _

end

/-! ## §3. Leaving blocks and functions. -/

namespace Resolver

/-- There is a scope to close: in the active template. -/
def Closable (r : Resolver) : Prop :=
  ∃ t ∈ r.active?, t.closeScope?.isSome

/-- At the end of a block inside of others, its own scope is there to be closed. -/
theorem closable_of_grown {r inner : Resolver} (h : r.enterBlock.Grown inner)
    (hne : r.templates ≠ []) : inner.Closable := by
  obtain ⟨templates, depth⟩ := r
  cases templates with
  | nil => exact absurd rfl hne
  | cons t ts =>
    obtain ⟨-, -, hactive⟩ := h
    unfold Closable
    generalize inner.active? = active at hactive
    cases hactive with
    | @some _ t' hgrown =>
      refine ⟨t', rfl, ?_⟩
      rw [hgrown.closeScope?]
      rfl

/-- A template that was there is still there. -/
theorem templates_ne_nil_of_grown {r inner : Resolver} (h : r.Grown inner)
    (hne : r.templates ≠ []) : inner.templates ≠ [] := by
  obtain ⟨templates, depth⟩ := r
  obtain ⟨inners, innerDepth⟩ := inner
  obtain ⟨-, -, hactive⟩ := h
  rintro rfl
  cases templates with
  | nil => exact hne rfl
  | cons t ts => cases hactive

/-- In a block there is a template. -/
theorem templates_enterBlock_ne_nil (r : Resolver) : r.enterBlock.templates ≠ [] := by
  obtain ⟨templates, depth⟩ := r
  cases templates with
  | nil => exact List.cons_ne_nil _ _
  | cons t ts => exact List.cons_ne_nil _ _

/-- Where nothing encloses the code, nothing can have grown. -/
theorem eq_initial_of_grown {r : Resolver} (h : initial.Grown r) : r = initial := by
  obtain ⟨templates, depth⟩ := r
  obtain ⟨hdepth, -, hactive⟩ := h
  cases templates with
  | nil => rw [show depth = 0 from hdepth]; rfl
  | cons t ts => cases hactive

end Resolver

/-! ## §4. Programs. -/

/-- **A resolver is as fresh behind a program as in front of it**, refused or not. -/
theorem resolve_initial (body : List Stmt) : (Resolver.initial.resolve body).2 = .initial :=
  Resolver.eq_initial_of_grown (unwinds_resolveAll body .initial)

/-- Rows that are resolved one after the other are resolved as one. -/
theorem resolveAll_append_ok {body more body' more' : List Stmt} {r₂ r₃ : Resolver} :
    ∀ {r₁ : Resolver}, Stmt.resolveAll body r₁ = (.ok body', r₂) →
      Stmt.resolveAll more r₂ = (.ok more', r₃) →
      Stmt.resolveAll (body ++ more) r₁ = (.ok (body' ++ more'), r₃) := by
  induction body generalizing body' with
  | nil =>
    intro r₁ hbody hmore
    obtain ⟨rfl, rfl⟩ := resolveAll_nil_ok hbody
    exact hmore
  | cons s body ih =>
    intro r₁ hbody hmore
    obtain ⟨s', rest, r, hs, hrest, rfl⟩ := resolveAll_cons_ok hbody
    have htail := ih hrest hmore
    show Stmt.resolveAll (s :: (body ++ more)) r₁ = _
    unfold Stmt.resolveAll
    rw [Attempt.bind_ok hs, Attempt.bind_ok htail]
    rfl

/-- **Programs behind each other are resolved one by one**: at top level no declaration
is noted, so that the second finds the resolver as the first did. -/
theorem resolve_append {body more body' more' : List Stmt}
    (hbody : (Resolver.initial.resolve body).1 = .ok body')
    (hmore : (Resolver.initial.resolve more).1 = .ok more') :
    (Resolver.initial.resolve (body ++ more)).1 = .ok (body' ++ more') := by
  have hfirst : Stmt.resolveAll body .initial = (.ok body', .initial) :=
    Prod.ext hbody (resolve_initial body)
  have hsecond : Stmt.resolveAll more .initial = (.ok more', .initial) :=
    Prod.ext hmore (resolve_initial more)
  show (Stmt.resolveAll (body ++ more) .initial).1 = _
  rw [resolveAll_append_ok hfirst hsecond]

end LoxLang
