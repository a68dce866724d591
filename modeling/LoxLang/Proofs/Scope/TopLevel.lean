/-
  LoxLang.Proofs.Scope.TopLevel
  ─────────────────────────────
  **Top-level code does not return.**  A return outside of every function is refused
  before a program runs, so that of the two ways in which a statement may end, only one
  is left at top level (`proceeds_exec`).  A program is therefore run to its last
  statement unless it stops half-way, and two programs behind each other are run in
  turn (`program_append`), where the value of the whole is the last that there was
  (`program_eq_of_last`).
-/
import LoxLang.Proofs.Scope.Checked
import LoxLang.Proofs.Scope.Unwinding

namespace LoxLang

/-- Is the statement an expression, whose value counts? -/
def Stmt.isExpr : Stmt → Bool
  | .expr _ => true
  | _ => false

namespace Exec

variable {κ α : Type}

/-! ## §1. Code that proceeds. -/

/-- The code may stop half-way, but it never returns. -/
def Proceeds (x : ExecWith κ (Completion κ)) : Prop :=
  ∀ m v, (x m).1 ≠ .ok (.returned v)

theorem Proceeds.normal : Proceeds (pure .normal : ExecWith κ (Completion κ)) :=
  fun _ _ => nofun

theorem Proceeds.throw (halt : Halt) : Proceeds (throw halt : ExecWith κ (Completion κ)) :=
  fun _ _ => nofun

/-- Only the last of two computations tells how a statement ends. -/
theorem Proceeds.bind {x : ExecWith κ α} {f : α → ExecWith κ (Completion κ)}
    (hf : ∀ a, Proceeds (f a)) : Proceeds (x >>= f) := by
  intro m v
  rcases hx : x m with ⟨halt | a, m'⟩
  · rw [Attempt.bind_error hx]
    exact nofun
  · rw [Attempt.bind_ok hx]
    exact hf a m' v

/-- Code that proceeds stops half-way or ends normally. -/
theorem Proceeds.ends {x : ExecWith κ (Completion κ)} (h : Proceeds x) (m : Machine κ) :
    (∃ halt m', x m = (.error halt, m')) ∨ ∃ m', x m = (.ok .normal, m') := by
  have hx := h m
  rcases hrun : x m with ⟨halt | c, m'⟩
  · exact Or.inl ⟨halt, m', rfl⟩
  · rw [hrun] at hx
    cases c with
    | normal => exact Or.inr ⟨m', rfl⟩
    | returned v => exact absurd rfl (hx v)

/-- Behind code that proceeds, only what follows a normal end is ever run. -/
theorem Proceeds.bind_normal {x : ExecWith κ (Completion κ)}
    {f : Completion κ → ExecWith κ (Completion κ)} (h : Proceeds x) (hf : Proceeds (f .normal)) :
    Proceeds (x >>= f) := by
  intro m v
  rcases h.ends m with ⟨halt, m', hrun⟩ | ⟨m', hrun⟩
  · rw [Attempt.bind_error hrun]
    exact nofun
  · rw [Attempt.bind_ok hrun]
    exact hf m' v

/-- A block ends as its body does. -/
theorem proceeds_inBlock {body : ExecWith κ (Completion κ)} (h : Proceeds body) :
    Proceeds (inBlock body) := by
  intro m v
  obtain ⟨heap, globals, locals, output⟩ := m
  cases locals with
  | none => exact h ⟨heap, globals, some .empty, output⟩ v
  | some e =>
    have hbody := h ⟨heap, globals, some e.openScope, output⟩ v
    unfold inBlock
    dsimp only
    -- the block ends as its body does, or with a fault
    rcases hrun : body ⟨heap, globals, some e.openScope, output⟩ with
      ⟨result, ⟨heap', globals', locals', output'⟩⟩
    rw [hrun] at hbody
    dsimp only
    split
    · exact hbody
    · exact nofun

/-- A row of statements, none of which returns, does not return. -/
theorem proceeds_sequence {ι : Type} {step : ι → ExecWith κ (Completion κ)} {is : List ι}
    (h : ∀ i ∈ is, Proceeds (step i)) : Proceeds (sequence step is) := by
  induction is with
  | nil => exact .normal
  | cons i is ih =>
    have hmore := ih fun j hj => h j (List.mem_cons_of_mem i hj)
    exact (h i List.mem_cons_self).bind_normal hmore

/-- A loop whose body does not return does not return. -/
theorem proceeds_loop {condition : ExecWith κ Bool} {body : ExecWith κ (Completion κ)}
    (h : Proceeds body) : ∀ turns : Nat, Proceeds (loop condition body turns) := by
  intro turns
  induction turns with
  | zero => exact .throw _
  | succ turns ih =>
    unfold loop
    refine .bind fun holds => ?_
    cases holds with
    | false => exact .normal
    | true => exact h.bind_normal ih

end Exec

/-! ## §2. Resolved code outside of functions. -/

open Exec

theorem functionDepth_enterBlock (r : Resolver) : r.enterBlock.functionDepth = r.functionDepth := by
  obtain ⟨templates, depth⟩ := r
  cases templates with
  | nil => rfl
  | cons t ts => rfl

/-- A statement leaves the resolver at the function depth where it found it. -/
theorem functionDepth_of_resolve {s s' : Stmt} {r r' : Resolver}
    (hs : s.resolve r = (.ok s', r')) : r'.functionDepth = r.functionDepth := by
  have hgrown := unwinds_resolve s r
  rw [hs] at hgrown
  exact hgrown.1

/-- What holds of all statements resolved outside of functions holds of a program's. -/
theorem forall_mem_of_resolveAll {P : Stmt → Prop} {r : Resolver} (hr : r.functionDepth = 0)
    (h : ∀ {s s' : Stmt} {r r' : Resolver}, r.functionDepth = 0 → s.resolve r = (.ok s', r') →
      P s') : ∀ {body body' : List Stmt} {r' : Resolver},
      Stmt.resolveAll body r = (.ok body', r') → ∀ s ∈ body', P s := by
  intro body
  induction body generalizing r with
  | nil =>
    intro body' r' hbody s hs
    obtain ⟨rfl, -⟩ := resolveAll_nil_ok hbody
    cases hs
  | cons t body ih =>
    intro body' r' hbody s hs
    obtain ⟨t', rest, r₁, ht, hrest, rfl⟩ := resolveAll_cons_ok hbody
    rcases List.mem_cons.1 hs with rfl | hs
    · exact h hr ht
    · exact ih ((functionDepth_of_resolve ht).trans hr) hrest s hs

/-- **Outside of every function, resolved code does not return.**  By induction on the
depth, through blocks, branches and loops; a function is only declared here. -/
theorem proceeds_exec (turns : Nat) : ∀ (depth : Nat) {s s' : Stmt} {r r' : Resolver},
    r.functionDepth = 0 → s.resolve r = (.ok s', r') → Proceeds (exec turns depth s') := by
  intro depth
  induction depth with
  | zero =>
    intro s s' r r' _ _
    exact .throw _
  | succ depth ih =>
    intro s s' r r' hr hs
    cases s with
    | expr e =>
      cases hs
      exact .bind fun _ => .normal
    | print es =>
      cases hs
      exact .bind fun _ => .bind fun _ => .normal
    | ifThen c t =>
      obtain ⟨t', ht, rfl⟩ := resolve_ifThen_ok hs
      refine .bind fun v => ?_
      split
      · exact ih hr ht
      · exact .normal
    | ifElse c t u =>
      obtain ⟨t', u', r₁, ht, hu, rfl⟩ := resolve_ifElse_ok hs
      refine .bind fun v => ?_
      split
      · exact ih hr ht
      · exact ih ((functionDepth_of_resolve ht).trans hr) hu
    | block body =>
      obtain ⟨body', inner, hbody, -, rfl⟩ := resolve_block_ok hs
      refine proceeds_inBlock (proceeds_sequence ?_)
      exact forall_mem_of_resolveAll ((functionDepth_enterBlock r).trans hr) ih hbody
    | varDecl name line initial =>
      cases hs
      exact .bind fun _ => .bind fun _ => .normal
    | whileLoop c t =>
      obtain ⟨t', ht, rfl⟩ := resolve_whileLoop_ok hs
      exact proceeds_loop (ih hr ht) turns
    | funDecl name line params body =>
      obtain ⟨body', inner, -, -, rfl⟩ := resolve_funDecl_ok hs
      exact .bind fun _ => .bind fun _ => .normal
    | ret line value =>
      -- a return at this depth is refused
      unfold Stmt.resolve at hs
      obtain ⟨_, r₁, hget, hs⟩ := Attempt.bind_eq_ok_iff.1 hs
      cases hget
      rw [if_pos hr] at hs
      cases hs

/-- No statement of a resolved program returns. -/
theorem proceeds_program {body program : List Stmt}
    (h : (Resolver.initial.resolve body).1 = .ok program) (turns depth : Nat) :
    ∀ s ∈ program, Proceeds (exec turns depth s) := by
  obtain ⟨r', hbody⟩ := Attempt.exists_eq_ok (x := Stmt.resolveAll body) h
  exact forall_mem_of_resolveAll rfl (proceeds_exec turns depth) hbody

/-! ## §3. Programs behind each other. -/

theorem isExpr_eq_false_iff {s : Stmt} : s.isExpr = false ↔ ∀ e, s ≠ .expr e := by
  cases s with
  | expr e => simp [Stmt.isExpr]
  | _ => simp [Stmt.isExpr]

/-- **Two programs behind each other are run in turn**: the second goes on with the last
value of the first. -/
theorem program_append {limits : Limits} {body : List Stmt}
    (h : ∀ s ∈ body, Proceeds (exec limits.turns limits.depth s)) (more : List Stmt) :
    ∀ (last : Value) (m : Machine), program limits last (body ++ more) m
      = (program limits last body >>= fun v => program limits v more) m := by
  induction body with
  | nil =>
    intro last m
    rfl
  | cons s body ih =>
    intro last m
    have hmore := ih fun t ht => h t (List.mem_cons_of_mem s ht)
    by_cases hexpr : ∃ e, s = .expr e
    · obtain ⟨e, rfl⟩ := hexpr
      show (eval limits.turns limits.depth e >>= fun v => program limits v (body ++ more)) m
        = ((eval limits.turns limits.depth e >>= fun v => program limits v body) >>= _) m
      rw [bind_assoc]
      rcases heval : eval limits.turns limits.depth e m with ⟨halt | v, m'⟩
      · rw [Attempt.bind_error heval, Attempt.bind_error heval]
      · rw [Attempt.bind_ok heval, Attempt.bind_ok heval]
        exact hmore v m'
    · have hne : ∀ e, s ≠ .expr e := fun e he => hexpr ⟨e, he⟩
      have hs := h s List.mem_cons_self
      rw [List.cons_append, program_cons_of_ne hne, program_cons_of_ne hne, bind_assoc]
      rcases hs.ends m with ⟨halt, m', hrun⟩ | ⟨m', hrun⟩
      · rw [Attempt.bind_error hrun, Attempt.bind_error hrun]
      · rw [Attempt.bind_ok hrun, Attempt.bind_ok hrun]
        exact hmore last m'

/-- **The value of a program is the last that there was.**  Only that of a program without
an expression statement depends on the value before it. -/
theorem program_eq_of_last {limits : Limits} {body : List Stmt}
    (h : ∀ s ∈ body, Proceeds (exec limits.turns limits.depth s)) :
    ∀ (last last' : Value) (m : Machine), program limits last body m
      = match program limits last' body m with
        | (.ok v, m') => (.ok (if body.any Stmt.isExpr then v else last), m')
        | (.error halt, m') => (.error halt, m') := by
  induction body with
  | nil =>
    intro last last' m
    rfl
  | cons s body ih =>
    intro last last' m
    by_cases hexpr : ∃ e, s = .expr e
    · obtain ⟨e, rfl⟩ := hexpr
      -- from here on, both know the same last value
      have hsame : program limits last (.expr e :: body) m
          = program limits last' (.expr e :: body) m := rfl
      rw [hsame]
      rcases program limits last' (.expr e :: body) m with ⟨halt | v, m'⟩
      · rfl
      · rfl
    · have hne : ∀ e, s ≠ .expr e := fun e he => hexpr ⟨e, he⟩
      have hany : (s :: body).any Stmt.isExpr = body.any Stmt.isExpr := by
        rw [List.any_cons, isExpr_eq_false_iff.2 hne, Bool.false_or]
      have hs := h s List.mem_cons_self
      have hmore := ih fun t ht => h t (List.mem_cons_of_mem s ht)
      rw [program_cons_of_ne hne, program_cons_of_ne hne, hany]
      rcases hs.ends m with ⟨halt, m', hrun⟩ | ⟨m', hrun⟩
      · rw [Attempt.bind_error hrun, Attempt.bind_error hrun]
      · rw [Attempt.bind_ok hrun, Attempt.bind_ok hrun]
        exact hmore last last' m'

end LoxLang
