/-
  LoxLang.Proofs.Program.InOrder
  ──────────────────────────────
  **Programs run statement by statement.**  A run of top-level statements has one of two
  courses (`Course`): each statement in turn comes to its end, and the value is that of the
  last expression statement; or some come to their end and the next one stops, and nothing
  behind it is run.  Where no statement returns there is no third one (`course_of_program`),
  and so it is with all programs that were resolved (`course_of_resolve`).
-/
import LoxLang.Proofs.Scope.TopLevel

namespace LoxLang

variable {limits : Limits} {m m' : Machine} {body : List Stmt}

/-! ## §1. Courses. -/

/-- The statements came to their end, one after the other, and took the machine from the one
state to the other; `vs` are the values of the expression statements among them. -/
inductive Passed (limits : Limits) : Machine → List Stmt → List Value → Machine → Prop
  | nil {m : Machine} : Passed limits m [] [] m
  /-- An expression statement is evaluated. -/
  | value {m m₁ m' : Machine} {e : Expr} {v : Value} {rest : List Stmt} {vs : List Value}
      (run : Exec.eval limits.turns limits.depth e m = (.ok v, m₁))
      (more : Passed limits m₁ rest vs m') : Passed limits m (.expr e :: rest) (v :: vs) m'
  /-- Any other statement ends normally. -/
  | normal {m m₁ m' : Machine} {s : Stmt} {rest : List Stmt} {vs : List Value}
      (plain : ∀ e, s ≠ .expr e)
      (run : Exec.exec limits.turns limits.depth s m = (.ok .normal, m₁))
      (more : Passed limits m₁ rest vs m') : Passed limits m (s :: rest) vs m'

/-- The statement stopped half-way. -/
inductive Halted (limits : Limits) (m : Machine) : Stmt → Halt → Machine → Prop
  | value {m' : Machine} {e : Expr} {halt : Halt}
      (run : Exec.eval limits.turns limits.depth e m = (.error halt, m')) :
      Halted limits m (.expr e) halt m'
  | statement {m' : Machine} {s : Stmt} {halt : Halt} (plain : ∀ e, s ≠ .expr e)
      (run : Exec.exec limits.turns limits.depth s m = (.error halt, m')) :
      Halted limits m s halt m'

/-- What becomes of top-level statements, where `last` is the value before them. -/
inductive Course (limits : Limits) (m : Machine) (last : Value) (body : List Stmt) :
    Except Halt Value × Machine → Prop
  /-- All of them came to their end. -/
  | through {vs : List Value} {m' : Machine} (passed : Passed limits m body vs m') :
      Course limits m last body (.ok (vs.getLastD last), m')
  /-- Those of `done` came to their end, and the next one stopped. -/
  | stopped {done rest : List Stmt} {s : Stmt} {vs : List Value} {m₁ m' : Machine} {halt : Halt}
      (split : body = done ++ s :: rest) (passed : Passed limits m done vs m₁)
      (halted : Halted limits m₁ s halt m') : Course limits m last body (.error halt, m')

/-! ## §2. Runs take their course. -/

/-- A statement more in front. -/
theorem Course.value {m₁ : Machine} {e : Expr} {v last : Value} {r : Except Halt Value × Machine}
    (run : Exec.eval limits.turns limits.depth e m = (.ok v, m₁))
    (h : Course limits m₁ v body r) : Course limits m last (.expr e :: body) r := by
  cases h with
  | @through vs m' passed =>
    have hlast : (v :: vs).getLastD last = vs.getLastD v := List.getLastD_cons
    rw [← hlast]
    exact .through (.value run passed)
  | stopped split passed halted =>
    exact .stopped (congrArg (.expr e :: ·) split) (.value run passed) halted

theorem Course.normal {m₁ : Machine} {s : Stmt} {last : Value} {r : Except Halt Value × Machine}
    (plain : ∀ e, s ≠ .expr e)
    (run : Exec.exec limits.turns limits.depth s m = (.ok .normal, m₁))
    (h : Course limits m₁ last body r) : Course limits m last (s :: body) r := by
  cases h with
  | through passed => exact .through (.normal plain run passed)
  | stopped split passed halted =>
    exact .stopped (congrArg (s :: ·) split) (.normal plain run passed) halted

/-- **Where no statement returns, a program runs through, or up to the one that stops.** -/
theorem course_of_program
    (h : ∀ s ∈ body, Exec.Proceeds (Exec.exec limits.turns limits.depth s)) :
    ∀ (last : Value) (m : Machine),
      Course limits m last body (Exec.program limits last body m) := by
  induction body with
  | nil =>
    intro last m
    exact .through .nil
  | cons s body ih =>
    intro last m
    have hsplit : s :: body = [] ++ s :: body := rfl
    have hmore := ih fun t ht => h t (List.mem_cons_of_mem s ht)
    by_cases hexpr : ∃ e, s = .expr e
    · obtain ⟨e, rfl⟩ := hexpr
      show Course limits m last _
        ((Exec.eval limits.turns limits.depth e >>= fun v => Exec.program limits v body) m)
      rcases hrun : Exec.eval limits.turns limits.depth e m with ⟨halt | v, m₁⟩
      · rw [Attempt.bind_error hrun]
        exact .stopped hsplit .nil (.value hrun)
      · rw [Attempt.bind_ok hrun]
        exact .value hrun (hmore v m₁)
    · have hne : ∀ e, s ≠ .expr e := fun e he => hexpr ⟨e, he⟩
      rw [Exec.program_cons_of_ne hne]
      rcases (h s List.mem_cons_self).ends m with ⟨halt, m₁, hrun⟩ | ⟨m₁, hrun⟩
      · rw [Attempt.bind_error hrun]
        exact .stopped hsplit .nil (.statement hne hrun)
      · rw [Attempt.bind_ok hrun]
        exact .normal hne hrun (hmore last m₁)

/-- **A program that was resolved runs through, or up to the statement that stops**, on
whatever machine it is run. -/
theorem course_of_resolve {program : List Stmt}
    (h : (Resolver.initial.resolve body).1 = .ok program) (limits : Limits) (m : Machine) :
    Course limits m .nil program (m.run limits program) :=
  course_of_program (proceeds_program h limits.turns limits.depth) .nil m

end LoxLang
