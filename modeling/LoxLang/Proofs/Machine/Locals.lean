/-
  LoxLang.Proofs.Machine.Locals
  ─────────────────────────────
  **What running does to the local environment.**  Some computations leave it alone
  (`Still`), the others change it in its active scope only (`Keeps`).  Both are handed on to
  what is put together from such computations, and there is a law for each operation.

  From this it follows what is left behind a block and behind a call: the local environment
  that there was in front of it (`inBlock_eq`, `inCall_eq`), whatever the body did.
-/
import LoxLang.Proofs.Attempt
import LoxLang.Proofs.Machine.Closed
import LoxLang.Proofs.Scope.Env

namespace LoxLang

namespace Exec

variable {κ α β : Type}

/-! ## §1. Computations that keep the local environment. -/

/-- The computation leaves the local environment as it is. -/
def Still (x : ExecWith κ α) : Prop :=
  ∀ m, (x m).2.locals = m.locals

/-- The computation changes the local environment in its active scope only. -/
def Keeps (x : ExecWith κ α) : Prop :=
  ∀ m, Option.Rel Env.Grown m.locals (x m).2.locals

/-- No environment has changed, nor has one come or gone. -/
theorem grown_refl : ∀ locals : Option (Env Addr), Option.Rel Env.Grown locals locals
  | none => .none
  | some e => .some (Env.Grown.refl e)

/-- Changes in the active scope add up to changes in the active scope. -/
theorem grown_trans {l l' l'' : Option (Env Addr)} (h : Option.Rel Env.Grown l l')
    (h' : Option.Rel Env.Grown l' l'') : Option.Rel Env.Grown l l'' := by
  cases h with
  | none => exact h'
  | some hgrown =>
    cases h' with
    | some hgrown' => exact .some (hgrown.trans hgrown')

/-- What leaves the environment alone keeps it. -/
theorem Still.keeps {x : ExecWith κ α} (h : Still x) : Keeps x := by
  intro m
  rw [h m]
  exact grown_refl _

theorem Still.pure (a : α) : Still (pure a : ExecWith κ α) := fun _ => rfl

theorem Still.throw (halt : Halt) : Still (throw halt : ExecWith κ α) := fun _ => rfl

theorem Still.bind {x : ExecWith κ α} {f : α → ExecWith κ β} (h : Still x)
    (hf : ∀ a, Still (f a)) : Still (x >>= f) := by
  intro m
  rcases hx : x m with ⟨e | a, m'⟩
  · rw [Attempt.bind_error hx, ← h m, hx]
  · rw [Attempt.bind_ok hx, hf a m', ← h m, hx]

/-- Leaving the environment alone is handed on to what is put together. -/
theorem still_closed : Attempt.Closed fun α (x : ExecWith κ α) => Still x where
  pure := Still.pure
  throw := Still.throw
  bind := Still.bind

theorem Keeps.bind {x : ExecWith κ α} {f : α → ExecWith κ β} (h : Keeps x)
    (hf : ∀ a, Keeps (f a)) : Keeps (x >>= f) := by
  intro m
  -- a computation that stops keeps what it has grown so far
  have hm := h m
  rcases hx : x m with ⟨e | a, m'⟩
  · rw [hx] at hm
    rw [Attempt.bind_error hx]
    exact hm
  · rw [hx] at hm
    rw [Attempt.bind_ok hx]
    exact grown_trans hm (hf a m')

/-- Whatever is put together from changes in the active scope is one. -/
theorem keeps_closed : Attempt.Closed fun α (x : ExecWith κ α) => Keeps x where
  pure a := (Still.pure a).keeps
  throw halt := (Still.throw halt).keeps
  bind := Keeps.bind

/-- Code at top level ends at top level. -/
theorem Keeps.locals_eq_none {x : ExecWith κ α} (h : Keeps x) {m : Machine κ}
    (htop : m.locals = none) : (x m).2.locals = none := by
  have hgrown := h m
  rw [htop] at hgrown
  generalize (x m).2.locals = locals at hgrown
  cases hgrown
  rfl

/-- Reading the state leaves it alone. -/
theorem Still.get_bind {f : Machine κ → ExecWith κ β} (hf : ∀ m, Still (f m)) :
    Still (get >>= f) :=
  fun m => hf m m

/-! ## §2. Operations. -/

/-- Printing is no business of the variables. -/
theorem still_write (text : String) : Still (write text : ExecWith κ Unit) := fun _ => rfl

/-- To look for a variable is not to change one. -/
theorem cell_state (ref : Ref) (m : Machine κ) : (cell ref m).2 = m := by
  unfold cell
  cases ref.slot with
  | some slot =>
    simp only [Attempt.bind_apply, Attempt.get_apply]
    cases m.locals.bind (·.get? slot) with
    | none => rfl
    | some a => rfl
  | none =>
    simp only [Attempt.bind_apply, Attempt.get_apply]
    cases m.globals.find? ref.name with
    | none => rfl
    | some a => rfl

theorem load_state (ref : Ref) (m : Machine κ) : (load ref m).2 = m := by
  have hcell := cell_state ref m
  unfold load
  rcases hrun : cell ref m with ⟨halt | a, m'⟩
  · rw [hrun] at hcell
    rw [Attempt.bind_error hrun]
    exact hcell
  · rw [hrun] at hcell
    rw [Attempt.bind_ok hrun]
    exact hcell

theorem still_cell (ref : Ref) : Still (cell ref : ExecWith κ Addr) :=
  fun m => congrArg Machine.locals (cell_state ref m)

theorem still_load (ref : Ref) : Still (load ref : ExecWith κ (Value κ)) :=
  fun m => congrArg Machine.locals (load_state ref m)

/-- An assignment changes a cell, and no environment. -/
theorem still_store (ref : Ref) (v : Value κ) : Still (store ref v) :=
  (still_cell ref).bind fun _ _ => rfl

/-- A declaration takes place in the active scope. -/
theorem keeps_declare (name : String) (v : Value κ) : Keeps (declare name v) := by
  intro m
  obtain ⟨heap, globals, locals, output⟩ := m
  cases locals with
  | none => exact .none
  | some e => exact .some (Env.grown_declare e name _)

/-! ## §3. Blocks and calls. -/

/-- The machine at the start of a block. -/
def entered (m : Machine κ) : Machine κ :=
  { m with locals := some (m.locals.elim .empty Env.openScope) }

/-- A block runs its body once, in its own scope. -/
theorem inBlock_const (body : ExecWith κ α) (m : Machine κ) :
    inBlock body m = inBlock (fun _ => body (entered m)) m := by
  obtain ⟨heap, globals, locals, output⟩ := m
  cases locals with
  | none => rfl
  | some e => rfl

/-- A block runs in a scope of its own, and then has the local environment back as it
was. -/
theorem inBlock_eq {body : ExecWith κ α} {m m' : Machine κ} {result : Except Halt α}
    (hrun : body (entered m) = (result, m'))
    (hgrown : Option.Rel Env.Grown (entered m).locals m'.locals) :
    inBlock body m = (result, { m' with locals := m.locals }) := by
  obtain ⟨heap, globals, locals, output⟩ := m
  obtain ⟨heap', globals', locals', output'⟩ := m'
  cases locals with
  | none =>
    have hrun' : body ⟨heap, globals, some .empty, output⟩
        = (result, ⟨heap', globals', locals', output'⟩) := hrun
    unfold inBlock
    simp only [hrun']
  | some e =>
    have hrun' : body ⟨heap, globals, some e.openScope, output⟩
        = (result, ⟨heap', globals', locals', output'⟩) := hrun
    -- the scope that is closed is the one that was opened
    cases hgrown with
    | some hgrown =>
      unfold inBlock
      simp only [hrun', Option.bind_some, hgrown.closeScope?]

/-- If its body keeps to its own scope, a block leaves the local environment alone. -/
theorem still_inBlock {body : ExecWith κ α} (h : Keeps body) : Still (inBlock body) := by
  intro m
  have hgrown := h (entered m)
  rcases hrun : body (entered m) with ⟨result, m'⟩
  rw [hrun] at hgrown
  rw [inBlock_eq hrun hgrown]

/-- The machine at the start of a call. -/
def called (decl : FunDecl) (env : Captured) (captured : κ) (arguments : List (Value κ))
    (m : Machine κ) : Machine κ :=
  ⟨(activation decl env captured arguments m.heap).2, m.globals,
    some (activation decl env captured arguments m.heap).1, m.output⟩

/-- A call runs in an environment of its own, and then goes back to the caller's. -/
theorem inCall_eq {decl : FunDecl} {env : Captured} {captured : κ} {arguments : List (Value κ)}
    {body : ExecWith κ α} {m m' : Machine κ} {result : Except Halt α}
    (hrun : body (called decl env captured arguments m) = (result, m')) :
    inCall decl env captured arguments body m = (result, { m' with locals := m.locals }) := by
  obtain ⟨heap, globals, locals, output⟩ := m
  have hrun' : body ⟨(activation decl env captured arguments heap).2, globals,
      some (activation decl env captured arguments heap).1, output⟩ = (result, m') := hrun
  unfold inCall
  simp only [hrun']

/-- A call leaves the caller's environment alone, whatever its body does. -/
theorem still_inCall (decl : FunDecl) (env : Captured) (captured : κ) (arguments : List (Value κ))
    (body : ExecWith κ α) : Still (inCall decl env captured arguments body) := fun _ => rfl

end Exec

end LoxLang
