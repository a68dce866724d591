/-
  LoxLang.Proofs.Reach.Frame
  ──────────────────────────
  **What a call may touch.**  A function value reaches the cells that it has captured, and a
  cell reaches the value that it holds.  The set of cells that are new, or global, or reached
  by the callee, its arguments and the globals, is closed under everything that the body of
  the function can do: it is never left, and no other cell is ever written (`Closed.regime`).
-/
import LoxLang.Proofs.Reach.Regime

namespace LoxLang

/-! ## §1. New cells. -/

namespace Heap

/-- There is nothing behind the last cell. -/
theorem read_of_next_le {h : Heap} {a : Addr} (ha : h.next ≤ a) : h.read a = .nil := by
  unfold next at ha
  simp [read, Array.getD, Nat.not_lt.2 ha]

theorem read_alloc_cases (h : Heap) (v : Value) (a : Addr) :
    (h.alloc v).read a = h.read a ∨ a = h.next ∧ (h.alloc v).read a = v := by
  rcases Nat.lt_trichotomy a h.next with ha | rfl | ha
  · exact .inl (read_alloc_of_lt ha v)
  · exact .inr ⟨rfl, read_alloc_next h v⟩
  · have hbehind : (h.alloc v).next ≤ a := by
      rw [next_alloc]
      exact ha
    exact .inl ((read_of_next_le hbehind).trans (read_of_next_le (Nat.le_of_lt ha)).symm)

theorem read_write_cases (h : Heap) (a : Addr) (v : Value) (b : Addr) :
    (h.write a v).read b = h.read b ∨ b = a ∧ (h.write a v).read b = v := by
  by_cases hb : a = b
  · subst hb
    by_cases ha : a < h.next
    · exact .inr ⟨rfl, read_write_self ha v⟩
    · -- there is no such cell, before and after
      have hbehind := Nat.not_lt.1 ha
      have hbehind' : (h.write a v).next ≤ a := by rwa [next_write]
      exact .inl ((read_of_next_le hbehind').trans (read_of_next_le hbehind).symm)
  · exact .inl (read_write_of_ne hb v)

end Heap

namespace Env

theorem next_declareCells (xs : List (String × Value)) :
    ∀ (e : Env Addr) (h : Heap), (e.declareCells h xs).2.next = h.next + xs.length := by
  induction xs with
  | nil => exact fun e h => rfl
  | cons x xs ih =>
    intro e h
    unfold declareCells
    rw [ih, Heap.next_alloc, List.length_cons, Nat.add_right_comm, Nat.add_assoc]

/-- New variables have new cells. -/
theorem mem_cells_declareCells (xs : List (String × Value)) {a : Addr} :
    ∀ (e : Env Addr) (h : Heap), a ∈ (e.declareCells h xs).1.cells →
      a ∈ e.cells ∨ h.next ≤ a ∧ a < (e.declareCells h xs).2.next := by
  induction xs with
  | nil => exact fun e h ha => .inl ha
  | cons x xs ih =>
    intro e h ha
    rcases ih (e.declare x.1 h.next) (h.alloc x.2) ha with ha | ⟨hle, hlt⟩
    · rcases mem_cells_declare ha with ha | rfl
      · exact .inl ha
      · refine .inr ⟨Nat.le_refl _, ?_⟩
        rw [next_declareCells, List.length_cons]
        exact Nat.lt_add_of_pos_right (Nat.succ_pos _)
    · rw [Heap.next_alloc] at hle
      exact .inr ⟨Nat.le_of_succ_le hle, hlt⟩

/-- A new cell holds a value that was given. -/
theorem read_declareCells (xs : List (String × Value)) (a : Addr) :
    ∀ (e : Env Addr) (h : Heap), (e.declareCells h xs).2.read a = h.read a
      ∨ h.next ≤ a ∧ ∃ x ∈ xs, (e.declareCells h xs).2.read a = x.2 := by
  induction xs with
  | nil => exact fun e h => .inl rfl
  | cons x xs ih =>
    intro e h
    unfold declareCells
    rcases ih (e.declare x.1 h.next) (h.alloc x.2) with hread | ⟨hle, y, hy, hread⟩
    · rw [hread]
      rcases h.read_alloc_cases x.2 a with hold | ⟨rfl, hnew⟩
      · exact .inl hold
      · exact .inr ⟨Nat.le_refl _, x, List.mem_cons_self, hnew⟩
    · rw [Heap.next_alloc] at hle
      exact .inr ⟨Nat.le_of_succ_le hle, y, List.mem_cons_of_mem x hy, hread⟩

end Env

namespace Exec

variable (decl : FunDecl) (captured : Captured) (arguments : List Value) (m : Machine)

theorem next_le_called : m.heap.next ≤ (called decl captured captured arguments m).heap.next := by
  unfold called activation
  rw [Env.next_declareCells]
  exact Nat.le_add_right _ _

/-- At the start of a call, the variables are those that the function has captured, and new
ones. -/
theorem mem_cells_called {a : Addr}
    (ha : a ∈ Captured.cells (called decl captured captured arguments m).locals) :
    a ∈ Captured.cells captured
      ∨ m.heap.next ≤ a ∧ a < (called decl captured captured arguments m).heap.next := by
  rcases Env.mem_cells_declareCells _ _ _ ha with ha | hnew
  · left
    cases captured with
    | none => cases ha
    | some e => exact ha
  · exact .inr hnew

/-- The new cells hold the function itself and its arguments. -/
theorem read_called (a : Addr) :
    (called decl captured captured arguments m).heap.read a = m.heap.read a
      ∨ m.heap.next ≤ a ∧ ∃ v ∈ Value.function decl captured :: arguments,
        (called decl captured captured arguments m).heap.read a = v := by
  rcases Env.read_declareCells ((decl.name, .function decl captured) :: decl.params.zip arguments)
    a ((captured.map Env.capture).getD .empty) m.heap with hold | ⟨hle, x, hx, hnew⟩
  · exact .inl hold
  · refine .inr ⟨hle, x.2, ?_, hnew⟩
    rcases List.mem_cons.1 hx with rfl | hx
    · exact List.mem_cons_self
    · exact List.mem_cons_of_mem _ (List.of_mem_zip hx).2

end Exec

/-! ## §2. Closed sets of cells. -/

/-- The code can name cells of `R` alone, gets no others from them, and `R` has all cells that
are yet to be made. -/
structure Closed (R : Addr → Prop) (m : Machine) : Prop where
  locals : ∀ a ∈ Captured.cells m.locals, R a
  globals : ∀ a ∈ m.globals.cells, R a
  held : ∀ a, R a → ∀ b ∈ (m.heap.read a).cells, R b
  fresh : ∀ a, m.heap.next ≤ a → R a

/-- The cells outside of `R` hold what they held. -/
def Untouched (R : Addr → Prop) (m m' : Machine) : Prop :=
  ∀ a, ¬ R a → m'.heap.read a = m.heap.read a

namespace Closed

variable {R : Addr → Prop} {m : Machine}

theorem of_mem_named {j : Journal} {a : Addr} (h : Closed R j.machine) (ha : a ∈ j.named) :
    R a := by
  rcases List.mem_append.1 ha with ha | ha
  · exact h.locals a ha
  · exact h.globals a ha

theorem write (h : Closed R m) {a : Addr} (ha : R a) {v : Value} (hv : ∀ b ∈ v.cells, R b) :
    Closed R { m with heap := m.heap.write a v }
      ∧ Untouched R m { m with heap := m.heap.write a v } := by
  refine ⟨⟨h.locals, h.globals, ?_, ?_⟩, ?_⟩
  · intro b hb c hc
    rcases m.heap.read_write_cases a v b with hread | ⟨-, hread⟩
    · exact h.held b hb c (hread ▸ hc)
    · exact hv c (hread ▸ hc)
  · intro b hb
    exact h.fresh b (Heap.next_write m.heap a v ▸ hb)
  · intro b hb
    have hne : a ≠ b := by
      rintro rfl
      exact hb ha
    exact Heap.read_write_of_ne hne v

/-- A new cell is one of `R`. -/
theorem alloc (h : Closed R m) {v : Value} (hv : ∀ b ∈ v.cells, R b) :
    (∀ a, R a → ∀ b ∈ ((m.heap.alloc v).read a).cells, R b)
      ∧ (∀ a, (m.heap.alloc v).next ≤ a → R a)
      ∧ ∀ a, ¬ R a → (m.heap.alloc v).read a = m.heap.read a := by
  refine ⟨?_, ?_, ?_⟩
  · intro a ha b hb
    rcases m.heap.read_alloc_cases v a with hread | ⟨-, hread⟩
    · exact h.held a ha b (hread ▸ hb)
    · exact hv b (hread ▸ hb)
  · intro a ha
    rw [Heap.next_alloc] at ha
    exact h.fresh a (Nat.le_of_succ_le ha)
  · intro a ha
    rcases m.heap.read_alloc_cases v a with hread | ⟨rfl, -⟩
    · exact hread
    · exact absurd (h.fresh _ (Nat.le_refl _)) ha

theorem declare (h : Closed R m) (name : String) {v : Value} (hv : ∀ b ∈ v.cells, R b) :
    Closed R (Exec.declare name v m).2 ∧ Untouched R m (Exec.declare name v m).2 := by
  obtain ⟨hheld, hfresh, hread⟩ := h.alloc hv
  have hnext : R m.heap.next := h.fresh _ (Nat.le_refl _)
  obtain ⟨heap, globals, locals, output⟩ := m
  cases locals with
  | none =>
    refine ⟨⟨h.locals, ?_, hheld, hfresh⟩, hread⟩
    intro a ha
    rcases Env.mem_cells_declare ha with ha | rfl
    · exact h.globals a ha
    · exact hnext
  | some e =>
    refine ⟨⟨?_, h.globals, hheld, hfresh⟩, hread⟩
    intro a ha
    rcases Env.mem_cells_declare ha with ha | rfl
    · exact h.locals a ha
    · exact hnext

/-- A call of a function of `R` with arguments of `R` starts within `R`, wherever the caller
has its variables. -/
theorem called {decl : FunDecl} {captured : Captured} {arguments : List Value}
    (hglobals : ∀ a ∈ m.globals.cells, R a) (hheld : ∀ a, R a → ∀ b ∈ (m.heap.read a).cells, R b)
    (hfresh : ∀ a, m.heap.next ≤ a → R a)
    (hvalues : ∀ v ∈ Value.function decl captured :: arguments, ∀ a ∈ v.cells, R a) :
    Closed R (Exec.called decl captured captured arguments m)
      ∧ Untouched R m (Exec.called decl captured captured arguments m) := by
  refine ⟨⟨?_, hglobals, ?_, ?_⟩, ?_⟩
  · intro a ha
    rcases Exec.mem_cells_called decl captured arguments m ha with ha | ⟨hle, -⟩
    · exact hvalues _ List.mem_cons_self a ha
    · exact hfresh a hle
  · intro a ha b hb
    rcases Exec.read_called decl captured arguments m a with hread | ⟨-, v, hv, hread⟩
    · exact hheld a ha b (hread ▸ hb)
    · exact hvalues v hv b (hread ▸ hb)
  · exact fun a ha => hfresh a (Nat.le_trans (Exec.next_le_called decl captured arguments m) ha)
  · intro a ha
    rcases Exec.read_called decl captured arguments m a with hread | ⟨hle, -⟩
    · exact hread
    · exact absurd (hfresh a hle) ha

/-- **Code that starts within a closed set stays there**, and touches no other cell. -/
def regime (R : Addr → Prop) : Regime where
  Inv j := Closed R j.machine
  Step j j' := Untouched R j.machine j'.machine
  Cell _ a := R a
  refl _ _ _ := rfl
  trans h h' a ha := (h' a ha).trans (h a ha)
  cell_of_step _ ha := ha
  locals h := h.locals
  write h _ := ⟨⟨h.locals, h.globals, h.held, h.fresh⟩, fun _ _ => rfl⟩
  load h a ha := h.held a (h.of_mem_named ha)
  store h a ha _ hv := h.write (h.of_mem_named ha) hv
  declare h name _ hv := h.declare name hv
  relocate h _ hl := ⟨⟨hl, h.globals, h.held, h.fresh⟩, fun _ _ => rfl⟩
  cell_of_finished ha := ha
  call h hvalues := by
    obtain ⟨hcalled, hstart⟩ := called h.globals h.held h.fresh hvalues
    refine ⟨hcalled, ?_⟩
    intro j' _ h' hbody
    exact ⟨⟨h.locals, h'.globals, h'.held, h'.fresh⟩,
      fun a ha => (hbody a ha).trans (hstart a ha)⟩

end Closed

/-! ## §3. Reachable cells. -/

/-- The cells that values lead to: a function value reaches the cells that it has captured,
and a cell reaches the value that it holds. -/
inductive Reachable (heap : Heap) (roots : List Value) : Addr → Prop
  | captured {v : Value} {a : Addr} (hv : v ∈ roots) (ha : a ∈ v.cells) : Reachable heap roots a
  | held {a b : Addr} (hb : Reachable heap roots b) (ha : a ∈ (heap.read b).cells) :
      Reachable heap roots a

namespace Activation

variable (c : Activation)

/-- The machine made this call, under some limits and with some result. -/
def Genuine : Prop :=
  ∃ turns depth result, Exec.inCall c.decl c.captured c.captured c.arguments
    (Exec.sequence (Exec.exec turns depth) c.decl.body) c.before = (result, c.after)

/-- What the call starts from: the callee, the arguments and the values of the globals. -/
def roots : List Value :=
  .function c.decl c.captured :: c.arguments
    ++ c.before.globals.cells.map c.before.heap.read

/-- The cell could be reached when the call started. -/
def Reaches (a : Addr) : Prop :=
  Reachable c.before.heap c.roots a

/-- The cell was made during the call. -/
def Allocates (a : Addr) : Prop :=
  c.before.heap.next ≤ a ∧ a < c.after.heap.next

/-- A cell that the call may touch. -/
def Touchable (a : Addr) : Prop :=
  c.before.heap.next ≤ a ∨ a ∈ c.before.globals.cells ∨ c.Reaches a

/-- What can be touched leads to nothing else. -/
theorem touchable_of_held {a b : Addr} (ha : c.Touchable a)
    (hb : b ∈ (c.before.heap.read a).cells) : c.Touchable b := by
  rcases ha with hnew | hglobal | hreach
  · rw [Heap.read_of_next_le hnew] at hb
    cases hb
  · refine .inr (.inr (.captured ?_ hb))
    exact List.mem_append_right _ (List.mem_map_of_mem hglobal)
  · exact .inr (.inr (.held hreach hb))

theorem touchable_of_root {v : Value} {a : Addr}
    (hv : v ∈ Value.function c.decl c.captured :: c.arguments) (ha : a ∈ v.cells) :
    c.Touchable a :=
  .inr (.inr (.captured (List.mem_append_left _ hv) ha))

variable {c}

/-- A call leaves alone what it may not touch. -/
theorem Genuine.untouched (h : c.Genuine) : Untouched c.Touchable c.before c.after := by
  obtain ⟨turns, depth, result, hcall⟩ := h
  obtain ⟨hcalled, hstart⟩ := Closed.called (m := c.before) (fun a ha => .inr (.inl ha))
    (fun _ ha _ hb => c.touchable_of_held ha hb) (fun a ha => .inl ha)
    (fun _ hv _ ha => c.touchable_of_root hv ha)
  -- the journal runs the body of the function, and what it does the machine does
  let j : Journal := ⟨Exec.called c.decl c.captured c.captured c.arguments c.before, [], []⟩
  obtain ⟨-, hexec⟩ := (Closed.regime c.Touchable).obeys_eval_exec turns depth
  obtain ⟨-, hbody, -⟩ := Regime.obeys_sequence hexec c.decl.body j hcalled
  have htells := Bookkeeping.tells_sequence (Log.book.tells_eval_exec turns depth).2 c.decl.body
  rw [Exec.inCall_eq (htells.eq j)] at hcall
  have hafter : c.after.heap = (Log.evaluator.sequence (Log.evaluator.exec turns depth) ()
      c.decl.body j).2.machine.heap := congrArg (fun r => r.2.heap) hcall.symm
  intro a ha
  rw [hafter]
  exact (hbody a ha).trans (hstart a ha)

/-- **A call touches only what it can reach**: new cells, those of the globals, and what the
callee, the arguments and the globals lead to. -/
theorem Genuine.touches (h : c.Genuine) {a : Addr}
    (hne : c.after.heap.read a ≠ c.before.heap.read a) :
    c.Allocates a ∨ a ∈ c.before.globals.cells ∨ c.Reaches a := by
  by_contra hnot
  rw [not_or, not_or] at hnot
  obtain ⟨hnew, hglobal, hreach⟩ := hnot
  by_cases hle : c.before.heap.next ≤ a
  · -- neither before nor after the call is there such a cell
    have hle' : c.after.heap.next ≤ a := Nat.not_lt.1 fun hlt => hnew ⟨hle, hlt⟩
    exact hne ((Heap.read_of_next_le hle').trans (Heap.read_of_next_le hle).symm)
  · refine hne (h.untouched a ?_)
    rintro (hle' | hglobal' | hreach')
    · exact hle hle'
    · exact hglobal hglobal'
    · exact hreach hreach'

end Activation

end LoxLang
