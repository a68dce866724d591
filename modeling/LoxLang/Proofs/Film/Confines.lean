/-
  LoxLang.Proofs.Film.Confines
  ────────────────────────────
  **What runs is what was written.**  The code of a program may be confined: its nodes name
  certain lines alone, or it assigns to no variable.  Functions carry code about, and so every
  value on the heap is confined as the program is (`Confined.held`).  Code that assigns to
  nothing puts a value into a cell only when the cell is made, so that a cell holds functions
  that have captured earlier cells alone (`Confined.ordered`).

  All states of a film are confined if the code is, no change of the heap is missed between
  one state and the next, and an error names a line of the code (`Film.Proper`,
  `Filmed.keeps_program`).
-/
import LoxLang.Proofs.Film.Evaluator
import LoxLang.Proofs.Reach.Frame
import LoxLang.Proofs.Scope.Env

namespace LoxLang

/-! ## §1. Code. -/

/-- What code is confined to. -/
structure Confines where
  /-- The lines that nodes may name. -/
  line : Int → Prop
  /-- May a variable be assigned to? -/
  assigns : Prop

/-- The expression is confined. -/
inductive Expr.Within (c : Confines) : Expr → Prop
  | literal (value : Literal) : Within c (.literal value)
  | binary {op : BinaryOp} {line : Int} {left right : Expr} (hline : c.line line)
      (hleft : Within c left) (hright : Within c right) : Within c (.binary op line left right)
  | group {inner : Expr} (h : Within c inner) : Within c (.group inner)
  | unary {op : UnaryOp} {line : Int} {operand : Expr} (hline : c.line line)
      (h : Within c operand) : Within c (.unary op line operand)
  | var {ref : Ref} (hline : c.line ref.line) : Within c (.var ref)
  | assign {target : Ref} {value : Expr} (hassigns : c.assigns) (hline : c.line target.line)
      (h : Within c value) : Within c (.assign target value)
  | call {line : Int} {callee : Expr} {arguments : List Expr} (hline : c.line line)
      (hcallee : Within c callee) (harguments : ∀ e ∈ arguments, Within c e) :
      Within c (.call line callee arguments)

/-- The statement is confined, with the bodies of its functions. -/
inductive Stmt.Within (c : Confines) : Stmt → Prop
  | expr {e : Expr} (h : e.Within c) : Within c (.expr e)
  | print {es : List Expr} (h : ∀ e ∈ es, e.Within c) : Within c (.print es)
  | ifThen {condition : Expr} {s : Stmt} (hcondition : condition.Within c) (h : Within c s) :
      Within c (.ifThen condition s)
  | ifElse {condition : Expr} {s s' : Stmt} (hcondition : condition.Within c) (h : Within c s)
      (h' : Within c s') : Within c (.ifElse condition s s')
  | block {body : List Stmt} (h : ∀ s ∈ body, Within c s) : Within c (.block body)
  | varDecl {name : String} {line : Int} {initial : Expr} (h : initial.Within c) :
      Within c (.varDecl name line initial)
  | whileLoop {condition : Expr} {s : Stmt} (hcondition : condition.Within c) (h : Within c s) :
      Within c (.whileLoop condition s)
  | funDecl {name : String} {line : Int} {params : List String} {body : List Stmt}
      (hline : c.line line) (h : ∀ s ∈ body, Within c s) : Within c (.funDecl name line params body)
  | ret {line : Int} {value : Expr} (hline : c.line line) (h : value.Within c) :
      Within c (.ret line value)

/-- The code that a value carries is confined. -/
def Value.Within (c : Confines) : Value → Prop
  | .function decl _ => ∀ s ∈ decl.body, s.Within c
  | _ => True

/-- A literal stands for no function, and so for no code. -/
theorem Literal.within_toValue (c : Confines) (value : Literal) :
    Value.Within c value.toValue := by
  cases value <;> trivial

/-- No operator gives a function. -/
theorem StrictOp.within_of_apply {c : Confines} {op : StrictOp} {line : Int} {v w u : Value}
    (h : op.apply line v w = .ok u) : u.Within c := by
  unfold StrictOp.apply at h
  split at h <;> cases h <;> trivial

/-- An operator is blamed where it stands. -/
theorem StrictOp.line_of_apply {op : StrictOp} {line : Int} {v w : Value} {e : RuntimeError}
    (h : op.apply line v w = .error e) : e.line = line := by
  unfold StrictOp.apply at h
  split at h <;> cases h <;> rfl

theorem UnaryOp.within_of_apply {c : Confines} {op : UnaryOp} {line : Int} {v u : Value}
    (h : op.apply line v = .ok u) : u.Within c := by
  unfold UnaryOp.apply at h
  split at h <;> cases h <;> trivial

theorem UnaryOp.line_of_apply {op : UnaryOp} {line : Int} {v : Value} {e : RuntimeError}
    (h : op.apply line v = .error e) : e.line = line := by
  unfold UnaryOp.apply at h
  split at h <;> cases h
  rfl

/-- A mention that leads to no cell is blamed where it stands. -/
theorem Exec.cell_answers (ref : Ref) (m : Machine) :
    (∃ a, Exec.cell ref m = (.ok a, m)) ∨ Exec.cell ref m = (.error .fault, m)
      ∨ ∃ cause, Exec.cell ref m = (.error (.error ⟨cause, ref.line⟩), m) := by
  cases hslot : ref.slot with
  | none =>
    rw [cell_of_name hslot]
    cases m.globals.find? ref.name with
    | none => exact .inr (.inr ⟨_, rfl⟩)
    | some a => exact .inl ⟨a, rfl⟩
  | some slot =>
    rw [cell_of_slot hslot]
    cases m.locals.bind (·.get? slot) with
    | none => exact .inr (.inl rfl)
    | some a => exact .inl ⟨a, rfl⟩

/-! ## §2. States. -/

/-- The value may be put into a cell of this machine. -/
structure Value.Fits (c : Confines) (m : Machine) (v : Value) : Prop where
  within : v.Within c
  /-- It has captured cells that are there. -/
  cells : ∀ a ∈ v.cells, a < m.heap.next

/-- All code about is confined, and all cells that are captured are there. -/
structure Confined (c : Confines) (m : Machine) : Prop where
  locals : ∀ a ∈ Captured.cells m.locals, a < m.heap.next
  held : ∀ a, (m.heap.read a).Fits c m
  /-- If nothing is assigned to, a cell holds functions that have captured earlier cells. -/
  ordered : ¬ c.assigns → ∀ a, ∀ b ∈ (m.heap.read a).cells, b < a

variable {c : Confines} {m m' : Machine} {v : Value}

/-- A value that has captured nothing fits wherever its code is confined. -/
theorem Value.fits_of_cells_eq_nil (hwithin : v.Within c) (hcells : v.cells = []) :
    v.Fits c m := by
  refine ⟨hwithin, ?_⟩
  intro a ha
  rw [hcells] at ha
  cases ha

/-- No cell is ever freed, and so a value goes on to fit. -/
theorem Value.Fits.later (h : v.Fits c m) (hnext : m.heap.next ≤ m'.heap.next) : v.Fits c m' :=
  ⟨h.within, fun a ha => Nat.lt_of_lt_of_le (h.cells a ha) hnext⟩

/-- Declaring a variable takes one new cell, in any scope. -/
theorem Exec.heap_declare (name : String) (v : Value) (m : Machine) :
    (Exec.declare name v m).2.heap = m.heap.alloc v := by
  obtain ⟨heap, globals, locals, output⟩ := m
  cases locals with
  | none => rfl
  | some e => rfl

namespace Confined

/-- The initial machine holds no code at all. -/
theorem initial (c : Confines) : Confined c .initial := by
  refine ⟨nofun, ?_, ?_⟩
  · intro a
    exact Value.fits_of_cells_eq_nil trivial rfl
  · intro _ a b hb
    cases hb

/-- The local variables may be others that are there. -/
theorem relocate (h : Confined c m) (hheap : m'.heap = m.heap)
    (hlocals : ∀ a ∈ Captured.cells m'.locals, a < m.heap.next) : Confined c m' := by
  obtain ⟨heap, globals, locals, output⟩ := m'
  cases hheap
  exact ⟨hlocals, fun a => (h.held a).later (Nat.le_refl _), h.ordered⟩

/-- A new cell holds a value that has captured cells before it. -/
theorem declare (h : Confined c m) (name : String) (hv : v.Fits c m) :
    Confined c (Exec.declare name v m).2 := by
  have hheap := Exec.heap_declare name v m
  have hlt : m.heap.next < (Exec.declare name v m).2.heap.next := by
    rw [hheap, Heap.next_alloc]
    exact Nat.lt_succ_self _
  have hle := Nat.le_of_lt hlt
  refine ⟨?_, ?_, ?_⟩
  · intro a ha
    have hold : a ∈ Captured.cells m.locals ∨ a = m.heap.next := by
      obtain ⟨heap, globals, locals, output⟩ := m
      cases locals with
      | none => cases ha
      | some e => exact Env.mem_cells_declare ha
    rcases hold with hold | rfl
    · exact Nat.lt_of_lt_of_le (h.locals a hold) hle
    · exact hlt
  · intro a
    rw [hheap]
    rcases m.heap.read_alloc_cases v a with hread | ⟨-, hread⟩
    · rw [hread]
      exact (h.held a).later hle
    · rw [hread]
      exact hv.later hle
  · intro hassigns a b hb
    rw [hheap] at hb
    rcases m.heap.read_alloc_cases v a with hread | ⟨rfl, hread⟩
    · rw [hread] at hb
      exact h.ordered hassigns a b hb
    · rw [hread] at hb
      exact hv.cells b hb

/-- A cell is written where assignments are allowed, and then their order is not asked for. -/
theorem write (h : Confined c m) (hassigns : c.assigns) (a : Addr) (hv : v.Fits c m) :
    Confined c { m with heap := m.heap.write a v } := by
  have hle : m.heap.next ≤ (m.heap.write a v).next := Nat.le_of_eq (m.heap.next_write a v).symm
  refine ⟨fun b hb => Nat.lt_of_lt_of_le (h.locals b hb) hle, ?_, absurd hassigns⟩
  intro b
  show ((m.heap.write a v).read b).Fits c { m with heap := m.heap.write a v }
  rcases m.heap.read_write_cases a v b with hread | ⟨-, hread⟩
  · rw [hread]
    exact (h.held b).later hle
  · rw [hread]
    exact hv.later hle

end Confined

/-! ## §3. Films. -/

/-- From one state to the next, one cell is made or written at most. -/
def Machine.Moves (m m' : Machine) : Prop :=
  m'.heap = m.heap ∨ (∃ v, m'.heap = m.heap.alloc v) ∨ ∃ a v, m'.heap = m.heap.write a v

/-- The function is bound under its own name, to a cell behind all that it has captured. -/
def Call.Begun (k : Call) : Prop :=
  ∃ e a, k.state.locals = some e ∧ e.find? k.decl.name = some a
    ∧ k.state.heap.read a = .function k.decl k.captured ∧ ∀ b ∈ Captured.cells k.captured, b < a

/-- All states are confined, none is missed, and the calls begin as they should. -/
structure Film.Proper (c : Confines) (f : Film) : Prop where
  confined : ∀ m ∈ f.states, Confined c m
  starts : f.states.getLast? = some .initial
  gapless : f.states.IsChain fun later earlier => earlier.Moves later
  begun : ∀ k ∈ f.calls, k.state ∈ f.states ∧ k.Begun

namespace Film

variable {f : Film}

/-- What holds of all states holds of the last one. -/
theorem Proper.machine (h : f.Proper c) : Confined c f.machine :=
  h.confined f.machine List.mem_cons_self

/-- A film begins with the initial machine. -/
theorem proper_initial (c : Confines) : initial.Proper c := by
  refine ⟨?_, rfl, .singleton _, nofun⟩
  intro m hm
  rw [List.mem_singleton.1 hm]
  exact .initial c

/-- One more state, confined and close to the last one, is filmed properly. -/
theorem Proper.advance (h : f.Proper c) (hm : Confined c m) (hmoves : f.machine.Moves m) :
    (f.advance m).Proper c := by
  refine ⟨List.forall_mem_cons.2 ⟨hm, h.confined⟩, ?_, .cons_cons hmoves h.gapless, ?_⟩
  · exact List.getLast?_cons_cons.trans h.starts
  intro k hk
  obtain ⟨hstate, hbegun⟩ := h.begun k hk
  exact ⟨List.mem_cons_of_mem m hstate, hbegun⟩

end Film

namespace Filmed

variable {α β : Type} {f : Film}

/-! ## §4. Computations that keep to the confines. -/

/-- What is asked of an answer: `Q` of a result, and of an error that it name a line of the
code. -/
def Answers (c : Confines) (Q : Machine → α → Prop) (m : Machine) : Except Halt α → Prop
  | .ok a => Q m a
  | .error (.error e) => c.line e.line
  | .error _ => True

/-- Started on `f`, the computation films proper states, frees no cell, and gives a proper
answer. -/
def Keeps (c : Confines) (Q : Machine → α → Prop) (x : Filmed α) (f : Film) : Prop :=
  f.Proper c → (x f).2.Proper c ∧ f.machine.heap.next ≤ (x f).2.machine.heap.next
    ∧ Answers c Q (x f).2.machine (x f).1

/-- What a statement returns fits. -/
def Ends (c : Confines) (m : Machine) : Completion → Prop
  | .normal => True
  | .returned v => v.Fits c m

variable {P Q : Machine → α → Prop} {R : Machine → β → Prop} {x : Filmed α} {k : α → Filmed β}

theorem Keeps.pure {a : α} (h : Q f.machine a) : Keeps c Q (pure a) f :=
  fun hf => ⟨hf, Nat.le_refl _, h⟩

theorem Keeps.exhausted : Keeps c Q (throw .exhausted : Filmed α) f :=
  fun hf => ⟨hf, Nat.le_refl _, trivial⟩

/-- An error is thrown properly if it names a line of the code. -/
theorem Keeps.error {e : RuntimeError} (h : c.line e.line) :
    Keeps c Q (throw (.error e) : Filmed α) f :=
  fun hf => ⟨hf, Nat.le_refl _, h⟩

/-- What comes second starts where no cell has been freed and `Q` holds of the first result. -/
theorem Keeps.bind (h : Keeps c Q x f)
    (hk : ∀ a f', f.machine.heap.next ≤ f'.machine.heap.next → Q f'.machine a →
      Keeps c R (k a) f') : Keeps c R (x >>= k) f := by
  intro hf
  obtain ⟨hproper, hnext, hanswer⟩ := h hf
  rcases hx : x f with ⟨halt | a, f'⟩
  · rw [hx] at hproper hnext hanswer
    rw [Attempt.bind_error hx]
    refine ⟨hproper, hnext, ?_⟩
    cases halt with
    | error e => exact hanswer
    | _ => trivial
  · rw [hx] at hproper hnext hanswer
    rw [Attempt.bind_ok hx]
    obtain ⟨hproper', hnext', hanswer'⟩ := hk a f' hnext hanswer hproper
    exact ⟨hproper', Nat.le_trans hnext hnext', hanswer'⟩

/-- A row of computations, if what holds of a result goes on to hold as the heap grows. -/
theorem keeps_each {ι : Type} {k : ι → Filmed α} {is : List ι}
    (hQ : ∀ {m m' : Machine} {a}, m.heap.next ≤ m'.heap.next → Q m a → Q m' a)
    (h : ∀ i ∈ is, ∀ f, Keeps c Q (k i) f) :
    ∀ f, Keeps c (fun m as => ∀ a ∈ as, Q m a) (Attempt.each k is) f := by
  induction is with
  | nil => exact fun f => .pure nofun
  | cons i is ih =>
    intro f
    obtain ⟨hi, his⟩ := List.forall_mem_cons.1 h
    refine (hi f).bind fun a f₁ _ ha => (ih his f₁).bind fun as f₂ hnext has => .pure ?_
    exact List.forall_mem_cons.2 ⟨hQ hnext ha, has⟩

/-- One operation of the machine, which goes on to a confined state. -/
theorem keeps_lift {x : Exec α} {result : Except Halt α} (hx : x f.machine = (result, m))
    (h : Confined c f.machine → Confined c m ∧ f.machine.Moves m
      ∧ f.machine.heap.next ≤ m.heap.next ∧ Answers c Q m result) :
    Keeps c Q (Film.host.lift x) f := by
  intro hf
  obtain ⟨hm, hmoves, hnext, hanswer⟩ := h hf.machine
  rw [Host.lift_eq hx]
  exact ⟨hf.advance hm hmoves, hnext, hanswer⟩

/-- The same for an operation that leaves the machine as it is. -/
theorem keeps_lift_same {x : Exec α} {result : Except Halt α}
    (hx : x f.machine = (result, f.machine))
    (h : Confined c f.machine → Answers c Q f.machine result) : Keeps c Q (Film.host.lift x) f :=
  keeps_lift hx fun hm => ⟨hm, .inl rfl, Nat.le_refl _, h hm⟩

/-! ## §5. Operations. -/

/-- An operator gives values without cells, or an error on a line of the code. -/
theorem keeps_ofExcept {r : Except RuntimeError Value}
    (hok : ∀ v, r = .ok v → v.Within c ∧ v.cells = [])
    (herror : ∀ e, r = .error e → c.line e.line) :
    Keeps c (Value.Fits c) (Film.host.lift (Exec.ofExcept r)) f := by
  cases r with
  | error e => exact keeps_lift_same rfl fun _ => herror e rfl
  | ok v =>
    obtain ⟨hwithin, hcells⟩ := hok v rfl
    exact keeps_lift_same rfl fun _ => Value.fits_of_cells_eq_nil hwithin hcells

theorem keeps_write (text : String) :
    Keeps c (fun _ _ => True) (Film.host.lift (Exec.write text)) f :=
  keeps_lift rfl fun hm => ⟨hm.relocate rfl hm.locals, .inl rfl, Nat.le_refl _, trivial⟩

/-- A variable is read from a cell that is there, or blamed where it stands. -/
theorem keeps_load {ref : Ref} (hline : c.line ref.line) :
    Keeps c (Value.Fits c) (Film.host.lift (Exec.load ref)) f := by
  rcases Exec.cell_answers ref f.machine with ⟨a, hcell⟩ | hcell | ⟨cause, hcell⟩
  · exact keeps_lift_same (Attempt.bind_ok hcell _) fun hm => hm.held a
  · exact keeps_lift_same (Attempt.bind_error hcell _) fun _ => trivial
  · exact keeps_lift_same (Attempt.bind_error hcell _) fun _ => hline

/-- An assignment writes one cell, where assignments are allowed. -/
theorem keeps_store {ref : Ref} (hassigns : c.assigns) (hline : c.line ref.line)
    (hv : v.Fits c f.machine) :
    Keeps c (fun _ _ => True) (Film.host.lift (Exec.store ref v)) f := by
  rcases Exec.cell_answers ref f.machine with ⟨a, hcell⟩ | hcell | ⟨cause, hcell⟩
  · have hstore : Exec.store ref v f.machine
        = (.ok (), { f.machine with heap := f.machine.heap.write a v }) :=
      Attempt.bind_ok hcell _
    refine keeps_lift hstore fun hm =>
      ⟨hm.write hassigns a hv, .inr (.inr ⟨a, v, rfl⟩), ?_, trivial⟩
    exact Nat.le_of_eq (f.machine.heap.next_write a v).symm
  · exact keeps_lift_same (Attempt.bind_error hcell _) fun _ => trivial
  · exact keeps_lift_same (Attempt.bind_error hcell _) fun _ => hline

/-- A declaration makes one cell, which holds the value. -/
theorem keeps_declare (name : String) (hv : v.Fits c f.machine) :
    Keeps c (fun _ _ => True) (Film.host.lift (Exec.declare name v)) f := by
  have hheap := Exec.heap_declare name v f.machine
  have hnext : f.machine.heap.next ≤ (Exec.declare name v f.machine).2.heap.next := by
    rw [hheap, Heap.next_alloc]
    exact Nat.le_succ _
  exact keeps_lift rfl fun hm => ⟨hm.declare name hv, .inr (.inl ⟨v, hheap⟩), hnext, trivial⟩

/-- The parameters are declared one by one, each in a state of its own. -/
theorem keeps_declareAll {xs : List (String × Value)} :
    ∀ f, (∀ x ∈ xs, x.2.Fits c f.machine) → Keeps c (fun _ _ => True) (declareAll xs) f := by
  induction xs with
  | nil => exact fun f _ => .pure trivial
  | cons x xs ih =>
    intro f h
    obtain ⟨hx, hxs⟩ := List.forall_mem_cons.1 h
    refine (keeps_declare x.1 hx).bind fun _ f' hnext _ => ih f' ?_
    exact fun y hy => (hxs y hy).later hnext

/-- What is returned goes on to fit. -/
theorem Ends.later {completion : Completion} (h : Ends c m completion)
    (hnext : m.heap.next ≤ m'.heap.next) : Ends c m' completion := by
  cases completion with
  | normal => trivial
  | returned v => exact Value.Fits.later h hnext

/-- An answer that was proper is proper when the heap has grown. -/
theorem Answers.later {result : Except Halt Completion} (h : Answers c (Ends c) m result)
    (hnext : m.heap.next ≤ m'.heap.next) : Answers c (Ends c) m' result := by
  cases result with
  | error halt =>
    cases halt with
    | error e => exact h
    | _ => trivial
  | ok completion => exact Ends.later h hnext

/-- A block opens a scope and closes it, on a heap that only its body changes. -/
theorem keeps_inBlock {body : Filmed Completion} (h : ∀ f, Keeps c (Ends c) body f) :
    Keeps c (Ends c) (Film.host.inBlock body) f := by
  intro hf
  have hentered : Confined c (Exec.entered f.machine) :=
    hf.machine.relocate rfl fun a ha => hf.machine.locals a (Exec.mem_cells_entered ha)
  obtain ⟨hproper, hnext, hanswer⟩ := h _ (hf.advance hentered (.inl rfl))
  rcases hbody : body (f.advance (Exec.entered f.machine)) with ⟨result, f'⟩
  rw [hbody] at hproper hnext hanswer
  obtain ⟨l, result', hrun, hl, hresult⟩ := Host.inBlock_leaves (H := Film.host) hbody
  have hleft : Confined c { f'.machine with locals := l } :=
    hproper.machine.relocate rfl fun a ha => hproper.machine.locals a (hl a ha)
  rw [hrun]
  refine ⟨hproper.advance hleft (.inl rfl), hnext, ?_⟩
  rcases hresult with rfl | rfl
  · exact Answers.later hanswer (Nat.le_refl _)
  · trivial

/-- Other local variables are in force for a body, and then those of before are back. -/
theorem keeps_within {l : Captured} {body : Filmed Completion}
    (hl : ∀ a ∈ Captured.cells l, a < f.machine.heap.next)
    (h : Keeps c (Ends c) body (f.advance { f.machine with locals := l })) :
    Keeps c (Ends c) (within l body) f := by
  intro hf
  obtain ⟨hproper, hnext, hanswer⟩ := h (hf.advance (hf.machine.relocate rfl hl) (.inl rfl))
  have hback : Confined c { (body (f.advance { f.machine with locals := l })).2.machine with
      locals := f.machine.locals } := by
    refine hproper.machine.relocate rfl fun a ha => ?_
    exact Nat.lt_of_lt_of_le (hf.machine.locals a ha) hnext
  exact ⟨hproper.advance hback (.inl rfl), hnext, Answers.later hanswer (Nat.le_refl _)⟩

/-- At the start of a call the function is bound under its own name, as
`Film.Proper.begun` asks. -/
theorem keeps_begin {decl : FunDecl} {captured : Captured} {e : Env Addr}
    (he : f.machine.locals = some e) (hcallee : (Value.function decl captured).Fits c f.machine) :
    Keeps c (fun _ _ => True) (begin decl captured) f := by
  intro hf
  obtain ⟨hproper, hnext, -⟩ := keeps_declare decl.name hcallee hf
  refine ⟨⟨hproper.confined, hproper.starts, hproper.gapless, ?_⟩, hnext, trivial⟩
  intro k hk
  rcases List.mem_append.1 hk with hk | hk
  · exact hproper.begun k hk
  · -- the cell of the name is new, and what the function has captured is not
    obtain rfl := List.mem_singleton.1 hk
    refine ⟨List.mem_cons_self, e.declare decl.name f.machine.heap.next, f.machine.heap.next,
      ?_, ?_, ?_, hcallee.cells⟩
    · obtain ⟨⟨heap, globals, locals, output⟩, past, calls⟩ := f
      cases he
      rfl
    · rw [Env.find?_declare, if_pos rfl]
    · show (Exec.declare decl.name (.function decl captured) f.machine).2.heap.read _ = _
      rw [Exec.heap_declare, Heap.read_alloc_next]

/-- A call is its start, its parameters and its body, within what the function has captured. -/
theorem keeps_inCall {decl : FunDecl} {captured : Captured} {arguments : List Value}
    {body : Filmed Completion} (hcallee : (Value.function decl captured).Fits c f.machine)
    (harguments : ∀ v ∈ arguments, v.Fits c f.machine) (h : ∀ f, Keeps c (Ends c) body f) :
    Keeps c (Ends c) (inCall decl captured arguments body) f := by
  refine keeps_within ?_ ?_
  · intro a ha
    refine hcallee.cells a ?_
    cases captured with
    | none => cases ha
    | some e => exact ha
  · have hbegin := keeps_begin (f := f.advance
      { f.machine with locals := some ((captured.map Env.capture).getD .empty) }) rfl
      (hcallee.later (Nat.le_refl _))
    refine hbegin.bind fun _ f₁ hnext _ => ?_
    refine (keeps_declareAll f₁ ?_).bind fun _ f₂ _ _ => h f₂
    intro x hx
    exact (harguments x.2 (List.of_mem_zip hx).2).later hnext

/-! ## §6. Running programs. -/

/-- A row of statements, each of which keeps to the confines wherever it starts. -/
theorem keeps_sequence {step : Unit → Stmt → Filmed Completion} {body : List Stmt}
    (h : ∀ s ∈ body, ∀ f, Keeps c (Ends c) (step () s) f) :
    ∀ f, Keeps c (Ends c) (evaluator.sequence step () body) f := by
  induction body with
  | nil => exact fun f => .pure trivial
  | cons s body ih =>
    intro f
    obtain ⟨hs, hbody⟩ := List.forall_mem_cons.1 h
    refine (hs f).bind fun completion f' _ hc => ?_
    cases completion with
    | normal => exact ih hbody f'
    | returned v => exact .pure hc

/-- A loop keeps to the confines if its condition and its body do. -/
theorem keeps_loop {condition : Filmed Bool} {body : Filmed Completion}
    (hcondition : ∀ f, Keeps c (fun _ _ => True) condition f)
    (hbody : ∀ f, Keeps c (Ends c) body f) :
    ∀ (turns : Nat) (f : Film), Keeps c (Ends c) (Exec.loop condition body turns) f := by
  intro turns
  induction turns with
  | zero => exact fun f => .exhausted
  | succ turns ih =>
    intro f
    refine (hcondition f).bind fun holds f₁ _ _ => ?_
    split
    · refine (hbody f₁).bind fun completion f₂ _ hc => ?_
      cases completion with
      | normal => exact ih f₂
      | returned v => exact .pure hc
    · exact .pure trivial

/-- A call from an expression: the callee and the arguments are there, and the body
is confined. -/
theorem keeps_callValue {step : Unit → Stmt → Filmed Completion} {line : Int} {callee : Value}
    {arguments : List Value} (h : ∀ s, s.Within c → ∀ f, Keeps c (Ends c) (step () s) f)
    (hline : c.line line) (hcallee : callee.Fits c f.machine)
    (harguments : ∀ v ∈ arguments, v.Fits c f.machine) :
    Keeps c (Value.Fits c) (evaluator.callValue
      (fun decl _ => evaluator.sequence step () decl.body) line callee arguments) f := by
  cases callee with
  | function decl captured =>
    unfold Evaluator.callValue
    dsimp only
    split
    · have hbody := keeps_sequence fun s hs => h s (hcallee.within s hs)
      refine (keeps_inCall hcallee harguments hbody).bind fun completion f' _ hc => ?_
      cases completion with
      | normal => exact .pure (Value.fits_of_cells_eq_nil trivial rfl)
      | returned v => exact .pure hc
    · exact .error hline
  | _ => exact .error hline

/-- **Confined code keeps to its confines.** -/
theorem keeps_eval_exec (c : Confines) (turns : Nat) :
    ∀ depth,
      (∀ e, e.Within c → ∀ f, Keeps c (Value.Fits c) (evaluator.eval turns depth () e) f)
      ∧ ∀ s, s.Within c → ∀ f, Keeps c (Ends c) (evaluator.exec turns depth () s) f := by
  intro depth
  induction depth with
  | zero => exact ⟨fun _ _ _ => .exhausted, fun _ _ _ => .exhausted⟩
  | succ depth ih =>
    obtain ⟨heval, hexec⟩ := ih
    refine ⟨?_, ?_⟩
    · intro e he f
      cases he with
      | literal value =>
        exact .pure (Value.fits_of_cells_eq_nil (value.within_toValue c) value.cells_toValue)
      | group h => exact heval _ h f
      | unary hline h =>
        refine (heval _ h f).bind fun v f₁ _ _ => keeps_ofExcept ?_ ?_
        · exact fun u hu => ⟨UnaryOp.within_of_apply hu, UnaryOp.cells_of_apply hu⟩
        · exact fun err herr => UnaryOp.line_of_apply herr ▸ hline
      | @binary op line left right hline hleft hright =>
        cases op with
        | connective con =>
          refine (heval _ hleft f).bind fun v f₁ _ hv => ?_
          split
          · exact .pure hv
          · exact heval _ hright f₁
        | strict op =>
          refine (heval _ hleft f).bind fun v f₁ _ _ => (heval _ hright f₁).bind fun w f₂ _ _ =>
            keeps_ofExcept ?_ ?_
          · exact fun u hu => ⟨StrictOp.within_of_apply hu, StrictOp.cells_of_apply hu⟩
          · exact fun err herr => StrictOp.line_of_apply herr ▸ hline
      | var hline => exact keeps_load hline
      | assign hassigns hline h =>
        refine (heval _ h f).bind fun v f₁ _ hv => (keeps_store hassigns hline hv).bind ?_
        exact fun _ f₂ hnext _ => .pure (hv.later hnext)
      | call hline hcallee harguments =>
        refine (heval _ hcallee f).bind fun v f₁ _ hv => ?_
        have heach := keeps_each (Q := Value.Fits c) (fun hnext hw => hw.later hnext)
          fun e he => heval e (harguments e he)
        refine (heach f₁).bind fun vs f₂ hnext hvs => ?_
        exact keeps_callValue hexec hline (hv.later hnext) hvs
    · intro s hs f
      cases hs with
      | expr h => exact (heval _ h f).bind fun _ _ _ _ => .pure trivial
      | print h =>
        have heach := keeps_each (Q := fun _ _ => True) (fun _ h => h) fun e he f =>
          (heval e (h e he) f).bind fun v _ _ _ => keeps_write (v.text ++ " ")
        refine (heach f).bind fun _ f₁ _ _ => (keeps_write "\n").bind ?_
        exact fun _ _ _ _ => .pure trivial
      | ifThen hcondition h =>
        refine (heval _ hcondition f).bind fun v f₁ _ _ => ?_
        split
        · exact hexec _ h f₁
        · exact .pure trivial
      | ifElse hcondition h h' =>
        refine (heval _ hcondition f).bind fun v f₁ _ _ => ?_
        split
        · exact hexec _ h f₁
        · exact hexec _ h' f₁
      | block h => exact keeps_inBlock (keeps_sequence fun s hs => hexec s (h s hs))
      | @varDecl name line initial h =>
        refine (heval _ h f).bind fun v f₁ _ hv => (keeps_declare name hv).bind ?_
        exact fun _ _ _ _ => .pure trivial
      | whileLoop hcondition h =>
        refine keeps_loop (fun f => ?_) (hexec _ h) turns f
        exact (heval _ hcondition f).bind fun _ _ _ _ => .pure trivial
      | @funDecl name line params body hline h =>
        intro hf
        -- a function that is declared has captured the local variables
        have hv : (Value.function ⟨name, line, params, body⟩
            (f.machine.locals.map Env.capture)).Fits c f.machine := by
          refine ⟨h, ?_⟩
          intro a ha
          have hcells : a ∈ Captured.cells (f.machine.locals.map Env.capture) := ha
          rw [Captured.cells_map_capture] at hcells
          exact hf.machine.locals a hcells
        exact (keeps_declare name hv).bind (fun _ _ _ _ => .pure trivial) hf
      | ret hline h => exact (heval _ h f).bind fun v f₁ _ hv => .pure hv

/-- A program of confined statements keeps to the confines, however it ends. -/
theorem keeps_program (limits : Limits) {body : List Stmt} (h : ∀ s ∈ body, s.Within c) :
    ∀ (last : Value) (f : Film),
      Keeps c (fun _ _ => True) (evaluator.program limits () last body) f := by
  induction body with
  | nil => exact fun last f => .pure trivial
  | cons s body ih =>
    intro last f
    obtain ⟨heval, hexec⟩ := keeps_eval_exec c limits.turns limits.depth
    obtain ⟨hs, hbody⟩ := List.forall_mem_cons.1 h
    cases s with
    | expr e =>
      cases hs with
      | expr he => exact (heval e he f).bind fun v f₁ _ _ => ih hbody v f₁
    | _ =>
      refine (hexec _ hs f).bind fun completion f₁ _ _ => ?_
      cases completion with
      | normal => exact ih hbody last f₁
      | returned v => exact .pure trivial

end Filmed

/-- A program that is run keeps to its confines, and so does its error. -/
theorem Film.Proper.run {f : Film} (h : f.Proper c) (limits : Limits) {body : List Stmt}
    (hbody : ∀ s ∈ body, s.Within c) :
    (f.run limits body).2.Proper c
      ∧ ∀ e, (f.run limits body).1 = .error (.error e) → c.line e.line := by
  obtain ⟨hproper, -, hanswer⟩ := Filmed.keeps_program limits hbody .nil f h
  refine ⟨hproper, ?_⟩
  intro e he
  have hanswer' : Filmed.Answers c _ _ (f.run limits body).1 := hanswer
  rw [he] at hanswer'
  exact hanswer'

end LoxLang
