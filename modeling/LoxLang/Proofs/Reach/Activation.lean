/-
  LoxLang.Proofs.Reach.Activation
  ───────────────────────────────
  **The calls of a run.**  Every entry in the journal is a call that the machine has made, on
  a state in which no local variable shares its cell with a global one; and the journal's
  accounts are right: each cell there is was noted once, by the call that made it or by
  top-level code.  So calls touch only what they can reach, spare the variables of their
  callers, and share no variables of their own (`calls_touch_what_they_reach`).
-/
import LoxLang.Proofs.Reach.Frame
import LoxLang.Proofs.Scope.Resolve
import Mathlib.Data.List.Nodup

namespace LoxLang

/-! ## §1. Local and global cells. -/

namespace Machine

/-- The cell is there, and is none of a global variable. -/
def Local (m : Machine) (a : Addr) : Prop :=
  a < m.heap.next ∧ a ∉ m.globals.cells

/-- Variables have cells that are there, and neither a local variable nor a function that is
held anywhere has the cell of a global one. -/
structure Apart (m : Machine) : Prop where
  globals : ∀ a ∈ m.globals.cells, a < m.heap.next
  locals : ∀ a ∈ Captured.cells m.locals, m.Local a
  held : ∀ a, ∀ b ∈ (m.heap.read a).cells, m.Local b

/-- From one state to the other, global variables got new cells or none. -/
structure Advanced (m m' : Machine) : Prop where
  next : m.heap.next ≤ m'.heap.next
  globals : ∀ a ∈ m'.globals.cells, a ∈ m.globals.cells ∨ m.heap.next ≤ a

/-- Neither what is printed nor which variables are local makes a difference. -/
theorem advanced_of_eq {m m' : Machine} (hheap : m'.heap = m.heap)
    (hglobals : m'.globals = m.globals) : Advanced m m' := by
  refine ⟨Nat.le_of_eq (congrArg Heap.next hheap.symm), ?_⟩
  rw [hglobals]
  exact fun _ ha => .inl ha

theorem Advanced.trans {m m' m'' : Machine} (h : Advanced m m') (h' : Advanced m' m'') :
    Advanced m m'' := by
  refine ⟨Nat.le_trans h.next h'.next, ?_⟩
  intro a ha
  rcases h'.globals a ha with ha | hle
  · exact h.globals a ha
  · exact .inr (Nat.le_trans h.next hle)

/-- A local cell never becomes that of a global variable. -/
theorem Advanced.local {m m' : Machine} {a : Addr} (h : Advanced m m') (ha : m.Local a) :
    m'.Local a := by
  refine ⟨Nat.lt_of_lt_of_le ha.1 h.next, ?_⟩
  intro hglobal
  rcases h.globals a hglobal with hglobal | hle
  · exact ha.2 hglobal
  · exact Nat.not_lt.2 hle ha.1

/-- The initial machine has no cells, local or global. -/
theorem apart_initial : Apart .initial := by
  refine ⟨nofun, nofun, ?_⟩
  intro a b hb
  rw [Heap.read_of_next_le (Nat.zero_le a)] at hb
  cases hb

namespace Apart

variable {m : Machine}

/-- Any cell may be written with a value that has captured local cells only. -/
theorem write (h : Apart m) (a : Addr) {v : Value} (hv : ∀ b ∈ v.cells, m.Local b) :
    Apart { m with heap := m.heap.write a v }
      ∧ Advanced m { m with heap := m.heap.write a v } := by
  have hadvanced : Advanced m { m with heap := m.heap.write a v } :=
    ⟨Nat.le_of_eq (Heap.next_write m.heap a v).symm, fun _ ha => .inl ha⟩
  refine ⟨⟨?_, fun b hb => hadvanced.local (h.locals b hb), ?_⟩, hadvanced⟩
  · intro b hb
    rw [Heap.next_write]
    exact h.globals b hb
  · intro b c hc
    refine hadvanced.local ?_
    rcases m.heap.read_write_cases a v b with hread | ⟨-, hread⟩
    · exact h.held b c (hread ▸ hc)
    · exact hv c (hread ▸ hc)

/-- A declaration makes a local or a global cell, and no cell is both. -/
theorem declare (h : Apart m) (name : String) {v : Value} (hv : ∀ b ∈ v.cells, m.Local b) :
    Apart (Exec.declare name v m).2 ∧ Advanced m (Exec.declare name v m).2 := by
  have hheld : ∀ a, ∀ b ∈ ((m.heap.alloc v).read a).cells, m.Local b := by
    intro a b hb
    rcases m.heap.read_alloc_cases v a with hread | ⟨-, hread⟩
    · exact h.held a b (hread ▸ hb)
    · exact hv b (hread ▸ hb)
  have hlt : m.heap.next < (m.heap.alloc v).next := by
    rw [Heap.next_alloc]
    exact Nat.lt_succ_self _
  obtain ⟨heap, globals, locals, output⟩ := m
  cases locals with
  | none =>
    have hglobals : ∀ a ∈ (globals.declare name heap.next).cells,
        a ∈ globals.cells ∨ a = heap.next := fun _ => Env.mem_cells_declare
    have hadvanced : Advanced ⟨heap, globals, none, output⟩
        ⟨heap.alloc v, globals.declare name heap.next, none, output⟩ :=
      ⟨Nat.le_of_lt hlt, fun a ha => (hglobals a ha).imp_right fun heq => Nat.le_of_eq heq.symm⟩
    refine ⟨⟨?_, nofun, fun a b hb => hadvanced.local (hheld a b hb)⟩, hadvanced⟩
    intro a ha
    rcases hglobals a ha with ha | rfl
    · exact Nat.lt_trans (h.globals a ha) hlt
    · exact hlt
  | some e =>
    have hadvanced : Advanced ⟨heap, globals, some e, output⟩
        ⟨heap.alloc v, globals, some (e.declare name heap.next), output⟩ :=
      ⟨Nat.le_of_lt hlt, fun _ ha => .inl ha⟩
    refine ⟨⟨?_, ?_, fun a b hb => hadvanced.local (hheld a b hb)⟩, hadvanced⟩
    · exact fun a ha => Nat.lt_trans (h.globals a ha) hlt
    · intro a ha
      rcases Env.mem_cells_declare ha with ha | rfl
      · exact hadvanced.local (h.locals a ha)
      · exact ⟨hlt, fun hglobal => Nat.lt_irrefl _ (h.globals _ hglobal)⟩

/-- A call gets local cells for its name and its parameters. -/
theorem called (h : Apart m) {decl : FunDecl} {captured : Captured} {arguments : List Value}
    (hvalues : ∀ v ∈ Value.function decl captured :: arguments, ∀ a ∈ v.cells, m.Local a) :
    Apart (Exec.called decl captured captured arguments m)
      ∧ Advanced m (Exec.called decl captured captured arguments m) := by
  have hle := Exec.next_le_called decl captured arguments m
  have hadvanced : Advanced m (Exec.called decl captured captured arguments m) :=
    ⟨hle, fun _ ha => .inl ha⟩
  refine ⟨⟨?_, ?_, ?_⟩, hadvanced⟩
  · exact fun a ha => Nat.lt_of_lt_of_le (h.globals a ha) hle
  · intro a ha
    rcases Exec.mem_cells_called decl captured arguments m ha with ha | ⟨hnew, hlt⟩
    · exact hadvanced.local (hvalues _ List.mem_cons_self a ha)
    · exact ⟨hlt, fun hglobal => Nat.not_lt.2 hnew (h.globals a hglobal)⟩
  · intro a b hb
    refine hadvanced.local ?_
    rcases Exec.read_called decl captured arguments m a with hread | ⟨-, v, hv, hread⟩
    · exact h.held a b (hread ▸ hb)
    · exact hvalues v hv b (hread ▸ hb)

/-- The machine goes back to the caller's variables. -/
theorem finished {m' : Machine} (h : Apart m) (h' : Apart m') (hadvanced : Advanced m m') :
    Apart { m' with locals := m.locals } :=
  ⟨h'.globals, fun a ha => hadvanced.local (h.locals a ha), h'.held⟩

end Apart

end Machine

/-! ## §2. Accounts. -/

/-- What can be said of each entry in the journal. -/
structure Activation.Proper (c : Activation) : Prop where
  genuine : c.Genuine
  apart : c.before.Apart
  restored : c.after.locals = c.before.locals
  /-- The name and the parameters are among the call's own variables. -/
  entered : ∀ a ∈ Captured.cells
    (Exec.called c.decl c.captured c.captured c.arguments c.before).locals,
    a ∈ Captured.cells c.captured ∨ a ∈ c.own
  allocated : ∀ a ∈ c.own, c.Allocates a

/-- On the way from one journal to the other, `size` cells were made, and noted once each. -/
structure Journal.Accounts (j j' : Journal) (size : Nat) (more : List Addr)
    (new : List Activation) : Prop where
  next : j'.machine.heap.next = j.machine.heap.next + size
  own : j'.own = j.own ++ more
  activations : j'.activations = j.activations ++ new
  noted : (more ++ new.flatMap Activation.own).Perm (List.range' j.machine.heap.next size)
  proper : ∀ c ∈ new, c.Proper

/-- The accounts of the journal were kept. -/
def Journal.Kept (j j' : Journal) : Prop :=
  ∃ size more new, j.Accounts j' size more new

namespace Journal

variable {j j' j'' : Journal}

/-- Nothing happened that is to be noted. -/
theorem kept_of_eq (hnext : j'.machine.heap.next = j.machine.heap.next) (hown : j'.own = j.own)
    (hactivations : j'.activations = j.activations) : j.Kept j' := by
  refine ⟨0, [], [], hnext, ?_, ?_, .refl _, nofun⟩
  · rw [hown, List.append_nil]
  · rw [hactivations, List.append_nil]

/-- Accounts are kept over two runs in a row. -/
theorem Kept.trans (h : j.Kept j') (h' : j'.Kept j'') : j.Kept j'' := by
  obtain ⟨size, more, new, hnext, hown, hactivations, hnoted, hproper⟩ := h
  obtain ⟨size', more', new', hnext', hown', hactivations', hnoted', hproper'⟩ := h'
  refine ⟨size + size', more ++ more', new ++ new', ?_, ?_, ?_, ?_, ?_⟩
  · rw [hnext', hnext, Nat.add_assoc]
  · rw [hown', hown, List.append_assoc]
  · rw [hactivations', hactivations, List.append_assoc]
  · rw [hnext] at hnoted'
    rw [List.flatMap_append, ← List.range'_append_1]
    refine .trans ?_ (hnoted.append hnoted')
    -- the calls of the first part change places with the variables of the second
    simp only [List.append_assoc]
    refine .append_left more ?_
    rw [← List.append_assoc, ← List.append_assoc (new.flatMap _)]
    exact .append_right _ List.perm_append_comm
  · intro c hc
    rcases List.mem_append.1 hc with hc | hc
    · exact hproper c hc
    · exact hproper' c hc

theorem kept_declare (name : String) (v : Value) (j : Journal) :
    j.Kept (Log.declare name v j).2 := by
  refine ⟨1, [j.machine.heap.next], [], ?_, rfl, ?_, .refl _, nofun⟩
  · obtain ⟨⟨heap, globals, locals, output⟩, own, activations⟩ := j
    cases locals with
    | none => exact Heap.next_alloc heap v
    | some e => exact Heap.next_alloc heap v
  · exact (List.append_nil _).symm

section Calls

variable {decl : FunDecl} {captured : Captured} {arguments : List Value}

/-- The cells of a call at its start are those made for its name and its parameters. -/
theorem mem_called_own {a : Addr} :
    a ∈ (Log.called decl captured arguments j).own
      ↔ j.machine.heap.next ≤ a
        ∧ a < (Log.called decl captured arguments j).machine.heap.next := by
  have hle := Exec.next_le_called decl captured arguments j.machine
  unfold Log.called
  dsimp only
  rw [List.mem_range'_1, Nat.add_sub_cancel' hle]

/-- What is entered is a call that the machine has made. -/
theorem genuine_entry (h : Log.Ran decl (Log.called decl captured arguments j) j') :
    (Log.entry decl captured arguments j j').Genuine := by
  obtain ⟨turns, depth, result, hbody⟩ := h
  have htells := Bookkeeping.tells_sequence (Log.book.tells_eval_exec turns depth).2 decl.body
  have hrun := htells.eq (Log.called decl captured arguments j)
  rw [hbody] at hrun
  exact ⟨turns, depth, result, Exec.inCall_eq hrun⟩

/-- An entry is proper if the cells of the call's start are among its own, and these were made
by the call. -/
theorem proper_entry (hapart : j.machine.Apart)
    (hran : Log.Ran decl (Log.called decl captured arguments j) j')
    (hcalled : ∀ a ∈ (Log.called decl captured arguments j).own, a ∈ j'.own)
    (hallocated : ∀ a ∈ j'.own, (Log.entry decl captured arguments j j').Allocates a) :
    (Log.entry decl captured arguments j j').Proper := by
  refine ⟨genuine_entry hran, hapart, rfl, ?_, hallocated⟩
  intro a ha
  refine (Exec.mem_cells_called decl captured arguments j.machine ha).imp_right fun hnew => ?_
  exact hcalled a (mem_called_own.2 hnew)

/-- A call makes one entry, behind those of the calls inside of it. -/
theorem kept_call (hapart : j.machine.Apart)
    (hran : Log.Ran decl (Log.called decl captured arguments j) j')
    (hkept : Kept (Log.called decl captured arguments j) j') :
    j.Kept (Log.finished decl captured arguments j j') := by
  obtain ⟨size, more, new, hnext, hown, hactivations, hnoted, hproper⟩ := hkept
  -- `start` cells for the name and the parameters, then `size` cells while the body ran
  obtain ⟨start, hstart⟩ :=
    Nat.exists_eq_add_of_le (Exec.next_le_called decl captured arguments j.machine)
  have hcalled : (Log.called decl captured arguments j).machine.heap.next
      = j.machine.heap.next + start := hstart
  rw [hcalled] at hnext hnoted
  have hall : (new.flatMap Activation.own ++ j'.own).Perm
      (List.range' j.machine.heap.next (start + size)) := by
    have hrange : (Log.called decl captured arguments j).own
        = List.range' j.machine.heap.next start := by
      unfold Log.called
      dsimp only
      rw [hstart, Nat.add_sub_cancel_left]
    rw [hown, hrange, ← List.range'_append_1]
    refine List.perm_append_comm.trans ?_
    rw [List.append_assoc]
    exact .append_left _ hnoted
  refine ⟨start + size, [], new ++ [Log.entry decl captured arguments j j'], ?_, ?_, ?_, ?_, ?_⟩
  · exact hnext.trans (Nat.add_assoc _ _ _)
  · exact (List.append_nil _).symm
  · unfold Log.finished
    dsimp only
    rw [hactivations, List.append_assoc]
    rfl
  · rw [List.nil_append, List.flatMap_append, List.flatMap_singleton]
    exact hall
  · intro c hc
    rcases List.mem_append.1 hc with hc | hc
    · exact hproper c hc
    · cases List.mem_singleton.1 hc
      refine proper_entry hapart hran ?_ ?_
      · intro a ha
        rw [hown]
        exact List.mem_append_left _ ha
      · intro a ha
        have hmem := List.mem_range'_1.1 (hall.mem_iff.1 (List.mem_append_right _ ha))
        rw [← Nat.add_assoc, ← hnext] at hmem
        exact hmem

end Calls

/-- **All code keeps the accounts**, and leaves the cells of local and of global variables
apart. -/
def accounting : Regime where
  Inv j := j.machine.Apart
  Step j j' := Machine.Advanced j.machine j'.machine ∧ j.Kept j'
  Cell j a := j.machine.Local a
  refl j := ⟨Machine.advanced_of_eq rfl rfl, kept_of_eq rfl rfl rfl⟩
  trans h h' := ⟨h.1.trans h'.1, h.2.trans h'.2⟩
  cell_of_step h ha := h.1.local ha
  locals h := h.locals
  write h _ := ⟨⟨h.globals, h.locals, h.held⟩, Machine.advanced_of_eq rfl rfl,
    kept_of_eq rfl rfl rfl⟩
  load h a _ := h.held a
  store h a _ v hv := by
    obtain ⟨hapart, hadvanced⟩ := h.write a hv
    exact ⟨hapart, hadvanced, kept_of_eq (Heap.next_write _ a v) rfl rfl⟩
  declare {j} h name v hv := by
    obtain ⟨hapart, hadvanced⟩ := h.declare name hv
    exact ⟨hapart, hadvanced, kept_declare name v j⟩
  relocate h _ hl := ⟨⟨h.globals, hl, h.held⟩, Machine.advanced_of_eq rfl rfl,
    kept_of_eq rfl rfl rfl⟩
  cell_of_finished ha := ha
  call h hvalues := by
    obtain ⟨hcalled, hstart⟩ := h.called hvalues
    refine ⟨hcalled, ?_⟩
    intro j' hran h' hbody
    have hadvanced := hstart.trans hbody.1
    exact ⟨h.finished h' hadvanced, hadvanced.trans (Machine.advanced_of_eq rfl rfl),
      kept_call h hran hbody.2⟩

end Journal

/-! ## §3. Runs. -/

/-- Inputs that are run in turn under the journal. -/
theorem inTurn_noted (inputs : List AcceptedInput) :
    ∀ {j : Journal}, j.machine.Apart →
      let noted := inTurn (fun j i => Journal.run j i.limits i.program) j inputs
      inTurn (fun n i => Machine.run n i.limits i.program) j.machine inputs
          = (noted.1, noted.2.machine)
        ∧ j.Kept noted.2 := by
  induction inputs with
  | nil => exact fun _ => ⟨rfl, Journal.kept_of_eq rfl rfl rfl⟩
  | cons i inputs ih =>
    intro j hapart
    obtain ⟨hapart', -, hkept⟩ := Journal.accounting.obeys_run (j := j) i.limits i.program hapart
    obtain ⟨hactual, hkept'⟩ := ih hapart'
    refine ⟨?_, hkept.trans hkept'⟩
    unfold inTurn
    rw [j.run_machine, hactual]

/-- The variables of its caller that a call cannot reach keep their values. -/
theorem Activation.Proper.spares {c : Activation} (h : c.Proper) {a : Addr}
    (ha : a ∈ Captured.cells c.before.locals) (hreach : ¬ c.Reaches a) :
    c.after.heap.read a = c.before.heap.read a := by
  obtain ⟨hlt, hglobal⟩ := h.apart.locals a ha
  by_contra hne
  rcases h.genuine.touches hne with ⟨hle, -⟩ | hglobal' | hreach'
  · exact Nat.not_lt.2 hle hlt
  · exact hglobal hglobal'
  · exact hreach hreach'

/-- **Calls touch what they reach.**  Whatever inputs are run in turn, under the journal they
end as they do without it, and every call in it is one that the machine has made.  However a
call ended, a cell that it changed was made during the call, or belongs to a global variable,
or could be reached when the call began; so that the variables of the caller, which the call
leaves in their place, keep their values unless they can be reached.  The cells that calls
made for their own name, their parameters and their variables are no two calls' own; with
those of top-level code, these are all the cells there are, each noted once. -/
theorem calls_touch_what_they_reach (inputs : List AcceptedInput) :
    let noted := inTurn (fun j i => Journal.run j i.limits i.program) .initial inputs
    let actual := inTurn (fun n i => Machine.run n i.limits i.program) .initial inputs
    (actual.1 = noted.1 ∧ actual.2 = noted.2.machine)
      ∧ (∀ c ∈ noted.2.activations, c.Genuine
        ∧ (∀ a, c.after.heap.read a ≠ c.before.heap.read a →
          c.Allocates a ∨ a ∈ c.before.globals.cells ∨ c.Reaches a)
        ∧ c.after.locals = c.before.locals
        ∧ (∀ a ∈ Captured.cells c.before.locals, ¬ c.Reaches a →
          c.after.heap.read a = c.before.heap.read a)
        ∧ (∀ a ∈ Captured.cells
            (Exec.called c.decl c.captured c.captured c.arguments c.before).locals,
          a ∈ Captured.cells c.captured ∨ a ∈ c.own)
        ∧ ∀ a ∈ c.own, c.Allocates a)
      ∧ noted.2.activations.Pairwise (fun c d => c.own.Disjoint d.own)
      ∧ (noted.2.own ++ noted.2.activations.flatMap Activation.own).Perm
        (List.range actual.2.heap.next) := by
  intro noted actual
  obtain ⟨hactual, size, more, new, hnext, hown, hactivations, hnoted, hproper⟩ :=
    inTurn_noted inputs (j := .initial) Machine.apart_initial
  have hresults : actual = (noted.1, noted.2.machine) := hactual
  replace hown : noted.2.own = more := hown
  replace hactivations : noted.2.activations = new := hactivations
  rw [hresults, hown, hactivations]
  have hall : (more ++ new.flatMap Activation.own).Perm (List.range noted.2.machine.heap.next) := by
    replace hnext : noted.2.machine.heap.next = 0 + size := hnext
    rw [hnext, Nat.zero_add, List.range_eq_range']
    exact hnoted
  refine ⟨⟨rfl, rfl⟩, ?_, ?_, hall⟩
  · intro c hc
    have h := hproper c hc
    exact ⟨h.genuine, fun a => h.genuine.touches, h.restored, fun a => h.spares, h.entered,
      h.allocated⟩
  · have hnodup := hall.nodup_iff.2 List.nodup_range
    exact (List.nodup_flatMap.1 (List.nodup_append.1 hnodup).2.1).2

/-- Two calls of one function, which assigns to a variable of its caller: the cell of that
variable is neither new nor global, so it was reached; the two calls' own cells are apart. -/
theorem calls_touch_what_they_reach_twice :
    ∃ (i : AcceptedInput) (first second : Activation),
      i.source = "\x7b var n; fun f(v) \x7b n = v; \x7d f(true); f(nil); \x7d"
      ∧ (Journal.initial.run i.limits i.program).2.activations = [first, second]
      ∧ first.own = [2, 3] ∧ second.own = [4, 5] ∧ first.own.Disjoint second.own
      ∧ second.before.heap.read 0 = .bool true ∧ second.after.heap.read 0 = .nil
      ∧ second.Reaches 0 := by
  have hread : readProgram "\x7b var n; fun f(v) \x7b n = v; \x7d f(true); f(nil); \x7d" 1
      = .ok [.block [.varDecl "n" 1 (.literal .nil),
        .funDecl "f" 1 ["v"] [.expr (.assign ⟨"n", 1, none⟩ (.var ⟨"v", 1, none⟩))],
        .expr (.call 1 (.var ⟨"f", 1, none⟩) [.literal (.bool true)]),
        .expr (.call 1 (.var ⟨"f", 1, none⟩) [.literal .nil])]] := by
    set_option maxRecDepth 1000 in with_unfolding_all rfl
  obtain ⟨i, hsource, hlimits, hprogram⟩ : ∃ i : AcceptedInput,
      i.source = "\x7b var n; fun f(v) \x7b n = v; \x7d f(true); f(nil); \x7d" ∧ i.limits = ⟨9, 1⟩
      ∧ i.program = [.block [.varDecl "n" 1 (.literal .nil),
        .funDecl "f" 1 ["v"] [.expr (.assign ⟨"n", 1, some 0⟩ (.var ⟨"v", 1, some 2⟩))],
        .expr (.call 1 (.var ⟨"f", 1, some 1⟩) [.literal (.bool true)]),
        .expr (.call 1 (.var ⟨"f", 1, some 1⟩) [.literal .nil])]] :=
    ⟨⟨_, 1, _, _, _, hread, rfl⟩, rfl, rfl, rfl⟩
  have hentries : (Journal.initial.run i.limits i.program).2.activations.map (fun c =>
      (c.own, c.before.heap.next, c.before.globals.cells, c.before.heap.read 0,
        c.after.heap.read 0))
      = [([2, 3], 2, [], .nil, .bool true), ([4, 5], 4, [], .bool true, .nil)] := by
    rw [hlimits, hprogram]
    rfl
  obtain ⟨first, later, hactivations, hfirst, hlater⟩ := List.map_eq_cons_iff.1 hentries
  obtain ⟨second, none, rfl, hsecond, hnone⟩ := List.map_eq_cons_iff.1 hlater
  obtain rfl := List.map_eq_nil_iff.1 hnone
  simp only [Prod.mk.injEq] at hfirst hsecond
  obtain ⟨hown, hnext, hglobals, hbefore, hafter⟩ := hsecond
  obtain ⟨-, hcalls, hdisjoint, -⟩ := calls_touch_what_they_reach [i]
  have hnoted : (inTurn (fun j (i : AcceptedInput) => Journal.run j i.limits i.program) .initial
      [i]).2.activations = [first, second] := hactivations
  rw [hnoted] at hcalls hdisjoint
  refine ⟨i, first, second, hsource, hactivations, hfirst.1, hown, ?_, hbefore, hafter, ?_⟩
  · exact (List.pairwise_cons.1 hdisjoint).1 second List.mem_cons_self
  · obtain ⟨-, htouches, -⟩ := hcalls second (List.mem_cons_of_mem _ List.mem_cons_self)
    have hne : second.after.heap.read 0 ≠ second.before.heap.read 0 := by
      rw [hbefore, hafter]
      rintro ⟨⟩
    rcases htouches 0 hne with ⟨hle, -⟩ | hglobal | hreach
    · rw [hnext] at hle
      exact absurd hle (by decide)
    · rw [hglobals] at hglobal
      cases hglobal
    · exact hreach

end LoxLang
