/-
  LoxLang.Proofs.Film.Acyclic
  ───────────────────────────
  **Declaring and calling tie no cycle.**  A call binds the function under its own name, in a
  cell of its own, and the functions declared inside capture that cell.  Still, as long as
  nothing is assigned to, a cell holds functions that have captured earlier cells alone; so
  that the way from a function to the functions in the cells that it has captured goes down
  the heap and never comes back (`Heap.Ordered.acyclic`).

  Main result: `declaring_and_calling_tie_no_cycle`, about every state of every run.
-/
import LoxLang.Proofs.Film.Confines
import LoxLang.Proofs.Scope.Resolve

namespace LoxLang

/-! ## §1. Heaps that are ordered. -/

namespace Heap

variable {heap : Heap} {v w : Value} {a b : Addr}

/-- A cell that `v` has captured holds `w`. -/
def Leads (heap : Heap) (v w : Value) : Prop :=
  ∃ a ∈ v.cells, heap.read a = w

/-- A cell holds functions that have captured earlier cells. -/
def Ordered (heap : Heap) : Prop :=
  ∀ a, ∀ b ∈ (heap.read a).cells, b < a

/-- What is led to has captured cells before one that is captured at the start. -/
theorem Ordered.lt_of_transGen (h : heap.Ordered) (hpath : Relation.TransGen heap.Leads v w) :
    ∃ a ∈ v.cells, ∀ b ∈ w.cells, b < a := by
  induction hpath with
  | single hstep =>
    obtain ⟨a, ha, rfl⟩ := hstep
    exact ⟨a, ha, h a⟩
  | tail _ hstep ih =>
    obtain ⟨a, ha, hbelow⟩ := ih
    obtain ⟨a', ha', rfl⟩ := hstep
    exact ⟨a, ha, fun b hb => Nat.lt_trans (h a' b hb) (hbelow a' ha')⟩

theorem Ordered.acyclic (h : heap.Ordered) (v : Value) : ¬ Relation.TransGen heap.Leads v v := by
  intro hcycle
  obtain ⟨a, ha, hbelow⟩ := h.lt_of_transGen hcycle
  exact Nat.lt_irrefl a (hbelow a ha)

/-- A cell that is reached holds a value that is led to. -/
theorem transGen_of_reachable (h : Reachable heap [v] a) :
    Relation.TransGen heap.Leads v (heap.read a) := by
  induction h with
  | captured hv ha =>
    obtain rfl := List.mem_singleton.1 hv
    exact .single ⟨_, ha, rfl⟩
  | held _ ha ih => exact ih.tail ⟨_, ha, rfl⟩

/-- From what is captured, only earlier cells are reached. -/
theorem Ordered.lt_of_reachable (h : heap.Ordered) (hv : ∀ b ∈ v.cells, b < a)
    (hreach : Reachable heap [v] b) : b < a := by
  induction hreach with
  | captured hroot hb =>
    obtain rfl := List.mem_singleton.1 hroot
    exact hv _ hb
  | held _ hb ih => exact Nat.lt_trans (h _ _ hb) ih

end Heap

/-! ## §2. Runs without assignments. -/

/-- Nothing is assigned to. -/
def Confines.assignless : Confines := ⟨fun _ => True, False⟩

theorem Confined.heap_ordered {m : Machine} (h : Confined .assignless m) : m.heap.Ordered :=
  h.ordered not_false

/-- Inputs that keep to their confines, one after the other. -/
theorem Film.inTurn_proper {c : Confines} (inputs : List (Limits × List Stmt)) :
    ∀ f : Film, f.Proper c → (∀ i ∈ inputs, ∀ s ∈ i.2, s.Within c) →
      inTurn (fun m i => Machine.run m i.1 i.2) f.machine inputs
          = ((inTurn (fun f i => Film.run f i.1 i.2) f inputs).1,
            (inTurn (fun f i => Film.run f i.1 i.2) f inputs).2.machine)
        ∧ (inTurn (fun f i => Film.run f i.1 i.2) f inputs).2.Proper c := by
  induction inputs with
  | nil => exact fun f hf _ => ⟨rfl, hf⟩
  | cons i inputs ih =>
    intro f hf h
    obtain ⟨hi, hinputs⟩ := List.forall_mem_cons.1 h
    obtain ⟨hproper, -⟩ := hf.run i.1 hi
    obtain ⟨hactual, hproper'⟩ := ih _ hproper hinputs
    refine ⟨?_, hproper'⟩
    unfold inTurn
    rw [f.run_machine i.1 i.2, hactual]

/-- **Declaring and calling tie no function into a cycle.**  Inputs that assign to nothing are
run in turn, whatever each of them ends with.  The film of the run shows what the machine does,
from the initial state on, and misses no change of the heap.  In every state:

  • no function leads back to itself through the cells that functions have captured,
  • no function is reached from the cells that it has captured itself.

Yet every call begins with the function bound under its own name, before any parameter is, and
a function that is declared there leads to it; the function itself does not reach the cell of
its name. -/
theorem declaring_and_calling_tie_no_cycle (inputs : List (Limits × List Stmt))
    (h : ∀ i ∈ inputs, ∀ s ∈ i.2, s.Within .assignless) :
    let filmed := inTurn (fun f i => Film.run f i.1 i.2) .initial inputs
    let actual := inTurn (fun m i => Machine.run m i.1 i.2) .initial inputs
    (actual.1 = filmed.1 ∧ actual.2 = filmed.2.machine)
      ∧ filmed.2.states.getLast? = some .initial
      ∧ filmed.2.states.IsChain (fun later earlier => earlier.Moves later)
      ∧ (∀ m ∈ filmed.2.states, ∀ f : Value, ¬ Relation.TransGen m.heap.Leads f f
        ∧ ∀ a, Reachable m.heap [f] a → m.heap.read a ≠ f)
      ∧ ∀ k ∈ filmed.2.calls, k.state ∈ filmed.2.states
        ∧ ∃ e a, k.state.locals = some e ∧ e.find? k.decl.name = some a
          ∧ k.state.heap.read a = .function k.decl k.captured
          ∧ (∀ decl, k.state.heap.Leads (.function decl (k.state.locals.map Env.capture))
            (.function k.decl k.captured))
          ∧ ¬ Reachable k.state.heap [.function k.decl k.captured] a := by
  intro filmed actual
  obtain ⟨hactual, hproper⟩ := Film.inTurn_proper inputs .initial (Film.proper_initial _) h
  refine ⟨Prod.ext_iff.1 hactual, hproper.starts, hproper.gapless, ?_, ?_⟩
  · intro m hm f
    have hordered := (hproper.confined m hm).heap_ordered
    refine ⟨hordered.acyclic f, ?_⟩
    intro a hreach hread
    have hpath := Heap.transGen_of_reachable hreach
    rw [hread] at hpath
    exact hordered.acyclic f hpath
  · intro k hk
    obtain ⟨hstate, e, a, hlocals, hfind, hread, hbelow⟩ := hproper.begun k hk
    refine ⟨hstate, e, a, hlocals, hfind, hread, ?_, ?_⟩
    · intro decl
      refine ⟨a, ?_, hread⟩
      rw [hlocals]
      exact Env.mem_cells_of_find? hfind
    · intro hreach
      have hordered := (hproper.confined k.state hstate).heap_ordered
      have hlt := hordered.lt_of_reachable (v := .function k.decl k.captured) hbelow hreach
      exact Nat.lt_irrefl a hlt

/-- A function that is called with itself: the function declared inside has captured the cells
of its name and of its parameter, and both hold the function around it. -/
theorem declaring_and_calling_tie_no_cycle_nested :
    ∃ program, (Resolver.initial.resolve [.block [
        .funDecl "f" 1 ["x"] [.funDecl "g" 1 [] [.ret 1 (.var ⟨"f", 1, none⟩)]],
        .expr (.call 1 (.var ⟨"f", 1, none⟩) [.var ⟨"f", 1, none⟩])]]).1 = .ok program
      ∧ ((Film.initial.run ⟨9, 1⟩ program).2.calls.map fun k => k.decl.name) = ["f"]
      ∧ ∃ m ∈ (Film.initial.run ⟨9, 1⟩ program).2.states,
        (m.heap.read 3).cells = [1, 2] ∧ m.heap.Leads (m.heap.read 3) (m.heap.read 0)
          ∧ ∀ f, ¬ Relation.TransGen m.heap.Leads f f := by
  let program : List Stmt := [.block [
    .funDecl "f" 1 ["x"] [.funDecl "g" 1 [] [.ret 1 (.var ⟨"f", 1, some 0⟩)]],
    .expr (.call 1 (.var ⟨"f", 1, some 0⟩) [.var ⟨"f", 1, some 0⟩])]]
  have hwithin : ∀ s ∈ program, s.Within .assignless := by
    refine List.forall_mem_singleton.2 (.block (List.forall_mem_cons.2 ⟨.funDecl trivial ?_, ?_⟩))
    · refine List.forall_mem_singleton.2 (.funDecl trivial ?_)
      exact List.forall_mem_singleton.2 (.ret trivial (.var trivial))
    · refine List.forall_mem_singleton.2 (.expr (.call trivial (.var trivial) ?_))
      exact List.forall_mem_singleton.2 (.var trivial)
  obtain ⟨-, -, -, hstates, -⟩ := declaring_and_calling_tie_no_cycle [(⟨9, 1⟩, program)]
    (List.forall_mem_singleton.2 hwithin)
  refine ⟨program, rfl, rfl, (Film.initial.run ⟨9, 1⟩ program).2.machine, List.mem_cons_self,
    rfl, ⟨1, List.mem_cons_self, rfl⟩, ?_⟩
  exact fun f => (hstates _ List.mem_cons_self f).1

end LoxLang
