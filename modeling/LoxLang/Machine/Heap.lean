/-
  LoxLang.Machine.Heap
  ────────────────────
  **Cells.**  A heap is a growing row of cells that hold one value each.  Cells are
  never moved or freed, so that an address keeps its meaning, and environments
  that share an address share the variable.
-/
import LoxLang.Machine.Value

namespace LoxLang

/-- The cells of a running program. -/
structure Heap (κ : Type := Captured) where
  cells : Array (Value κ)

variable {κ : Type}

namespace Heap

/-- No cells. -/
def empty : Heap κ := ⟨#[]⟩

/-- The address that the next cell will have. -/
def next (h : Heap κ) : Addr :=
  h.cells.size

/-- A new cell, at the address `h.next`. -/
def alloc (h : Heap κ) (v : Value κ) : Heap κ :=
  ⟨h.cells.push v⟩

/-- The value of a cell. -/
def read (h : Heap κ) (a : Addr) : Value κ :=
  h.cells.getD a .nil

/-- Put a value into a cell. -/
def write (h : Heap κ) (a : Addr) (v : Value κ) : Heap κ :=
  ⟨h.cells.setIfInBounds a v⟩

/-! ## §1. Laws of cells. -/

@[simp] theorem next_alloc (h : Heap κ) (v : Value κ) : (h.alloc v).next = h.next + 1 := by
  simp [alloc, next]

@[simp] theorem next_write (h : Heap κ) (a : Addr) (v : Value κ) :
    (h.write a v).next = h.next := by
  simp [write, next]

/-- A new cell holds its value. -/
@[simp] theorem read_alloc_next (h : Heap κ) (v : Value κ) : (h.alloc v).read h.next = v := by
  simp [alloc, read, next, Array.getD]

/-- A new cell leaves the others alone. -/
theorem read_alloc_of_lt {h : Heap κ} {a : Addr} (ha : a < h.next) (v : Value κ) :
    (h.alloc v).read a = h.read a := by
  have hlt : a < h.cells.size + 1 := Nat.lt_succ_of_lt ha
  unfold next at ha
  simp [alloc, read, Array.getD, ha, hlt, Array.getElem_push_lt ha]

/-- A cell holds what was written to it. -/
theorem read_write_self {h : Heap κ} {a : Addr} (ha : a < h.next) (v : Value κ) :
    (h.write a v).read a = v := by
  unfold next at ha
  simp [write, read, Array.getD, ha]

/-- A write leaves the other cells alone. -/
theorem read_write_of_ne {h : Heap κ} {a b : Addr} (hne : a ≠ b) (v : Value κ) :
    (h.write a v).read b = h.read b := by
  unfold write read Array.getD
  simp only [Array.size_setIfInBounds]
  split
  · next hb => exact Array.getElem_setIfInBounds_ne hb hne
  · rfl

end Heap

/-! ## §2. Variables: an environment of cells. -/

namespace Env

/-- Declare `name` with a fresh cell that holds `v`. -/
def declareCell (e : Env Addr) (h : Heap κ) (name : String) (v : Value κ) : Env Addr × Heap κ :=
  (e.declare name h.next, h.alloc v)

/-- Declare several names, one after the other, each with a fresh cell. -/
def declareCells (e : Env Addr) (h : Heap κ) : List (String × Value κ) → Env Addr × Heap κ
  | [] => (e, h)
  | (name, v) :: rest => declareCells (e.declare name h.next) (h.alloc v) rest

/-- Write to the innermost variable of this name, or append one if there is none. -/
def assignOrAppend (e : Env Addr) (h : Heap κ) (name : String) (v : Value κ) :
    Env Addr × Heap κ :=
  match e.find? name with
  | some a => (e, h.write a v)
  | none => (e.append name h.next, h.alloc v)

/-- The names and values of the variables, in slot order. -/
def contents (e : Env Addr) (h : Heap κ) : List (String × Value κ) :=
  e.bindings.map fun (name, a) => (name, h.read a)

end Env

end LoxLang
