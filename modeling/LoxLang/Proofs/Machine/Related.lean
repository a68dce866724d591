/-
  LoxLang.Proofs.Machine.Related
  ──────────────────────────────
  **Values that differ in their functions only.**  Two evaluators that keep different
  things with a function have related values: equal ones, but for functions, which
  are related by a relation `K` of their own.  No operator can tell related values
  apart, and related heaps stay related cell by cell.
-/
import LoxLang.Machine.Basic
import LoxLang.Proofs.Attempt

namespace LoxLang

variable {κ κ' : Type}

/-! ## §1. Values. -/

/-- Equal values, or functions related by `K`. -/
inductive Value.Rel (K : FunDecl → κ → FunDecl → κ' → Prop) : Value κ → Value κ' → Prop where
  | nil : Rel K .nil .nil
  | bool (b : Bool) : Rel K (.bool b) (.bool b)
  | number (x : Float) : Rel K (.number x) (.number x)
  | string (s : String) : Rel K (.string s) (.string s)
  | function {decl : FunDecl} {captured : κ} {decl' : FunDecl} {captured' : κ'}
      (h : K decl captured decl' captured') :
      Rel K (.function decl captured) (.function decl' captured')

/-- Statements that end alike. -/
inductive Completion.Rel (W : Value κ → Value κ' → Prop) : Completion κ → Completion κ' → Prop where
  | normal : Rel W .normal .normal
  | returned {v : Value κ} {v' : Value κ'} (h : W v v') : Rel W (.returned v) (.returned v')

/-- Runs that end alike: with related results, or for the same reason. -/
def SameResult {α β : Type} (W : α → β → Prop) : Except Halt α → Except Halt β → Prop
  | .ok v, .ok w => W v w
  | .error halt, .error halt' => halt = halt'
  | _, _ => False

namespace Value.Rel

variable {K : FunDecl → κ → FunDecl → κ' → Prop} {v w : Value κ} {v' w' : Value κ'}

theorem toValue (l : Literal) : Rel K l.toValue l.toValue := by
  cases l <;> constructor

/-- Truth does not depend on what functions carry. -/
theorem truth_eq (h : Rel K v v') : v.truth = v'.truth := by
  cases h <;> rfl

theorem settledBy_eq (h : Rel K v v') (c : Connective) : c.settledBy v = c.settledBy v' := by
  cases c <;> simp only [Connective.settledBy, h.truth_eq]

/-- Functions of the same name print the same. -/
theorem text_eq (hK : ∀ {decl captured decl' captured'}, K decl captured decl' captured' →
    decl.name = decl'.name) (h : Rel K v v') : v.text = v'.text := by
  cases h with
  | function hfun =>
    show "<fn " ++ _ ++ ">" = "<fn " ++ _ ++ ">"
    rw [hK hfun]
  | bool b => cases b <;> rfl
  | _ => rfl

/-- An operator gives related values or the same error. -/
theorem strict_apply (op : StrictOp) (line : Int) (h : Rel K v v') (h' : Rel K w w') :
    (∃ u u', op.apply line v w = .ok u ∧ op.apply line v' w' = .ok u' ∧ Rel K u u')
      ∨ ∃ e, op.apply line v w = .error e ∧ op.apply line v' w' = .error e := by
  -- only two numbers or two strings give a value
  cases h <;> cases h' <;> cases op <;>
    first
      | exact Or.inr ⟨_, rfl, rfl⟩
      | exact Or.inl ⟨_, _, rfl, rfl, .number _⟩
      | exact Or.inl ⟨_, _, rfl, rfl, .string _⟩
      | exact Or.inl ⟨_, _, rfl, rfl, .bool _⟩

/-- A unary operator fails on both values, or gives related ones. -/
theorem unary_apply (op : UnaryOp) (line : Int) (h : Rel K v v') :
    (∃ u u', op.apply line v = .ok u ∧ op.apply line v' = .ok u' ∧ Rel K u u')
      ∨ ∃ e, op.apply line v = .error e ∧ op.apply line v' = .error e := by
  cases op with
  | not =>
    refine Or.inl ⟨.bool (!v.truth), .bool (!v'.truth), rfl, rfl, ?_⟩
    rw [h.truth_eq]
    exact .bool _
  | negate =>
    cases h <;>
      first
        | exact Or.inr ⟨_, rfl, rfl⟩
        | exact Or.inl ⟨_, _, rfl, rfl, .number _⟩

end Value.Rel

/-- Operators follow each other. -/
theorem Attempt.Follows.ofExcept {σ τ α β : Type} {V : Halt → Prop} {E : Halt → σ → τ → Prop}
    {P : σ → τ → Prop} {W : α → β → Prop} {a : Except RuntimeError α} {b : Except RuntimeError β}
    (h : (∃ u u', a = .ok u ∧ b = .ok u' ∧ W u u') ∨ ∃ e, a = .error e ∧ b = .error e)
    (hE : ∀ e s t, P s t → E (.error e) s t) :
    Follows V E P (Exec.ofExcept a) (Exec.ofExcept b) (fun u u' s t => W u u' ∧ P s t) := by
  rcases h with ⟨u, u', rfl, rfl, hW⟩ | ⟨e, rfl, rfl⟩
  · exact .pure fun s t hP => ⟨hW, hP⟩
  · exact .throw fun s t hP => hE e s t hP

/-! ## §2. Heaps. -/

namespace Heap

/-- A new cell changes no other address. -/
theorem read_alloc_of_ne {h : Heap κ} {a : Addr} (ha : a ≠ h.next) (v : Value κ) :
    (h.alloc v).read a = h.read a := by
  by_cases hlt : a < h.next
  · exact read_alloc_of_lt hlt v
  · -- behind the new cell there is nothing
    unfold next at ha hlt
    have hge : ¬ a < (h.cells.push v).size := by
      rw [Array.size_push]
      exact Nat.not_lt.2 (Nat.lt_of_le_of_ne (Nat.not_lt.1 hlt) (Ne.symm ha))
    unfold read alloc Array.getD
    rw [dif_neg hge, dif_neg hlt]

/-- A write behind the last cell changes nothing. -/
theorem read_write_of_le {h : Heap κ} {a : Addr} (ha : h.next ≤ a) (v : Value κ) (b : Addr) :
    (h.write a v).read b = h.read b := by
  unfold next at ha
  simp only [write, read, Array.setIfInBounds_eq_of_size_le ha]

/-- As many cells, and related values in them. -/
def Rel (W : Value κ → Value κ' → Prop) (h : Heap κ) (h' : Heap κ') : Prop :=
  h.next = h'.next ∧ ∀ a, W (h.read a) (h'.read a)

variable {W : Value κ → Value κ' → Prop} {h : Heap κ} {h' : Heap κ'} {v : Value κ} {v' : Value κ'}

theorem rel_empty (hnil : W .nil .nil) : Rel W Heap.empty Heap.empty :=
  ⟨rfl, fun _ => hnil⟩

/-- New cells are made at the same address, with related values. -/
theorem Rel.alloc (hh : Rel W h h') (hv : W v v') : Rel W (h.alloc v) (h'.alloc v') := by
  refine ⟨by rw [next_alloc, next_alloc, hh.1], ?_⟩
  intro a
  by_cases ha : a = h.next
  · rw [ha, read_alloc_next, hh.1, read_alloc_next]
    exact hv
  · rw [read_alloc_of_ne ha, read_alloc_of_ne (hh.1 ▸ ha)]
    exact hh.2 a

/-- Related values may be written to the same address. -/
theorem Rel.write (hh : Rel W h h') (hv : W v v') (a : Addr) :
    Rel W (h.write a v) (h'.write a v') := by
  refine ⟨by rw [next_write, next_write, hh.1], ?_⟩
  intro b
  by_cases ha : a < h.next
  · by_cases hb : a = b
    · rw [← hb, read_write_self ha, read_write_self (hh.1 ▸ ha)]
      exact hv
    · rw [read_write_of_ne hb, read_write_of_ne hb]
      exact hh.2 b
  · have hle : h.next ≤ a := Nat.not_lt.1 ha
    rw [read_write_of_le hle, read_write_of_le (hh.1 ▸ hle)]
    exact hh.2 b

end Heap

/-! ## §3. Fresh cells. -/

/-- Names with related values. -/
theorem forall₂_zip {W : Value κ → Value κ' → Prop} {vs : List (Value κ)} {vs' : List (Value κ')}
    (h : List.Forall₂ W vs vs') :
    ∀ names : List String, List.Forall₂ (fun x y => x.1 = y.1 ∧ W x.2 y.2)
      (names.zip vs) (names.zip vs') := by
  induction h with
  | nil =>
    intro names
    rw [List.zip_nil_right, List.zip_nil_right]
    exact .nil
  | cons hv _ ih =>
    intro names
    cases names with
    | nil => exact .nil
    | cons name names => exact .cons ⟨rfl, hv⟩ (ih names)

/-- Fresh cells are at the same addresses in related heaps. -/
theorem Env.declareCells_rel {W : Value κ → Value κ' → Prop} {h : Heap κ} {h' : Heap κ'}
    {xs : List (String × Value κ)} {ys : List (String × Value κ')} (hh : Heap.Rel W h h')
    (hxs : List.Forall₂ (fun x y => x.1 = y.1 ∧ W x.2 y.2) xs ys) :
    ∀ e : Env Addr, (e.declareCells h xs).1 = (e.declareCells h' ys).1
      ∧ Heap.Rel W (e.declareCells h xs).2 (e.declareCells h' ys).2 := by
  induction hxs generalizing h h' with
  | nil =>
    intro e
    exact ⟨rfl, hh⟩
  | @cons x y xs ys hxy _ ih =>
    intro e
    obtain ⟨name, v⟩ := x
    obtain ⟨name', v'⟩ := y
    obtain ⟨hname, hv⟩ := hxy
    -- the next cell has the same address in both heaps
    have htail := ih (hh.alloc hv) (e.declare name h.next)
    unfold Env.declareCells
    rw [← show name = name' from hname, ← hh.1]
    exact htail

end LoxLang
