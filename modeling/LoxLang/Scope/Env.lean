/-
  LoxLang.Scope.Env
  ─────────────────
  **Environments.**  An environment is a flat row of bindings with marks that say
  where each open scope starts.  The position of a binding is its *slot*.  A name
  means its last binding, and closing a scope cuts the row back to the mark.

  What a name is bound to is left open: scope resolution keeps names alone, and a
  running program binds names to cells.  A captured environment shares whatever
  its names are bound to and nothing else, so that no later declaration is seen
  across a capture.
-/

namespace LoxLang

/-- A row of bindings, cut into scopes. -/
structure Env (α : Type) where
  /-- The bindings, in slot order. -/
  bindings : List (String × α)
  /-- Where the open scopes start, the innermost first. -/
  marks : List Nat
  deriving DecidableEq

namespace Env

variable {α : Type}

/-- No bindings and no open scope. -/
def empty : Env α := ⟨[], []⟩

/-- The number of bindings. -/
def size (e : Env α) : Nat :=
  e.bindings.length

/-- The names of the bindings, in slot order. -/
def names (e : Env α) : List String :=
  e.bindings.map Prod.fst

/-- Where the active scope starts. -/
def activeStart (e : Env α) : Nat :=
  e.marks.headD 0

/-! ## §1. Looking up. -/

/-- The position of the last binding of `name`. -/
def lastIndex? (name : String) : List (String × α) → Option Nat
  | [] => none
  | b :: bs =>
      match lastIndex? name bs with
      | some i => some (i + 1)
      | none => if b.1 = name then some 0 else none

/-- The slot of the innermost binding of `name`. -/
def slotOf? (e : Env α) (name : String) : Option Nat :=
  lastIndex? name e.bindings

/-- The slot of the binding of `name` in the active scope. -/
def activeSlot? (e : Env α) (name : String) : Option Nat :=
  (lastIndex? name (e.bindings.drop e.activeStart)).map (e.activeStart + ·)

/-- What the binding in a slot holds. -/
def get? (e : Env α) (slot : Nat) : Option α :=
  e.bindings[slot]?.map Prod.snd

/-- What the innermost binding of `name` holds. -/
def find? (e : Env α) (name : String) : Option α :=
  (e.slotOf? name).bind e.get?

/-! ## §2. Declaring. -/

/-- A new binding at the end of the row. -/
def append (e : Env α) (name : String) (a : α) : Env α :=
  { e with bindings := e.bindings ++ [(name, a)] }

/-- The slot in which a declaration of `name` ends up. -/
def declaredSlot (e : Env α) (name : String) : Nat :=
  (e.activeSlot? name).getD e.size

/-- Bind `name` in the active scope, in place of its binding there if it has one. -/
def declare (e : Env α) (name : String) (a : α) : Env α :=
  match e.activeSlot? name with
  | some slot => { e with bindings := e.bindings.set slot (name, a) }
  | none => e.append name a

/-! ## §3. Scopes. -/

/-- Open a scope. -/
def openScope (e : Env α) : Env α :=
  { e with marks := e.size :: e.marks }

/-- Drop the active scope with all of its bindings, if a scope is open. -/
def closeScope? (e : Env α) : Option (Env α) :=
  match e.marks with
  | [] => none
  | mark :: marks => some ⟨e.bindings.take mark, marks⟩

/-- Drop the active scope; without one, nothing changes. -/
def closeScope (e : Env α) : Env α :=
  e.closeScope?.getD e

/-- An environment of its own that sees every binding of `e`: its only scope starts
behind them. -/
def capture (e : Env α) : Env α :=
  ⟨e.bindings, [e.size]⟩

/-! ## §4. Laws. -/

/-- The last binding of a name is a binding of that name. -/
theorem getElem?_of_lastIndex? {name : String} {bs : List (String × α)} {i : Nat}
    (h : lastIndex? name bs = some i) : bs[i]?.map Prod.fst = some name := by
  induction bs generalizing i with
  | nil => simp [lastIndex?] at h
  | cons b bs ih =>
    unfold lastIndex? at h
    split at h
    · next j hj =>
      cases h
      simpa using ih hj
    · split at h
      · next hb =>
        cases h
        simp [hb]
      · simp at h

/-- A name has a last binding exactly if it is bound at all. -/
theorem lastIndex?_eq_none_iff {name : String} {bs : List (String × α)} :
    lastIndex? name bs = none ↔ name ∉ bs.map Prod.fst := by
  induction bs with
  | nil => simp [lastIndex?]
  | cons b bs ih =>
    unfold lastIndex?
    cases h : lastIndex? name bs with
    | some j =>
      have hmem : name ∈ bs.map Prod.fst := by
        by_cases hm : name ∈ bs.map Prod.fst
        · exact hm
        · rw [ih.2 hm] at h
          cases h
      simp only [reduceCtorEq, List.map_cons, List.mem_cons, false_iff]
      exact fun hn => hn (Or.inr hmem)
    | none =>
      have hmem := ih.1 h
      by_cases hb : b.1 = name
      · simp [hb]
      · have hb' : ¬ name = b.1 := fun e => hb e.symm
        simp only [hb, if_false, List.map_cons, List.mem_cons, true_iff, not_or]
        exact ⟨hb', hmem⟩

/-- Closing a scope undoes its opening. -/
@[simp] theorem closeScope?_openScope (e : Env α) : e.openScope.closeScope? = some e := by
  simp [openScope, closeScope?, size]

@[simp] theorem names_append (e : Env α) (name : String) (a : α) :
    (e.append name a).names = e.names ++ [name] := by
  simp [append, names]

@[simp] theorem names_capture (e : Env α) : e.capture.names = e.names := rfl

@[simp] theorem names_openScope (e : Env α) : e.openScope.names = e.names := rfl

/-- A declaration opens and closes no scope. -/
@[simp] theorem marks_declare (e : Env α) (name : String) (a : α) :
    (e.declare name a).marks = e.marks := by
  unfold declare
  split <;> rfl

end Env

end LoxLang
