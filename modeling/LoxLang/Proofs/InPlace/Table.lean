/-
  LoxLang.Proofs.InPlace.Table
  ────────────────────────────
  **Slots in a table.**  A resolved program has its slots in its tree.  They can be kept
  beside the tree as well: number the mentions of variables from left to right, and list
  their slots in that order.

    `tag`    — every mention has its number in the place of its slot
    `slots`  — the table: the slots, by the numbers of the mentions
    `fill`   — every mention has the slot that a table gives for its number

  Filling a tagged tree from its own table gives the tree back, wherever its part of the
  table stands (`fill_tagAll`).
-/
import LoxLang.Proofs.Attempt
import LoxLang.Proofs.Scope.Resolve

namespace LoxLang

/-- Slots by the numbers of mentions; none for a global. -/
abbrev SlotTable := List (Option Nat)

/-! ## §1. Trees and tables. -/

/-- The mention, with its number in the place of its slot. -/
def Ref.tag (number : Nat) (ref : Ref) : Ref :=
  { ref with slot := some number }

/-- The slot that a table has for a mention with its number. -/
def SlotTable.slot? (table : SlotTable) (ref : Ref) : Option Nat :=
  (ref.slot.bind (table[·]?)).join

/-- The mention, with the slot that the table has for its number. -/
def Ref.fill (table : SlotTable) (ref : Ref) : Ref :=
  { ref with slot := table.slot? ref }

mutual

/-- The slots of an expression, in the order of its mentions. -/
def Expr.slots : Expr → SlotTable
  | .literal _ => []
  | .binary _ _ left right => left.slots ++ right.slots
  | .group inner => inner.slots
  | .unary _ _ operand => operand.slots
  | .var ref => [ref.slot]
  | .assign target value => target.slot :: value.slots
  | .call _ callee arguments => callee.slots ++ Expr.slotsAll arguments

/-- The slots of several expressions. -/
def Expr.slotsAll : List Expr → SlotTable
  | [] => []
  | e :: es => e.slots ++ Expr.slotsAll es

end

mutual

/-- The expression, with its mentions numbered from `number` on. -/
def Expr.tag (number : Nat) : Expr → Expr
  | .literal value => .literal value
  | .binary op line left right =>
      .binary op line (left.tag number) (right.tag (number + left.slots.length))
  | .group inner => .group (inner.tag number)
  | .unary op line operand => .unary op line (operand.tag number)
  | .var ref => .var (ref.tag number)
  | .assign target value => .assign (target.tag number) (value.tag (number + 1))
  | .call line callee arguments =>
      .call line (callee.tag number) (Expr.tagAll (number + callee.slots.length) arguments)

/-- Several expressions, with their mentions numbered from `number` on. -/
def Expr.tagAll (number : Nat) : List Expr → List Expr
  | [] => []
  | e :: es => e.tag number :: Expr.tagAll (number + e.slots.length) es

end

mutual

/-- The expression, with slots from the table. -/
def Expr.fill (table : SlotTable) : Expr → Expr
  | .literal value => .literal value
  | .binary op line left right => .binary op line (left.fill table) (right.fill table)
  | .group inner => .group (inner.fill table)
  | .unary op line operand => .unary op line (operand.fill table)
  | .var ref => .var (ref.fill table)
  | .assign target value => .assign (target.fill table) (value.fill table)
  | .call line callee arguments => .call line (callee.fill table) (Expr.fillAll table arguments)

/-- Several expressions, with slots from the table. -/
def Expr.fillAll (table : SlotTable) : List Expr → List Expr
  | [] => []
  | e :: es => e.fill table :: Expr.fillAll table es

end

mutual

/-- The slots of a statement, in the order of its mentions. -/
def Stmt.slots : Stmt → SlotTable
  | .expr e => e.slots
  | .print es => Expr.slotsAll es
  | .ifThen condition thenBranch => condition.slots ++ thenBranch.slots
  | .ifElse condition thenBranch elseBranch =>
      condition.slots ++ (thenBranch.slots ++ elseBranch.slots)
  | .block body => Stmt.slotsAll body
  | .varDecl _ _ initial => initial.slots
  | .whileLoop condition body => condition.slots ++ body.slots
  | .funDecl _ _ _ body => Stmt.slotsAll body
  | .ret _ value => value.slots

/-- The slots of several statements. -/
def Stmt.slotsAll : List Stmt → SlotTable
  | [] => []
  | s :: ss => s.slots ++ Stmt.slotsAll ss

end

mutual

/-- The statement, with its mentions numbered from `number` on. -/
def Stmt.tag (number : Nat) : Stmt → Stmt
  | .expr e => .expr (e.tag number)
  | .print es => .print (Expr.tagAll number es)
  | .ifThen condition thenBranch =>
      .ifThen (condition.tag number) (thenBranch.tag (number + condition.slots.length))
  | .ifElse condition thenBranch elseBranch =>
      .ifElse (condition.tag number) (thenBranch.tag (number + condition.slots.length))
        (elseBranch.tag (number + condition.slots.length + thenBranch.slots.length))
  | .block body => .block (Stmt.tagAll number body)
  | .varDecl name line initial => .varDecl name line (initial.tag number)
  | .whileLoop condition body =>
      .whileLoop (condition.tag number) (body.tag (number + condition.slots.length))
  | .funDecl name line params body => .funDecl name line params (Stmt.tagAll number body)
  | .ret line value => .ret line (value.tag number)

/-- Several statements, with their mentions numbered from `number` on. -/
def Stmt.tagAll (number : Nat) : List Stmt → List Stmt
  | [] => []
  | s :: ss => s.tag number :: Stmt.tagAll (number + s.slots.length) ss

end

mutual

/-- The statement, with slots from the table. -/
def Stmt.fill (table : SlotTable) : Stmt → Stmt
  | .expr e => .expr (e.fill table)
  | .print es => .print (Expr.fillAll table es)
  | .ifThen condition thenBranch => .ifThen (condition.fill table) (thenBranch.fill table)
  | .ifElse condition thenBranch elseBranch =>
      .ifElse (condition.fill table) (thenBranch.fill table) (elseBranch.fill table)
  | .block body => .block (Stmt.fillAll table body)
  | .varDecl name line initial => .varDecl name line (initial.fill table)
  | .whileLoop condition body => .whileLoop (condition.fill table) (body.fill table)
  | .funDecl name line params body => .funDecl name line params (Stmt.fillAll table body)
  | .ret line value => .ret line (value.fill table)

/-- Several statements, with slots from the table. -/
def Stmt.fillAll (table : SlotTable) : List Stmt → List Stmt
  | [] => []
  | s :: ss => s.fill table :: Stmt.fillAll table ss

end

/-- The declared function, with slots from the table. -/
def FunDecl.fill (table : SlotTable) (f : FunDecl) : FunDecl :=
  ⟨f.name, f.line, f.params, Stmt.fillAll table f.body⟩

/-! ## §2. Filling undoes tagging. -/

/-- From number `number` on, the table has these slots. -/
def SlotTable.Has (table : SlotTable) (number : Nat) (slots : SlotTable) : Prop :=
  slots <+: table.drop number

namespace SlotTable

variable {table slots more : SlotTable} {number : Nat}

/-- A table has its own slots from its beginning on. -/
theorem has_self (table : SlotTable) : table.Has 0 table :=
  List.prefix_rfl

/-- A row of slots begins with the first of its parts. -/
theorem Has.left (h : table.Has number (slots ++ more)) : table.Has number slots :=
  (List.prefix_append slots more).trans h

/-- Behind the first part of a row of slots stands the second. -/
theorem Has.right (h : table.Has number (slots ++ more)) :
    table.Has (number + slots.length) more := by
  obtain ⟨rest, hrest⟩ := h
  refine ⟨rest, ?_⟩
  rw [← List.drop_drop, ← hrest, List.append_assoc, List.drop_left]

end SlotTable

/-- A mention finds its slot under the number that it was given. -/
theorem Ref.fill_tag {table : SlotTable} {number : Nat} {ref : Ref}
    (h : table.Has number [ref.slot]) : (ref.tag number).fill table = ref := by
  obtain ⟨rest, hrest⟩ := h
  have hslot : table[number]? = some ref.slot := by
    rw [← List.head?_drop, ← hrest]
    rfl
  show { ref with slot := (table[number]?).join } = ref
  rw [hslot]
  rfl

mutual

/-- An expression finds its slots if the table has them from its number on. -/
theorem Expr.fill_tag {table : SlotTable} : ∀ {number : Nat} (e : Expr),
    table.Has number e.slots → (e.tag number).fill table = e
  | _, .literal value, _ => rfl
  | _, .binary op line left right, h => by
    show Expr.binary op line _ _ = _
    rw [Expr.fill_tag left h.left, Expr.fill_tag right h.right]
  | _, .group inner, h => by
    show Expr.group _ = _
    rw [Expr.fill_tag inner h]
  | _, .unary op line operand, h => by
    show Expr.unary op line _ = _
    rw [Expr.fill_tag operand h]
  | _, .var ref, h => by
    show Expr.var _ = _
    rw [Ref.fill_tag h]
  | _, .assign target value, h => by
    have h : table.Has _ ([target.slot] ++ value.slots) := h
    have hvalue := Expr.fill_tag value h.right
    show Expr.assign _ _ = _
    rw [Ref.fill_tag h.left]
    exact congrArg (Expr.assign target) hvalue
  | _, .call line callee arguments, h => by
    show Expr.call line _ _ = _
    rw [Expr.fill_tag callee h.left, Expr.fill_tagAll arguments h.right]

/-- A row of expressions shares a stretch of the table, each behind the one before. -/
theorem Expr.fill_tagAll {table : SlotTable} : ∀ {number : Nat} (es : List Expr),
    table.Has number (Expr.slotsAll es) → Expr.fillAll table (Expr.tagAll number es) = es
  | _, [], _ => rfl
  | _, e :: es, h => by
    show _ :: _ = _
    rw [Expr.fill_tag e h.left, Expr.fill_tagAll es h.right]

end

mutual

/-- A statement finds its slots, those of its nested statements included. -/
theorem Stmt.fill_tag {table : SlotTable} : ∀ {number : Nat} (s : Stmt),
    table.Has number s.slots → (s.tag number).fill table = s
  | _, .expr e, h => by
    show Stmt.expr _ = _
    rw [Expr.fill_tag e h]
  | _, .print es, h => by
    show Stmt.print _ = _
    rw [Expr.fill_tagAll es h]
  | _, .ifThen condition thenBranch, h => by
    show Stmt.ifThen _ _ = _
    rw [Expr.fill_tag condition h.left, Stmt.fill_tag thenBranch h.right]
  | _, .ifElse condition thenBranch elseBranch, h => by
    show Stmt.ifElse _ _ _ = _
    rw [Expr.fill_tag condition h.left, Stmt.fill_tag thenBranch h.right.left,
      Stmt.fill_tag elseBranch h.right.right]
  | _, .block body, h => by
    show Stmt.block _ = _
    rw [Stmt.fill_tagAll body h]
  | _, .varDecl name line initial, h => by
    show Stmt.varDecl name line _ = _
    rw [Expr.fill_tag initial h]
  | _, .whileLoop condition body, h => by
    show Stmt.whileLoop _ _ = _
    rw [Expr.fill_tag condition h.left, Stmt.fill_tag body h.right]
  | _, .funDecl name line params body, h => by
    show Stmt.funDecl name line params _ = _
    rw [Stmt.fill_tagAll body h]
  | _, .ret line value, h => by
    show Stmt.ret line _ = _
    rw [Expr.fill_tag value h]

/-- **A tree is its tagged tree, filled from its table.** -/
theorem Stmt.fill_tagAll {table : SlotTable} : ∀ {number : Nat} (body : List Stmt),
    table.Has number (Stmt.slotsAll body) → Stmt.fillAll table (Stmt.tagAll number body) = body
  | _, [], _ => rfl
  | _, s :: body, h => by
    show _ :: _ = _
    rw [Stmt.fill_tag s h.left, Stmt.fill_tagAll body h.right]

end

theorem Expr.fillAll_eq_map (table : SlotTable) (es : List Expr) :
    Expr.fillAll table es = es.map (Expr.fill table) := by
  induction es with
  | nil => rfl
  | cons e es ih =>
    show e.fill table :: Expr.fillAll table es = _
    rw [ih]
    rfl

/-! ## §3. Tidy programs. -/

/-- Numbers in place of slots leave it open what a statement declares. -/
theorem Stmt.declared?_tag (number : Nat) (s : Stmt) : (s.tag number).declared? = s.declared? := by
  cases s <;> rfl

/-- A row is tidy if its statements are, whatever their numbers. -/
theorem Stmt.tidy_tagAll {body : List Stmt} (h : ∀ s ∈ body, ∀ number, (s.tag number).Tidy) :
    ∀ number, ∀ s ∈ Stmt.tagAll number body, s.Tidy := by
  induction body with
  | nil =>
    intro number s hs
    cases hs
  | cons s body ih =>
    intro number t ht
    rcases List.mem_cons.1 ht with rfl | ht
    · exact h s List.mem_cons_self number
    · exact ih (fun u hu => h u (List.mem_cons_of_mem s hu)) _ t ht

/-- Numbers in place of slots keep a statement tidy. -/
theorem Stmt.Tidy.tag {s : Stmt} (h : s.Tidy) : ∀ number, (s.tag number).Tidy := by
  induction h with
  | expr e => exact fun _ => .expr _
  | print es => exact fun _ => .print _
  | ifThen c _ hplain ih =>
    intro number
    exact .ifThen _ (ih _) (by rw [Stmt.declared?_tag, hplain])
  | ifElse c _ hplain _ hplain' ih ih' =>
    intro number
    exact .ifElse _ (ih _) (by rw [Stmt.declared?_tag, hplain]) (ih' _)
      (by rw [Stmt.declared?_tag, hplain'])
  | block _ ih => exact fun number => .block (Stmt.tidy_tagAll ih number)
  | varDecl name line initial => exact fun _ => .varDecl _ _ _
  | whileLoop c _ hplain ih =>
    intro number
    exact .whileLoop _ (ih _) (by rw [Stmt.declared?_tag, hplain])
  | funDecl name line params _ ih => exact fun number => .funDecl _ _ _ (Stmt.tidy_tagAll ih number)
  | ret line value => exact fun _ => .ret _ _

/-- A resolved statement declares what the statement declares. -/
theorem declared?_of_resolve {s s' : Stmt} {r r' : Resolver} (h : s.resolve r = (.ok s', r')) :
    s'.declared? = s.declared? := by
  cases s with
  | expr e => cases h; rfl
  | print es => cases h; rfl
  | ifThen c t => obtain ⟨t', -, rfl⟩ := resolve_ifThen_ok h; rfl
  | ifElse c t u => obtain ⟨t', u', r₁, -, -, rfl⟩ := resolve_ifElse_ok h; rfl
  | block body => obtain ⟨body', inner, -, -, rfl⟩ := resolve_block_ok h; rfl
  | varDecl name line initial => cases h; rfl
  | whileLoop c t => obtain ⟨t', -, rfl⟩ := resolve_whileLoop_ok h; rfl
  | funDecl name line params body => obtain ⟨body', inner, -, -, rfl⟩ := resolve_funDecl_ok h; rfl
  | ret line value => obtain ⟨-, rfl⟩ := resolve_ret_ok h; rfl

/-- A row that was resolved is tidy if its statements are. -/
theorem tidy_of_resolveAll {body : List Stmt}
    (h : ∀ s ∈ body, ∀ {r s' r'}, s.resolve r = (.ok s', r') → s'.Tidy) :
    ∀ {r body' r'}, Stmt.resolveAll body r = (.ok body', r') → ∀ s ∈ body', s.Tidy := by
  induction body with
  | nil =>
    intro r body' r' hrun s hs
    rw [(resolveAll_nil_ok hrun).1] at hs
    cases hs
  | cons s body ih =>
    intro r body' r' hrun t ht
    obtain ⟨s', rest, r₁, hs, hrest, rfl⟩ := resolveAll_cons_ok hrun
    rcases List.mem_cons.1 ht with rfl | ht
    · exact h s List.mem_cons_self hs
    · exact ih (fun u hu => h u (List.mem_cons_of_mem s hu)) hrest t ht

/-- A tidy statement is tidy with its slots, too. -/
theorem tidy_of_resolve {s : Stmt} (h : s.Tidy) :
    ∀ {r s' r'}, s.resolve r = (.ok s', r') → s'.Tidy := by
  induction h with
  | expr e =>
    intro r s' r' hrun
    cases hrun
    exact .expr _
  | print es =>
    intro r s' r' hrun
    cases hrun
    exact .print _
  | ifThen c _ hplain ih =>
    intro r s' r' hrun
    obtain ⟨t', ht, rfl⟩ := resolve_ifThen_ok hrun
    exact .ifThen _ (ih ht) ((declared?_of_resolve ht).trans hplain)
  | ifElse c _ hplain _ hplain' ih ih' =>
    intro r s' r' hrun
    obtain ⟨t', u', r₁, ht, hu, rfl⟩ := resolve_ifElse_ok hrun
    exact .ifElse _ (ih ht) ((declared?_of_resolve ht).trans hplain) (ih' hu)
      ((declared?_of_resolve hu).trans hplain')
  | block _ ih =>
    intro r s' r' hrun
    obtain ⟨body', inner, hbody, -, rfl⟩ := resolve_block_ok hrun
    exact .block (tidy_of_resolveAll ih hbody)
  | varDecl name line initial =>
    intro r s' r' hrun
    cases hrun
    exact .varDecl _ _ _
  | whileLoop c _ hplain ih =>
    intro r s' r' hrun
    obtain ⟨t', ht, rfl⟩ := resolve_whileLoop_ok hrun
    exact .whileLoop _ (ih ht) ((declared?_of_resolve ht).trans hplain)
  | funDecl name line params _ ih =>
    intro r s' r' hrun
    obtain ⟨body', inner, hbody, -, rfl⟩ := resolve_funDecl_ok hrun
    exact .funDecl _ _ _ (tidy_of_resolveAll ih hbody)
  | ret line value =>
    intro r s' r' hrun
    obtain ⟨-, rfl⟩ := resolve_ret_ok hrun
    exact .ret _ _

/-- The program of an accepted input is tidy. -/
theorem AcceptedInput.tidy_program (i : AcceptedInput) : ∀ s ∈ i.program, s.Tidy := by
  obtain ⟨r, hprogram⟩ := Attempt.exists_eq_ok (x := Stmt.resolveAll i.body) i.resolved
  exact tidy_of_resolveAll (fun s hs => tidy_of_resolve (i.tidy s hs)) hprogram

/-- What the evaluator in place is given is tidy. -/
theorem AcceptedInput.tidy_tagAll (i : AcceptedInput) (number : Nat) :
    ∀ s ∈ Stmt.tagAll number i.program, s.Tidy :=
  Stmt.tidy_tagAll (fun s hs => (i.tidy_program s hs).tag) number

end LoxLang
