/-
  LoxLang.Proofs.Scope.Env
  ────────────────────────
  **Rows of bindings.**  Three views of an environment, each with a law for every
  operation on environments:

    `Matches`  — two environments have the same names in the same slots, and the
                 same scopes; slots are the same in both
    `Grown`    — an environment has changed in its active scope only; closing the
                 scope undoes the change
    `find?`    — an environment as a map from names to what they are bound to; a
                 declaration is an update of the map
-/
import LoxLang.Machine.Heap

namespace LoxLang

namespace Env

variable {α β : Type}

/-! ## §1. Slots depend on names alone. -/

/-- Where a name comes last depends on the names alone. -/
theorem lastIndex?_congr (name : String) :
    ∀ {bs : List (String × α)} {cs : List (String × β)}, bs.map Prod.fst = cs.map Prod.fst →
      lastIndex? name bs = lastIndex? name cs := by
  intro bs
  induction bs with
  | nil =>
    intro cs h
    cases cs with
    | nil => rfl
    | cons c cs => cases h
  | cons b bs ih =>
    intro cs h
    cases cs with
    | nil => cases h
    | cons c cs =>
      rw [List.map_cons, List.map_cons, List.cons.injEq] at h
      unfold lastIndex?
      rw [ih h.2, h.1]

/-- A slot depends on the names alone. -/
theorem slotOf?_congr {e : Env α} {t : Env β} (h : e.names = t.names) (name : String) :
    e.slotOf? name = t.slotOf? name :=
  lastIndex?_congr name h

theorem size_congr {e : Env α} {t : Env β} (h : e.names = t.names) : e.size = t.size := by
  have hlen := congrArg List.length h
  unfold names at hlen
  rw [List.length_map, List.length_map] at hlen
  exact hlen

/-- A name has a slot within the row. -/
theorem lt_size_of_slotOf? {e : Env α} {name : String} {slot : Nat}
    (h : e.slotOf? name = some slot) : slot < e.size := by
  have hname := getElem?_of_lastIndex? h
  by_cases hlt : slot < e.bindings.length
  · exact hlt
  · rw [List.getElem?_eq_none (by omega)] at hname
    cases hname

/-- The slot of a name holds something. -/
theorem exists_get?_of_slotOf? {e : Env α} {name : String} {slot : Nat}
    (h : e.slotOf? name = some slot) : ∃ a, e.get? slot = some a := by
  have hlt : slot < e.bindings.length := lt_size_of_slotOf? h
  unfold get?
  rw [List.getElem?_eq_getElem hlt]
  exact ⟨_, rfl⟩

/-- The last binding of a name behind some others is the last of all. -/
theorem lastIndex?_of_drop {name : String} :
    ∀ {k i : Nat} {bs : List (String × α)}, lastIndex? name (bs.drop k) = some i →
      lastIndex? name bs = some (k + i) := by
  intro k
  induction k with
  | zero =>
    intro i bs h
    rw [Nat.zero_add]
    exact h
  | succ k ih =>
    intro i bs h
    cases bs with
    | nil => cases h
    | cons b bs =>
      have hbs := ih (show lastIndex? name (bs.drop k) = some i from h)
      unfold lastIndex?
      rw [hbs]
      show some (k + i + 1) = some (k + 1 + i)
      rw [Nat.add_right_comm]

/-- The slot of a name in the active scope is its slot. -/
theorem slotOf?_of_activeSlot? {e : Env α} {name : String} {slot : Nat}
    (h : e.activeSlot? name = some slot) :
    e.slotOf? name = some slot ∧ e.activeStart ≤ slot := by
  unfold activeSlot? at h
  obtain ⟨i, hi, rfl⟩ := Option.map_eq_some_iff.1 h
  exact ⟨lastIndex?_of_drop hi, Nat.le_add_right _ _⟩

/-! ## §2. Environments of the same layout. -/

/-- The same names in the same slots, and the same scopes. -/
def Matches (e : Env α) (t : Env β) : Prop :=
  e.names = t.names ∧ e.marks = t.marks

/-- Empty environments have the same layout. -/
theorem matches_empty : Matches (.empty : Env α) (.empty : Env β) :=
  ⟨rfl, rfl⟩

/-- The slot of a name in the active scope depends on the layout. -/
theorem Matches.activeSlot? {e : Env α} {t : Env β} (h : e.Matches t) (name : String) :
    e.activeSlot? name = t.activeSlot? name := by
  have hstart : e.activeStart = t.activeStart := by
    unfold activeStart
    rw [h.2]
  -- the active scopes start at the same slot and have the same names
  have hdrop : (e.bindings.drop e.activeStart).map Prod.fst
      = (t.bindings.drop t.activeStart).map Prod.fst := by
    rw [List.map_drop, List.map_drop, hstart]
    exact congrArg (List.drop _) h.1
  unfold Env.activeSlot?
  rw [lastIndex?_congr name hdrop, hstart]

/-- The names after a declaration. -/
theorem names_declare (e : Env α) (name : String) (a : α) :
    (e.declare name a).names = match e.activeSlot? name with
      | some slot => e.names.set slot name
      | none => e.names ++ [name] := by
  unfold declare
  cases e.activeSlot? name with
  | none => exact names_append e name a
  | some slot =>
    show (e.bindings.set slot (name, a)).map Prod.fst = _
    rw [List.map_set]
    rfl

/-- A declaration in place leaves the names as they are. -/
theorem names_declare_of_activeSlot? {e : Env α} {name : String} {slot : Nat}
    (h : e.activeSlot? name = some slot) (a : α) : (e.declare name a).names = e.names := by
  obtain ⟨hslot, -⟩ := slotOf?_of_activeSlot? h
  have hget : e.names[slot]? = some name := by
    unfold names
    rw [List.getElem?_map]
    exact getElem?_of_lastIndex? hslot
  obtain ⟨hlt, hname⟩ := List.getElem?_eq_some_iff.1 hget
  rw [names_declare, h]
  show e.names.set slot name = e.names
  rw [← hname, List.set_getElem_self]

/-- The same declaration keeps layouts the same. -/
theorem Matches.declare {e : Env α} {t : Env β} (h : e.Matches t) (name : String) (a : α)
    (b : β) : (e.declare name a).Matches (t.declare name b) := by
  refine ⟨?_, ?_⟩
  · rw [names_declare, names_declare, h.activeSlot? name, h.1]
  · rw [marks_declare, marks_declare, h.2]

/-- A scope opened in both keeps layouts the same. -/
theorem Matches.openScope {e : Env α} {t : Env β} (h : e.Matches t) :
    e.openScope.Matches t.openScope := by
  refine ⟨h.1, ?_⟩
  show e.size :: e.marks = t.size :: t.marks
  rw [size_congr h.1, h.2]

/-- What is captured matches if the names do. -/
theorem matches_capture {e : Env α} {t : Env β} (h : e.names = t.names) :
    e.capture.Matches t.capture := by
  refine ⟨h, ?_⟩
  show [e.size] = [t.size]
  rw [size_congr h]

/-- Fresh cells take the slots of their names. -/
theorem Matches.declareCells {κ : Type} (xs : List (String × Value κ)) :
    ∀ {e : Env Addr} {t : Env Unit} (h : Heap κ), e.Matches t →
      (e.declareCells h xs).1.Matches
        ((xs.map Prod.fst).foldl (fun t name => t.declare name ()) t) := by
  induction xs with
  | nil =>
    intro e t h hmatches
    exact hmatches
  | cons x xs ih =>
    intro e t h hmatches
    exact ih (h.alloc x.2) (hmatches.declare x.1 h.next ())

/-! ## §3. Environments that have changed in the active scope. -/

/-- The same scopes are open, and below the active one nothing has changed. -/
def Grown (e e' : Env α) : Prop :=
  e'.marks = e.marks ∧ e.bindings.take e.activeStart <+: e'.bindings

/-- Nothing has changed at all. -/
theorem Grown.refl (e : Env α) : e.Grown e :=
  ⟨rfl, List.take_prefix _ _⟩

/-- Changes in the active scope add up. -/
theorem Grown.trans {e e' e'' : Env α} (h : e.Grown e') (h' : e'.Grown e'') : e.Grown e'' := by
  -- the active scope starts where it did
  have hstart : e'.activeStart = e.activeStart := by
    unfold activeStart
    rw [h.1]
  refine ⟨h'.1.trans h.1, ?_⟩
  have hbelow : e.bindings.take e.activeStart <+: e'.bindings.take e'.activeStart := by
    rw [hstart]
    exact List.prefix_take_iff.2 ⟨h.2, List.length_take_le _ _⟩
  exact hbelow.trans h'.2

/-- A declaration leaves all outer scopes alone. -/
theorem grown_declare (e : Env α) (name : String) (a : α) : e.Grown (e.declare name a) := by
  refine ⟨marks_declare e name a, ?_⟩
  unfold declare
  split
  · next slot hslot =>
    -- the slot is in the active scope, so that nothing below it changes
    obtain ⟨-, hle⟩ := slotOf?_of_activeSlot? hslot
    show _ <+: e.bindings.set slot (name, a)
    rw [← List.take_set_of_le hle (a := (name, a))]
    exact List.take_prefix _ _
  · exact (List.take_prefix _ _).trans (List.prefix_append _ _)

/-- Closing a scope undoes what has changed since it was opened. -/
theorem Grown.closeScope? {e e' : Env α} (h : e.openScope.Grown e') :
    e'.closeScope? = some e := by
  obtain ⟨hmarks, hbelow⟩ := h
  have htake : e'.bindings.take e.size = e.bindings := by
    -- below the new scope is all that there was
    have hprefix : e.bindings <+: e'.bindings := by
      have hall : e.openScope.bindings.take e.openScope.activeStart = e.bindings :=
        List.take_length
      rw [hall] at hbelow
      exact hbelow
    exact (List.prefix_iff_eq_take.1 hprefix).symm
  unfold Env.closeScope?
  rw [hmarks]
  show some (⟨e'.bindings.take e.size, e.marks⟩ : Env α) = some e
  rw [htake]

/-! ## §4. Environments as maps. -/

/-- An opened scope hides nothing. -/
theorem find?_openScope (e : Env α) : e.openScope.find? = e.find? := rfl

theorem find?_capture (e : Env α) : e.capture.find? = e.find? := rfl

/-- A name that is added at the end comes last there. -/
theorem lastIndex?_append (n name : String) (a : α) (bs : List (String × α)) :
    lastIndex? n (bs ++ [(name, a)]) = if n = name then some bs.length else lastIndex? n bs := by
  induction bs with
  | nil =>
    by_cases hn : n = name
    · simp [lastIndex?, hn]
    · have hn' : ¬ name = n := fun h => hn h.symm
      simp [lastIndex?, hn, hn']
  | cons b bs ih =>
    rw [List.cons_append]
    unfold lastIndex?
    rw [ih]
    by_cases hn : n = name
    · simp [hn]
    · simp [hn]

/-- A binding at the end is the one that its name refers to. -/
theorem find?_append (e : Env α) (n name : String) (a : α) :
    (e.append name a).find? n = if n = name then some a else e.find? n := by
  show ((lastIndex? n (e.bindings ++ [(name, a)])).bind fun slot =>
    (e.bindings ++ [(name, a)])[slot]?.map Prod.snd) = _
  rw [lastIndex?_append]
  by_cases hn : n = name
  · rw [if_pos hn, if_pos hn]
    simp
  · rw [if_neg hn, if_neg hn]
    show (e.slotOf? n).bind _ = (e.slotOf? n).bind _
    cases hslot : e.slotOf? n with
    | none => rfl
    | some slot =>
      have hlt := lt_size_of_slotOf? hslot
      show (e.bindings ++ [(name, a)])[slot]?.map Prod.snd = e.bindings[slot]?.map Prod.snd
      rw [List.getElem?_append_left hlt]

/-- **A declaration updates the map.**  In place or not, the name means the new binding
from now on, and no other name is affected. -/
theorem find?_declare (e : Env α) (n name : String) (a : α) :
    (e.declare name a).find? n = if n = name then some a else e.find? n := by
  cases hactive : e.activeSlot? name with
  | none =>
    have hdeclare : e.declare name a = e.append name a := by
      unfold declare
      rw [hactive]
    rw [hdeclare]
    exact find?_append e n name a
  | some slot =>
    obtain ⟨hslot, -⟩ := slotOf?_of_activeSlot? hactive
    have hlt := lt_size_of_slotOf? hslot
    -- the names stay as they are, and with them every slot
    have hslots : ∀ n, (e.declare name a).slotOf? n = e.slotOf? n := by
      intro n
      exact slotOf?_congr (names_declare_of_activeSlot? hactive a) n
    have hbindings : (e.declare name a).bindings = e.bindings.set slot (name, a) := by
      unfold declare
      rw [hactive]
    unfold find? get?
    rw [hslots, hbindings]
    by_cases hn : n = name
    · rw [hn, hslot, if_pos rfl]
      show ((e.bindings.set slot (name, a))[slot]?).map Prod.snd = some a
      rw [List.getElem?_set_self hlt]
      rfl
    · rw [if_neg hn]
      cases hother : e.slotOf? n with
      | none => rfl
      | some slot' =>
        -- another name has another slot
        have hne : slot ≠ slot' := by
          intro heq
          have h₁ := getElem?_of_lastIndex? hslot
          have h₂ := getElem?_of_lastIndex? hother
          rw [heq, h₂] at h₁
          exact hn (Option.some.inj h₁)
        show ((e.bindings.set slot (name, a))[slot']?).map Prod.snd = _
        rw [List.getElem?_set_ne hne]
        rfl

end Env

end LoxLang
