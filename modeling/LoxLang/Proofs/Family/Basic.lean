/-
  LoxLang.Proofs.Family.Basic
  ───────────────────────────
  **Families of environments.**  A family starts with one environment that has nothing in it.
  Its members share their cells and nothing else; a capture of one member is a member more.

  A step works on one member.  Of all that an operation can do, two things matter here: it may
  bind a position, with a new cell, and it may write through a position, into the cell that is
  there (`Env.Effect`).
-/
import LoxLang.Proofs.Scope.Stack

namespace LoxLang

variable {κ : Type}

/-! ## §1. What an operation binds, and what it writes. -/

namespace Env

/-- There is something in a slot exactly if the row is longer. -/
theorem exists_get?_iff {e : Env Addr} {slot : Nat} :
    (∃ a, e.get? slot = some a) ↔ slot < e.size := by
  rw [← Option.ne_none_iff_exists', Ne, get?_eq_none_iff, Nat.not_le]

/-- A binding behind all others leaves them in their slots. -/
theorem get?_append (e : Env Addr) (name : String) (a : Addr) (i : Nat) :
    (e.append name a).get? i = if i = e.size then some a else e.get? i := by
  show (e.bindings ++ [(name, a)])[i]?.map Prod.snd = _
  rw [List.getElem?_append]
  by_cases hlt : i < e.bindings.length
  · have hne : ¬ i = e.size := Nat.ne_of_lt hlt
    rw [if_pos hlt, if_neg hne]
    rfl
  · rw [if_neg hlt, List.getElem?_singleton]
    have hpast : e.get? i = none := get?_eq_none_iff.2 (Nat.not_lt.1 hlt)
    by_cases heq : i = e.size
    · have hzero : i - e.bindings.length = 0 := by
        rw [heq]
        exact Nat.sub_self _
      rw [if_pos hzero, if_pos heq]
      rfl
    · have hpos : ¬ i - e.bindings.length = 0 := by
        unfold size at heq
        omega
      rw [if_neg hpos, if_neg heq, hpast]
      rfl

/-- A declaration puts its binding into the declared slot, and leaves the others alone. -/
theorem get?_declare (e : Env Addr) (name : String) (a : Addr) (i : Nat) :
    (e.declare name a).get? i = if i = e.declaredSlot name then some a else e.get? i := by
  unfold declare declaredSlot
  cases hactive : e.activeSlot? name with
  | none => exact get?_append e name a i
  | some slot =>
    have hlt : slot < e.bindings.length := lt_size_of_slotOf? (slotOf?_of_activeSlot? hactive).1
    show (e.bindings.set slot (name, a))[i]?.map Prod.snd = if i = slot then some a else e.get? i
    by_cases heq : i = slot
    · rw [heq, List.getElem?_set_self hlt, if_pos rfl]
      rfl
    · rw [List.getElem?_set_ne (Ne.symm heq), if_neg heq]
      rfl

/-- The slot that an operation binds anew, and the value that it gives there: that of a
definition, or of an assignment to a name that has no binding yet. -/
def Op.binds? (e : Env Addr) : Op κ → Option (Nat × Value κ)
  | .define name v => some (e.declaredSlot name, v)
  | .set name v =>
      match e.slotOf? name with
      | some _ => none
      | none => some (e.size, v)
  | _ => none

/-- The slot through which an operation writes, and the value that it writes. -/
def Op.writes? (e : Env Addr) : Op κ → Option (Nat × Value κ)
  | .set name v => (e.slotOf? name).map (·, v)
  | .setSlot slot v => if slot < e.size then some (slot, v) else none
  | _ => none

/-- What an operation does to its environment and to the cells. -/
inductive Effect (e : Env Addr) (h : Heap κ) (op : Op κ) (e' : Env Addr) : Heap κ → Prop
  /-- It binds a slot, with a new cell. -/
  | bound {slot : Nat} {v : Value κ} (binds : op.binds? e = some (slot, v))
      (writes : op.writes? e = none)
      (cells : ∀ i, e'.get? i = if i = slot then some h.next else e.get? i) :
      Effect e h op e' (h.alloc v)
  /-- It writes to the cell in a slot. -/
  | written {slot : Nat} {v : Value κ} {a : Addr} (binds : op.binds? e = none)
      (writes : op.writes? e = some (slot, v)) (cell : e.get? slot = some a) (same : e' = e) :
      Effect e h op e' (h.write a v)
  /-- It leaves the cells alone; slots may be dropped. -/
  | plain (binds : op.binds? e = none) (writes : op.writes? e = none)
      (cells : ∀ i < e'.size, e'.get? i = e.get? i) :
      Effect e h op e' h

/-- **An operation binds a slot, or writes through one, or leaves the cells alone.** -/
theorem effect_step (e : Env Addr) (h : Heap κ) (op : Op κ) :
    Effect e h op (step (e, h) op).2.1 (step (e, h) op).2.2 := by
  cases op with
  | define name v => exact .bound rfl rfl (get?_declare e name h.next)
  | set name v =>
    cases hslot : e.slotOf? name with
    | none =>
      have hfind : e.find? name = none := by
        unfold find?
        rw [hslot]
        rfl
      have hstep : step (e, h) (.set name v) = (.done, e.append name h.next, h.alloc v) := by
        simp only [step, assignOrAppend, hfind]
      rw [hstep]
      refine .bound ?_ ?_ (get?_append e name h.next)
      · simp only [Op.binds?, hslot]
      · simp only [Op.writes?, hslot, Option.map_none]
    | some slot =>
      obtain ⟨a, ha⟩ := exists_get?_of_slotOf? hslot
      have hfind : e.find? name = some a := by
        unfold find?
        rw [hslot]
        exact ha
      have hstep : step (e, h) (.set name v) = (.done, e, h.write a v) := by
        simp only [step, assignOrAppend, hfind]
      rw [hstep]
      refine .written ?_ ?_ ha rfl
      · simp only [Op.binds?, hslot]
      · simp only [Op.writes?, hslot, Option.map_some]
  | get name => exact .plain rfl rfl fun _ _ => rfl
  | slotOf name => exact .plain rfl rfl fun _ _ => rfl
  | getSlot slot =>
    have hstep : (step (e, h) (.getSlot slot)).2 = (e, h) := by
      simp only [step, withCell]
      cases e.get? slot with
      | none => rfl
      | some a => rfl
    rw [hstep]
    exact .plain rfl rfl fun _ _ => rfl
  | setSlot slot v =>
    by_cases hlt : slot < e.size
    · obtain ⟨a, ha⟩ := exists_get?_iff.2 hlt
      have hstep : (step (e, h) (.setSlot slot v)).2 = (e, h.write a v) := by
        simp only [step, withCell, ha]
      rw [hstep]
      exact .written rfl (if_pos hlt) ha rfl
    · rw [step_of_misses (.setSlot (Nat.not_lt.1 hlt)) h]
      exact .plain rfl (if_neg hlt) fun _ _ => rfl
  | push => exact .plain rfl rfl fun _ _ => rfl
  | pop =>
    unfold step
    dsimp only
    cases hclose : e.closeScope? with
    | none => exact .plain rfl rfl fun _ _ => rfl
    | some e' =>
      refine .plain rfl rfl fun i hi => ?_
      unfold closeScope? at hclose
      split at hclose
      · cases hclose
      · next mark marks _ =>
        cases hclose
        -- what is left of the row stands where it stood
        have hlt : i < mark := by
          have hlen : i < (e.bindings.take mark).length := hi
          rw [List.length_take] at hlen
          omega
        show (e.bindings.take mark)[i]?.map Prod.snd = e.bindings[i]?.map Prod.snd
        rw [List.getElem?_take_of_lt hlt]

end Env

/-! ## §2. Families. -/

/-- Environments that share their cells. -/
structure Family (κ : Type) where
  members : List (Env Addr)
  heap : Heap κ

/-- A place for a variable: a slot of a member of the family. -/
structure Position where
  member : Nat
  slot : Nat
  deriving DecidableEq

namespace Family

/-- One empty environment. -/
def start (heap : Heap κ) : Family κ := ⟨[.empty], heap⟩

/-- A step of a family. -/
inductive Step (κ : Type) where
  /-- An operation on a member. -/
  | op (member : Nat) (op : Env.Op κ)
  /-- A capture of a member, which is the last of the family. -/
  | capture (member : Nat)

/-- The member on which a step works. -/
def Step.member : Step κ → Nat
  | .op i _ => i
  | .capture i => i

variable (F : Family κ)

/-- Take a step; where there is no such member, nothing happens. -/
def step : Step κ → Family κ
  | .op i op =>
      match F.members[i]? with
      | some e =>
          let (e, heap) := (Env.step (e, F.heap) op).2
          ⟨F.members.set i e, heap⟩
      | none => F
  | .capture i =>
      match F.members[i]? with
      | some e => { F with members := F.members ++ [e.capture] }
      | none => F

/-- The cell in a position. -/
def cell? (p : Position) : Option Addr :=
  F.members[p.member]?.bind (·.get? p.slot)

/-- The value in a position. -/
def value? (p : Position) : Option (Value κ) :=
  (F.cell? p).map F.heap.read

/-- The position that a step binds anew, and the value that it gives there. -/
def binds? : Step κ → Option (Position × Value κ)
  | .op i op => (F.members[i]?.bind (Env.Op.binds? · op)).map fun (slot, v) => (⟨i, slot⟩, v)
  | .capture _ => none

/-- The position through which a step writes, and the value that it writes. -/
def writes? : Step κ → Option (Position × Value κ)
  | .op i op => (F.members[i]?.bind (Env.Op.writes? · op)).map fun (slot, v) => (⟨i, slot⟩, v)
  | .capture _ => none

/-! ## §3. What a step does. -/

/-- What a step does to a family. -/
inductive Effect (s : Step κ) (F' : Family κ) : Prop
  /-- It binds a position, with a new cell. -/
  | bound {p : Position} {v : Value κ} (binds : F.binds? s = some (p, v))
      (writes : F.writes? s = none) (heap : F'.heap = F.heap.alloc v)
      (cells : ∀ q, F'.cell? q = if q = p then some F.heap.next else F.cell? q)
  /-- It writes to the cell in a position. -/
  | written {p : Position} {v : Value κ} {a : Addr} (binds : F.binds? s = none)
      (writes : F.writes? s = some (p, v)) (cell : F.cell? p = some a)
      (heap : F'.heap = F.heap.write a v) (cells : ∀ q, F'.cell? q = F.cell? q)
  /-- It leaves the cells alone; positions may be dropped. -/
  | plain (binds : F.binds? s = none) (writes : F.writes? s = none) (capture : ∀ i, s ≠ .capture i)
      (heap : F'.heap = F.heap) (cells : ∀ q a, F'.cell? q = some a → F.cell? q = some a)
  /-- It makes one more member, whose positions have the cells of those it was made from. -/
  | captured {i : Nat} (capture : s = .capture i) (heap : F'.heap = F.heap)
      (old : ∀ q, q.member ≠ F.members.length → F'.cell? q = F.cell? q)
      (new : ∀ slot, F'.cell? ⟨F.members.length, slot⟩ = F.cell? ⟨i, slot⟩)

variable {F}

theorem cell?_eq_none_of_le {q : Position} (h : F.members.length ≤ q.member) :
    F.cell? q = none := by
  unfold cell?
  rw [List.getElem?_eq_none h]
  rfl

/-- The cells of a family after a change to one member. -/
theorem cell?_set {i : Nat} {e : Env Addr} (hi : F.members[i]? = some e) (e' : Env Addr)
    (heap : Heap κ) (q : Position) :
    cell? ⟨F.members.set i e', heap⟩ q = if q.member = i then e'.get? q.slot else F.cell? q := by
  have hlt : i < F.members.length := (List.getElem?_eq_some_iff.1 hi).1
  unfold cell?
  dsimp only
  by_cases heq : q.member = i
  · rw [if_pos heq, heq, List.getElem?_set_self hlt]
    rfl
  · rw [if_neg heq, List.getElem?_set_ne (Ne.symm heq)]

theorem cell?_of_member {i : Nat} {e : Env Addr} (hi : F.members[i]? = some e) (slot : Nat) :
    F.cell? ⟨i, slot⟩ = e.get? slot := by
  unfold cell?
  rw [hi]
  rfl

/-- An operation on a member does to the family what it does to the member. -/
theorem effect_op {i : Nat} {op : Env.Op κ} {e e' : Env Addr} {heap : Heap κ}
    (hi : F.members[i]? = some e) (h : Env.Effect e F.heap op e' heap) :
    F.Effect (.op i op) ⟨F.members.set i e', heap⟩ := by
  have hbinds : F.binds? (.op i op) = (op.binds? e).map fun x => (⟨i, x.1⟩, x.2) := by
    simp only [binds?, hi, Option.bind_some]
  have hwrites : F.writes? (.op i op) = (op.writes? e).map fun x => (⟨i, x.1⟩, x.2) := by
    simp only [writes?, hi, Option.bind_some]
  cases h with
  | @bound slot v binds writes cells =>
    rw [binds] at hbinds
    rw [writes] at hwrites
    refine .bound hbinds hwrites rfl fun q => ?_
    rw [cell?_set hi]
    obtain ⟨member, slot'⟩ := q
    by_cases hmember : member = i
    · subst hmember
      rw [if_pos rfl, cells, cell?_of_member hi]
      simp only [Position.mk.injEq, true_and]
    · rw [if_neg hmember, if_neg]
      exact fun heq => hmember (congrArg Position.member heq)
  | @written slot v a binds writes cell same =>
    subst same
    rw [binds] at hbinds
    rw [writes] at hwrites
    refine .written hbinds hwrites ((cell?_of_member hi slot).trans cell) rfl fun q => ?_
    rw [cell?_set hi]
    split
    · next hmember =>
      obtain ⟨member, slot'⟩ := q
      subst hmember
      exact (cell?_of_member hi slot').symm
    · rfl
  | plain binds writes cells =>
    rw [binds] at hbinds
    rw [writes] at hwrites
    refine .plain hbinds hwrites nofun rfl fun q a hq => ?_
    rw [cell?_set hi] at hq
    split at hq
    · next hmember =>
      obtain ⟨member, slot'⟩ := q
      subst hmember
      rw [cell?_of_member hi, ← cells slot' (Env.exists_get?_iff.1 ⟨a, hq⟩)]
      exact hq
    · exact hq

/-- **What a step can do**: bind one position anew, write through one, or leave the cells alone,
with some positions dropped or with one member more. -/
theorem effect_step (F : Family κ) (s : Step κ) : F.Effect s (F.step s) := by
  cases s with
  | op i op =>
    cases hi : F.members[i]? with
    | none =>
      have hstep : F.step (.op i op) = F := by
        simp only [step, hi]
      rw [hstep]
      refine .plain ?_ ?_ nofun rfl fun _ _ h => h
      · simp only [binds?, hi, Option.bind_none, Option.map_none]
      · simp only [writes?, hi, Option.bind_none, Option.map_none]
    | some e =>
      have hstep : F.step (.op i op) = ⟨F.members.set i (Env.step (e, F.heap) op).2.1,
          (Env.step (e, F.heap) op).2.2⟩ := by
        simp only [step, hi]
      rw [hstep]
      exact effect_op hi (Env.effect_step e F.heap op)
  | capture i =>
    cases hi : F.members[i]? with
    | none =>
      have hstep : F.step (.capture i) = F := by
        simp only [step, hi]
      rw [hstep]
      refine .captured rfl rfl (fun _ _ => rfl) fun slot => ?_
      -- neither the captured member nor the new one is there
      rw [cell?_eq_none_of_le (Nat.le_refl _)]
      unfold cell?
      rw [hi]
      rfl
    | some e =>
      have hstep : F.step (.capture i) = { F with members := F.members ++ [e.capture] } := by
        simp only [step, hi]
      rw [hstep]
      refine .captured rfl rfl (fun q hq => ?_) fun slot => ?_
      · unfold cell?
        dsimp only
        rw [List.getElem?_append, List.getElem?_singleton]
        split
        · rfl
        · next hnot =>
          have hpos : ¬ q.member - F.members.length = 0 := by omega
          rw [if_neg hpos, List.getElem?_eq_none (Nat.not_lt.1 hnot)]
      · unfold cell?
        dsimp only
        rw [List.getElem?_concat_length, hi]
        rfl

/-- **A step leaves the other members as they are**: their names, their cells and their
scopes. -/
theorem members_step (F : Family κ) {s : Step κ} {i : Nat} (hi : i < F.members.length)
    (hother : i ≠ s.member) : (F.step s).members[i]? = F.members[i]? := by
  cases s with
  | op j op =>
    simp only [step]
    split
    · exact List.getElem?_set_ne (Ne.symm hother)
    · rfl
  | capture j =>
    simp only [step]
    split
    · exact List.getElem?_append_left hi
    · rfl

end Family

end LoxLang
