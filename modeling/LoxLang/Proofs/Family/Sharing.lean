/-
  LoxLang.Proofs.Family.Sharing
  ─────────────────────────────
  **What the members of a family share.**  A family is followed from its first environment on.

  Main results:
    * `Descends`  — a position comes from the step that bound it: it stays what it is until it
                    is bound anew or dropped, and a capture copies it to the new member
    * `Latest`    — the value that was last put into a cell: by the step that made it, or by
                    one that wrote through any position that then held it
    * `captures_share_cells` — two positions have one cell exactly if they come from one step,
                    and a position shows the latest value of its cell
-/
import LoxLang.Proofs.Family.Basic
import LoxLang.Proofs.Machine.Related

namespace LoxLang

namespace Family

variable {κ : Type}

/-! ## §1. Histories. -/

/-- The family after these steps, the latest of which comes first. -/
def after (heap : Heap κ) : List (Step κ) → Family κ
  | [] => start heap
  | s :: past => (after heap past).step s

/-- The position comes from step number `t`: that step bound it, or bound the position from
which, by captures alone, it was copied. -/
inductive Descends (heap : Heap κ) : List (Step κ) → Position → Nat → Prop
  | bound {past : List (Step κ)} {s : Step κ} {p : Position} {v : Value κ}
      (binds : (after heap past).binds? s = some (p, v)) :
      Descends heap (s :: past) p past.length
  | kept {past : List (Step κ)} {s : Step κ} {p : Position} {t : Nat}
      (before : Descends heap past p t)
      (unbound : ∀ v, (after heap past).binds? s ≠ some (p, v))
      (still : (after heap (s :: past)).cell? p ≠ none) : Descends heap (s :: past) p t
  | captured {past : List (Step κ)} {i slot t : Nat} (before : Descends heap past ⟨i, slot⟩ t) :
      Descends heap (.capture i :: past) ⟨(after heap past).members.length, slot⟩ t

/-- The step gives the cell this value: it binds a position with the cell, or writes through a
position that has it. -/
def Gives (F : Family κ) (s : Step κ) (a : Addr) (v : Value κ) : Prop :=
  (∃ p, F.binds? s = some (p, v) ∧ (F.step s).cell? p = some a)
    ∨ ∃ p, F.writes? s = some (p, v) ∧ F.cell? p = some a

/-- The value that was last given to the cell. -/
inductive Latest (heap : Heap κ) : List (Step κ) → Addr → Value κ → Prop
  | given {past : List (Step κ)} {s : Step κ} {a : Addr} {v : Value κ}
      (gives : (after heap past).Gives s a v) : Latest heap (s :: past) a v
  | earlier {past : List (Step κ)} {s : Step κ} {a : Addr} {v : Value κ}
      (before : Latest heap past a v) (spared : ∀ w, ¬ (after heap past).Gives s a w) :
      Latest heap (s :: past) a v

variable {heap : Heap κ} {past : List (Step κ)} {p q : Position} {a b : Addr} {t u : Nat}

/-! ## §2. The cell that a step has made. -/

/-- Step number `t` bound a position, with this cell. -/
def Made (heap : Heap κ) : List (Step κ) → Nat → Addr → Prop
  | [], _, _ => False
  | s :: past, t, a =>
      (t = past.length ∧ (after heap past).binds? s ≠ none ∧ a = (after heap past).heap.next)
        ∨ Made heap past t a

/-- Cells become no fewer, and a step that binds a position makes one. -/
theorem next_step (F : Family κ) (s : Step κ) :
    F.heap.next ≤ (F.step s).heap.next
      ∧ (F.binds? s ≠ none → F.heap.next < (F.step s).heap.next) := by
  cases F.effect_step s with
  | bound binds writes hheap =>
    rw [hheap, Heap.next_alloc]
    exact ⟨Nat.le_succ _, fun _ => Nat.lt_succ_self _⟩
  | written binds writes cell hheap =>
    rw [hheap, Heap.next_write]
    exact ⟨Nat.le_refl _, fun hbinds => absurd binds hbinds⟩
  | plain binds writes capture hheap =>
    rw [hheap]
    exact ⟨Nat.le_refl _, fun hbinds => absurd binds hbinds⟩
  | captured capture hheap =>
    subst capture
    rw [hheap]
    exact ⟨Nat.le_refl _, fun hbinds => absurd rfl hbinds⟩

theorem Made.lt (h : Made heap past t a) :
    t < past.length ∧ a < (after heap past).heap.next := by
  induction past with
  | nil => exact h.elim
  | cons s past ih =>
    obtain ⟨hle, hlt⟩ := next_step (after heap past) s
    rcases h with ⟨rfl, hbinds, rfl⟩ | h
    · exact ⟨Nat.lt_succ_self _, hlt hbinds⟩
    · obtain ⟨htime, hcell⟩ := ih h
      exact ⟨Nat.lt_succ_of_lt htime, Nat.lt_of_lt_of_le hcell hle⟩

/-- No two steps have made one cell, and no step two cells. -/
theorem Made.eq_iff (h : Made heap past t a) (h' : Made heap past u b) : t = u ↔ a = b := by
  induction past with
  | nil => exact h.elim
  | cons s past ih =>
    rcases h with ⟨rfl, -, rfl⟩ | h
    · rcases h' with ⟨rfl, -, rfl⟩ | h'
      · exact ⟨fun _ => rfl, fun _ => rfl⟩
      · -- what the last step made is later than all else
        obtain ⟨htime, hcell⟩ := h'.lt
        exact ⟨fun heq => absurd heq.symm (Nat.ne_of_lt htime),
          fun heq => absurd heq.symm (Nat.ne_of_lt hcell)⟩
    · rcases h' with ⟨rfl, -, rfl⟩ | h'
      · obtain ⟨htime, hcell⟩ := h.lt
        exact ⟨fun heq => absurd heq (Nat.ne_of_lt htime),
          fun heq => absurd heq (Nat.ne_of_lt hcell)⟩
      · exact ih h h'

/-! ## §3. Positions and the steps they come from. -/

/-- A position has the cell that the step it comes from has made. -/
theorem Descends.exists_made (h : Descends heap past p t) :
    ∃ a, Made heap past t a ∧ (after heap past).cell? p = some a := by
  induction h with
  | @bound past s p v hbinds =>
    have hmade : (after heap past).binds? s ≠ none := by
      rw [hbinds]
      nofun
    refine ⟨(after heap past).heap.next, .inl ⟨rfl, hmade, rfl⟩, ?_⟩
    show ((after heap past).step s).cell? p = _
    cases (after heap past).effect_step s with
    | bound binds _ _ cells =>
      rw [hbinds] at binds
      cases binds
      rw [cells, if_pos rfl]
    | written binds => exact absurd binds hmade
    | plain binds => exact absurd binds hmade
    | captured capture =>
      subst capture
      exact absurd rfl hmade
  | @kept past s p t _ unbound still ih =>
    obtain ⟨a, hmade, hcell⟩ := ih
    refine ⟨a, .inr hmade, ?_⟩
    obtain ⟨b, hb⟩ := Option.ne_none_iff_exists'.1 still
    rw [hb]
    -- a position that is not bound anew has the cell that it had
    cases (after heap past).effect_step s with
    | @bound p' v binds _ _ cells =>
      have hne : p ≠ p' := by
        rintro rfl
        exact unbound v binds
      rw [← hb, ← hcell]
      exact (cells p).trans (if_neg hne)
    | written _ _ _ _ cells =>
      rw [← hb, ← hcell]
      exact cells p
    | plain _ _ _ _ cells =>
      rw [← hcell]
      exact (cells p b hb).symm
    | captured _ _ old _ =>
      have hmember : p.member ≠ (after heap past).members.length := by
        intro heq
        rw [cell?_eq_none_of_le (Nat.le_of_eq heq.symm)] at hcell
        cases hcell
      rw [← hb, ← hcell]
      exact old p hmember
  | @captured past i slot t _ ih =>
    obtain ⟨a, hmade, hcell⟩ := ih
    refine ⟨a, .inr hmade, ?_⟩
    show ((after heap past).step (.capture i)).cell? _ = _
    cases (after heap past).effect_step (.capture i) with
    | bound binds => cases binds
    | written _ writes => cases writes
    | plain _ _ capture => exact absurd rfl (capture i)
    | captured capture _ _ new =>
      cases capture
      exact (new slot).trans hcell

/-- Whatever is in a position, a step has made it, and the position comes from that step. -/
theorem exists_descends (h : (after heap past).cell? p = some a) :
    ∃ t, Made heap past t a ∧ Descends heap past p t := by
  induction past generalizing p a with
  | nil =>
    -- the first environment has no bindings
    obtain ⟨_ | member, slot⟩ := p
    · cases h
    · cases h
  | cons s past ih =>
    have hstill : (after heap (s :: past)).cell? p ≠ none := by
      rw [h]
      nofun
    have hkept : (after heap past).cell? p = some a →
        (∀ v, (after heap past).binds? s ≠ some (p, v)) →
        ∃ t, Made heap (s :: past) t a ∧ Descends heap (s :: past) p t := by
      intro hcell hunbound
      obtain ⟨t, hmade, hdescends⟩ := ih hcell
      exact ⟨t, .inr hmade, .kept hdescends hunbound hstill⟩
    have hnone : (after heap past).binds? s = none →
        ∀ v, (after heap past).binds? s ≠ some (p, v) := by
      intro hbinds v heq
      rw [hbinds] at heq
      cases heq
    cases (after heap past).effect_step s with
    | @bound p' v binds _ _ cells =>
      have hp := (cells p).symm.trans h
      by_cases heq : p = p'
      · subst heq
        rw [if_pos rfl] at hp
        cases hp
        exact ⟨past.length, .inl ⟨rfl, fun hno => hnone hno v binds, rfl⟩, .bound binds⟩
      · rw [if_neg heq] at hp
        refine hkept hp fun w hw => heq ?_
        rw [binds] at hw
        cases hw
        rfl
    | written binds _ _ _ cells => exact hkept ((cells p).symm.trans h) (hnone binds)
    | plain binds _ _ _ cells => exact hkept (cells p a h) (hnone binds)
    | captured capture _ old new =>
      subst capture
      obtain ⟨member, slot⟩ := p
      by_cases heq : member = (after heap past).members.length
      · subst heq
        obtain ⟨t, hmade, hdescends⟩ := ih ((new slot).symm.trans h)
        exact ⟨t, .inr hmade, .captured hdescends⟩
      · exact hkept ((old ⟨member, slot⟩ heq).symm.trans h) (hnone rfl)

/-- **Two positions have one cell exactly if they come from one step.** -/
theorem cell_eq_iff (hp : (after heap past).cell? p = some a)
    (hq : (after heap past).cell? q = some b) :
    a = b ↔ ∃ t, Descends heap past p t ∧ Descends heap past q t := by
  constructor
  · rintro rfl
    obtain ⟨t, hmade, hdescends⟩ := exists_descends hp
    obtain ⟨u, hmade', hdescends'⟩ := exists_descends hq
    obtain rfl := (hmade.eq_iff hmade').2 rfl
    exact ⟨t, hdescends, hdescends'⟩
  · rintro ⟨t, hdescends, hdescends'⟩
    obtain ⟨a', hmade, hcell⟩ := hdescends.exists_made
    obtain ⟨b', hmade', hcell'⟩ := hdescends'.exists_made
    rw [hp] at hcell
    rw [hq] at hcell'
    cases hcell
    cases hcell'
    exact (hmade.eq_iff hmade').1 rfl

/-- A position comes from one step. -/
theorem existsUnique_descends (h : (after heap past).cell? p = some a) :
    ∃ t, Descends heap past p t ∧ ∀ u, Descends heap past p u → u = t := by
  obtain ⟨t, hmade, hdescends⟩ := exists_descends h
  refine ⟨t, hdescends, fun u hu => ?_⟩
  obtain ⟨b, hmade', hcell⟩ := hu.exists_made
  rw [h] at hcell
  cases hcell
  exact (hmade'.eq_iff hmade).2 rfl

/-! ## §4. Values and the steps that gave them. -/

/-- A step that gives a cell no value leaves its value alone. -/
theorem read_step_of_spared {F : Family κ} {s : Step κ} (h : ∀ w, ¬ F.Gives s a w) :
    (F.step s).heap.read a = F.heap.read a := by
  cases F.effect_step s with
  | @bound p v binds _ hheap cells =>
    have hne : a ≠ F.heap.next := by
      rintro rfl
      exact h v (.inl ⟨p, binds, (cells p).trans (if_pos rfl)⟩)
    rw [hheap, Heap.read_alloc_of_ne hne]
  | @written p v b _ writes cell hheap _ =>
    have hne : b ≠ a := by
      rintro rfl
      exact h v (.inr ⟨p, writes, cell⟩)
    rw [hheap, Heap.read_write_of_ne hne]
  | plain _ _ _ hheap _ => rw [hheap]
  | captured _ hheap _ _ => rw [hheap]

/-- A cell has the value that a step gives it, if the cells of positions are there. -/
theorem read_step_of_gives {F : Family κ} {s : Step κ} {v : Value κ}
    (hthere : ∀ p a, F.cell? p = some a → a < F.heap.next) (h : F.Gives s a v) :
    (F.step s).heap.read a = v := by
  cases F.effect_step s with
  | bound binds writes hheap cells =>
    rcases h with ⟨q, hbinds, hcell⟩ | ⟨q, hwrites, -⟩
    · rw [binds] at hbinds
      cases hbinds
      rw [cells, if_pos rfl] at hcell
      cases hcell
      rw [hheap, Heap.read_alloc_next]
    · rw [writes] at hwrites
      cases hwrites
  | written binds writes cell hheap cells =>
    rcases h with ⟨q, hbinds, -⟩ | ⟨q, hwrites, hcell⟩
    · rw [binds] at hbinds
      cases hbinds
    · rw [writes] at hwrites
      cases hwrites
      rw [cell] at hcell
      cases hcell
      rw [hheap, Heap.read_write_self (hthere _ _ cell)]
  | plain binds writes capture hheap cells =>
    rcases h with ⟨q, hbinds, -⟩ | ⟨q, hwrites, -⟩
    · rw [binds] at hbinds
      cases hbinds
    · rw [writes] at hwrites
      cases hwrites
  | captured capture =>
    subst capture
    rcases h with ⟨q, ⟨⟩, -⟩ | ⟨q, ⟨⟩, -⟩

theorem cell_lt_next (h : (after heap past).cell? p = some a) :
    a < (after heap past).heap.next := by
  obtain ⟨t, hmade, -⟩ := exists_descends h
  exact hmade.lt.2

theorem Latest.read {v : Value κ} (h : Latest heap past a v) :
    (after heap past).heap.read a = v := by
  induction h with
  | given gives => exact read_step_of_gives (fun _ _ => cell_lt_next) gives
  | earlier _ spared ih => exact (read_step_of_spared spared).trans ih

/-- A cell that a step has made was given a value last. -/
theorem Made.exists_latest (h : Made heap past t a) : ∃ v, Latest heap past a v := by
  induction past with
  | nil => exact h.elim
  | cons s past ih =>
    by_cases hgives : ∃ v, (after heap past).Gives s a v
    · obtain ⟨v, hv⟩ := hgives
      exact ⟨v, .given hv⟩
    · have hspared : ∀ w, ¬ (after heap past).Gives s a w := fun w hw => hgives ⟨w, hw⟩
      rcases h with ⟨-, hbinds, rfl⟩ | h
      · -- the step that made the cell gave it a value
        cases (after heap past).effect_step s with
        | @bound p v binds _ _ cells =>
          exact absurd (.inl ⟨p, binds, (cells p).trans (if_pos rfl)⟩) (hspared v)
        | written binds => exact absurd binds hbinds
        | plain binds => exact absurd binds hbinds
        | captured capture =>
          subst capture
          exact absurd rfl hbinds
      · obtain ⟨v, hv⟩ := ih h
        exact ⟨v, .earlier hv hspared⟩

/-- **A position shows the latest value of its cell.** -/
theorem latest_iff (h : (after heap past).cell? p = some a) (v : Value κ) :
    Latest heap past a v ↔ (after heap past).value? p = some v := by
  have hvalue : (after heap past).value? p = some ((after heap past).heap.read a) :=
    congrArg (Option.map _) h
  rw [hvalue]
  constructor
  · intro hlatest
    rw [hlatest.read]
  · rintro ⟨⟩
    obtain ⟨t, hmade, -⟩ := exists_descends h
    obtain ⟨v, hv⟩ := hmade.exists_latest
    rw [hv.read]
    exact hv

/-! ## §5. What the other positions see. -/

/-- A position that is bound anew is seen to change by itself alone. -/
theorem value_step_of_binds {s : Step κ} {v : Value κ}
    (hbinds : (after heap past).binds? s = some (p, v)) (hne : q ≠ p) :
    ((after heap past).step s).value? q = (after heap past).value? q := by
  unfold value?
  cases (after heap past).effect_step s with
  | bound binds _ hheap cells =>
    rw [hbinds] at binds
    cases binds
    rw [cells, if_neg hne, hheap]
    cases hq : (after heap past).cell? q with
    | none => rfl
    | some a => exact congrArg some (Heap.read_alloc_of_lt (cell_lt_next hq) v)
  | written binds =>
    rw [hbinds] at binds
    cases binds
  | plain binds =>
    rw [hbinds] at binds
    cases binds
  | captured capture =>
    subst capture
    cases hbinds

/-- An assignment is seen in every position that has the cell. -/
theorem value_step_of_writes {s : Step κ} {v : Value κ}
    (hwrites : (after heap past).writes? s = some (p, v))
    (hq : (after heap past).cell? q = (after heap past).cell? p) :
    ((after heap past).step s).value? q = some v := by
  unfold value?
  cases (after heap past).effect_step s with
  | bound _ writes =>
    rw [hwrites] at writes
    cases writes
  | written _ writes cell hheap cells =>
    rw [hwrites] at writes
    cases writes
    rw [cells, hq, cell, hheap]
    exact congrArg some (Heap.read_write_self (cell_lt_next cell) v)
  | plain _ writes =>
    rw [hwrites] at writes
    cases writes
  | captured capture =>
    subst capture
    cases hwrites

end Family

open Family

/-- **Captures share cells, and nothing else.**  After any steps that started with one empty
environment:

    • a further step on one member leaves every other as it is, its names, cells and scopes,
    • a position comes from one step, and two positions have one cell if and only if, through
      captures alone, they come from the same step,
    • a position shows the value that was last given to its cell, by the step that made the
      cell or by an assignment through any position that had it,
    • so that a position that is bound anew is seen to change by no other, and an assignment is
      seen by all that have the cell. -/
theorem captures_share_cells {κ : Type} (heap : Heap κ) (past : List (Step κ)) :
    let F := after heap past
    (∀ s, ∀ i < F.members.length, i ≠ s.member → (F.step s).members[i]? = F.members[i]?)
      ∧ (∀ p a, F.cell? p = some a →
        ∃ t, Descends heap past p t ∧ ∀ u, Descends heap past p u → u = t)
      ∧ (∀ p q a b, F.cell? p = some a → F.cell? q = some b →
        (a = b ↔ ∃ t, Descends heap past p t ∧ Descends heap past q t))
      ∧ (∀ p a, F.cell? p = some a → ∀ v, Latest heap past a v ↔ F.value? p = some v)
      ∧ ∀ s p v,
        (F.binds? s = some (p, v) → ∀ q, q ≠ p → (F.step s).value? q = F.value? q)
          ∧ (F.writes? s = some (p, v) →
            ∀ q, F.cell? q = F.cell? p → (F.step s).value? q = some v) := by
  intro F
  refine ⟨?_, ?_, ?_, ?_, ?_⟩
  · exact fun s i hi hother => F.members_step hi hother
  · exact fun p a => existsUnique_descends
  · exact fun p q a b => cell_eq_iff
  · exact fun p a => latest_iff
  · intro s p v
    exact ⟨fun hbinds q => value_step_of_binds hbinds,
      fun hwrites q => value_step_of_writes hwrites⟩

-- a variable that is captured, assigned through the capture, and declared again
example :
    let F : Family Captured := after .empty
      [.op 0 (.define "a" (.bool false)), .op 1 (.set "a" (.bool true)), .capture 0,
        .op 0 (.define "a" .nil)]
    F.value? ⟨0, 0⟩ = some (.bool false) ∧ F.value? ⟨1, 0⟩ = some (.bool true) :=
  ⟨rfl, rfl⟩

end LoxLang
