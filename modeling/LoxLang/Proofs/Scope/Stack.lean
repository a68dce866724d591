/-
  LoxLang.Proofs.Scope.Stack
  ──────────────────────────
  **Environments under any operations.**  Whatever is done to a new environment, or to one
  made by a capture, its row stays that of a stack of frames (`inTurn_toEnv`), where
  no frame binds a name twice, except for what was captured (`layered_inTurn`).

  A scope that is opened and closed again leaves no trace but in the cells: in between, all
  that changes is behind its mark (`Nested.grown`).
-/
import LoxLang.Proofs.Scope.Frames
import LoxLang.Proofs.Scope.Resolve
import Mathlib.Data.List.Nodup

namespace LoxLang

variable {κ : Type}

/-! ## §1. Rows of scopes. -/

/-- A row cut into pieces at the marks, the last piece first. -/
def cutAt {α : Type} : List Nat → List α → List (List α)
  | [], row => [row]
  | mark :: marks, row => row.drop mark :: cutAt marks (row.take mark)

namespace Env

/-- The scopes start in turn, within the row. -/
def Ordered (e : Env Addr) : Prop :=
  e.marks.Pairwise (· ≥ ·) ∧ ∀ mark ∈ e.marks, mark ≤ e.size

/-- The bindings of each scope, the innermost first; the last ones are those in front of all
marks. -/
def segments (e : Env Addr) : List (List (String × Addr)) :=
  cutAt e.marks e.bindings

/-- There is nothing for the operation to work on: no such slot, or no scope to close. -/
inductive Op.Misses (e : Env Addr) : Op κ → Prop
  | getSlot {slot : Nat} (past : e.size ≤ slot) : Misses e (.getSlot slot)
  | setSlot {slot : Nat} {v : Value κ} (past : e.size ≤ slot) : Misses e (.setSlot slot v)
  | pop (none : e.marks = []) : Misses e .pop

/-- Indices beyond the last binding lead nowhere. -/
theorem get?_eq_none_iff {e : Env Addr} {slot : Nat} : e.get? slot = none ↔ e.size ≤ slot := by
  unfold get? size
  rw [Option.map_eq_none_iff, List.getElem?_eq_none_iff]

/-- An operation without anything to work on changes nothing. -/
theorem step_of_misses {e : Env Addr} {op : Op κ} (h : op.Misses e) (heap : Heap κ) :
    step (e, heap) op = (.indexError, (e, heap)) := by
  cases h with
  | getSlot past => simp only [step, withCell, get?_eq_none_iff.2 past]
  | setSlot past => simp only [step, withCell, get?_eq_none_iff.2 past]
  | pop none => simp only [step, closeScope?, none]

/-- Where the use of a cell does not fail, there was no cell. -/
theorem eq_none_of_withCell {cell : Option Addr} {heap : Heap κ}
    {use : Addr → Answer κ × Heap κ} (h : (withCell cell heap use).1 = .indexError)
    (huse : ∀ a, (use a).1 ≠ .indexError) : cell = none := by
  cases cell with
  | none => rfl
  | some a => exact absurd h (huse a)

/-- No other operation fails. -/
theorem misses_of_step {e : Env Addr} {op : Op κ} {heap : Heap κ}
    (h : (step (e, heap) op).1 = .indexError) : op.Misses e := by
  cases op with
  | getSlot slot => exact .getSlot (get?_eq_none_iff.1 (eq_none_of_withCell h nofun))
  | setSlot slot v => exact .setSlot (get?_eq_none_iff.1 (eq_none_of_withCell h nofun))
  | pop =>
    refine .pop ?_
    unfold step closeScope? at h
    cases hmarks : e.marks with
    | nil => rfl
    | cons mark marks =>
      simp only [hmarks] at h
      cases h
  | _ => cases h

/-! ## §2. Scopes that are closed again. -/

/-- Operations that close each scope that they open, and no other. -/
inductive Nested : List (Op κ) → Prop
  | nil : Nested []
  | plain {op : Op κ} {rest : List (Op κ)} (noPush : op ≠ .push) (noPop : op ≠ .pop)
      (more : Nested rest) : Nested (op :: rest)
  | scope {inner rest : List (Op κ)} (inside : Nested inner) (more : Nested rest) :
      Nested (.push :: (inner ++ .pop :: rest))

/-- A binding at the end leaves outer scopes alone. -/
theorem grown_append (e : Env Addr) (name : String) (a : Addr) : e.Grown (e.append name a) :=
  ⟨rfl, (List.take_prefix _ _).trans (List.prefix_append _ _)⟩

/-- What opens and closes no scope changes the active one only. -/
theorem grown_step {op : Op κ} (noPush : op ≠ .push) (noPop : op ≠ .pop) (e : Env Addr)
    (h : Heap κ) : e.Grown (step (e, h) op).2.1 := by
  cases op with
  | define name v => exact grown_declare e name h.next
  | set name v =>
    show e.Grown (e.assignOrAppend h name v).1
    unfold assignOrAppend
    split
    · exact .refl e
    · exact grown_append e name h.next
  | get name => exact .refl e
  | slotOf name => exact .refl e
  | getSlot slot => exact .refl e
  | setSlot slot v => exact .refl e
  | push => exact absurd rfl noPush
  | pop => exact absurd rfl noPop

/-- The end of a scope, if what was done since its start has changed nothing below it. -/
theorem step_pop {e e' : Env Addr} (h : e.openScope.Grown e') (heap : Heap κ) :
    step (e', heap) .pop = (.done, (e, heap)) := by
  unfold step
  simp only [h.closeScope?]

/-- **Operations that close what they open change the active scope only.** -/
theorem Nested.grown {ops : List (Op κ)} (h : Nested ops) :
    ∀ (e : Env Addr) (heap : Heap κ), e.Grown (inTurn step (e, heap) ops).2.1 := by
  induction h with
  | nil => exact fun e _ => .refl e
  | @plain op rest noPush noPop _ ih =>
    intro e heap
    have hstep := grown_step noPush noPop e heap
    exact hstep.trans (ih _ _)
  | @scope inner rest _ _ ihInside ihMore =>
    intro e heap
    -- the scope that was opened is closed again, and the rest begins where it did
    have hinside := ihInside e.openScope heap
    show e.Grown (inTurn step (e.openScope, heap) (inner ++ .pop :: rest)).2.1
    rw [inTurn_append]
    generalize inTurn step (e.openScope, heap) inner = run at hinside
    obtain ⟨answers, e', heap'⟩ := run
    show e.Grown (inTurn step (step (e', heap') .pop).2 rest).2.1
    rw [step_pop hinside]
    exact ihMore e heap'

/-- **A scope leaves nothing behind**: names, cells and scopes are as they were before. -/
theorem Nested.restores {ops : List (Op κ)} (h : Nested ops) (e : Env Addr) (heap : Heap κ) :
    (inTurn step (e, heap) (.push :: (ops ++ [.pop]))).2.1 = e := by
  have hinside := h.grown e.openScope heap
  show (inTurn step (e.openScope, heap) (ops ++ [.pop])).2.1 = e
  rw [inTurn_append]
  generalize inTurn step (e.openScope, heap) ops = run at hinside
  obtain ⟨answers, e', heap'⟩ := run
  show (step (e', heap') .pop).2.1 = e
  rw [step_pop hinside]

end Env

/-! ## §3. Frames without repeated names. -/

namespace Frames

/-- The frame binds no name twice. -/
def Distinct (frame : Frame) : Prop :=
  (frame.map Prod.fst).Nodup

/-- No frame binds a name twice, and the bottom one is as `bottom` says instead. -/
def Layered (bottom : Frame → Prop) : Frame → List Frame → Prop
  | top, [] => bottom top
  | top, frame :: below => Distinct top ∧ Layered bottom frame below

variable {bottom : Frame → Prop} {top : Frame} {below : List Frame}

/-- Above the bottom, no frame has a name twice. -/
theorem Layered.distinct_above (h : Layered bottom top below) :
    ∀ frame ∈ (top :: below).dropLast, Distinct frame := by
  induction below generalizing top with
  | nil => exact nofun
  | cons next below ih =>
    intro frame hframe
    rcases List.mem_cons.1 hframe with rfl | hframe
    · exact h.1
    · exact ih h.2 frame hframe

/-- If the bottom has no name twice, no frame has. -/
theorem Layered.distinct (h : Layered Distinct top below) :
    ∀ frame ∈ top :: below, Distinct frame := by
  induction below generalizing top with
  | nil =>
    intro frame hframe
    obtain rfl := List.mem_singleton.1 hframe
    exact h
  | cons next below ih =>
    intro frame hframe
    rcases List.mem_cons.1 hframe with rfl | hframe
    · exact h.1
    · exact ih h.2 frame hframe

/-- A replaced binding keeps its name. -/
theorem names_replace (name : String) (a : Addr) (frame : Frame) :
    (replace name a frame).map Prod.fst = frame.map Prod.fst := by
  induction frame with
  | nil => rfl
  | cons b older ih =>
    unfold replace
    split
    · next hb => rw [List.map_cons, List.map_cons, hb]
    · rw [List.map_cons, List.map_cons, ih]

/-- Binding a name keeps names distinct: it replaces the binding there is, or adds one. -/
theorem distinct_bind {frame : Frame} (h : Distinct frame) (name : String) (a : Addr) :
    Distinct (bind name a frame) := by
  unfold Distinct bind
  split
  · rw [names_replace]
    exact h
  · next hplace =>
    have hnone := Option.not_isSome_iff_eq_none.1 hplace
    exact List.nodup_cons.2 ⟨place?_eq_none_iff.1 hnone, h⟩

/-- A name that is in no frame is not in the top one. -/
theorem bind_of_find?_eq_none {f : Frames} {name : String} (h : f.find? name = none) (a : Addr) :
    bind name a f.top = (name, a) :: f.top := by
  have htop : f.top.lookup name = none := List.findSome?_eq_none_iff.1 h _ List.mem_cons_self
  have hplace : place? name f.top = none := by
    rw [place?_eq_none_iff, List.mem_map]
    rintro ⟨b, hb, rfl⟩
    have hne := List.lookup_eq_none_iff.1 htop b hb
    rw [bne_self_eq_false] at hne
    cases hne
  unfold Frames.bind
  rw [hplace]
  rfl

/-- A binding more in the top frame. -/
theorem Layered.bind (hbottom : ∀ frame name a, bottom frame → bottom (bind name a frame))
    (h : Layered bottom top below) (name : String) (a : Addr) :
    Layered bottom (Frames.bind name a top) below := by
  cases below with
  | nil => exact hbottom top name a h
  | cons frame below => exact ⟨distinct_bind h.1 name a, h.2⟩

/-- The step: each operation keeps names distinct, whatever is asked of the bottom frame. -/
theorem layered_step (hbottom : ∀ frame name a, bottom frame → bottom (bind name a frame))
    {f : Frames} (h : Layered bottom f.top f.below) (heap : Heap κ) (op : Env.Op κ) :
    Layered bottom (step (f, heap) op).2.1.top (step (f, heap) op).2.1.below := by
  cases op with
  | define name v => exact h.bind hbottom name heap.next
  | set name v =>
    show Layered bottom (f.assignOrAppend heap name v).1.top (f.assignOrAppend heap name v).1.below
    unfold assignOrAppend
    split
    · exact h
    · next hfind =>
      rw [← bind_of_find?_eq_none hfind]
      exact h.bind hbottom name heap.next
  | get name => exact h
  | slotOf name => exact h
  | getSlot slot => exact h
  | setSlot slot v => exact h
  | push => exact ⟨List.nodup_nil, h⟩
  | pop =>
    obtain ⟨top, below⟩ := f
    cases below with
    | nil => exact h
    | cons frame below => exact h.2

/-- The run: so do all operations together, one after the other. -/
theorem layered_inTurn (hbottom : ∀ frame name a, bottom frame → bottom (bind name a frame))
    (ops : List (Env.Op κ)) : ∀ (f : Frames) (heap : Heap κ), Layered bottom f.top f.below →
      Layered bottom (inTurn step (f, heap) ops).2.1.top (inTurn step (f, heap) ops).2.1.below := by
  induction ops with
  | nil => exact fun _ _ h => h
  | cons op ops ih => exact fun f heap h => ih _ _ (layered_step hbottom h heap op)

/-! ## §4. Rows that are laid out. -/

/-- **The row does what the frames do, operation by operation.** -/
theorem inTurn_toEnv (ops : List (Env.Op κ)) : ∀ (f : Frames) (heap : Heap κ),
    inTurn Env.step (f.toEnv, heap) ops
      = ((inTurn step (f, heap) ops).1, ((inTurn step (f, heap) ops).2.1.toEnv,
        (inTurn step (f, heap) ops).2.2)) := by
  induction ops with
  | nil => exact fun _ _ => rfl
  | cons op ops ih =>
    intro f heap
    unfold inTurn
    rw [step_toEnv]
    dsimp only
    rw [ih]

/-- A scope begins within the row. -/
theorem le_size_of_mem_starts {mark : Nat} :
    ∀ {frames : List Frame}, mark ∈ starts frames → mark ≤ size frames := by
  intro frames
  induction frames with
  | nil => exact nofun
  | cons frame below ih =>
    intro h
    rcases List.mem_cons.1 h with rfl | h
    · exact Nat.le_refl _
    · exact Nat.le_trans (ih h) (Nat.le_add_right _ _)

/-- Inner scopes begin behind outer ones. -/
theorem pairwise_starts (frames : List Frame) : (starts frames).Pairwise (· ≥ ·) := by
  induction frames with
  | nil => exact .nil
  | cons frame below ih =>
    refine .cons (fun mark hmark => ?_) ih
    exact Nat.le_trans (le_size_of_mem_starts hmark) (Nat.le_add_right _ _)

/-- A row that is laid out has its scopes in order. -/
theorem ordered_toEnv (f : Frames) : f.toEnv.Ordered := by
  refine ⟨pairwise_starts f.below, fun mark hmark => ?_⟩
  rw [size_toEnv]
  exact Nat.le_trans (le_size_of_mem_starts hmark) (Nat.le_add_right _ _)

/-- The scopes of the row are the frames. -/
theorem segments_toEnv (top : Frame) (below : List Frame) :
    (toEnv ⟨top, below⟩).segments = (top :: below).map List.reverse := by
  induction below generalizing top with
  | nil =>
    rw [toEnv_eq]
    rfl
  | cons frame below ih =>
    have hlen := length_flatten_reverse (frame :: below)
    rw [toEnv_eq, List.map_cons, ← ih frame]
    show List.drop (size (frame :: below)) _ :: cutAt (starts below)
      (List.take (size (frame :: below)) _) = _
    rw [List.drop_left' hlen, List.take_left' hlen]
    rfl

/-- In the row the names of a frame are the other way round. -/
theorem nodup_reverse_of_distinct {frames : List Frame} (h : ∀ frame ∈ frames, Distinct frame) :
    ∀ segment ∈ frames.map List.reverse, (segment.map Prod.fst).Nodup := by
  intro segment hsegment
  obtain ⟨frame, hframe, rfl⟩ := List.mem_map.1 hsegment
  rw [List.map_reverse, List.nodup_reverse]
  exact h frame hframe

/-- A new environment is an empty frame. -/
theorem toEnv_empty : toEnv ⟨[], []⟩ = .empty := rfl

/-- What a capture makes is an empty frame on one that holds all that was captured. -/
theorem toEnv_capture (e : Env Addr) : toEnv ⟨[], [e.bindings.reverse]⟩ = e.capture := by
  rw [toEnv_eq]
  simp [starts, size, Env.capture, Env.size]

end Frames

/-! ## §5. Environments and stacks of frames. -/

open Frames

/-- **An environment is a stack of scopes.**  Whatever operations a new environment is put
through, or one made by a capture, the answers are those of a stack of frames, and so are the
cells behind them; the row is that of the stack, its scopes start in turn and within
the row, and no scope binds a name twice; only the bindings in front of all scopes may, where
they were captured.  Operations that close the scopes they open leave, between the opening of
a scope and its closing, no trace in the row.  An operation fails exactly where there is no
slot or no scope for it, and then changes nothing. -/
theorem environments_are_stacks_of_frames (ops : List (Env.Op κ)) (heap : Heap κ) :
    (let row := inTurn Env.step (.empty, heap) ops
      let stack := inTurn Frames.step (⟨[], []⟩, heap) ops
      row.1 = stack.1 ∧ row.2 = (stack.2.1.toEnv, stack.2.2) ∧ row.2.1.Ordered
        ∧ ∀ segment ∈ row.2.1.segments, (segment.map Prod.fst).Nodup)
      ∧ (∀ e : Env Addr,
        let row := inTurn Env.step (e.capture, heap) ops
        let stack := inTurn Frames.step (⟨[], [e.bindings.reverse]⟩, heap) ops
        row.1 = stack.1 ∧ row.2 = (stack.2.1.toEnv, stack.2.2) ∧ row.2.1.Ordered
          ∧ ∀ segment ∈ row.2.1.segments.dropLast, (segment.map Prod.fst).Nodup)
      ∧ (Env.Nested ops → ∀ e : Env Addr,
        (inTurn Env.step (e, heap) (.push :: (ops ++ [.pop]))).2.1 = e)
      ∧ ∀ (e : Env Addr) (op : Env.Op κ),
        ((Env.step (e, heap) op).1 = .indexError ↔ op.Misses e)
          ∧ (op.Misses e → Env.step (e, heap) op = (.indexError, (e, heap))) := by
  refine ⟨?_, ?_, ?_, ?_⟩
  · have hempty : Layered Distinct [] [] := List.nodup_nil
    have hlayered := layered_inTurn (fun _ name a h => distinct_bind h name a) ops ⟨[], []⟩ heap
      hempty
    dsimp only
    rw [← toEnv_empty, inTurn_toEnv]
    refine ⟨rfl, rfl, ordered_toEnv _, ?_⟩
    rw [segments_toEnv]
    exact nodup_reverse_of_distinct hlayered.distinct
  · intro e
    -- nothing is asked of what was captured
    have hbase : Layered (fun _ => True) [] [e.bindings.reverse] := ⟨List.nodup_nil, True.intro⟩
    have hlayered := layered_inTurn (fun _ _ _ h => h) ops ⟨[], [e.bindings.reverse]⟩ heap hbase
    dsimp only
    rw [← toEnv_capture, inTurn_toEnv]
    refine ⟨rfl, rfl, ordered_toEnv _, ?_⟩
    rw [segments_toEnv, ← List.map_dropLast]
    exact nodup_reverse_of_distinct hlayered.distinct_above
  · exact fun h e => h.restores e heap
  · intro e op
    have hmisses : op.Misses e → Env.step (e, heap) op = (.indexError, (e, heap)) :=
      fun h => Env.step_of_misses h heap
    exact ⟨⟨Env.misses_of_step, fun h => congrArg Prod.fst (hmisses h)⟩, hmisses⟩

-- a name in two scopes
example : (inTurn Env.step (.empty, (.empty : Heap))
    [.define "a" .nil, .push, .define "a" .nil, .define "b" .nil, .define "a" .nil, .slotOf "a",
      .pop, .slotOf "a", .slotOf "b", .pop]).1
    = [.defined 0, .done, .defined 1, .defined 2, .defined 1, .slot (some 1),
      .done, .slot (some 0), .slot none, .indexError] := rfl

end LoxLang
