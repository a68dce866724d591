/-
  LoxLang.Proofs.Scope.Frames
  ───────────────────────────
  **Environments as stacks of frames.**  A stack of frames has no offsets: each frame holds
  its own bindings, a scope is opened by putting an empty frame on the stack, and closed by
  taking the top frame off.  An environment is such a stack laid out in one row, the oldest
  binding first, with a mark wherever a frame ends (`toEnv`).

  Main result:
    * `step_toEnv`  — whatever is done to the row gives the answer that the stack gives, and
                      makes it the row of what the stack has become.
-/
import LoxLang.Proofs.Scope.Env

namespace LoxLang

variable {κ : Type}

/-! ## §1. What can be done to an environment. -/

namespace Env

/-- An operation on an environment and its cells. -/
inductive Op (κ : Type) where
  /-- Bind a name in the active scope. -/
  | define (name : String) (v : Value κ)
  /-- Give a name a value, whatever scope it is in. -/
  | set (name : String) (v : Value κ)
  /-- The cell that a name means. -/
  | get (name : String)
  /-- The slot of the binding that a name means. -/
  | slotOf (name : String)
  /-- The value in a slot. -/
  | getSlot (slot : Nat)
  /-- Give the variable in a slot a value. -/
  | setSlot (slot : Nat) (v : Value κ)
  /-- Open a scope. -/
  | push
  /-- Close the active scope. -/
  | pop

/-- What an operation answers. -/
inductive Answer (κ : Type) where
  | done
  | defined (slot : Nat)
  | cell (a : Option Addr)
  | slot (slot : Option Nat)
  | value (v : Value κ)
  /-- There is no such slot, or no scope to close. -/
  | indexError

/-- Use the cell that was found, if there is one. -/
def withCell (cell : Option Addr) (h : Heap κ) (use : Addr → Answer κ × Heap κ) :
    Answer κ × Heap κ :=
  match cell with
  | some a => use a
  | none => (.indexError, h)

/-- Carry out an operation. -/
def step : Env Addr × Heap κ → Op κ → Answer κ × (Env Addr × Heap κ)
  | (e, h), .define name v => (.defined (e.declaredSlot name), e.declareCell h name v)
  | (e, h), .set name v => (.done, e.assignOrAppend h name v)
  | (e, h), .get name => (.cell (e.find? name), (e, h))
  | (e, h), .slotOf name => (.slot (e.slotOf? name), (e, h))
  | (e, h), .getSlot slot =>
      let r := withCell (e.get? slot) h fun a => (.value (h.read a), h)
      (r.1, (e, r.2))
  | (e, h), .setSlot slot v =>
      let r := withCell (e.get? slot) h fun a => (.done, h.write a v)
      (r.1, (e, r.2))
  | (e, h), .push => (.done, (e.openScope, h))
  | (e, h), .pop =>
      match e.closeScope? with
      | some e' => (.done, (e', h))
      | none => (.indexError, (e, h))

end Env

/-! ## §2. Stacks of frames. -/

/-- The bindings of one scope, the latest first. -/
abbrev Frame := List (String × Addr)

/-- A stack of frames, which is never empty. -/
structure Frames where
  top : Frame
  below : List Frame

namespace Frames

/-- How many bindings of the frame are older than the latest of the name. -/
def place? (name : String) : Frame → Option Nat
  | [] => none
  | b :: older => if name = b.1 then some older.length else place? name older

/-- Put another cell in the place of the latest binding of the name. -/
def replace (name : String) (a : Addr) : Frame → Frame
  | [] => []
  | b :: older => if name = b.1 then (name, a) :: older else b :: replace name a older

/-- Bind a name in a frame: in the place of its latest binding, or behind all others. -/
def bind (name : String) (a : Addr) (frame : Frame) : Frame :=
  if (place? name frame).isSome then replace name a frame else (name, a) :: frame

/-- The number of bindings in some frames. -/
def size : List Frame → Nat
  | [] => 0
  | frame :: below => size below + frame.length

/-- The place of the latest binding of the name, where the places of a frame come behind those
of the frames below it. -/
def slotOf? (name : String) : List Frame → Option Nat
  | [] => none
  | frame :: below => ((place? name frame).map (size below + ·)).or (slotOf? name below)

/-- All frames, from the top down. -/
def all (f : Frames) : List Frame :=
  f.top :: f.below

/-- The cell of the latest binding of the name, from the top frame down. -/
def find? (f : Frames) (name : String) : Option Addr :=
  f.all.findSome? (List.lookup name)

/-- The cell of the binding with so many older ones. -/
def get? (f : Frames) (slot : Nat) : Option Addr :=
  f.all.flatten.reverse[slot]?.map Prod.snd

/-- Where a definition of the name goes. -/
def definedSlot (f : Frames) (name : String) : Nat :=
  size f.below + (place? name f.top).getD f.top.length

/-- Write to the cell that the name means, or else bind it in the top frame. -/
def assignOrAppend (f : Frames) (h : Heap κ) (name : String) (v : Value κ) : Frames × Heap κ :=
  match f.find? name with
  | some a => (f, h.write a v)
  | none => (⟨(name, h.next) :: f.top, f.below⟩, h.alloc v)

/-- Carry out an operation. -/
def step : Frames × Heap κ → Env.Op κ → Env.Answer κ × (Frames × Heap κ)
  | (f, h), .define name v =>
      (.defined (f.definedSlot name), (⟨bind name h.next f.top, f.below⟩, h.alloc v))
  | (f, h), .set name v => (.done, f.assignOrAppend h name v)
  | (f, h), .get name => (.cell (f.find? name), (f, h))
  | (f, h), .slotOf name => (.slot (slotOf? name f.all), (f, h))
  | (f, h), .getSlot slot =>
      let r := Env.withCell (f.get? slot) h fun a => (.value (h.read a), h)
      (r.1, (f, r.2))
  | (f, h), .setSlot slot v =>
      let r := Env.withCell (f.get? slot) h fun a => (.done, h.write a v)
      (r.1, (f, r.2))
  | (f, h), .push => (.done, (⟨[], f.all⟩, h))
  | (f, h), .pop =>
      match f.below with
      | frame :: below => (.done, (⟨frame, below⟩, h))
      | [] => (.indexError, (f, h))

/-! ## §3. Layout in a row. -/

/-- Where the frames on top of the given ones start, the innermost first. -/
def starts : List Frame → List Nat
  | [] => []
  | frame :: below => size (frame :: below) :: starts below

/-- The frames in one row, the oldest binding first. -/
def toEnv (f : Frames) : Env Addr :=
  ⟨f.all.flatten.reverse, starts f.below⟩

/-- The row has the oldest frame first, each in the order of its declarations. -/
theorem toEnv_eq (top : Frame) (below : List Frame) :
    toEnv ⟨top, below⟩ = ⟨below.flatten.reverse ++ top.reverse, starts below⟩ := by
  show (⟨(top :: below).flatten.reverse, starts below⟩ : Env Addr) = _
  rw [List.flatten_cons, List.reverse_append]

theorem length_flatten (frames : List Frame) : frames.flatten.length = size frames := by
  induction frames with
  | nil => rfl
  | cons frame below ih =>
    rw [List.flatten_cons, List.length_append, ih, Nat.add_comm]
    rfl

/-- Turning a row round keeps its length. -/
theorem length_flatten_reverse (frames : List Frame) :
    frames.flatten.reverse.length = size frames := by
  rw [List.length_reverse, length_flatten]

theorem size_toEnv (f : Frames) : f.toEnv.size = size f.all :=
  length_flatten_reverse f.all

/-- The active scope is the top frame. -/
theorem activeStart_toEnv (f : Frames) : f.toEnv.activeStart = size f.below := by
  obtain ⟨top, below⟩ := f
  cases below with
  | nil => rfl
  | cons frame below => rfl

/-- What is behind the last mark is the active frame. -/
theorem drop_toEnv (f : Frames) :
    f.toEnv.bindings.drop f.toEnv.activeStart = f.top.reverse := by
  rw [activeStart_toEnv, toEnv_eq]
  exact List.drop_left' (length_flatten_reverse f.below)

/-! ## §4. Names in a row and in frames. -/

/-- The last place of a name in a row is its place in a frame, which is the row from the end. -/
theorem lastIndex?_reverse (name : String) (frame : Frame) :
    Env.lastIndex? name frame.reverse = place? name frame := by
  induction frame with
  | nil => rfl
  | cons b older ih =>
    rw [List.reverse_cons, Env.lastIndex?_append, ih, List.length_reverse]
    rfl

/-- The newest binding comes first. -/
theorem place?_cons (name : String) (b : String × Addr) (older : Frame) :
    place? name (b :: older) = if name = b.1 then some older.length else place? name older := rfl

/-- A name is looked for in newer bindings before older ones. -/
theorem place?_append (name : String) (newer older : Frame) :
    place? name (newer ++ older)
      = ((place? name newer).map (older.length + ·)).or (place? name older) := by
  induction newer with
  | nil => rfl
  | cons b newer ih =>
    rw [List.cons_append, place?_cons, place?_cons]
    by_cases hb : name = b.1
    · rw [if_pos hb, if_pos hb, List.length_append, Nat.add_comm]
      rfl
    · rw [if_neg hb, if_neg hb, ih]

/-- Places in frames that are put together are slots. -/
theorem place?_flatten (name : String) (frames : List Frame) :
    place? name frames.flatten = slotOf? name frames := by
  induction frames with
  | nil => rfl
  | cons frame below ih =>
    rw [List.flatten_cons, place?_append, ih, length_flatten]
    rfl

/-- A place is within its frame. -/
theorem place?_lt {name : String} {frame : Frame} {i : Nat} (h : place? name frame = some i) :
    i < frame.length := by
  induction frame with
  | nil => cases h
  | cons b older ih =>
    rw [place?_cons] at h
    split at h
    · cases h
      exact Nat.lt_succ_self _
    · exact Nat.lt_succ_of_lt (ih h)

/-- A name has no place in a frame that does not bind it. -/
theorem place?_eq_none_iff {name : String} {frame : Frame} :
    place? name frame = none ↔ name ∉ frame.map Prod.fst := by
  rw [← lastIndex?_reverse, Env.lastIndex?_eq_none_iff, List.map_reverse, List.mem_reverse]

/-- In the row, the latest binding of the name is the one in its slot. -/
theorem reverse_replace {name : String} {a : Addr} {frame : Frame} {i : Nat}
    (h : place? name frame = some i) :
    (replace name a frame).reverse = frame.reverse.set i (name, a) := by
  induction frame with
  | nil => cases h
  | cons b older ih =>
    rw [place?_cons] at h
    unfold replace
    split at h
    · next hb =>
      cases h
      rw [if_pos hb, List.reverse_cons, List.reverse_cons,
        List.set_append_right _ _ (Nat.le_of_eq List.length_reverse), List.length_reverse,
        Nat.sub_self]
      rfl
    · next hb =>
      have hlt : i < older.reverse.length := by
        rw [List.length_reverse]
        exact place?_lt h
      rw [if_neg hb, List.reverse_cons, List.reverse_cons, ih h, List.set_append_left _ _ hlt]

/-- Looking a name up in frames put together is looking it up frame by frame. -/
theorem lookup_flatten (name : String) (frames : List Frame) :
    frames.flatten.lookup name = frames.findSome? (List.lookup name) := by
  induction frames with
  | nil => rfl
  | cons frame below ih =>
    rw [List.flatten_cons, List.lookup_append, ih, List.findSome?_cons]
    cases List.lookup name frame with
    | none => rfl
    | some a => rfl

/-- The innermost binding of the row is the first that is found from the latest on. -/
theorem find?_reverse (name : String) (marks : List Nat) (row : Frame) :
    Env.find? ⟨row.reverse, marks⟩ name = row.lookup name := by
  induction row with
  | nil => rfl
  | cons b older ih =>
    have happend : (⟨(b :: older).reverse, marks⟩ : Env Addr)
        = Env.append ⟨older.reverse, marks⟩ b.1 b.2 := by
      unfold Env.append
      rw [List.reverse_cons]
    rw [happend, Env.find?_append, ih, List.lookup_cons]
    by_cases hb : name = b.1
    · rw [if_pos hb, beq_iff_eq.2 hb]
    · rw [if_neg hb, beq_eq_false_iff_ne.2 hb]

/-! ## §5. The row does what the frames do. -/

/-- A name refers to the newest of its bindings, in either way of keeping them. -/
theorem find?_toEnv (f : Frames) (name : String) : f.toEnv.find? name = f.find? name := by
  show Env.find? ⟨f.all.flatten.reverse, starts f.below⟩ name = _
  rw [find?_reverse, lookup_flatten]
  rfl

/-- A slot counts the bindings of all frames from the oldest one on. -/
theorem slotOf?_toEnv (f : Frames) (name : String) :
    f.toEnv.slotOf? name = slotOf? name f.all := by
  show Env.lastIndex? name f.all.flatten.reverse = _
  rw [lastIndex?_reverse, place?_flatten]

/-- A slot of the active scope is a place in the active frame. -/
theorem activeSlot?_toEnv (f : Frames) (name : String) :
    f.toEnv.activeSlot? name = (place? name f.top).map (size f.below + ·) := by
  unfold Env.activeSlot?
  rw [drop_toEnv, lastIndex?_reverse, activeStart_toEnv]

/-- A declaration gets the slot of its name in the active frame, or a new one at the end. -/
theorem declaredSlot_toEnv (f : Frames) (name : String) :
    f.toEnv.declaredSlot name = f.definedSlot name := by
  unfold Env.declaredSlot definedSlot
  rw [activeSlot?_toEnv, size_toEnv]
  cases place? name f.top with
  | none => rfl
  | some i => rfl

/-- A binding at the end of the row is the newest of the active frame. -/
theorem append_toEnv (f : Frames) (name : String) (a : Addr) :
    f.toEnv.append name a = toEnv ⟨(name, a) :: f.top, f.below⟩ := by
  rw [toEnv_eq, toEnv_eq, List.reverse_cons, ← List.append_assoc]
  rfl

/-- **A declaration binds the name in the top frame.** -/
theorem declare_toEnv (f : Frames) (name : String) (a : Addr) :
    f.toEnv.declare name a = toEnv ⟨bind name a f.top, f.below⟩ := by
  unfold Env.declare bind
  rw [activeSlot?_toEnv]
  cases hplace : place? name f.top with
  | none => exact append_toEnv f name a
  | some i =>
    have hlen := length_flatten_reverse f.below
    have hle : f.below.flatten.reverse.length ≤ size f.below + i := by omega
    have hplaced : size f.below + i - f.below.flatten.reverse.length = i := by omega
    rw [toEnv_eq, Option.isSome_some, if_pos rfl, toEnv_eq, reverse_replace hplace]
    simp only [Option.map_some, List.set_append_right _ _ hle, hplaced]

/-- An assignment finds the same cell, or adds a binding to the active frame. -/
theorem assignOrAppend_toEnv (f : Frames) (h : Heap κ) (name : String) (v : Value κ) :
    f.toEnv.assignOrAppend h name v
      = ((f.assignOrAppend h name v).1.toEnv, (f.assignOrAppend h name v).2) := by
  unfold Env.assignOrAppend assignOrAppend
  rw [find?_toEnv, append_toEnv]
  cases f.find? name with
  | some a => rfl
  | none => rfl

/-- Opening a scope puts an empty frame on top, and its mark is where the row ends. -/
theorem openScope_toEnv (f : Frames) : f.toEnv.openScope = toEnv ⟨[], f.all⟩ := by
  unfold Env.openScope
  rw [size_toEnv]
  rfl

/-- The scope that is closed is the top frame. -/
theorem closeScope?_toEnv (top frame : Frame) (below : List Frame) :
    (toEnv ⟨top, frame :: below⟩).closeScope? = some (toEnv ⟨frame, below⟩) := by
  have htake : (toEnv ⟨top, frame :: below⟩).bindings.take (size (frame :: below))
      = (frame :: below).flatten.reverse := by
    rw [toEnv_eq]
    exact List.take_left' (length_flatten_reverse _)
  show some (⟨(toEnv ⟨top, frame :: below⟩).bindings.take (size (frame :: below)),
    starts below⟩ : Env Addr) = _
  rw [htake]
  rfl

/-- **The row does what the frames do**, and gives the same answers. -/
theorem step_toEnv (f : Frames) (h : Heap κ) (op : Env.Op κ) :
    Env.step (f.toEnv, h) op
      = ((step (f, h) op).1, ((step (f, h) op).2.1.toEnv, (step (f, h) op).2.2)) := by
  cases op with
  | define name v =>
    show (Env.Answer.defined (f.toEnv.declaredSlot name), f.toEnv.declare name h.next, h.alloc v)
      = _
    rw [declaredSlot_toEnv, declare_toEnv]
    rfl
  | set name v =>
    show (Env.Answer.done, f.toEnv.assignOrAppend h name v) = _
    rw [assignOrAppend_toEnv]
    rfl
  | get name =>
    show (Env.Answer.cell (f.toEnv.find? name), f.toEnv, h) = _
    rw [find?_toEnv]
    rfl
  | slotOf name =>
    show (Env.Answer.slot (f.toEnv.slotOf? name), f.toEnv, h) = _
    rw [slotOf?_toEnv]
    rfl
  | getSlot slot => rfl
  | setSlot slot v => rfl
  | push =>
    show (Env.Answer.done, f.toEnv.openScope, h) = _
    rw [openScope_toEnv]
    rfl
  | pop =>
    obtain ⟨top, below⟩ := f
    cases below with
    | nil => rfl
    | cons frame below =>
      unfold Env.step
      dsimp only
      rw [closeScope?_toEnv]
      rfl

end Frames

end LoxLang
