/-
  LoxLang.Proofs.InPlace.Simulation
  ─────────────────────────────────
  **The machine and the evaluator in place do the same.**  A world depicts a machine if its
  cells hold the same values, and the environment in which code runs is the machine's local
  one.  A function of the world depicts one of the machine if the environment it captured is
  the one at its number in the row, and its body, with the slots of its table filled in, is
  the body with slots.

  That a function goes on to depict what it did is the point: it does so as long as nobody
  changes the environment at its number (`Depicts.later`).  So the two are shown at once, that
  code does what the machine does and that it changes no environment but its own (`Acts`),
  and every watch lets it pass.
-/
import LoxLang.Proofs.InPlace.Frame
import LoxLang.Proofs.Machine.Locals
import LoxLang.Proofs.Machine.Related

namespace LoxLang

namespace InPlace

/-! ## §1. Worlds that depict machines. -/

/-- A function of the world depicts one of the machine. -/
structure SameHeld (w : World) (decl : FunDecl) (held : Held) (decl' : FunDecl)
    (captured : Captured) : Prop where
  filled : decl' = decl.fill held.table
  tidy : ∀ s ∈ decl.body, s.Tidy
  env : captured = w.locals held.env
  known : ∀ id, held.env = some id → id ∈ w.captures

/-- A value of the world depicts one of the machine. -/
abbrev Depicts (w : World) : Value Held → Value → Prop :=
  Value.Rel (SameHeld w)

/-- The world depicts the machine, for code in the environment `here`. -/
structure Depicted (here : Option Nat) (w : World) (n : Machine) : Prop where
  heap : Heap.Rel (Depicts w) w.heap n.heap
  globals : w.globals = n.globals
  locals : w.locals here = n.locals
  output : w.output = n.output
  owned : Owned here w

/-- A function that has captured an environment keeps it in later worlds. -/
theorem SameHeld.later {w w' : World} {decl : FunDecl} {held : Held} {decl' : FunDecl}
    {captured : Captured} (h : SameHeld w decl held decl' captured) (hlater : Later w w') :
    SameHeld w' decl held decl' captured := by
  refine ⟨h.filled, h.tidy, ?_, fun id hid => (hlater id (h.known id hid)).1⟩
  rw [h.env]
  unfold World.locals
  cases henv : held.env with
  | none => rfl
  | some id =>
    show w.envs[id]? = w'.envs[id]?
    rw [(hlater id (h.known id henv)).2]

/-- A value depicts what it did for as long as captured environments stay as they are. -/
theorem Depicts.later {w w' : World} {v : Value Held} {v' : Value} (h : Depicts w v v')
    (hlater : Later w w') : Depicts w' v v' := by
  cases h with
  | nil => exact .nil
  | bool b => exact .bool b
  | number x => exact .number x
  | string s => exact .string s
  | function hheld => exact .function (hheld.later hlater)

/-- A heap goes on to depict the other, cell by cell. -/
theorem heapRel_later {w w' : World} {heap : Heap Held} {heap' : Heap}
    (h : Heap.Rel (Depicts w) heap heap') (hlater : Later w w') :
    Heap.Rel (Depicts w') heap heap' :=
  ⟨h.1, fun a => (h.2 a).later hlater⟩

/-- What is printed of a value does not depend on what it has captured. -/
theorem Depicts.text_eq {w : World} {v : Value Held} {v' : Value} (h : Depicts w v v') :
    v.text = v'.text := by
  refine Value.Rel.text_eq ?_ h
  intro decl held decl' captured hheld
  rw [hheld.filled]
  rfl

/-- Two computations of the world and the machine end alike. -/
abbrev Ends (w : World) : Completion Held → Completion → Prop :=
  Completion.Rel (Depicts w)

/-- What is returned goes on to depict what it did. -/
theorem Ends.later {w w' : World} {c : Completion Held} {c' : Completion} (h : Ends w c c')
    (hlater : Later w w') : Ends w' c c' := by
  cases h with
  | normal => exact .normal
  | returned hv => exact .returned (hv.later hlater)

/-- Results that are related stay so if the values in them do. -/
theorem sameResult_later {α β : Type} {R : World → α → β → Prop} {w w' : World}
    {a : Except Halt α} {b : Except Halt β} (hR : ∀ {a b}, R w a b → R w' a b)
    (h : SameResult (R w) a b) : SameResult (R w') a b := by
  cases a with
  | ok u =>
    cases b with
    | ok v => exact hR h
    | error halt => exact h
  | error halt =>
    cases b with
    | ok v => exact h
    | error halt' => exact h

/-! ## §2. Computations that act alike. -/

section

variable {α α' β β' : Type} {here : Option Nat} {w : World}
variable {p q r : Env Addr → Env Addr → Prop}
variable {R : World → α → β → Prop} {S : World → α' → β' → Prop}
variable {x : Walk α} {y : Exec β}

/-- From `w` on, `x` does what `y` does on a machine that `w` depicts, and changes its own
environment as `p` has it, and no other. -/
def Acts (here : Option Nat) (p : Env Addr → Env Addr → Prop) (R : World → α → β → Prop)
    (w : World) (x : Walk α) (y : Exec β) : Prop :=
  ∀ n, Depicted here w n →
    Changes here p w (x w).2 ∧ Depicted here (x w).2 (y n).2
      ∧ SameResult (R (x w).2) (x w).1 (y n).1

/-- The environment stays as it is. -/
abbrev Same : Env Addr → Env Addr → Prop :=
  Allowed false

/-- Giving related results acts alike. -/
theorem Acts.pure (hp : ∀ e, p e e) {a : α} {b : β} (h : R w a b) :
    Acts here p R w (pure a) (pure b) :=
  fun _ hn => ⟨.refl hp w, hn, h⟩

/-- Stopping for the same reason acts alike. -/
theorem Acts.throw (hp : ∀ e, p e e) (halt : Halt) :
    Acts here p R w (throw halt) (throw halt) :=
  fun _ hn => ⟨.refl hp w, hn, rfl⟩

/-- More changes may be allowed than are made. -/
theorem Acts.mono (h : Acts here p R w x y) (hpq : ∀ e e', p e e' → q e e') :
    Acts here q R w x y := by
  intro n hn
  obtain ⟨hchanges, hrest⟩ := h n hn
  exact ⟨hchanges.mono hpq, hrest⟩

/-- The world may be looked at, since it is given. -/
theorem Acts.get_left {f : World → Walk α} (h : Acts here p R w (f w) y) :
    Acts here p R w (get >>= f) y := h

/-- The machine may be looked at through the world that depicts it. -/
theorem Acts.get_right {g : Machine → Exec β}
    (h : ∀ n, Depicted here w n → Acts here p R w x (g n)) : Acts here p R w x (get >>= g) :=
  fun n hn => h n hn n hn

/-- Updates act alike if they lead from what is depicted to what is depicted. -/
theorem Acts.modify {R : World → Unit → Unit → Prop} {f : World → World} {g : Machine → Machine}
    (h : ∀ n, Depicted here w n →
      Changes here p w (f w) ∧ Depicted here (f w) (g n) ∧ R (f w) () ()) :
    Acts here p R w (modify f) (modify g) :=
  h

/-- What follows starts in the world that was reached, with results that are related
there. -/
theorem Acts.bind (h : Acts here p R w x y) {f : α → Walk α'} {g : β → Exec β'}
    (hpr : ∀ e e', p e e' → r e e') (hpqr : ∀ e e' e'', p e e' → q e' e'' → r e e'')
    (hf : ∀ a b w', Changes here p w w' → Later w w' → R w' a b →
      Acts here q S w' (f a) (g b)) :
    Acts here r S w (x >>= f) (y >>= g) := by
  intro n hn
  obtain ⟨hchanges, hdepicted, hresult⟩ := h n hn
  rcases hx : x w with ⟨e | a, w'⟩
  · rw [hx] at hchanges hdepicted hresult
    rcases hy : y n with ⟨e' | b, n'⟩
    · rw [hy] at hdepicted hresult
      rw [Attempt.bind_error hx, Attempt.bind_error hy]
      exact ⟨hchanges.mono hpr, hdepicted, hresult⟩
    · rw [hy] at hresult
      exact hresult.elim
  · rw [hx] at hchanges hdepicted hresult
    rcases hy : y n with ⟨e' | b, n'⟩
    · rw [hy] at hresult
      exact hresult.elim
    · rw [hy] at hdepicted hresult
      rw [Attempt.bind_ok hx, Attempt.bind_ok hy]
      obtain ⟨hchanges', hrest⟩ :=
        hf a b w' hchanges (hchanges.later hn.owned) hresult n' hdepicted
      exact ⟨hchanges.trans hchanges' hpqr, hrest⟩

/-- What follows may do what it may do at all, if its own environment is as it was. -/
theorem Acts.still_bind (h : Acts here Same R w x y) (hq : ∀ e, q e e) {f : α → Walk α'}
    {g : β → Exec β'} (hf : ∀ a b w', Changes here Same w w' → Later w w' → R w' a b →
      Acts here q S w' (f a) (g b)) : Acts here q S w (x >>= f) (y >>= g) := by
  refine h.bind ?_ ?_ hf
  · rintro e e' rfl
    exact hq e'
  · rintro e e' e'' rfl hq
    exact hq

/-- What leaves the environment as it is may follow whatever there was. -/
theorem Acts.bind_still (h : Acts here p R w x y) {f : α → Walk α'} {g : β → Exec β'}
    (hf : ∀ a b w', Changes here p w w' → Later w w' → R w' a b →
      Acts here Same S w' (f a) (g b)) : Acts here p S w (x >>= f) (y >>= g) := by
  refine h.bind (fun _ _ hp => hp) ?_ hf
  rintro e e' e'' hp rfl
  exact hp

/-- **A watch lets pass what changes its own environment as it may.** -/
theorem Acts.watch {declares : Bool} (h : Acts here (Allowed declares) R w x y) :
    Acts here (Allowed declares) R w (watch declares here x) y := by
  intro n hn
  have hacts := h n hn
  rw [watch_eq hn.owned hacts.1]
  exact hacts

end

/-! ## §3. Variables. -/

section

variable {here : Option Nat} {w : World}

/-- Doing nothing leaves an environment as it is. -/
theorem same_refl (e : Env Addr) : Same e e := rfl

theorem acts_write (text : String) :
    Acts here Same (fun _ _ _ => True) w (write text) (Exec.write text) := by
  refine .modify ?_
  intro n hn
  obtain ⟨heap, globals, locals, output⟩ := n
  obtain ⟨hheap, hglobals, hlocals, houtput, howned⟩ := hn
  have hchanges : Changes here Same w { w with output := w.output ++ text } :=
    .of_eq same_refl rfl rfl rfl
  refine ⟨hchanges, ⟨?_, hglobals, hlocals, ?_, howned.changes hchanges⟩, trivial⟩
  · exact heapRel_later hheap (hchanges.later howned)
  · show w.output ++ text = output ++ text
    rw [houtput]

/-- An operator on depicted values gives values that are depicted, or the same error. -/
theorem acts_ofExcept {a : Except RuntimeError (Value Held)} {b : Except RuntimeError Value}
    (h : (∃ u u', a = .ok u ∧ b = .ok u' ∧ Depicts w u u') ∨ ∃ e, a = .error e ∧ b = .error e) :
    Acts here Same Depicts w (Exec.ofExcept a) (Exec.ofExcept b) := by
  rcases h with ⟨u, u', rfl, rfl, hu⟩ | ⟨e, rfl, rfl⟩
  · exact .pure same_refl hu
  · exact .throw same_refl _

/-- A node finds through the table the cell that its slot leads to. -/
theorem acts_cell (ref : Ref) :
    Acts here Same (fun _ a b => a = b) w (cell here ref) (Exec.cell (ref.fill w.table)) := by
  have hslot : (ref.fill w.table).slot = w.table.slot? ref := rfl
  refine .get_left ?_
  unfold Exec.cell
  rw [hslot]
  cases w.table.slot? ref with
  | some slot =>
    refine .get_right fun n hn => ?_
    rw [← hn.locals]
    dsimp only
    cases (w.locals here).bind (·.get? slot) with
    | some a => exact .pure same_refl rfl
    | none => exact .throw same_refl _
  | none =>
    refine .get_right fun n hn => ?_
    rw [← hn.globals]
    rw [show (ref.fill w.table).name = ref.name from rfl]
    dsimp only
    cases w.globals.find? ref.name with
    | some a => exact .pure same_refl rfl
    | none => exact .throw same_refl _

/-- A variable is read from the same cell on both sides. -/
theorem acts_load (ref : Ref) :
    Acts here Same Depicts w (load here ref) (Exec.load (ref.fill w.table)) := by
  refine (acts_cell ref).still_bind same_refl fun a b w' _ _ hab => ?_
  subst hab
  refine .get_left (.get_right fun n hn => ?_)
  exact .pure same_refl (hn.heap.2 a)

/-- A variable is written in the same cell on both sides. -/
theorem acts_store (ref : Ref) {v : Value Held} {v' : Value} (hv : Depicts w v v') :
    Acts here Same (fun _ _ _ => True) w (store here ref v)
      (Exec.store (ref.fill w.table) v') := by
  refine (acts_cell ref).still_bind same_refl fun a b w' _ hlater hab => ?_
  subst hab
  refine .modify ?_
  intro n hn
  obtain ⟨heap, globals, locals, output⟩ := n
  obtain ⟨hheap, hglobals, hlocals, houtput, howned⟩ := hn
  have hchanges : Changes here Same w' { w' with heap := w'.heap.write a v } :=
    .of_eq same_refl rfl rfl rfl
  refine ⟨hchanges, ⟨?_, hglobals, hlocals, houtput, howned.changes hchanges⟩, trivial⟩
  exact heapRel_later (hheap.write (hv.later hlater) a) (hchanges.later howned)

/-- A declaration takes the same new cell, under the same name. -/
theorem acts_declare (name : String) {v : Value Held} {v' : Value} (hv : Depicts w v v') :
    Acts here (Allowed true) (fun _ _ _ => True) w (declare here name v)
      (Exec.declare name v') := by
  refine .modify ?_
  intro n hn
  obtain ⟨heap, globals, locals, output⟩ := n
  obtain ⟨hheap, hglobals, hlocals, houtput, howned⟩ := hn
  have hnext : w.heap.next = heap.next := hheap.1
  cases here with
  | none =>
    have htop : locals = none := hlocals.symm
    subst htop
    have hchanges : Changes none (Allowed true) w
        { w with heap := w.heap.alloc v, globals := w.globals.declare name w.heap.next } :=
      .of_eq (allowed_refl true) rfl rfl rfl
    refine ⟨hchanges, ⟨?_, ?_, rfl, houtput, howned.changes hchanges⟩, trivial⟩
    · exact heapRel_later (hheap.alloc hv) (hchanges.later howned)
    · show w.globals.declare name w.heap.next = globals.declare name heap.next
      rw [hglobals, hnext]
  | some id =>
    have hid := howned.here_lt id rfl
    obtain ⟨e, he⟩ : ∃ e, w.envs[id]? = some e := ⟨_, List.getElem?_eq_getElem hid⟩
    have hlocal : locals = some e := hlocals.symm.trans he
    subst hlocal
    have hchanges : Changes (some id) (Allowed true) w
        { w.put id (e.declare name w.heap.next) with heap := w.heap.alloc v } :=
      changes_put he (Env.edited_declare e name _) _
    simp only [he]
    refine ⟨hchanges, ⟨?_, hglobals, ?_, houtput, howned.changes hchanges⟩, trivial⟩
    · exact heapRel_later (hheap.alloc hv) (hchanges.later howned)
    · show (w.envs.set id (e.declare name w.heap.next))[id]? = some (e.declare name heap.next)
      rw [List.getElem?_set_self hid, hnext]

/-- A function captures a copy of the environment; it has a number of its own, and is known
from now on. -/
theorem acts_capture :
    Acts here Same (fun w held captured => captured = w.locals held.env
        ∧ (∀ id, held.env = some id → id ∈ w.captures) ∧ held.table = w.table)
      w (capture here) (do return (← get).locals.map Env.capture) := by
  intro n hn
  obtain ⟨hheap, hglobals, hlocals, houtput, howned⟩ := hn
  have hrun : (do return (← get).locals.map Env.capture : Exec Captured) n
      = (.ok (n.locals.map Env.capture), n) := rfl
  rw [hrun, ← hlocals]
  cases he : w.locals here with
  | none =>
    have hcapture : capture here w = (.ok ⟨none, w.table⟩, w) := by
      unfold capture
      rw [he]
    rw [hcapture]
    exact ⟨.refl same_refl w, ⟨hheap, hglobals, hlocals, houtput, howned⟩, rfl, nofun, rfl⟩
  | some e =>
    have hcapture : capture here w = (.ok ⟨some w.envs.length, w.table⟩,
        { w.push e.capture with captures := w.captures ++ [w.envs.length] }) := by
      unfold capture
      rw [he]
    have hchanges := changes_capture howned e.capture
    rw [hcapture]
    refine ⟨hchanges, ⟨?_, hglobals, ?_, houtput, howned.changes hchanges⟩, ?_, ?_, rfl⟩
    · exact heapRel_later hheap (hchanges.later howned)
    · rw [hchanges.locals_eq howned]
      exact hlocals
    · show some e.capture = (w.envs ++ [e.capture])[w.envs.length]?
      rw [List.getElem?_append_right (Nat.le_refl _), Nat.sub_self]
      rfl
    · intro id hid
      cases hid
      exact List.mem_append_right w.captures List.mem_cons_self

end

/-! ## §4. Blocks and calls. -/

section

variable {here : Option Nat} {w : World} {n : Machine}

/-- Code that runs in an environment of its own, with a table of its own, does what the
machine does in that environment. -/
theorem acts_inNew {p : Env Addr → Env Addr → Prop} {x : Walk (Completion Held)}
    {y : Exec Completion} (hn : Depicted here w n) {e : Env Addr} {heap : Heap Held}
    {heap' : Heap} {table : SlotTable} (hheap : Heap.Rel (Depicts w) heap heap')
    (h : Acts (some w.envs.length) p Ends { w.push e with heap := heap, table := table } x y)
    {a : Except Halt (Completion Held)} {b : Except Halt Completion} {w' : World} {n' : Machine}
    (hx : x { w.push e with heap := heap, table := table } = (a, w'))
    (hy : y ⟨heap', n.globals, some e, n.output⟩ = (b, n')) :
    w'.table = table ∧ Changes here Same w { w' with table := w.table }
      ∧ Depicted here { w' with table := w.table } { n' with locals := n.locals }
      ∧ SameResult (Ends { w' with table := w.table }) a b := by
  have hlater : Later w { w.push e with heap := heap, table := table } := by
    intro id hid
    exact ⟨hid, List.getElem?_append_left (hn.owned.captures_lt id hid)⟩
  have hentered : Depicted (some w.envs.length) { w.push e with heap := heap, table := table }
      ⟨heap', n.globals, some e, n.output⟩ := by
    have howned := hn.owned.push e
    refine ⟨heapRel_later hheap hlater, hn.globals, ?_, hn.output, ?_⟩
    · show (w.envs ++ [e])[w.envs.length]? = some e
      rw [List.getElem?_append_right (Nat.le_refl _), Nat.sub_self]
      rfl
    · exact ⟨howned.captures_lt, howned.here_lt, howned.here_free⟩
  have hacts := h _ hentered
  rw [hx, hy] at hacts
  obtain ⟨hchanges, hdepicted, hresult⟩ := hacts
  have hback : Changes here Same w { w' with table := w.table } :=
    hchanges.of_new hn.owned rfl rfl
  -- the table is nothing to what functions have captured
  have hsame : Later w' { w' with table := w.table } := fun id hid => ⟨hid, rfl⟩
  refine ⟨hchanges.table, hback, ⟨heapRel_later hdepicted.heap hsame, hdepicted.globals, ?_,
    hdepicted.output, hn.owned.changes hback⟩,
    sameResult_later (fun h => h.later hsame) hresult⟩
  rw [hback.locals_eq hn.owned]
  exact hn.locals

/-- A block closes the scope that it opened, and has its environment back as it was. -/
theorem acts_inBlock {body : Option Nat → Walk (Completion Held)} {body' : Exec Completion}
    (h : ∀ here w', w'.table = w.table → Acts here Env.Grown Ends w' (body here) body') :
    Acts here Same Ends w (inBlock here body) (Exec.inBlock body') := by
  intro n hn
  have howned := hn.owned
  rcases hy : body' (Exec.entered n) with ⟨b, n'⟩
  obtain ⟨heap, globals, locals, output⟩ := n
  cases here with
  | none =>
    have htop : locals = none := hn.locals.symm
    subst htop
    rcases hx : body (some w.envs.length) (w.push .empty) with ⟨a, w'⟩
    obtain ⟨htable, hacts⟩ :=
      acts_inNew hn hn.heap (h (some w.envs.length) (w.push .empty) rfl) hx hy
    rw [← show w'.table = w.table from htable] at hacts
    have hblock : inBlock none body w = (a, w') := hx
    have hblock' : Exec.inBlock body' ⟨heap, globals, none, output⟩
        = (b, { n' with locals := none }) := by
      have hy' : body' ⟨heap, globals, some .empty, output⟩ = (b, n') := hy
      unfold Exec.inBlock
      simp only [hy']
    rw [hblock, hblock']
    exact hacts
  | some id =>
    obtain ⟨e, he⟩ : ∃ e, w.envs[id]? = some e :=
      ⟨_, List.getElem?_eq_getElem (howned.here_lt id rfl)⟩
    have hlocal : locals = some e := hn.locals.symm.trans he
    subst hlocal
    have hopen := changes_openScope he
    have hentered : Depicted (some id) (w.put id e.openScope)
        (Exec.entered ⟨heap, globals, some e, output⟩) :=
      ⟨heapRel_later hn.heap (hopen.later howned), hn.globals,
        List.getElem?_set_self (howned.here_lt id rfl), hn.output, howned.changes hopen⟩
    rcases hx : body (some id) (w.put id e.openScope) with ⟨a, w'⟩
    have hacts := h (some id) (w.put id e.openScope) rfl _ hentered
    rw [hx, hy] at hacts
    obtain ⟨hchanges, hdepicted, hresult⟩ := hacts
    obtain ⟨e', he', hgrown⟩ := hchanges.own e.openScope hentered.locals
    -- the scope that is closed is the one that was opened, on either side
    have hblock : inBlock (some id) body w = (a, w'.put id e) := by
      unfold inBlock
      simp only [he, hx]
      rw [show w'.envs[id]? = some e' from he', Option.bind_some, hgrown.closeScope?]
    have hlocals : Option.Rel Env.Grown (some e.openScope) n'.locals := by
      rw [← hdepicted.locals, show w'.locals (some id) = some e' from he']
      exact .some hgrown
    rw [hblock, Exec.inBlock_eq hy hlocals]
    have hclose := changes_closeScope he' hgrown.closeScope?
    have hback := (hopen.trans hchanges fun _ _ _ hopened hgrown => hopened ▸ hgrown).closed hclose
    have hlater := hclose.later hdepicted.owned
    refine ⟨hback, ⟨heapRel_later hdepicted.heap hlater, hdepicted.globals, ?_,
      hdepicted.output, howned.changes hback⟩,
      sameResult_later (fun h => h.later hlater) hresult⟩
    rw [hback.locals_eq howned]
    exact hn.locals

/-- A call runs in a copy of what the function captured, and with its table; then the caller
has environment and table back as they were. -/
theorem acts_inCall {decl decl' : FunDecl} {held : Held} {captured : Captured}
    (hheld : SameHeld w decl held decl' captured) {arguments : List (Value Held)}
    {arguments' : List Value} (harguments : List.Forall₂ (Depicts w) arguments arguments')
    {body : Option Nat → Walk (Completion Held)} {body' : Exec Completion}
    (h : ∀ here w', w'.table = held.table → Acts here Env.Grown Ends w' (body here) body') :
    Acts here Same Ends w (inCall decl held arguments body)
      (Exec.inCall decl' captured captured arguments' body') := by
  intro n hn
  have hvalues : List.Forall₂ (fun x y => x.1 = y.1 ∧ Depicts w x.2 y.2)
      ((decl.name, .function decl held) :: decl.params.zip arguments)
      ((decl'.name, .function decl' captured) :: decl'.params.zip arguments') := by
    refine .cons ⟨?_, .function hheld⟩ ?_
    · rw [hheld.filled]
      rfl
    · rw [show decl'.params = decl.params by rw [hheld.filled]; rfl]
      exact forall₂_zip harguments decl.params
  obtain ⟨henv, hheap⟩ :=
    Env.declareCells_rel hn.heap hvalues ((captured.map Env.capture).getD .empty)
  rcases hstart : Exec.activation decl (w.locals held.env) held arguments w.heap with ⟨e, heap⟩
  rcases hstart' : Exec.activation decl' captured captured arguments' n.heap with ⟨e', heap'⟩
  unfold Exec.activation at hstart hstart'
  rw [← hheld.env] at hstart
  rw [hstart, hstart'] at henv hheap
  have hsame : e = e' := henv
  subst hsame
  rcases hx : body (some w.envs.length) { w.push e with heap := heap, table := held.table } with
    ⟨a, w'⟩
  rcases hy : body' ⟨heap', n.globals, some e, n.output⟩ with ⟨b, n'⟩
  have hcall : inCall decl held arguments body w = (a, { w' with table := w.table }) := by
    unfold inCall Exec.activation
    rw [← hheld.env]
    simp only [hstart, hx]
  have hcall' : Exec.inCall decl' captured captured arguments' body' n
      = (b, { n' with locals := n.locals }) := by
    refine Exec.inCall_eq ?_
    unfold Exec.called Exec.activation
    rw [hstart']
    exact hy
  rw [hcall, hcall']
  exact (acts_inNew hn hheap (h _ _ rfl) hx hy).2

/-- A call of a depicted function runs its body with the slots that the table has by then. -/
theorem acts_callValue {run : Option Nat → FunDecl → Walk (Completion Held)}
    {run' : FunDecl → Captured → Exec Completion}
    (hrun : ∀ here w decl captured, (∀ s ∈ decl.body, s.Tidy) →
      Acts here Env.Grown Ends w (run here decl) (run' (decl.fill w.table) captured))
    (line : Int) {callee : Value Held} {callee' : Value} (hcallee : Depicts w callee callee')
    {arguments : List (Value Held)} {arguments' : List Value}
    (harguments : List.Forall₂ (Depicts w) arguments arguments') :
    Acts here Same Depicts w (callValue run line callee arguments)
      (Exec.callValue id run' line callee' arguments') := by
  cases hcallee with
  | @function decl held decl' captured hheld =>
    have harity : decl'.arity = decl.arity := by
      rw [hheld.filled]
      rfl
    have hlength : arguments'.length = arguments.length := harguments.length_eq.symm
    unfold callValue Exec.callValue
    dsimp only
    rw [harity, hlength]
    split
    · refine (acts_inCall hheld harguments ?_).still_bind same_refl fun c c' w' _ _ hc => ?_
      · intro here w' htable
        rw [hheld.filled, ← htable]
        exact hrun here w' decl captured hheld.tidy
      · cases hc with
        | normal => exact .pure same_refl .nil
        | returned hv => exact .pure same_refl hv
    · exact .throw same_refl _
  | nil => exact .throw same_refl _
  | bool b =>
    cases b with
    | false => exact .throw same_refl _
    | true => exact .throw same_refl _
  | number x => exact .throw same_refl _
  | string t => exact .throw same_refl _

end

/-! ## §5. Repetition. -/

section

variable {here : Option Nat} {table : SlotTable}

/-- A row of computations, while the table stays as it is. -/
theorem acts_each {ι κ α β : Type} {R : World → α → β → Prop} {step : ι → Walk α}
    {step' : κ → Exec β} {f : ι → κ}
    (hR : ∀ {w w' a b}, R w a b → Later w w' → R w' a b)
    (h : ∀ i w, w.table = table → Acts here Same R w (step i) (step' (f i))) :
    ∀ is w, w.table = table →
      Acts here Same (fun w => List.Forall₂ (R w)) w (Attempt.each step is)
        (Attempt.each step' (is.map f)) := by
  intro is
  induction is with
  | nil =>
    intro w _
    exact .pure same_refl .nil
  | cons i is ih =>
    intro w htable
    refine (h i w htable).still_bind same_refl fun a b w' hchanges _ hab => ?_
    refine (ih w' (hchanges.table.trans htable)).still_bind same_refl
      fun as bs w'' _ hlater hrest => ?_
    exact .pure same_refl (.cons (hR hab hlater) hrest)

/-- One statement after the other: each starts with the environment that the one before has
left, and none has changed it below the active scope. -/
theorem acts_sequence {step : Stmt → Walk (Completion Held)} {step' : Stmt → Exec Completion} :
    ∀ {body : List Stmt},
      (∀ s ∈ body, ∀ w, w.table = table →
        Acts here Env.Grown Ends w (step s) (step' (s.fill table))) →
      ∀ w, w.table = table →
        Acts here Env.Grown Ends w (Exec.sequence step body)
          (Exec.sequence step' (Stmt.fillAll table body)) := by
  intro body
  induction body with
  | nil =>
    intro _ w _
    exact .pure Env.Grown.refl .normal
  | cons s body ih =>
    intro h w htable
    have hs := h s List.mem_cons_self w htable
    refine hs.bind (fun _ _ hgrown => hgrown) (fun _ _ _ => Env.Grown.trans)
      fun c c' w' hchanges _ hc => ?_
    cases hc with
    | normal =>
      exact ih (fun t ht => h t (List.mem_cons_of_mem s ht)) w' (hchanges.table.trans htable)
    | returned hv => exact .pure Env.Grown.refl (.returned hv)

/-- A loop acts alike if its condition and its body do, while the table stays as it is. -/
theorem acts_loop {condition : Walk Bool} {condition' : Exec Bool}
    {body : Walk (Completion Held)} {body' : Exec Completion}
    (hcondition : ∀ w, w.table = table →
      Acts here Same (fun _ a b => a = b) w condition condition')
    (hbody : ∀ w, w.table = table → Acts here Same Ends w body body') :
    ∀ turns w, w.table = table →
      Acts here Same Ends w (Exec.loop condition body turns)
        (Exec.loop condition' body' turns) := by
  intro turns
  induction turns with
  | zero =>
    intro w _
    exact .throw same_refl _
  | succ turns ih =>
    intro w htable
    refine (hcondition w htable).still_bind same_refl fun a b w' hchanges _ hab => ?_
    subst hab
    have htable' : w'.table = table := hchanges.table.trans htable
    cases a with
    | false => exact .pure same_refl .normal
    | true =>
      refine (hbody w' htable').still_bind same_refl fun c c' w'' hchanges' _ hc => ?_
      cases hc with
      | normal => exact ih w'' (hchanges'.table.trans htable')
      | returned hv => exact .pure same_refl (.returned hv)

end

end InPlace

end LoxLang
