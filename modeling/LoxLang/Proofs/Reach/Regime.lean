/-
  LoxLang.Proofs.Reach.Regime
  ───────────────────────────
  **What running keeps up.**  A regime says which cells code may have in hand, what holds of
  every state, and how one state may lead to another.  It has a law for each thing that code
  can do to the machine: print, read and write a variable, declare one, change to other local
  variables, and call a function.  Whoever keeps these laws is obeyed by all programs
  (`obeys_program`), whatever they do and however they end.

  What code has in hand are the cells of its local variables and those that a function value
  has captured; no other value holds a cell.
-/
import LoxLang.Proofs.Reach.Journal

namespace LoxLang

/-! ## §1. Cells in hand. -/

/-- The cells of the variables of an environment. -/
def Env.cells (e : Env Addr) : List Addr :=
  e.bindings.map Prod.snd

/-- The cells of local variables, or of those that a function has captured. -/
def Captured.cells (locals : Captured) : List Addr :=
  locals.elim [] Env.cells

/-- The cells that a value has in hand: those that it has captured. -/
def Value.cells : Value → List Addr
  | .function _ captured => Captured.cells captured
  | _ => []

namespace Env

variable {e : Env Addr} {a : Addr}

/-- What a slot refers to is among the cells. -/
theorem mem_cells_of_get? {slot : Nat} (h : e.get? slot = some a) : a ∈ e.cells := by
  obtain ⟨b, hb, rfl⟩ := Option.map_eq_some_iff.1 h
  exact List.mem_map_of_mem (List.mem_of_getElem? hb)

theorem mem_cells_of_find? {name : String} (h : e.find? name = some a) : a ∈ e.cells := by
  obtain ⟨slot, -, hslot⟩ := Option.bind_eq_some_iff.1 h
  exact mem_cells_of_get? hslot

/-- A declaration brings in its own cell and no other. -/
theorem mem_cells_declare {name : String} {b : Addr} (h : a ∈ (e.declare name b).cells) :
    a ∈ e.cells ∨ a = b := by
  obtain ⟨x, hx, rfl⟩ := List.mem_map.1 h
  unfold declare at hx
  split at hx
  · rcases List.mem_or_eq_of_mem_set hx with hx | rfl
    · exact .inl (List.mem_map_of_mem hx)
    · exact .inr rfl
  · rcases List.mem_append.1 hx with hx | hx
    · exact .inl (List.mem_map_of_mem hx)
    · cases List.mem_singleton.1 hx
      exact .inr rfl

/-- A scope that is closed takes cells away and brings none in. -/
theorem mem_cells_closeScope? {e' : Env Addr} (hclose : e.closeScope? = some e')
    (h : a ∈ e'.cells) : a ∈ e.cells := by
  unfold closeScope? at hclose
  split at hclose
  · cases hclose
  · cases hclose
    obtain ⟨x, hx, rfl⟩ := List.mem_map.1 h
    exact List.mem_map_of_mem (List.mem_of_mem_take hx)

end Env

/-- Capturing an environment keeps its cells. -/
theorem Captured.cells_map_capture (l : Captured) :
    Captured.cells (l.map Env.capture) = Captured.cells l := by
  cases l with
  | none => rfl
  | some e => rfl

/-! ## §2. What code gets: literals and operators give no function, and so no cell. -/

theorem Literal.cells_toValue (value : Literal) : Value.cells value.toValue = [] := by
  cases value <;> rfl

theorem StrictOp.cells_of_apply {op : StrictOp} {line : Int} {v w u : Value}
    (h : op.apply line v w = .ok u) : u.cells = [] := by
  unfold StrictOp.apply at h
  split at h <;> cases h <;> rfl

theorem UnaryOp.cells_of_apply {op : UnaryOp} {line : Int} {v u : Value}
    (h : op.apply line v = .ok u) : u.cells = [] := by
  unfold UnaryOp.apply at h
  split at h <;> cases h <;> rfl

namespace Exec

variable {α : Type}

/-- A resolved mention is looked up by its slot; there is a fault where the slot is missing. -/
theorem cell_of_slot {ref : Ref} {slot : Nat} (h : ref.slot = some slot) (m : Machine) :
    cell ref m = ((m.locals.bind (·.get? slot)).elim (.error .fault) .ok, m) := by
  unfold cell
  rw [h]
  dsimp only
  rw [Attempt.bind_ok (Attempt.get_apply m)]
  cases m.locals.bind (·.get? slot) with
  | none => rfl
  | some a => rfl

/-- A mention without a slot is global, and looked up by its name. -/
theorem cell_of_name {ref : Ref} (h : ref.slot = none) (m : Machine) :
    cell ref m = ((m.globals.find? ref.name).elim
      (.error (.error ⟨.undefinedVariable ref.name, ref.line⟩)) .ok, m) := by
  unfold cell
  rw [h]
  dsimp only
  rw [Attempt.bind_ok (Attempt.get_apply m)]
  cases m.globals.find? ref.name with
  | none => rfl
  | some a => rfl

/-- A scope that is opened brings in no cells. -/
theorem mem_cells_entered {m : Machine} {a : Addr} (ha : a ∈ Captured.cells (entered m).locals) :
    a ∈ Captured.cells m.locals := by
  obtain ⟨heap, globals, locals, output⟩ := m
  cases locals with
  | none => cases ha
  | some e => exact ha

/-- At the end of a block, the local variables are some of those there were; the result is
that of the body, unless the scope of the block is missing. -/
theorem inBlock_leaves (result : Except Halt α) (m m' : Machine) :
    ∃ l result', inBlock (fun _ => (result, m')) m = (result', { m' with locals := l })
      ∧ (∀ a ∈ Captured.cells l, a ∈ Captured.cells m'.locals)
      ∧ (result' = result ∨ result' = .error .fault) := by
  obtain ⟨heap, globals, locals, output⟩ := m
  obtain ⟨heap', globals', locals', output'⟩ := m'
  cases locals with
  | none => exact ⟨none, result, rfl, nofun, .inl rfl⟩
  | some e =>
    cases hclose : locals'.bind Env.closeScope? with
    | none =>
      refine ⟨locals', .error .fault, ?_, fun _ h => h, .inr rfl⟩
      unfold inBlock
      simp only [hclose]
    | some e' =>
      obtain ⟨e'', he'', hclose'⟩ := Option.bind_eq_some_iff.1 hclose
      refine ⟨some e', result, ?_, ?_, .inl rfl⟩
      · unfold inBlock
        simp only [hclose]
      · intro a ha
        rw [he'']
        exact Env.mem_cells_closeScope? hclose' ha

end Exec

/-- The same of a block that is run with bookkeeping. -/
theorem Host.inBlock_leaves {σ α : Type} {H : Host σ} {body : Attempt Halt σ α} {s s' : σ}
    {result : Except Halt α}
    (hbody : body (H.advance s (Exec.entered (H.machine s))) = (result, s')) :
    ∃ l result', H.inBlock body s = (result', H.advance s' { H.machine s' with locals := l })
      ∧ (∀ a ∈ Captured.cells l, a ∈ Captured.cells (H.machine s').locals)
      ∧ (result' = result ∨ result' = .error .fault) := by
  obtain ⟨l, result', hleave, hl, hresult⟩ :=
    Exec.inBlock_leaves result (H.machine s) (H.machine s')
  refine ⟨l, result', ?_, hl, hresult⟩
  unfold inBlock
  rw [hbody]
  dsimp only
  rw [hleave]

/-! ## §3. Regimes. -/

/-- The journal with other local variables. -/
def Journal.within (j : Journal) (locals : Captured) : Journal :=
  { j with machine := { j.machine with locals := locals } }

/-- The journal with a value written to a cell. -/
def Journal.written (j : Journal) (a : Addr) (v : Value) : Journal :=
  { j with machine := { j.machine with heap := j.machine.heap.write a v } }

/-- The cells of the variables that code can name. -/
def Journal.named (j : Journal) : List Addr :=
  Captured.cells j.machine.locals ++ j.machine.globals.cells

/-- The body of a function ran from one journal to the other. -/
def Log.Ran (decl : FunDecl) (j j' : Journal) : Prop :=
  ∃ turns depth result,
    Log.evaluator.sequence (Log.evaluator.exec turns depth) () decl.body j = (result, j')

/-- What holds of every state, how states follow each other, and which cells code may have
in hand; with a law for each thing that code can do. -/
structure Regime where
  Inv : Journal → Prop
  Step : Journal → Journal → Prop
  Cell : Journal → Addr → Prop
  refl : ∀ j, Step j j
  trans : ∀ {j j' j''}, Step j j' → Step j' j'' → Step j j''
  /-- What was in hand may be kept. -/
  cell_of_step : ∀ {j j' a}, Step j j' → Cell j a → Cell j' a
  locals : ∀ {j}, Inv j → ∀ a ∈ Captured.cells j.machine.locals, Cell j a
  write : ∀ {j}, Inv j → ∀ text,
    Inv (Journal.host.lift (Exec.write text) j).2
      ∧ Step j (Journal.host.lift (Exec.write text) j).2
  load : ∀ {j}, Inv j → ∀ a ∈ j.named, ∀ b ∈ (j.machine.heap.read a).cells, Cell j b
  store : ∀ {j}, Inv j → ∀ a ∈ j.named, ∀ v : Value, (∀ b ∈ v.cells, Cell j b) →
    Inv (j.written a v) ∧ Step j (j.written a v)
  declare : ∀ {j}, Inv j → ∀ name (v : Value), (∀ b ∈ v.cells, Cell j b) →
    Inv (Log.declare name v j).2 ∧ Step j (Log.declare name v j).2
  relocate : ∀ {j}, Inv j → ∀ l, (∀ a ∈ Captured.cells l, Cell j a) →
    Inv (j.within l) ∧ Step j (j.within l)
  /-- What the body of a call has in hand at its end, its caller may have. -/
  cell_of_finished : ∀ {decl captured arguments j j' a}, Cell j' a →
    Cell (Log.finished decl captured arguments j j') a
  /-- A call starts on a state of the regime; and if its body keeps to it, so does the call. -/
  call : ∀ {j decl captured arguments}, Inv j →
    (∀ v ∈ Value.function decl captured :: arguments, ∀ a ∈ v.cells, Cell j a) →
    Inv (Log.called decl captured arguments j)
      ∧ ∀ j', Log.Ran decl (Log.called decl captured arguments j) j' → Inv j' →
        Step (Log.called decl captured arguments j) j' →
        Inv (Log.finished decl captured arguments j j')
          ∧ Step j (Log.finished decl captured arguments j j')

namespace Regime

variable {G : Regime} {α β : Type} {j j' : Journal}

/-- The value has in hand what it may. -/
def Fits (G : Regime) (j : Journal) (v : Value) : Prop :=
  ∀ a ∈ v.cells, G.Cell j a

/-- What a statement returns has in hand what it may. -/
def Ends (G : Regime) (j : Journal) : Completion → Prop
  | .normal => True
  | .returned v => G.Fits j v

/-- What code has in hand it keeps in hand. -/
theorem Fits.later {v : Value} (h : G.Fits j v) (hstep : G.Step j j') : G.Fits j' v :=
  fun a ha => G.cell_of_step hstep (h a ha)

/-- Started on `j`, the computation keeps to the regime, and `Q` holds of its result. -/
def Obeys (G : Regime) (Q : Journal → α → Prop) (x : Log α) (j : Journal) : Prop :=
  G.Inv j → G.Inv (x j).2 ∧ G.Step j (x j).2 ∧ ∀ a, (x j).1 = .ok a → Q (x j).2 a

variable {P Q : Journal → α → Prop} {R : Journal → β → Prop} {x : Log α} {f : α → Log β}

/-- A result that satisfies `Q` in every state of the regime. -/
theorem Obeys.pure {a : α} (h : G.Inv j → Q j a) : G.Obeys Q (pure a) j := by
  intro hj
  refine ⟨hj, G.refl j, ?_⟩
  rintro b ⟨⟩
  exact h hj

/-- Stopping obeys every regime. -/
theorem Obeys.throw (halt : Halt) : G.Obeys Q (throw halt : Log α) j :=
  fun hj => ⟨hj, G.refl j, nofun⟩

/-- The second computation starts a step further on, from a result of the first. -/
theorem Obeys.bind (h : G.Obeys Q x j)
    (hf : ∀ a j', G.Step j j' → Q j' a → G.Obeys R (f a) j') : G.Obeys R (x >>= f) j := by
  intro hj
  obtain ⟨hinv, hstep, hQ⟩ := h hj
  rcases hx : x j with ⟨halt | a, j'⟩
  · rw [hx] at hinv hstep
    rw [Attempt.bind_error hx]
    exact ⟨hinv, hstep, nofun⟩
  · rw [hx] at hinv hstep hQ
    rw [Attempt.bind_ok hx]
    obtain ⟨hinv', hstep', hR⟩ := hf a j' hstep (hQ a rfl) hinv
    exact ⟨hinv', G.trans hstep hstep', hR⟩

/-- A row of computations, if what holds of a result goes on to hold. -/
theorem obeys_each {ι : Type} {f : ι → Log α} (hQ : ∀ {j j' a}, G.Step j j' → Q j a → Q j' a)
    (h : ∀ i j, G.Obeys Q (f i) j) :
    ∀ (is : List ι) (j : Journal),
      G.Obeys (fun j as => ∀ a ∈ as, Q j a) (Attempt.each f is) j := by
  intro is
  induction is with
  | nil => exact fun j => .pure fun _ => nofun
  | cons i is ih =>
    intro j
    refine (h i j).bind fun a j₁ _ ha => (ih j₁).bind fun as j₂ hstep has => .pure fun _ => ?_
    intro b hb
    rcases List.mem_cons.1 hb with rfl | hb
    · exact hQ hstep ha
    · exact has b hb

/-! ## §4. Operations. -/

/-- A value without cells is always in hand. -/
theorem fits_of_cells_eq_nil {v : Value} (h : v.cells = []) : G.Fits j v := by
  intro a ha
  rw [h] at ha
  cases ha

/-- Operators give values without cells. -/
theorem obeys_ofExcept {r : Except RuntimeError Value} (h : ∀ v, r = .ok v → v.cells = []) :
    G.Obeys G.Fits (Journal.host.lift (Exec.ofExcept r)) j := by
  cases r with
  | error err => exact .throw (.error err)
  | ok v => exact .pure fun _ => fits_of_cells_eq_nil (h v rfl)

theorem obeys_write (text : String) :
    G.Obeys (fun _ _ => True) (Journal.host.lift (Exec.write text)) j := by
  intro hj
  obtain ⟨hinv, hstep⟩ := G.write hj text
  exact ⟨hinv, hstep, fun _ _ => trivial⟩

/-- A mention leads to a cell that can be named, if to any. -/
theorem cell_cases (ref : Ref) (j : Journal) :
    (∃ a ∈ j.named, Exec.cell ref j.machine = (.ok a, j.machine))
      ∨ ∃ halt, Exec.cell ref j.machine = (.error halt, j.machine) := by
  cases hslot : ref.slot with
  | none =>
    rw [Exec.cell_of_name hslot]
    cases hfind : j.machine.globals.find? ref.name with
    | none => exact .inr ⟨_, rfl⟩
    | some a => exact .inl ⟨a, List.mem_append_right _ (Env.mem_cells_of_find? hfind), rfl⟩
  | some slot =>
    rw [Exec.cell_of_slot hslot]
    cases hget : j.machine.locals.bind (·.get? slot) with
    | none => exact .inr ⟨_, rfl⟩
    | some a =>
      obtain ⟨e, he, ha⟩ := Option.bind_eq_some_iff.1 hget
      refine .inl ⟨a, List.mem_append_left _ ?_, rfl⟩
      rw [he]
      exact Env.mem_cells_of_get? ha

/-- The regime allows what is read to be in hand. -/
theorem obeys_load (ref : Ref) : G.Obeys G.Fits (Journal.host.lift (Exec.load ref)) j := by
  intro hj
  rcases cell_cases ref j with ⟨a, ha, hcell⟩ | ⟨halt, hcell⟩
  · have hload : Exec.load ref j.machine = (.ok (j.machine.heap.read a), j.machine) :=
      Attempt.bind_ok hcell _
    rw [Host.lift_eq hload]
    refine ⟨hj, G.refl j, ?_⟩
    rintro v ⟨⟩
    exact G.load hj a ha
  · have hload : Exec.load ref j.machine = (.error halt, j.machine) := Attempt.bind_error hcell _
    rw [Host.lift_eq hload]
    exact ⟨hj, G.refl j, nofun⟩

/-- The regime allows a cell in hand to be written. -/
theorem obeys_store (ref : Ref) {v : Value} (hv : G.Fits j v) :
    G.Obeys (fun _ _ => True) (Journal.host.lift (Exec.store ref v)) j := by
  intro hj
  rcases cell_cases ref j with ⟨a, ha, hcell⟩ | ⟨halt, hcell⟩
  · have hstore : Exec.store ref v j.machine = (.ok (), (j.written a v).machine) :=
      Attempt.bind_ok hcell _
    obtain ⟨hinv, hstep⟩ := G.store hj a ha v hv
    rw [Host.lift_eq hstore]
    exact ⟨hinv, hstep, fun _ _ => trivial⟩
  · have hstore : Exec.store ref v j.machine = (.error halt, j.machine) :=
      Attempt.bind_error hcell _
    rw [Host.lift_eq hstore]
    exact ⟨hj, G.refl j, nofun⟩

/-- The regime allows a new cell with a value in hand. -/
theorem obeys_declare (name : String) {v : Value} (hv : G.Fits j v) :
    G.Obeys (fun _ _ => True) (Log.declare name v) j := by
  intro hj
  obtain ⟨hinv, hstep⟩ := G.declare hj name v hv
  exact ⟨hinv, hstep, fun _ _ => trivial⟩

/-- A function that is declared has in hand what the code around it has. -/
theorem fits_capture (hj : G.Inv j) (decl : FunDecl) :
    G.Fits j (.function decl (j.machine.locals.map Env.capture)) := by
  intro a ha
  have hcells : a ∈ Captured.cells (j.machine.locals.map Env.capture) := ha
  rw [Captured.cells_map_capture] at hcells
  exact G.locals hj a hcells

/-- What is returned is kept in hand. -/
theorem Ends.later {c : Completion} (h : G.Ends j c) (hstep : G.Step j j') : G.Ends j' c := by
  cases c with
  | normal => trivial
  | returned v => exact Fits.later h hstep

/-- A block leaves some of the local variables there were, which the regime allows. -/
theorem obeys_inBlock {body : Log Completion} (h : ∀ j, G.Obeys G.Ends body j) :
    G.Obeys G.Ends (Journal.host.inBlock body) j := by
  intro hj
  obtain ⟨hentered, hstep₁⟩ := G.relocate hj (some (j.machine.locals.elim .empty Env.openScope))
    fun a ha => G.locals hj a (Exec.mem_cells_entered ha)
  obtain ⟨hinv, hstep₂, hends⟩ := h _ hentered
  rcases hbody : body (j.within (some (j.machine.locals.elim .empty Env.openScope)))
    with ⟨result, j'⟩
  rw [hbody] at hinv hstep₂ hends
  obtain ⟨l, result', hrun, hl, hresult⟩ := Host.inBlock_leaves (H := Journal.host) hbody
  obtain ⟨hleft, hstep₃⟩ := G.relocate hinv l fun a ha => G.locals hinv a (hl a ha)
  rw [hrun]
  refine ⟨hleft, G.trans hstep₁ (G.trans hstep₂ hstep₃), ?_⟩
  intro c hc
  rcases hresult with rfl | rfl
  · exact (hends c hc).later hstep₃
  · cases hc

/-! ## §5. Running programs. -/

/-- A row of statements obeys if each of them does. -/
theorem obeys_sequence {step : Unit → Stmt → Log Completion}
    (h : ∀ s j, G.Obeys G.Ends (step () s) j) :
    ∀ (body : List Stmt) (j : Journal),
      G.Obeys G.Ends (Log.evaluator.sequence step () body) j := by
  intro body
  induction body with
  | nil => exact fun j => .pure fun _ => trivial
  | cons s body ih =>
    intro j
    refine (h s j).bind fun c j' _ hc => ?_
    cases c with
    | normal => exact ih j'
    | returned v => exact .pure fun _ => hc

/-- A loop obeys if its condition and its body do. -/
theorem obeys_loop {condition : Log Bool} {body : Log Completion}
    (hcondition : ∀ j, G.Obeys (fun _ _ => True) condition j)
    (hbody : ∀ j, G.Obeys G.Ends body j) :
    ∀ (turns : Nat) (j : Journal), G.Obeys G.Ends (Exec.loop condition body turns) j := by
  intro turns
  induction turns with
  | zero => exact fun j => .throw _
  | succ turns ih =>
    intro j
    refine (hcondition j).bind fun holds j₁ _ _ => ?_
    split
    · refine (hbody j₁).bind fun c j₂ _ hc => ?_
      cases c with
      | normal => exact ih j₂
      | returned v => exact .pure fun _ => hc
    · exact .pure fun _ => trivial

/-- A call keeps to the regime if its body does. -/
theorem obeys_inCall {turns depth : Nat} {decl : FunDecl} {captured : Captured}
    {arguments : List Value} (h : ∀ s j, G.Obeys G.Ends (Log.evaluator.exec turns depth () s) j)
    (hcallee : G.Fits j (.function decl captured)) (harguments : ∀ v ∈ arguments, G.Fits j v) :
    G.Obeys G.Ends (Log.inCall decl captured arguments
      (Log.evaluator.sequence (Log.evaluator.exec turns depth) () decl.body)) j := by
  intro hj
  obtain ⟨hcalled, hfinish⟩ := G.call hj (List.forall_mem_cons.2 ⟨hcallee, harguments⟩)
  obtain ⟨hinv, hstep, hends⟩ := obeys_sequence h decl.body _ hcalled
  rcases hbody : Log.evaluator.sequence (Log.evaluator.exec turns depth) () decl.body
    (Log.called decl captured arguments j) with ⟨result, j'⟩
  rw [hbody] at hinv hstep hends
  obtain ⟨hinv', hstep'⟩ := hfinish j' ⟨turns, depth, result, hbody⟩ hinv hstep
  unfold Log.inCall
  rw [hbody]
  refine ⟨hinv', hstep', ?_⟩
  intro c hc
  cases c with
  | normal => trivial
  | returned v => exact fun a ha => G.cell_of_finished (hends _ hc a ha)

/-- A call from an expression: any other callee than a fitting function only stops. -/
theorem obeys_callValue {turns depth : Nat}
    (h : ∀ s j, G.Obeys G.Ends (Log.evaluator.exec turns depth () s) j) (line : Int)
    {callee : Value} {arguments : List Value} (hcallee : G.Fits j callee)
    (harguments : ∀ v ∈ arguments, G.Fits j v) :
    G.Obeys G.Fits (Log.evaluator.callValue (fun decl _ =>
      Log.evaluator.sequence (Log.evaluator.exec turns depth) () decl.body)
        line callee arguments) j := by
  cases callee with
  | function decl captured =>
    unfold Evaluator.callValue
    dsimp only
    split
    · refine (obeys_inCall h hcallee harguments).bind fun c j' _ hc => ?_
      cases c with
      | normal => exact .pure fun _ => fits_of_cells_eq_nil rfl
      | returned v => exact .pure fun _ => hc
    · exact .throw _
  | _ => exact .throw _

/-- **All code keeps to the regime.** -/
theorem obeys_eval_exec (G : Regime) (turns : Nat) :
    ∀ depth, (∀ e j, G.Obeys G.Fits (Log.evaluator.eval turns depth () e) j)
      ∧ ∀ s j, G.Obeys G.Ends (Log.evaluator.exec turns depth () s) j := by
  intro depth
  induction depth with
  | zero => exact ⟨fun _ _ => .throw _, fun _ _ => .throw _⟩
  | succ depth ih =>
    obtain ⟨heval, hexec⟩ := ih
    refine ⟨?_, ?_⟩
    · intro e j
      cases e with
      | literal value => exact .pure fun _ => fits_of_cells_eq_nil value.cells_toValue
      | group inner => exact heval inner j
      | unary op line operand =>
        exact (heval operand j).bind fun _ _ _ _ => obeys_ofExcept fun _ => UnaryOp.cells_of_apply
      | binary op line left right =>
        cases op with
        | connective c =>
          refine (heval left j).bind fun v j₁ _ hv => ?_
          split
          · exact .pure fun _ => hv
          · exact heval right j₁
        | strict op =>
          exact (heval left j).bind fun _ j₁ _ _ => (heval right j₁).bind fun _ _ _ _ =>
            obeys_ofExcept fun _ => StrictOp.cells_of_apply
      | var ref => exact obeys_load ref
      | assign target value =>
        refine (heval value j).bind fun v j₁ _ hv => (obeys_store target hv).bind ?_
        exact fun _ _ hstep _ => .pure fun _ => hv.later hstep
      | call line callee arguments =>
        refine (heval callee j).bind fun f j₁ _ hf => ?_
        have harguments := obeys_each (Q := G.Fits) (fun hstep hv => hv.later hstep) heval arguments
        refine (harguments j₁).bind ?_
        exact fun vs j₂ hstep hvs => obeys_callValue hexec line (hf.later hstep) hvs
    · intro s j
      cases s with
      | expr e => exact (heval e j).bind fun _ _ _ _ => .pure fun _ => trivial
      | print es =>
        refine (obeys_each (Q := fun _ _ => True) (fun _ h => h) (fun e j => ?_) es j).bind ?_
        · exact (heval e j).bind fun _ _ _ _ => obeys_write _
        · exact fun _ _ _ _ => (obeys_write _).bind fun _ _ _ _ => .pure fun _ => trivial
      | ifThen condition thenBranch =>
        refine (heval condition j).bind fun v j₁ _ _ => ?_
        split
        · exact hexec thenBranch j₁
        · exact .pure fun _ => trivial
      | ifElse condition thenBranch elseBranch =>
        refine (heval condition j).bind fun v j₁ _ _ => ?_
        split
        · exact hexec thenBranch j₁
        · exact hexec elseBranch j₁
      | block body => exact obeys_inBlock (obeys_sequence hexec body)
      | varDecl name line initial =>
        refine (heval initial j).bind fun v j₁ _ hv => (obeys_declare name hv).bind ?_
        exact fun _ _ _ _ => .pure fun _ => trivial
      | whileLoop condition body =>
        refine obeys_loop (fun j => ?_) (hexec body) turns j
        exact (heval condition j).bind fun _ _ _ _ => .pure fun _ => trivial
      | funDecl name line params body =>
        intro hj
        have hf := fits_capture hj ⟨name, line, params, body⟩
        exact (obeys_declare name hf).bind (fun _ _ _ _ => .pure fun _ => trivial) hj
      | ret line value => exact (heval value j).bind fun v j₁ _ hv => .pure fun _ => hv

/-- Every program obeys every regime. -/
theorem obeys_program (G : Regime) (limits : Limits) :
    ∀ (body : List Stmt) (last : Value) (j : Journal),
      G.Obeys (fun _ _ => True) (Log.evaluator.program limits () last body) j := by
  intro body
  induction body with
  | nil => exact fun last j => .pure fun _ => trivial
  | cons s body ih =>
    intro last j
    obtain ⟨heval, hexec⟩ := G.obeys_eval_exec limits.turns limits.depth
    cases s with
    | expr e => exact (heval e j).bind fun v j₁ _ _ => ih v j₁
    | _ =>
      refine (hexec _ j).bind fun c j₁ _ _ => ?_
      cases c with
      | normal => exact ih last j₁
      | returned v => exact .pure fun _ => trivial

/-- A program that is run keeps to the regime. -/
theorem obeys_run (G : Regime) (limits : Limits) (body : List Stmt) (hj : G.Inv j) :
    G.Inv (j.run limits body).2 ∧ G.Step j (j.run limits body).2 := by
  obtain ⟨hinv, hstep, -⟩ := G.obeys_program limits body .nil j hj
  exact ⟨hinv, hstep⟩

end Regime

end LoxLang
