/-
  LoxLang.Proofs.Scope.Alignment
  ──────────────────────────────
  **Slots are aligned.**  A resolved program runs as the checked evaluator runs the
  program it was resolved from, and the checked evaluator never stops with a fault: at
  every moment of every run, the local environment is laid out as the template was
  when the resolver came to the mention being evaluated.

    `Same`      — a value with the resolver's state, and the same value with slots
    `Related`   — machines that differ in such values only
    `At r`      — related machines whose local environment matches the template of `r`

  Every operation of the machine keeps machines related, and `At r` moves on with the
  resolver; `mirrors_eval_exec` is the induction over all code.
-/
import LoxLang.Proofs.Machine.Related
import LoxLang.Proofs.Scope.Checked
import LoxLang.Proofs.Scope.Resolve

namespace LoxLang

open Exec Attempt

/-! ## §1. Machines with and without slots. -/

/-- The local environment is laid out as the active template. -/
def Fits (r : Resolver) (locals : Option (Env Addr)) : Prop :=
  Option.Rel Env.Matches locals r.active?

/-- A function as it was read, and with slots: the one resolves to the other in the
state kept with it, and what it captured has the names of the template there. -/
structure SameFunction (decl : FunDecl) (site : Site) (decl' : FunDecl) (captured : Captured) :
    Prop where
  name : decl.name = decl'.name
  line : decl.line = decl'.line
  params : decl.params = decl'.params
  tidy : ∀ s ∈ decl.body, s.Tidy
  body : (Stmt.resolveAll decl.body (site.resolver.enterFunction decl.name decl.params)).1
    = .ok decl'.body
  env : site.env = captured
  layout : Option.Rel (fun e t => e.names = t.names) site.env site.resolver.active?

/-- A value of the checked evaluator, and the same value with slots. -/
abbrev Same : Value Site → Value → Prop := Value.Rel SameFunction

/-- Machines that differ only in what is kept with functions. -/
structure Related (m : Machine Site) (n : Machine) : Prop where
  heap : Heap.Rel Same m.heap n.heap
  globals : m.globals = n.globals
  locals : m.locals = n.locals
  output : m.output = n.output

/-- Related machines, where the resolver comes in the state `r`. -/
def At (r : Resolver) (m : Machine Site) (n : Machine) : Prop :=
  Related m n ∧ Fits r m.locals

/-- Related machines that have stopped, not with a fault. -/
def Stopped (halt : Halt) (m : Machine Site) (n : Machine) : Prop :=
  halt ≠ .fault ∧ Related m n

/-- What `x` does among checks, `y` does with slots; neither comes to a fault. -/
abbrev Mirrors {α β : Type} (P : Machine Site → Machine → Prop) (x : ExecWith Site α)
    (y : Exec β) (Q : α → β → Machine Site → Machine → Prop) : Prop :=
  Follows (fun _ => False) Stopped P x y Q

/-- A statement ends alike, and a resolver in the state `r` comes behind it. -/
def Ends (r : Resolver) (c : Completion Site) (d : Completion) (m : Machine Site) (n : Machine) :
    Prop :=
  Completion.Rel Same c d ∧ Related m n ∧ (c = .normal → Fits r m.locals)

/-! ## §2. Layouts. -/

variable {r : Resolver} {locals : Option (Env Addr)}

/-- The resolver finds the slot that the name has in the local environment. -/
theorem Fits.slot?_eq (h : Fits r locals) (name : String) :
    r.slot? name = locals.bind (·.slotOf? name) := by
  unfold Fits at h
  unfold Resolver.slot?
  generalize r.active? = active at h
  cases h with
  | none => rfl
  | some hmatches => exact (Env.slotOf?_congr hmatches.1 name).symm

/-- **Where the layout fits, every mention is aligned.** -/
theorem Fits.aligned (h : Fits r locals) (ref : Ref) : Aligned r ref locals := by
  have hslot : (r.bind ref).slot = locals.bind (·.slotOf? ref.name) := h.slot?_eq ref.name
  refine ⟨?_, ?_, ?_, ?_⟩
  · intro slot hmem
    rw [hslot] at hmem
    obtain ⟨e, he, hfound⟩ := Option.bind_eq_some_iff.1 hmem
    exact ⟨e, he, Env.lt_size_of_slotOf? hfound, hfound⟩
  · intro hnone e he
    rw [hslot, he] at hnone
    exact hnone
  · unfold Fits at h
    generalize r.active? = active at h
    cases h with
    | none => simp
    | some => simp
  · intro e he t ht
    unfold Fits at h
    rw [he, ht] at h
    cases h with
    | some hmatches => exact hmatches

/-- A declaration takes the same slot in the environment and in the template. -/
theorem Fits.declare {e : Env Addr} (h : Fits r (some e)) (name : String) (a : Addr) :
    Fits (r.modifyActive (·.declare name ())) (some (e.declare name a)) := by
  obtain ⟨templates, depth⟩ := r
  cases templates with
  | nil => cases h
  | cons t ts =>
    cases h with
    | some hmatches => exact .some (hmatches.declare name a ())

/-- At top level, a declaration is no business of the templates. -/
theorem Fits.declare_global (h : Fits r none) (name : String) :
    Fits (r.modifyActive (·.declare name ())) none := by
  obtain ⟨templates, depth⟩ := r
  cases templates with
  | nil => exact h
  | cons t ts => cases h

/-- The environment inside a block is laid out as the template there. -/
theorem Fits.enterBlock (h : Fits r locals) :
    Fits r.enterBlock (some (locals.elim .empty Env.openScope)) := by
  obtain ⟨templates, depth⟩ := r
  cases templates with
  | nil =>
    cases h with
    | none => exact .some Env.matches_empty
  | cons t ts =>
    cases h with
    | some hmatches => exact .some hmatches.openScope

/-- The environment that a call sets up is laid out as the template of the function. -/
theorem fits_activation {decl decl' : FunDecl} {site : Site} {captured : Captured}
    (h : SameFunction decl site decl' captured) (self : Value Site) {arguments : List (Value Site)}
    (harity : arguments.length = decl.arity) (heap : Heap Site) :
    Fits (site.resolver.enterFunction decl.name decl.params)
      (some (((site.env.map Env.capture).getD .empty).declareCells heap
        ((decl.name, self) :: decl.params.zip arguments)).1) := by
  -- what was captured has the layout of the template that the function was declared in
  have hbase : ((site.env.map Env.capture).getD .empty).Matches
      ((site.resolver.active?.map Env.capture).getD .empty) := by
    have hlayout := h.layout
    generalize site.env = env, site.resolver.active? = active at hlayout
    cases hlayout with
    | none => exact Env.matches_empty
    | some hnames => exact Env.matches_capture hnames
  -- there is an argument for every parameter
  have hnames : ((decl.name, self) :: decl.params.zip arguments).map Prod.fst
      = decl.name :: decl.params := by
    rw [List.map_cons, List.map_fst_zip]
    exact Nat.le_of_eq harity.symm
  have hcells := Env.Matches.declareCells ((decl.name, self) :: decl.params.zip arguments)
    heap hbase
  rw [hnames] at hcells
  exact .some hcells

/-- Behind a statement, the resolver goes on where the statement left it. -/
theorem behind_eq {s s' : Stmt} {r₁ : Resolver} (hs : s.resolve r = (.ok s', r₁)) :
    Checked.evaluator.behind r s = r₁ := by
  show (s.resolve r).2 = r₁
  rw [hs]

/-! ## §3. Operations. -/

section Operations

variable {α β : Type} {P : Machine Site → Machine → Prop}

/-- A statement ends normally with the layout that it should leave. -/
theorem At.ends {m : Machine Site} {n : Machine} (h : At r m n) : Ends r .normal .normal m n :=
  ⟨.normal, h.1, fun _ => h.2⟩

/-- What is returned from inside of blocks leaves any layout behind. -/
theorem ends_returned {v : Value Site} {w : Value} (hvw : Same v w) {m : Machine Site}
    {n : Machine} (h : Related m n) : Ends r (.returned v) (.returned w) m n :=
  ⟨.returned hvw, h, nofun⟩

/-- An error leaves the machines in step, with any layout. -/
theorem At.stopped {m : Machine Site} {n : Machine} (h : At r m n) {e : RuntimeError} :
    Stopped (.error e) m n :=
  ⟨nofun, h.1⟩

theorem At.exhausted {m : Machine Site} {n : Machine} (h : At r m n) : Stopped .exhausted m n :=
  ⟨nofun, h.1⟩

/-- A check passes where the layout fits. -/
theorem mirrors_check {x : ExecWith Site α} {y : Exec β}
    {Q : α → β → Machine Site → Machine → Prop} (ref : Ref) (h : Mirrors (At r) x y Q) :
    Mirrors (At r) (Checked.check r ref >>= fun _ => x) y Q := by
  refine Follows.guard_bind ?_ h
  intro m n hat
  refine Or.inl ⟨?_, hat⟩
  show (if Aligned r ref m.locals then pure () else throw .fault : ExecWith Site Unit) m = _
  rw [if_pos (hat.2.aligned ref)]
  rfl

/-- Printing changes no layout. -/
theorem mirrors_write (text : String) :
    Mirrors (At r) (write text) (write text) (fun _ _ m n => At r m n) := by
  refine .modify ?_
  intro m n hat
  obtain ⟨hrel, hfits⟩ := hat
  refine ⟨⟨hrel.heap, hrel.globals, hrel.locals, ?_⟩, hfits⟩
  show m.output ++ text = n.output ++ text
  rw [hrel.output]

/-- A mention finds the same cell on both machines, or none on both. -/
theorem mirrors_cell (ref : Ref) :
    Mirrors (At r) (cell (r.bind ref)) (cell (r.bind ref))
      (fun a b m n => a = b ∧ At r m n) := by
  unfold cell
  have hname : (r.bind ref).slot = r.slot? ref.name := rfl
  rw [hname]
  cases hslot : r.slot? ref.name with
  | some slot =>
    refine .get_bind fun m n hat => ?_
    -- the slot is in the row, so that there is a cell in it
    have hfound := hat.2.slot?_eq ref.name
    rw [hslot] at hfound
    obtain ⟨e, he, hfound⟩ := Option.bind_eq_some_iff.1 hfound.symm
    obtain ⟨a, hget⟩ := Env.exists_get?_of_slotOf? hfound
    rw [← hat.1.locals, he, Option.bind_some, hget]
    refine .pure ?_
    intro m' n' hsame
    rw [hsame.1, hsame.2]
    exact ⟨rfl, hat⟩
  | none =>
    refine .get_bind fun m n hat => ?_
    rw [← hat.1.globals]
    split
    · refine .pure ?_
      intro m' n' hsame
      rw [hsame.1, hsame.2]
      exact ⟨rfl, hat⟩
    · refine .throw ?_
      intro m' n' hsame
      rw [hsame.1, hsame.2]
      exact hat.stopped

/-- The same cell is read on both sides, with values that correspond. -/
theorem mirrors_load (ref : Ref) :
    Mirrors (At r) (load (r.bind ref)) (load (r.bind ref))
      (fun v w m n => Same v w ∧ At r m n) := by
  unfold load
  refine (mirrors_cell ref).bind fun a b => .assuming fun hab => ?_
  refine .get_bind fun m n hat => .pure ?_
  intro m' n' hsame
  rw [hsame.1, hsame.2, hab]
  exact ⟨hat.1.heap.2 b, hat⟩

/-- The same cell is written on both sides, with values that correspond. -/
theorem mirrors_store (ref : Ref) {v : Value Site} {w : Value} (hv : Same v w) :
    Mirrors (At r) (store (r.bind ref) v) (store (r.bind ref) w) (fun _ _ m n => At r m n) := by
  unfold store
  refine (mirrors_cell ref).bind fun a b => .assuming fun hab => ?_
  refine .modify ?_
  intro m n hat
  obtain ⟨hrel, hfits⟩ := hat
  rw [hab]
  exact ⟨⟨hrel.heap.write hv b, hrel.globals, hrel.locals, hrel.output⟩, hfits⟩

/-- A declaration is made where the resolver makes it. -/
theorem mirrors_declare (name : String) {v : Value Site} {w : Value} (hv : Same v w) :
    Mirrors (At r) (declare name v) (declare name w)
      (fun _ _ m n => At (r.modifyActive (·.declare name ())) m n) := by
  refine .modify ?_
  intro m n hat
  obtain ⟨heap, globals, locals, output⟩ := m
  obtain ⟨heap', globals', locals', output'⟩ := n
  obtain ⟨⟨hheap, hglobals, hlocals, houtput⟩, hfits⟩ := hat
  simp only at hheap hglobals hlocals houtput hfits
  subst hglobals hlocals houtput
  cases locals with
  | none =>
    refine ⟨⟨hheap.alloc hv, ?_, rfl, rfl⟩, hfits.declare_global name⟩
    show globals.declare name heap.next = globals.declare name heap'.next
    rw [hheap.1]
  | some e =>
    refine ⟨⟨hheap.alloc hv, rfl, ?_, rfl⟩, hfits.declare name heap.next⟩
    show some (e.declare name heap.next) = some (e.declare name heap'.next)
    rw [hheap.1]

/-- A block leaves the machines where they were. -/
theorem mirrors_inBlock {body : ExecWith Site (Completion Site)} {body' : Exec Completion}
    (hkeeps : Keeps body) {r' : Resolver}
    (h : Mirrors (At r.enterBlock) body body' (Ends r')) :
    Mirrors (At r) (inBlock body) (inBlock body') (Ends r) := by
  intro m n hat
  obtain ⟨hrel, hfits⟩ := hat
  -- the scope is opened on both machines, and closed on both however the body ends
  have hentered : At r.enterBlock (entered m) (entered n) := by
    refine ⟨⟨hrel.heap, hrel.globals, ?_, hrel.output⟩, hfits.enterBlock⟩
    show some _ = some _
    rw [hrel.locals]
  have hrun := h (entered m) (entered n) hentered
  have hgrown := hkeeps (entered m)
  rcases hbody : body (entered m) with ⟨halt | c, m'⟩
  · rw [hbody] at hrun hgrown
    obtain hfalse | ⟨n', hbody', hfault, hrel'⟩ := hrun
    · exact hfalse.elim
    · have hgrown' : Option.Rel Env.Grown (entered n).locals n'.locals := by
        rw [← hrel'.locals, ← hentered.1.locals]
        exact hgrown
      rw [inBlock_eq hbody hgrown, inBlock_eq hbody' hgrown']
      exact Or.inr ⟨_, rfl, hfault, hrel'.heap, hrel'.globals, hrel.locals, hrel'.output⟩
  · rw [hbody] at hrun hgrown
    obtain ⟨d, n', hbody', hcd, hrel', -⟩ := hrun
    have hgrown' : Option.Rel Env.Grown (entered n).locals n'.locals := by
      rw [← hrel'.locals, ← hentered.1.locals]
      exact hgrown
    rw [inBlock_eq hbody hgrown, inBlock_eq hbody' hgrown']
    exact ⟨d, _, rfl, hcd, ⟨hrel'.heap, hrel'.globals, hrel.locals, hrel'.output⟩,
      fun _ => hfits⟩

/-- A call sets up an environment for the body, and goes back to the caller's. -/
theorem mirrors_inCall {decl decl' : FunDecl} {site : Site} {captured : Captured}
    (hfun : SameFunction decl site decl' captured) {arguments : List (Value Site)}
    {arguments' : List Value} (harguments : List.Forall₂ Same arguments arguments')
    (harity : arguments.length = decl.arity) {body : ExecWith Site (Completion Site)}
    {body' : Exec Completion} {r' : Resolver}
    (h : Mirrors (At (site.resolver.enterFunction decl.name decl.params)) body body' (Ends r')) :
    Mirrors (At r) (inCall decl site.env site arguments body)
      (inCall decl' captured captured arguments' body')
      (fun c d m n => Completion.Rel Same c d ∧ At r m n) := by
  intro m n hat
  obtain ⟨hrel, hfits⟩ := hat
  -- the same cells on both machines, with the same names
  have hcells : (activation decl site.env site arguments m.heap).1
        = (activation decl' captured captured arguments' n.heap).1
      ∧ Heap.Rel Same (activation decl site.env site arguments m.heap).2
        (activation decl' captured captured arguments' n.heap).2 := by
    unfold activation
    rw [← hfun.env]
    refine Env.declareCells_rel hrel.heap (.cons ⟨hfun.name, .function (hfun.env ▸ hfun)⟩ ?_) _
    rw [← hfun.params]
    exact forall₂_zip harguments decl.params
  have hcalled : At (site.resolver.enterFunction decl.name decl.params)
      (called decl site.env site arguments m) (called decl' captured captured arguments' n) := by
    refine ⟨⟨hcells.2, hrel.globals, ?_, hrel.output⟩, fits_activation hfun _ harity m.heap⟩
    exact congrArg some hcells.1
  have hrun := h _ _ hcalled
  rcases hbody : body (called decl site.env site arguments m) with ⟨halt | c, m'⟩
  · rw [hbody] at hrun
    obtain hfalse | ⟨n', hbody', hfault, hrel'⟩ := hrun
    · exact hfalse.elim
    · rw [inCall_eq hbody, inCall_eq hbody']
      exact Or.inr ⟨_, rfl, hfault, hrel'.heap, hrel'.globals, hrel.locals, hrel'.output⟩
  · rw [hbody] at hrun
    obtain ⟨d, n', hbody', hcd, hrel', -⟩ := hrun
    rw [inCall_eq hbody, inCall_eq hbody']
    exact ⟨d, _, rfl, hcd, ⟨hrel'.heap, hrel'.globals, hrel.locals, hrel'.output⟩, hfits⟩

/-- A value is called alike, if the bodies of functions run alike. -/
theorem mirrors_callValue {run : FunDecl → Site → ExecWith Site (Completion Site)}
    {run' : FunDecl → Captured → Exec Completion}
    (h : ∀ {decl site decl' captured}, SameFunction decl site decl' captured →
      ∃ r', Mirrors (At (site.resolver.enterFunction decl.name decl.params)) (run decl site)
        (run' decl' captured) (Ends r'))
    (line : Int) {callee : Value Site} {callee' : Value} (hcallee : Same callee callee')
    {arguments : List (Value Site)} {arguments' : List Value}
    (harguments : List.Forall₂ Same arguments arguments') :
    Mirrors (At r) (callValue Site.env run line callee arguments)
      (callValue id run' line callee' arguments') (fun v w m n => Same v w ∧ At r m n) := by
  cases hcallee with
  | @function decl site decl' captured hfun =>
    -- both functions take as many arguments
    have harity : decl'.arity = decl.arity := by
      unfold FunDecl.arity
      rw [hfun.params]
    unfold callValue
    simp only [harity, ← harguments.length_eq]
    by_cases hcount : arguments.length = decl.arity
    · rw [if_pos hcount, if_pos hcount]
      obtain ⟨r', hbody⟩ := h hfun
      refine (mirrors_inCall hfun harguments hcount hbody).bind fun c d => .assuming fun hcd => ?_
      cases hcd with
      | normal => exact .pure fun m n hat => ⟨.nil, hat⟩
      | returned hv => exact .pure fun m n hat => ⟨hv, hat⟩
    · rw [if_neg hcount, if_neg hcount]
      exact .throw fun m n hat => hat.stopped
  | nil => exact .throw fun m n hat => hat.stopped
  | bool b =>
    cases b with
    | true => exact .throw fun m n hat => hat.stopped
    | false => exact .throw fun m n hat => hat.stopped
  | number x => exact .throw fun m n hat => hat.stopped
  | string s => exact .throw fun m n hat => hat.stopped

/-- A loop whose body leaves the resolver where it was. -/
theorem mirrors_loop {condition : ExecWith Site Bool} {condition' : Exec Bool}
    {body : ExecWith Site (Completion Site)} {body' : Exec Completion}
    (hcondition : Mirrors (At r) condition condition' (fun b b' m n => b = b' ∧ At r m n))
    (hbody : Mirrors (At r) body body' (Ends r)) :
    ∀ turns : Nat, Mirrors (At r) (loop condition body turns) (loop condition' body' turns)
      (Ends r) := by
  intro turns
  induction turns with
  | zero => exact .throw fun m n hat => hat.exhausted
  | succ turns ih =>
    unfold loop
    refine hcondition.bind fun holds holds' => .assuming fun heq => ?_
    subst heq
    cases holds with
    | false => exact .pure fun m n hat => hat.ends
    | true =>
      -- the body is no declaration, so that the resolver is where it was
      refine hbody.bind fun c d => .assuming fun hcd => ?_
      cases hcd with
      | normal => exact ih.pre fun m n hend => ⟨hend.1, hend.2 rfl⟩
      | returned hv => exact .pure fun m n hend => ends_returned hv hend.1

/-- A row of statements, along which the resolver goes. -/
theorem mirrors_sequence {step : Resolver → Stmt → ExecWith Site (Completion Site)}
    {step' : Stmt → Exec Completion} (hstep : ∀ {r s s' r'}, s.Tidy →
      s.resolve r = (.ok s', r') → Mirrors (At r) (step r s) (step' s') (Ends r')) :
    ∀ {body : List Stmt} {r body' r'}, (∀ s ∈ body, s.Tidy) →
      Stmt.resolveAll body r = (.ok body', r') →
      Mirrors (At r) (Checked.evaluator.sequence step r body) (sequence step' body')
        (Ends r') := by
  intro body
  induction body with
  | nil =>
    intro r body' r' _ hbody
    obtain ⟨rfl, rfl⟩ := resolveAll_nil_ok hbody
    exact .pure fun m n hat => hat.ends
  | cons s body ih =>
    intro r body' r' htidy hbody
    obtain ⟨s', rest, r₁, hs, hrest, rfl⟩ := resolveAll_cons_ok hbody
    have hmore := ih (fun s hs => htidy s (List.mem_cons_of_mem _ hs)) hrest
    rw [← behind_eq hs] at hmore
    refine (hstep (htidy s List.mem_cons_self) hs).bind fun c d => .assuming fun hcd => ?_
    cases hcd with
    | normal =>
      refine hmore.pre ?_
      intro m n hend
      rw [behind_eq hs]
      exact ⟨hend.1, hend.2 rfl⟩
    | returned hv => exact .pure fun m n hend => ends_returned hv hend.1

end Operations

/-! ## §4. All code. -/

/-- A row of expressions is resolved one by one. -/
theorem forall₂_resolveAll (r : Resolver) (es : List Expr) :
    List.Forall₂ (fun e e' => e' = e.resolve r) es (Expr.resolveAll r es) := by
  induction es with
  | nil => exact .nil
  | cons e es ih => exact .cons rfl ih

/-- **Resolved code does what the code it was resolved from does among checks.**  By
induction on the depth: an expression is evaluated where the resolver comes to it, and
behind a statement that does not return the resolver has moved on. -/
theorem mirrors_eval_exec (turns : Nat) : ∀ depth,
    (∀ r e, Mirrors (At r) (Checked.evaluator.eval turns depth r e)
      (eval turns depth (e.resolve r)) (fun v w m n => Same v w ∧ At r m n))
    ∧ ∀ {r s s' r'}, s.Tidy → s.resolve r = (.ok s', r') →
      Mirrors (At r) (Checked.evaluator.exec turns depth r s) (exec turns depth s')
        (Ends r') := by
  intro depth
  induction depth with
  | zero =>
    refine ⟨fun r e => ?_, fun _ _ => ?_⟩
    · exact .throw fun m n hat => hat.exhausted
    · exact .throw fun m n hat => hat.exhausted
  | succ depth ih =>
    obtain ⟨heval, hexec⟩ := ih
    refine ⟨?_, ?_⟩
    · intro r e
      cases e with
      | literal value => exact .pure fun m n hat => ⟨.toValue value, hat⟩
      | group inner => exact heval r inner
      | unary op line operand =>
        refine (heval r operand).bind fun v w => .assuming fun hvw => ?_
        exact .ofExcept (hvw.unary_apply op line) fun e m n hat => hat.stopped
      | binary op line left right =>
        cases op with
        | connective c =>
          refine (heval r left).bind fun v w => .assuming fun hvw => ?_
          rw [← hvw.settledBy_eq c]
          split
          · exact .pure fun m n hat => ⟨hvw, hat⟩
          · exact heval r right
        | strict op =>
          refine (heval r left).bind fun v w => .assuming fun hvw => ?_
          refine (heval r right).bind fun v' w' => .assuming fun hvw' => ?_
          exact .ofExcept (hvw.strict_apply op line hvw') fun e m n hat => hat.stopped
      | var ref => exact mirrors_check ref (mirrors_load ref)
      | assign target value =>
        refine mirrors_check target ((heval r value).bind fun v w => .assuming fun hvw => ?_)
        refine mirrors_check target ((mirrors_store target hvw).bind fun _ _ => ?_)
        exact .pure fun m n hat => ⟨hvw, hat⟩
      | call line callee arguments =>
        refine (heval r callee).bind fun f g => .assuming fun hfg => ?_
        have heach := Follows.each (forall₂_resolveAll r arguments) (fun e e' he => he ▸ heval r e)
        refine heach.bind fun vs ws => .assuming fun hvws => ?_
        rw [Checked.callValue_eq]
        refine mirrors_callValue ?_ line hfg hvws
        intro decl site decl' captured hfun
        -- the body of the function was resolved where it was declared
        obtain ⟨r', hbody⟩ := exists_eq_ok hfun.body
        exact ⟨r', mirrors_sequence hexec hfun.tidy hbody⟩
    · intro r s s' r' htidy hs
      have hstate := resolve_state htidy hs
      cases htidy with
      | expr e =>
        cases hs
        refine (heval r e).bind fun v w => .assuming fun _ => ?_
        exact .pure fun m n hat => hat.ends
      | print es =>
        cases hs
        have hprint : ∀ e e', e' = e.resolve r → Mirrors (At r)
            (do write ((← Checked.evaluator.eval turns depth r e).text ++ " "))
            (do write ((← eval turns depth e').text ++ " "))
            (fun _ _ m n => True ∧ At r m n) := by
          intro e e' he
          rw [he]
          refine (heval r e).bind fun v w => .assuming fun hvw => ?_
          rw [hvw.text_eq fun hfun => hfun.name]
          exact (mirrors_write _).post fun _ _ m n hat => ⟨trivial, hat⟩
        refine (Follows.each (forall₂_resolveAll r es) hprint).bind fun _ _ => .assuming fun _ => ?_
        refine (mirrors_write _).bind fun _ _ => ?_
        exact .pure fun m n hat => hat.ends
      | @ifThen c t ht hplain =>
        -- a branch is no declaration, and leaves the resolver where it was
        obtain ⟨t', hthen, rfl⟩ := resolve_ifThen_ok hs
        cases resolve_state_of_plain ht hplain hthen
        refine (heval r c).bind fun v w => .assuming fun hvw => ?_
        rw [← hvw.truth_eq]
        split
        · exact hexec ht hthen
        · exact .pure fun m n hat => hat.ends
      | @ifElse c t u ht hplain hu hplain' =>
        obtain ⟨t', u', r₁, hthen, helse, rfl⟩ := resolve_ifElse_ok hs
        cases resolve_state_of_plain ht hplain hthen
        cases resolve_state_of_plain hu hplain' helse
        refine (heval r c).bind fun v w => .assuming fun hvw => ?_
        rw [← hvw.truth_eq]
        split
        · exact hexec ht hthen
        · rw [behind_eq hthen]
          exact hexec hu helse
      | @block body hbodyTidy =>
        obtain ⟨body', inner, hbody, -, rfl⟩ := resolve_block_ok hs
        rw [hstate]
        have hkeeps := (Checked.still_eval_keeps_exec turns depth).2
        exact mirrors_inBlock (Checked.keeps_sequence hkeeps body _)
          (mirrors_sequence hexec hbodyTidy hbody)
      | varDecl name line initial =>
        cases hs
        refine (heval r initial).bind fun v w => .assuming fun hvw => ?_
        refine (mirrors_declare name hvw).bind fun _ _ => ?_
        exact .pure fun m n hat => hat.ends
      | @whileLoop c t ht hplain =>
        -- nor is the body of a loop
        obtain ⟨t', hbody, rfl⟩ := resolve_whileLoop_ok hs
        cases resolve_state_of_plain ht hplain hbody
        refine mirrors_loop ?_ (hexec ht hbody) turns
        refine (heval r c).bind fun v w => .assuming fun hvw => ?_
        exact .pure fun m n hat => ⟨hvw.truth_eq, hat⟩
      | @funDecl name line params body hbodyTidy =>
        obtain ⟨body', inner, hbody, -, rfl⟩ := resolve_funDecl_ok hs
        rw [hstate]
        refine .get_bind fun m n hat => ?_
        -- the function is the same on both machines, with what it captures
        have hlayout : Option.Rel (fun (e : Env Addr) (t : Env Unit) => e.names = t.names)
            (m.locals.map Env.capture) r.active? := by
          have hfits := hat.2
          unfold Fits at hfits
          generalize m.locals = locals, r.active? = active at hfits
          cases hfits with
          | none => exact .none
          | some hmatches => exact .some hmatches.1
        have hfun : SameFunction ⟨name, line, params, body⟩ ⟨r, m.locals.map Env.capture⟩
            ⟨name, line, params, body'⟩ (n.locals.map Env.capture) :=
          ⟨rfl, rfl, rfl, hbodyTidy, by rw [hbody], by rw [hat.1.locals], hlayout⟩
        have hdeclare := (mirrors_declare (r := r) name (.function hfun)).bind fun _ _ =>
          .pure fun m n hat => hat.ends
        refine hdeclare.pre ?_
        intro m' n' hsame
        rw [hsame.1, hsame.2]
        exact hat
      | ret line value =>
        obtain ⟨rfl, rfl⟩ := resolve_ret_ok hs
        refine (heval _ value).bind fun v w => .assuming fun hvw => ?_
        exact .pure fun m n hat => ends_returned hvw hat.1

/-! ## §5. Programs and sessions. -/

/-- Nothing but an expression statement resolves to one. -/
theorem resolve_ne_expr {s s' : Stmt} {r r' : Resolver} (hs : s.resolve r = (.ok s', r'))
    (h : ∀ e, s ≠ .expr e) : ∀ e, s' ≠ .expr e := by
  intro e he
  rw [he] at hs
  cases s with
  | expr e' => exact h e' rfl
  | print es => cases hs
  | ifThen c t =>
    obtain ⟨t', -, hshape⟩ := resolve_ifThen_ok hs
    cases hshape
  | ifElse c t u =>
    obtain ⟨t', u', r₁, -, -, hshape⟩ := resolve_ifElse_ok hs
    cases hshape
  | block body =>
    obtain ⟨body', inner, -, -, hshape⟩ := resolve_block_ok hs
    cases hshape
  | varDecl name line initial => cases hs
  | whileLoop c t =>
    obtain ⟨t', -, hshape⟩ := resolve_whileLoop_ok hs
    cases hshape
  | funDecl name line params body =>
    obtain ⟨body', inner, -, -, hshape⟩ := resolve_funDecl_ok hs
    cases hshape
  | ret line value =>
    obtain ⟨-, hshape⟩ := resolve_ret_ok hs
    cases hshape

/-- A program mirrors its resolved form: each statement leaves the resolver where the next
one needs it. -/
theorem mirrors_program (limits : Limits) :
    ∀ {body : List Stmt} {r body' r'}, (∀ s ∈ body, s.Tidy) →
      Stmt.resolveAll body r = (.ok body', r') →
      ∀ ⦃last : Value Site⦄ ⦃last' : Value⦄, Same last last' →
        Mirrors (At r) (Checked.evaluator.program limits r last body)
          (program limits last' body') (fun v w m n => Same v w ∧ Related m n) := by
  intro body
  induction body with
  | nil =>
    intro r body' r' _ hbody last last' hlast
    obtain ⟨rfl, rfl⟩ := resolveAll_nil_ok hbody
    exact .pure fun m n hat => ⟨hlast, hat.1⟩
  | cons s body ih =>
    intro r body' r' htidy hbody last last' hlast
    obtain ⟨s', rest, r₁, hs, hrest, rfl⟩ := resolveAll_cons_ok hbody
    have hmore := ih (fun s hs => htidy s (List.mem_cons_of_mem _ hs)) hrest
    by_cases hexpr : ∃ e, s = .expr e
    · -- the value of an expression statement is the last so far
      obtain ⟨e, rfl⟩ := hexpr
      cases hs
      refine ((mirrors_eval_exec limits.turns limits.depth).1 r e).bind fun v w =>
        .assuming fun hvw => ?_
      exact hmore hvw
    · have hne : ∀ e, s ≠ .expr e := fun e he => hexpr ⟨e, he⟩
      rw [Evaluator.program_cons_of_ne _ hne, Exec.program_cons_of_ne (resolve_ne_expr hs hne),
        behind_eq hs]
      have hexec := (mirrors_eval_exec limits.turns limits.depth).2
        (htidy s List.mem_cons_self) hs
      refine hexec.bind fun c d => .assuming fun hcd => ?_
      cases hcd with
      | normal => exact (hmore hlast).pre fun m n hend => ⟨hend.1, hend.2 rfl⟩
      | returned hv => exact .pure fun m n hend => ⟨hlast, hend.1⟩

/-- One input, from top level to top level. -/
theorem run_mirrored (i : AcceptedInput) {m : Machine Site} {n : Machine} (h : Related m n)
    (htop : m.locals = none) :
    (Checked.run m i.limits i.body).1 ≠ .error .fault
      ∧ SameResult Same (Checked.run m i.limits i.body).1 (n.run i.limits i.program).1
      ∧ Related (Checked.run m i.limits i.body).2 (n.run i.limits i.program).2 := by
  -- every input is resolved on its own, from the empty resolver
  obtain ⟨r', hbody⟩ := exists_eq_ok (x := Stmt.resolveAll i.body) i.resolved
  have hat : At .initial m n := by
    refine ⟨h, ?_⟩
    rw [htop]
    exact .none
  have hrun := mirrors_program i.limits i.tidy hbody .nil m n hat
  unfold Checked.run Machine.run
  rcases hchecked : Checked.evaluator.program i.limits .initial .nil i.body m with
    ⟨halt | v, m'⟩
  · rw [hchecked] at hrun
    obtain hfalse | ⟨n', hactual, hfault, hrel⟩ := hrun
    · exact hfalse.elim
    · rw [hactual]
      refine ⟨?_, rfl, hrel⟩
      intro heq
      exact hfault (Except.error.inj heq)
  · rw [hchecked] at hrun
    obtain ⟨w, n', hactual, hvw, hrel⟩ := hrun
    rw [hactual]
    exact ⟨nofun, hvw, hrel⟩

/-- Inputs run in turn are mirrored, and between two of them no code is running. -/
theorem inTurn_mirrored (inputs : List AcceptedInput) :
    ∀ {m : Machine Site} {n : Machine}, Related m n → m.locals = none →
      let checked := inTurn (fun m i => Checked.run m i.limits i.body) m inputs
      let actual := inTurn (fun n i => Machine.run n i.limits i.program) n inputs
      (∀ result ∈ checked.1, result ≠ .error .fault)
        ∧ List.Forall₂ (SameResult Same) checked.1 actual.1 ∧ Related checked.2 actual.2 := by
  induction inputs with
  | nil =>
    intro m n hrel _
    exact ⟨nofun, .nil, hrel⟩
  | cons i inputs ih =>
    intro m n hrel htop
    -- a run leaves related machines, also one that stops half-way
    obtain ⟨hfault, hresult, hrel'⟩ := run_mirrored i hrel htop
    obtain ⟨hfaults, hresults, hrel''⟩ :=
      ih hrel' (Checked.locals_run htop i.limits i.body)
    refine ⟨?_, .cons hresult hresults, hrel''⟩
    intro result hmem
    rcases List.mem_cons.1 hmem with rfl | hmem
    · exact hfault
    · exact hfaults result hmem

/-- **Slots are aligned, at every moment of every run.**  Whatever inputs are run in
turn, the checked evaluator never stops with a fault, so that every mention of a
variable that was ever evaluated was `Aligned`; and the resolved inputs, run on a
machine of their own, go the same way: with the same results, on machines that differ
in nothing but what is kept with functions. -/
theorem accesses_are_aligned (inputs : List AcceptedInput) :
    let checked := inTurn (fun m i => Checked.run m i.limits i.body) .initial inputs
    let actual := inTurn (fun n i => Machine.run n i.limits i.program) .initial inputs
    (∀ result ∈ checked.1, result ≠ .error .fault)
      ∧ List.Forall₂ (SameResult Same) checked.1 actual.1 ∧ Related checked.2 actual.2 := by
  have hinitial : Related .initial .initial :=
    ⟨Heap.rel_empty .nil, rfl, rfl, rfl⟩
  exact inTurn_mirrored inputs hinitial rfl

end LoxLang
