/-
  LoxLang.Proofs.Scope.Refinement
  ───────────────────────────────
  **The machine implements lexical scoping.**  What a local environment means is a map:
  each name to the cell of its innermost binding.  The operations on environments mean
  those of the reference semantics, so that the checked evaluator, as long as it does
  not stop with a fault, goes the same way as the reference; it never does, and
  resolved programs go the way of the checked evaluator.

    `Alike`        — the machine of the checked evaluator and a state of the reference
    `traces_…`     — an operation of the one does what an operation of the other does
    `Agree`        — a value of a resolved program and one of the reference
-/
import LoxLang.Proofs.Scope.Alignment
import LoxLang.Proofs.Scope.Lexical

namespace LoxLang

open Attempt
open Lexical (Closure)

/-! ## §1. Environments as scopes. -/

/-- What an environment means, if there is one. -/
def Captured.scope (env : Captured) : Option Scope :=
  env.map Env.find?

theorem find?_declare_eq_extend (e : Env Addr) (name : String) (a : Addr) :
    (e.declare name a).find? = Scope.extend e.find? name a := by
  funext n
  exact Env.find?_declare e n name a

/-- A function as the checked evaluator and as the reference have it. -/
def SameClosure (decl : FunDecl) (site : Site) (decl' : FunDecl) (captured : Closure) : Prop :=
  decl = decl' ∧ Captured.scope site.env = captured

/-- A machine of the checked evaluator and a state of the reference. -/
structure Alike (m : Machine Site) (s : Lexical.State) : Prop where
  heap : Heap.Rel (Value.Rel SameClosure) m.heap s.heap
  globals : m.globals.find? = s.globals
  output : m.output = s.output

/-- Alike, where the local environment means `scope`. -/
def In (scope : Option Scope) (m : Machine Site) (s : Lexical.State) : Prop :=
  Alike m s ∧ Captured.scope m.locals = scope

/-- What `x` does, `y` does in the reference, unless `x` comes to a fault. -/
abbrev Traces {α β : Type} (P : Machine Site → Lexical.State → Prop) (x : ExecWith Site α)
    (y : Lexical.Run β) (Q : α → β → Machine Site → Lexical.State → Prop) : Prop :=
  Follows (· = .fault) (fun _ => Alike) P x y Q

/-- A statement ends alike, and the local environment means the scope behind it. -/
def EndsIn (c : Completion Site) (e : Lexical.End) (m : Machine Site) (s : Lexical.State) : Prop :=
  Completion.Rel (Value.Rel SameClosure) c e.2 ∧ In e.1 m s

/-! ## §2. Operations. -/

variable {scope : Option Scope} {r : Resolver}

/-- A check passes, or nothing is asked any more. -/
theorem traces_check {α β : Type} {x : ExecWith Site α} {y : Lexical.Run β}
    {Q : α → β → Machine Site → Lexical.State → Prop} (ref : Ref)
    (h : Traces (fun m s => Aligned r ref m.locals ∧ In scope m s) x y Q) :
    Traces (In scope) (Checked.check r ref >>= fun _ => x) y Q := by
  refine Follows.guard_bind ?_ h
  intro m s hin
  by_cases haligned : Aligned r ref m.locals
  · refine Or.inl ⟨?_, haligned, hin⟩
    show (if Aligned r ref m.locals then pure () else throw .fault : ExecWith Site Unit) m = _
    rw [if_pos haligned]
    rfl
  · refine Or.inr ⟨.fault, m, ?_, rfl⟩
    show (if Aligned r ref m.locals then pure () else throw .fault : ExecWith Site Unit) m = _
    rw [if_neg haligned]
    rfl

theorem traces_write (text : String) :
    Traces (In scope) (Exec.write text) (Lexical.write text) (fun _ _ m s => In scope m s) := by
  refine .modify ?_
  intro m s hin
  obtain ⟨halike, hscope⟩ := hin
  refine ⟨⟨halike.heap, halike.globals, ?_⟩, hscope⟩
  show m.output ++ text = s.output ++ text
  rw [halike.output]

/-- An aligned mention finds the cell that its name means. -/
theorem traces_cell (ref : Ref) :
    Traces (fun m s => Aligned r ref m.locals ∧ In scope m s) (Exec.cell (r.bind ref))
      (Lexical.cell scope ref) (fun a b m s => a = b ∧ In scope m s) := by
  unfold Exec.cell Lexical.cell
  cases hslot : (r.bind ref).slot with
  | some slot =>
    refine .get_bind fun m s hat => ?_
    obtain ⟨⟨hsome, -⟩, hin⟩ := hat
    -- the slot is that of the innermost binding, and holds the cell of the name
    obtain ⟨e, he, -, hfound⟩ := hsome slot hslot
    have hlocals : m.locals = some e := he
    obtain ⟨a, hget⟩ := Env.exists_get?_of_slotOf? hfound
    have hname : scope.bind (· ref.name) = some a := by
      rw [← hin.2, hlocals]
      show (e.slotOf? ref.name).bind e.get? = some a
      rw [hfound]
      exact hget
    rw [hlocals, Option.bind_some, hget, hname, Option.some_or]
    refine .pure ?_
    intro m' s' hsame
    rw [hsame.1, hsame.2]
    exact ⟨rfl, hin⟩
  | none =>
    refine .get_bind fun m s hat => ?_
    obtain ⟨⟨-, hnone, -⟩, hin⟩ := hat
    -- the name is not local, and both look among the globals
    have hname : scope.bind (· ref.name) = none := by
      rw [← hin.2]
      cases hlocals : m.locals with
      | none => rfl
      | some e =>
        show (e.slotOf? ref.name).bind e.get? = none
        rw [hnone hslot e hlocals]
        rfl
    rw [hname, Option.none_or, ← hin.1.globals, show (r.bind ref).name = ref.name from rfl]
    cases m.globals.find? ref.name with
    | some a =>
      refine .pure ?_
      intro m' s' hsame
      rw [hsame.1, hsame.2]
      exact ⟨rfl, hin⟩
    | none =>
      refine .throw ?_
      intro m' s' hsame
      rw [hsame.1, hsame.2]
      exact hin.1

theorem traces_load (ref : Ref) :
    Traces (fun m s => Aligned r ref m.locals ∧ In scope m s) (Exec.load (r.bind ref))
      (Lexical.load scope ref) (fun v w m s => Value.Rel SameClosure v w ∧ In scope m s) := by
  unfold Exec.load Lexical.load
  refine (traces_cell ref).bind fun a b => .assuming fun hab => ?_
  refine .get_bind fun m s hin => .pure ?_
  intro m' s' hsame
  rw [hsame.1, hsame.2, hab]
  exact ⟨hin.1.heap.2 b, hin⟩

theorem traces_store (ref : Ref) {v : Value Site} {w : Value Closure}
    (hv : Value.Rel SameClosure v w) :
    Traces (fun m s => Aligned r ref m.locals ∧ In scope m s) (Exec.store (r.bind ref) v)
      (Lexical.store scope ref w) (fun _ _ m s => In scope m s) := by
  unfold Exec.store Lexical.store
  refine (traces_cell ref).bind fun a b => .assuming fun hab => ?_
  refine .modify ?_
  intro m s hin
  obtain ⟨halike, hscope⟩ := hin
  rw [hab]
  exact ⟨⟨halike.heap.write hv b, halike.globals, halike.output⟩, hscope⟩

/-- A declaration extends the scope, whether it takes a new slot or replaces a binding. -/
theorem traces_declare (name : String) {v : Value Site} {w : Value Closure}
    (hv : Value.Rel SameClosure v w) :
    Traces (In scope) (Exec.declare name v) (Lexical.declare scope name w)
      (fun _ scope' m s => In scope' m s) := by
  refine .of_ok ?_
  intro m s hin
  obtain ⟨heap, globals, locals, output⟩ := m
  obtain ⟨⟨hheap, hglobals, houtput⟩, hscope⟩ := hin
  simp only at hheap hglobals houtput hscope
  subst hscope
  cases locals with
  | none =>
    refine ⟨(), _, none, _, rfl, rfl, ⟨hheap.alloc hv, ?_, houtput⟩, rfl⟩
    show (globals.declare name heap.next).find? = Scope.extend s.globals name s.heap.next
    rw [find?_declare_eq_extend, hglobals, hheap.1]
  | some e =>
    refine ⟨(), _, some (Scope.extend e.find? name s.heap.next), _, rfl, rfl,
      ⟨hheap.alloc hv, hglobals, houtput⟩, ?_⟩
    show some (e.declare name heap.next).find? = some (Scope.extend e.find? name s.heap.next)
    rw [find?_declare_eq_extend, hheap.1]

/-- The scope inside a block is the scope around it. -/
theorem scope_entered (m : Machine Site) :
    Captured.scope (Exec.entered m).locals = some ((Captured.scope m.locals).getD .empty) := by
  show some (m.locals.elim Env.empty Env.openScope).find? = _
  cases m.locals with
  | none => rfl
  | some e => exact congrArg some (Env.find?_openScope e)

/-- A block runs on the scope as it is, and its declarations are dropped. -/
theorem traces_inBlock {body : ExecWith Site (Completion Site)} {body' : Lexical.Run Lexical.End}
    (hkeeps : Exec.Keeps body)
    (h : Traces (In (some (scope.getD .empty))) body body' EndsIn) :
    Traces (In scope) (Exec.inBlock body) (do let (_, c) ← body'; return (scope, c)) EndsIn := by
  intro m s hin
  obtain ⟨halike, hscope⟩ := hin
  -- opening a scope changes no meaning, and closing it brings the old environment back
  have hentered : In (some (scope.getD .empty)) (Exec.entered m) s := by
    refine ⟨⟨halike.heap, halike.globals, halike.output⟩, ?_⟩
    rw [scope_entered, hscope]
  have hrun := h (Exec.entered m) s hentered
  have hgrown := hkeeps (Exec.entered m)
  rcases hbody : body (Exec.entered m) with ⟨halt | c, m'⟩
  · rw [hbody] at hrun hgrown
    rw [Exec.inBlock_eq hbody hgrown]
    rcases hrun with hfault | ⟨s', hbody', halike'⟩
    · exact Or.inl hfault
    · exact Or.inr ⟨s', bind_error hbody' _, halike'.heap, halike'.globals, halike'.output⟩
  · rw [hbody] at hrun hgrown
    rw [Exec.inBlock_eq hbody hgrown]
    obtain ⟨⟨inner, d⟩, s', hbody', hcd, halike', -⟩ := hrun
    refine ⟨(scope, d), s', ?_, hcd, ⟨halike'.heap, halike'.globals, halike'.output⟩, hscope⟩
    rw [bind_ok hbody']
    rfl

/-- Fresh cells extend the scope, one after the other. -/
theorem extendAll_eq {xs : List (String × Value Site)} {ys : List (String × Value Closure)}
    (hxs : List.Forall₂ (fun x y => x.1 = y.1 ∧ Value.Rel SameClosure x.2 y.2) xs ys) :
    ∀ (e : Env Addr) {heap : Heap Site} {s : Lexical.State},
      Heap.Rel (Value.Rel SameClosure) heap s.heap →
      ∃ heap', Lexical.extendAll e.find? ys s
          = (.ok (e.declareCells heap xs).1.find?, ⟨heap', s.globals, s.output⟩)
        ∧ Heap.Rel (Value.Rel SameClosure) (e.declareCells heap xs).2 heap' := by
  induction hxs with
  | nil =>
    intro e heap s hheap
    exact ⟨s.heap, rfl, hheap⟩
  | @cons x y xs ys hxy _ ih =>
    intro e heap s hheap
    obtain ⟨name, v⟩ := x
    obtain ⟨name', w⟩ := y
    obtain ⟨hname, hv⟩ := hxy
    obtain ⟨heap', hrest, hheap'⟩ := ih (e.declare name heap.next)
      (s := ⟨s.heap.alloc w, s.globals, s.output⟩) (hheap.alloc hv)
    refine ⟨heap', ?_, hheap'⟩
    -- the cell has the same address on both sides
    show Lexical.extendAll (Scope.extend e.find? name' s.heap.next) ys
      ⟨s.heap.alloc w, s.globals, s.output⟩ = _
    rw [← hheap.1, ← show name = name' from hname, ← find?_declare_eq_extend]
    exact hrest

theorem scope_capture (env : Captured) :
    Captured.scope (env.map Env.capture) = Captured.scope env := by
  cases env with
  | none => rfl
  | some e => exact congrArg some (Env.find?_capture e)

/-- What a function captured, as a scope to be extended. -/
theorem find?_captured (env : Captured) :
    ((env.map Env.capture).getD .empty).find? = (Captured.scope env).getD .empty := by
  cases env with
  | none => rfl
  | some e => exact Env.find?_capture e

/-- A call runs on the captured scope, extended with the function and its arguments. -/
theorem traces_inCall {decl : FunDecl} {site : Site} {captured : Closure}
    (hfun : Captured.scope site.env = captured) {arguments : List (Value Site)}
    {arguments' : List (Value Closure)}
    (harguments : List.Forall₂ (Value.Rel SameClosure) arguments arguments')
    {body : ExecWith Site (Completion Site)}
    {run : Option Scope → List Stmt → Lexical.Run Lexical.End}
    (h : ∀ scope, Traces (In scope) body (run scope decl.body) EndsIn) :
    Traces (In scope) (Exec.inCall decl site.env site arguments body)
      (Lexical.call run decl captured arguments')
      (fun c e m s => Completion.Rel (Value.Rel SameClosure) c e.2 ∧ In scope m s) := by
  intro m s hin
  obtain ⟨halike, hscope⟩ := hin
  have hcells : List.Forall₂ (fun x y => x.1 = y.1 ∧ Value.Rel SameClosure x.2 y.2)
      ((decl.name, .function decl site) :: decl.params.zip arguments)
      ((decl.name, .function decl captured) :: decl.params.zip arguments') :=
    .cons ⟨rfl, .function ⟨rfl, hfun⟩⟩ (forall₂_zip harguments decl.params)
  obtain ⟨heap', hextend, hheap'⟩ := extendAll_eq hcells ((site.env.map Env.capture).getD .empty)
    halike.heap
  rw [find?_captured, hfun] at hextend
  -- the body runs in the scope that the new environment means
  have hcalled : In (some (Exec.activation decl site.env site arguments m.heap).1.find?)
      (Exec.called decl site.env site arguments m) ⟨heap', s.globals, s.output⟩ :=
    ⟨⟨hheap', halike.globals, halike.output⟩, rfl⟩
  have hcall : Lexical.call run decl captured arguments' s
      = run (some (Exec.activation decl site.env site arguments m.heap).1.find?) decl.body
        ⟨heap', s.globals, s.output⟩ := bind_ok hextend _
  have hrun := h _ _ _ hcalled
  rw [hcall]
  rcases hbody : body (Exec.called decl site.env site arguments m) with ⟨halt | c, m'⟩
  · rw [hbody] at hrun
    rw [Exec.inCall_eq hbody]
    rcases hrun with hfault | ⟨s', hbody', halike'⟩
    · exact Or.inl hfault
    · exact Or.inr ⟨s', hbody', halike'.heap, halike'.globals, halike'.output⟩
  · rw [hbody] at hrun
    rw [Exec.inCall_eq hbody]
    obtain ⟨e, s', hbody', hce, halike', -⟩ := hrun
    exact ⟨e, s', hbody', hce, ⟨halike'.heap, halike'.globals, halike'.output⟩, hscope⟩

/-- A value is called alike, if the bodies of functions run alike. -/
theorem traces_callValue {run : FunDecl → Site → ExecWith Site (Completion Site)}
    {run' : Option Scope → List Stmt → Lexical.Run Lexical.End}
    (h : ∀ decl site scope, Traces (In scope) (run decl site) (run' scope decl.body) EndsIn)
    (line : Int) {callee : Value Site} {callee' : Value Closure}
    (hcallee : Value.Rel SameClosure callee callee') {arguments : List (Value Site)}
    {arguments' : List (Value Closure)}
    (harguments : List.Forall₂ (Value.Rel SameClosure) arguments arguments') :
    Traces (In scope) (Exec.callValue Site.env run line callee arguments)
      (Lexical.callValue run' line callee' arguments')
      (fun v w m s => Value.Rel SameClosure v w ∧ In scope m s) := by
  cases hcallee with
  | @function decl site decl' captured hfun =>
    -- both functions run the same statements
    obtain ⟨hdecl, hcaptured⟩ := hfun
    subst hdecl
    unfold Exec.callValue Lexical.callValue
    simp only [← harguments.length_eq]
    by_cases hcount : arguments.length = decl.arity
    · rw [if_pos hcount, if_pos hcount]
      refine (traces_inCall hcaptured harguments (h decl site)).bind fun c e =>
        .assuming fun hce => ?_
      obtain ⟨scope', d⟩ := e
      cases hce with
      | normal => exact .pure fun m s hin => ⟨.nil, hin⟩
      | returned hv => exact .pure fun m s hin => ⟨hv, hin⟩
    · rw [if_neg hcount, if_neg hcount]
      exact .throw fun m s hin => hin.1
  | nil => exact .throw fun m s hin => hin.1
  | bool b =>
    cases b with
    | true => exact .throw fun m s hin => hin.1
    | false => exact .throw fun m s hin => hin.1
  | number x => exact .throw fun m s hin => hin.1
  | string t => exact .throw fun m s hin => hin.1

/-- A loop, whose body may move on to another scope. -/
theorem traces_loop {condition : ExecWith Site Bool} {body : ExecWith Site (Completion Site)}
    {condition' : Option Scope → Lexical.Run Bool}
    {body' : Option Scope → Lexical.Run Lexical.End}
    (hcondition : ∀ scope, Traces (In scope) condition (condition' scope)
      (fun b b' m s => b = b' ∧ In scope m s))
    (hbody : ∀ scope, Traces (In scope) body (body' scope) EndsIn) :
    ∀ (turns : Nat) (scope : Option Scope), Traces (In scope) (Exec.loop condition body turns)
      (Lexical.loop condition' body' scope turns) EndsIn := by
  intro turns
  induction turns with
  | zero =>
    intro scope
    exact .throw fun m s hin => hin.1
  | succ turns ih =>
    intro scope
    unfold Exec.loop Lexical.loop
    refine (hcondition scope).bind fun holds holds' => .assuming fun heq => ?_
    subst heq
    cases holds with
    | false => exact .pure fun m s hin => ⟨.normal, hin⟩
    | true =>
      refine (hbody scope).bind fun c e => .assuming fun hce => ?_
      obtain ⟨scope', d⟩ := e
      cases hce with
      -- the next turn starts in the scope behind the body
      | normal => exact ih scope'
      | returned hv => exact .pure fun m s hin => ⟨.returned hv, hin⟩

/-- A row of statements: each runs in the scope behind the one before. -/
theorem traces_sequence {step : Resolver → Stmt → ExecWith Site (Completion Site)}
    {step' : Option Scope → Stmt → Lexical.Run Lexical.End}
    (hstep : ∀ r scope s, Traces (In scope) (step r s) (step' scope s) EndsIn) :
    ∀ (body : List Stmt) (r : Resolver) (scope : Option Scope), Traces (In scope)
      (Checked.evaluator.sequence step r body) (Lexical.sequence step' scope body) EndsIn := by
  intro body
  induction body with
  | nil =>
    intro r scope
    exact .pure fun m s hin => ⟨.normal, hin⟩
  | cons s body ih =>
    intro r scope
    refine (hstep r scope s).bind fun c e => .assuming fun hce => ?_
    obtain ⟨scope', d⟩ := e
    cases hce with
    | normal => exact ih _ scope'
    | returned hv => exact .pure fun m s hin => ⟨.returned hv, hin⟩

/-! ## §3. All code. -/

/-- **What code does among checks, it does under lexical scoping.**  By induction on the
depth.  Nothing is said of runs that come to a fault, so that the layout of the
environment does not matter here: only what its names mean. -/
theorem traces_eval_exec (turns : Nat) : ∀ depth,
    (∀ r scope e, Traces (In scope) (Checked.evaluator.eval turns depth r e)
      (Lexical.eval turns scope depth e) (fun v w m s => Value.Rel SameClosure v w ∧ In scope m s))
    ∧ ∀ r scope s, Traces (In scope) (Checked.evaluator.exec turns depth r s)
      (Lexical.exec turns scope depth s) EndsIn := by
  intro depth
  induction depth with
  | zero =>
    refine ⟨fun r scope e => ?_, fun r scope s => ?_⟩
    · exact .throw fun m s hin => hin.1
    · exact .throw fun m s hin => hin.1
  | succ depth ih =>
    obtain ⟨heval, hexec⟩ := ih
    -- the bodies of functions and blocks are rows of statements
    have hsequence := traces_sequence hexec
    refine ⟨?_, ?_⟩
    · intro r scope e
      cases e with
      | literal value => exact .pure fun m s hin => ⟨.toValue value, hin⟩
      | group inner => exact heval r scope inner
      | unary op line operand =>
        refine (heval r scope operand).bind fun v w => .assuming fun hvw => ?_
        exact .ofExcept (hvw.unary_apply op line) fun e m s hin => hin.1
      | binary op line left right =>
        cases op with
        | connective c =>
          refine (heval r scope left).bind fun v w => .assuming fun hvw => ?_
          rw [← hvw.settledBy_eq c]
          split
          · exact .pure fun m s hin => ⟨hvw, hin⟩
          · exact heval r scope right
        | strict op =>
          refine (heval r scope left).bind fun v w => .assuming fun hvw => ?_
          refine (heval r scope right).bind fun v' w' => .assuming fun hvw' => ?_
          exact .ofExcept (hvw.strict_apply op line hvw') fun e m s hin => hin.1
      | var ref => exact traces_check ref (traces_load ref)
      | assign target value =>
        refine traces_check target ?_
        have hvalue := (heval r scope value).pre fun m s
          (hat : Aligned r target m.locals ∧ In scope m s) => hat.2
        refine hvalue.bind fun v w => .assuming fun hvw => ?_
        refine traces_check target ((traces_store target hvw).bind fun _ _ => ?_)
        exact .pure fun m s hin => ⟨hvw, hin⟩
      | call line callee arguments =>
        refine (heval r scope callee).bind fun f g => .assuming fun hfg => ?_
        have heach := Follows.each_same (heval r scope) arguments
        refine heach.bind fun vs ws => .assuming fun hvws => ?_
        rw [Checked.callValue_eq]
        exact traces_callValue (fun decl site scope => hsequence decl.body _ scope) line hfg hvws
    · intro r scope s
      cases s with
      | expr e =>
        refine (heval r scope e).bind fun v w => .assuming fun _ => ?_
        exact .pure fun m s hin => ⟨.normal, hin⟩
      | print es =>
        have hprint : ∀ e : Expr, Traces (In scope)
            (do Exec.write ((← Checked.evaluator.eval turns depth r e).text ++ " "))
            (do Lexical.write ((← Lexical.eval turns scope depth e).text ++ " "))
            (fun _ _ m s => True ∧ In scope m s) := by
          intro e
          refine (heval r scope e).bind fun v w => .assuming fun hvw => ?_
          rw [hvw.text_eq fun hfun => congrArg FunDecl.name hfun.1]
          exact (traces_write _).post fun _ _ m s hin => ⟨trivial, hin⟩
        refine (Follows.each_same hprint es).bind fun _ _ => .assuming fun _ => ?_
        refine (traces_write _).bind fun _ _ => ?_
        exact .pure fun m s hin => ⟨.normal, hin⟩
      | ifThen condition thenBranch =>
        refine (heval r scope condition).bind fun v w => .assuming fun hvw => ?_
        rw [← hvw.truth_eq]
        split
        · exact hexec r scope thenBranch
        · exact .pure fun m s hin => ⟨.normal, hin⟩
      | ifElse condition thenBranch elseBranch =>
        refine (heval r scope condition).bind fun v w => .assuming fun hvw => ?_
        rw [← hvw.truth_eq]
        split
        · exact hexec r scope thenBranch
        · exact hexec _ scope elseBranch
      | block body =>
        have hkeeps := (Checked.still_eval_keeps_exec turns depth).2
        exact traces_inBlock (Checked.keeps_sequence hkeeps body _) (hsequence body _ _)
      | varDecl name line initial =>
        refine (heval r scope initial).bind fun v w => .assuming fun hvw => ?_
        refine (traces_declare name hvw).bind fun _ scope' => ?_
        exact .pure fun m s hin => ⟨.normal, hin⟩
      | whileLoop condition body =>
        refine traces_loop (fun scope => ?_) (fun scope => hexec r scope body) turns scope
        refine (heval r scope condition).bind fun v w => .assuming fun hvw => ?_
        exact .pure fun m s hin => ⟨hvw.truth_eq, hin⟩
      | funDecl name line params body =>
        refine .get_bind_left fun m s hin => ?_
        -- what is captured means the scope in front of the declaration
        have hfun : SameClosure ⟨name, line, params, body⟩ ⟨r, m.locals.map Env.capture⟩
            ⟨name, line, params, body⟩ scope :=
          ⟨rfl, (scope_capture m.locals).trans hin.2⟩
        refine ((traces_declare name (.function hfun)).pre ?_).bind fun _ scope' =>
          .pure fun m s hin => ⟨.normal, hin⟩
        intro m' s' hsame
        rw [hsame.1, hsame.2]
        exact hin
      | ret line value =>
        refine (heval r scope value).bind fun v w => .assuming fun hvw => ?_
        exact .pure fun m s hin => ⟨.returned hvw, hin⟩

/-! ## §4. Programs. -/

theorem In.locals_eq_none {m : Machine Site} {s : Lexical.State} (h : In none m s) :
    m.locals = none :=
  Option.map_eq_none_iff.1 h.2

theorem traces_program (limits : Limits) : ∀ (body : List Stmt) (r : Resolver)
    ⦃last : Value Site⦄ ⦃last' : Value Closure⦄, Value.Rel SameClosure last last' →
      Traces (In none) (Checked.evaluator.program limits r last body)
        (Lexical.program limits last' body)
        (fun v w m s => Value.Rel SameClosure v w ∧ Alike m s) := by
  intro body
  induction body with
  | nil =>
    intro r last last' hlast
    exact .pure fun m s hin => ⟨hlast, hin.1⟩
  | cons s body ih =>
    intro r last last' hlast
    have hmore := ih (Checked.evaluator.behind r s)
    obtain ⟨heval, hexec⟩ := traces_eval_exec limits.turns limits.depth
    by_cases hexpr : ∃ e, s = .expr e
    · obtain ⟨e, rfl⟩ := hexpr
      refine (heval r none e).bind fun v w => .assuming fun hvw => ?_
      exact hmore hvw
    · have hne : ∀ e, s ≠ .expr e := fun e he => hexpr ⟨e, he⟩
      rw [Evaluator.program_cons_of_ne _ hne, Lexical.program_cons_of_ne hne]
      -- a statement at top level ends at top level
      have hkeeps := (Checked.still_eval_keeps_exec limits.turns limits.depth).2 r s
      have htop := (hexec r none s).and_left (F := fun m => m.locals = none)
        fun m s hin => hkeeps.locals_eq_none hin.locals_eq_none
      refine htop.bind fun c e => ?_
      obtain ⟨scope', d⟩ := e
      refine Follows.pre (Follows.assuming fun hcd => ?_) fun m s hend =>
        And.intro hend.1.1 (And.intro hend.1.2.1 (congrArg Captured.scope hend.2))
      cases hcd with
      | normal => exact hmore hlast
      | returned hv => exact .pure fun m s hin => ⟨hlast, hin.1⟩

/-! ## §5. Sessions. -/

/-- A function of a running program and one of the reference: the same header, a body
that resolves to the one with slots, and what was captured means the captured scope. -/
structure SameMeaning (decl : FunDecl) (captured : Captured) (decl' : FunDecl)
    (captured' : Closure) : Prop where
  name : decl.name = decl'.name
  line : decl.line = decl'.line
  params : decl.params = decl'.params
  body : ∃ r : Resolver, (Stmt.resolveAll decl'.body r).1 = .ok decl.body
  scope : Captured.scope captured = captured'

/-- A value of a running program and one of the reference. -/
abbrev Agree : Value → Value Closure → Prop := Value.Rel SameMeaning

/-- A machine and a state of the reference: the same globals at the same addresses, with
values that agree, and the same output. -/
structure Agreeing (n : Machine) (s : Lexical.State) : Prop where
  heap : Heap.Rel Agree n.heap s.heap
  globals : n.globals.find? = s.globals
  output : n.output = s.output

/-- Values agree that belong to one value of the checked evaluator. -/
theorem agree_of_same {u : Value Site} {v : Value} {w : Value Closure} (h : Same u v)
    (h' : Value.Rel SameClosure u w) : Agree v w := by
  cases h with
  | @function decl site decl' captured hfun =>
    cases h' with
    | function hclosure =>
      obtain ⟨hdecl, hscope⟩ := hclosure
      subst hdecl
      rw [hfun.env] at hscope
      exact .function ⟨hfun.name.symm, hfun.line.symm, hfun.params.symm, ⟨_, hfun.body⟩, hscope⟩
  | nil =>
    cases h'
    exact .nil
  | bool b =>
    cases h'
    exact .bool b
  | number x =>
    cases h'
    exact .number x
  | string t =>
    cases h'
    exact .string t

/-- A machine with slots and a state of the reference, with a machine of the checked
evaluator between them. -/
def Bridged (n : Machine) (s : Lexical.State) : Prop :=
  ∃ m : Machine Site, Related m n ∧ Alike m s ∧ m.locals = none

theorem Bridged.agreeing {n : Machine} {s : Lexical.State} (h : Bridged n s) : Agreeing n s := by
  obtain ⟨m, hrelated, halike, -⟩ := h
  refine ⟨⟨?_, ?_⟩, ?_, ?_⟩
  · exact hrelated.heap.1.symm.trans halike.heap.1
  · intro a
    exact agree_of_same (hrelated.heap.2 a) (halike.heap.2 a)
  · rw [← hrelated.globals, halike.globals]
  · rw [← hrelated.output, halike.output]

theorem bridged_initial : Bridged .initial .initial :=
  ⟨.initial, ⟨Heap.rel_empty .nil, rfl, rfl, rfl⟩, ⟨Heap.rel_empty .nil, rfl, rfl⟩, rfl⟩

/-- One input.  The checked evaluator does not come to a fault, so that it goes the way
of the reference. -/
theorem run_bridged (i : AcceptedInput) {n : Machine} {s : Lexical.State} (h : Bridged n s) :
    SameResult Agree (n.run i.limits i.program).1 (Lexical.run s i.limits i.body).1
      ∧ (n.run i.limits i.program).1 ≠ .error .fault
      ∧ Bridged (n.run i.limits i.program).2 (Lexical.run s i.limits i.body).2 := by
  obtain ⟨m, hrelated, halike, htop⟩ := h
  obtain ⟨hfault, hsame, hrelated'⟩ := run_mirrored i hrelated htop
  have htop' := Checked.locals_run htop i.limits i.body
  have hin : In none m s := ⟨halike, congrArg Captured.scope htop⟩
  have htraced := traces_program i.limits i.body .initial .nil m s hin
  unfold Checked.run at hfault hsame hrelated' htop'
  unfold Lexical.run
  generalize Machine.run n i.limits i.program = actual at hsame hrelated'
  obtain ⟨result, n'⟩ := actual
  rcases hchecked : Checked.evaluator.program i.limits .initial .nil i.body m with
    ⟨halt | v, m'⟩
  · rw [hchecked] at hfault hsame hrelated' htop' htraced
    cases result with
    | ok w => exact hsame.elim
    | error halt' =>
      have hhalt : halt = halt' := hsame
      subst hhalt
      -- the reference may only be left behind at a fault
      rcases htraced with hstop | ⟨s', hlexical, halike'⟩
      · exact absurd (congrArg Except.error hstop) hfault
      · rw [hlexical]
        refine ⟨rfl, ?_, m', hrelated', halike', htop'⟩
        intro heq
        exact hfault (congrArg Except.error (Except.error.inj heq))
  · rw [hchecked] at hfault hsame hrelated' htop' htraced
    cases result with
    | error halt' => exact hsame.elim
    | ok w =>
      obtain ⟨u, s', hlexical, hvu, halike'⟩ := htraced
      rw [hlexical]
      exact ⟨agree_of_same hsame hvu, nofun, m', hrelated', halike', htop'⟩

theorem inTurn_bridged (inputs : List AcceptedInput) :
    ∀ {n : Machine} {s : Lexical.State}, Bridged n s →
      let actual := inTurn (fun n i => Machine.run n i.limits i.program) n inputs
      let lexical := inTurn (fun s i => Lexical.run s i.limits i.body) s inputs
      List.Forall₂ (SameResult Agree) actual.1 lexical.1
        ∧ (∀ result ∈ actual.1, result ≠ .error .fault) ∧ Bridged actual.2 lexical.2 := by
  induction inputs with
  | nil =>
    intro n s h
    exact ⟨.nil, nofun, h⟩
  | cons i inputs ih =>
    intro n s h
    obtain ⟨hresult, hfault, h'⟩ := run_bridged i h
    obtain ⟨hresults, hfaults, h''⟩ := ih h'
    refine ⟨.cons hresult hresults, ?_, h''⟩
    intro result hmem
    rcases List.mem_cons.1 hmem with rfl | hmem
    · exact hfault
    · exact hfaults result hmem

/-- **The machine implements lexical scoping.**  Whatever inputs are run in turn, each
ends as under the reference semantics: with the same value, with the same error, or at
the same limits, and never with a fault.  Behind them, the globals and what was printed
are the same. -/
theorem runs_are_lexical (inputs : List AcceptedInput) :
    let actual := inTurn (fun n i => Machine.run n i.limits i.program) .initial inputs
    let lexical := inTurn (fun s i => Lexical.run s i.limits i.body) .initial inputs
    List.Forall₂ (SameResult Agree) actual.1 lexical.1
      ∧ (∀ result ∈ actual.1, result ≠ .error .fault) ∧ Agreeing actual.2 lexical.2 := by
  have hinitial : Bridged .initial .initial :=
    ⟨.initial, ⟨Heap.rel_empty .nil, rfl, rfl, rfl⟩, ⟨Heap.rel_empty .nil, rfl, rfl⟩, rfl⟩
  obtain ⟨hresults, hfaults, hbridged⟩ := inTurn_bridged inputs hinitial
  exact ⟨hresults, hfaults, hbridged.agreeing⟩

end LoxLang
