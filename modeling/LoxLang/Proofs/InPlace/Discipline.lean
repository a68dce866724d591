/-
  LoxLang.Proofs.InPlace.Discipline
  ─────────────────────────────────
  **Scopes are kept in order, however code ends.**  Two accounts of it:

    • The machine has its local environment back, cell by cell, after every expression and
      after every statement that is no declaration; a declaration is one edit of it
      (`still_eval_edits_exec`).
    • The evaluator in place does what the machine does (`agreesTo`), and none of its
      watches ever objects.  So, as long as programs run, no environment is changed but by
      the code that owns it, and no table is left behind.
-/
import LoxLang.Proofs.InPlace.Simulation
import LoxLang.Proofs.Scope.Refinement

namespace LoxLang

/-! ## §1. What the machine does to its local environment. -/

namespace Exec

open InPlace (Allowed allowed_refl)

variable {α β : Type} {declares : Bool} {x : Exec α} {f : α → Exec β}

/-- The computation changes the local environment by a declaration at most, and only if it
may. -/
def Edits (declares : Bool) (x : Exec α) : Prop :=
  ∀ m, Option.Rel (Allowed declares) m.locals (x m).2.locals

/-- What leaves the local variables alone may be allowed more. -/
theorem Still.edits (h : Still x) (declares : Bool) : Edits declares x := by
  intro m
  rw [h m]
  cases m.locals with
  | none => exact .none
  | some e => exact .some (allowed_refl declares e)

/-- Where nothing may be declared, the local variables stay as they are. -/
theorem Edits.still (h : Edits false x) : Still x := by
  intro m
  have hm := h m
  generalize (x m).2.locals = locals' at hm
  generalize m.locals = locals at hm
  cases hm with
  | none => rfl
  | some hsame => exact congrArg some hsame

/-- A declaration changes the active scope only. -/
theorem Edits.keeps (h : Edits declares x) : Keeps x := by
  intro m
  have hm := h m
  generalize (x m).2.locals = locals' at hm
  generalize m.locals = locals at hm
  cases hm with
  | none => exact .none
  | some hallowed => exact .some hallowed.grown

/-- Declarations may come last. -/
theorem Still.bind_edits (h : Still x) (hf : ∀ a, Edits declares (f a)) :
    Edits declares (x >>= f) := by
  intro m
  have hm := h m
  rcases hx : x m with ⟨e | a, m'⟩
  · have hstopped := h.edits declares m
    rw [hx] at hstopped
    rw [Attempt.bind_error hx]
    exact hstopped
  · rw [hx] at hm
    rw [Attempt.bind_ok hx, ← hm]
    exact hf a m'

/-- Declarations may come first, if nothing behind them changes the local variables. -/
theorem Edits.bind_still (h : Edits declares x) (hf : ∀ a, Still (f a)) :
    Edits declares (x >>= f) := by
  intro m
  have hm := h m
  rcases hx : x m with ⟨e | a, m'⟩
  · rw [hx] at hm
    rw [Attempt.bind_error hx]
    exact hm
  · rw [hx] at hm
    rw [Attempt.bind_ok hx, hf a m']
    exact hm

/-- A declaration is one. -/
theorem edits_declare (name : String) (v : Value) : Edits true (declare name v) := by
  intro m
  obtain ⟨heap, globals, locals, output⟩ := m
  cases locals with
  | none => exact .none
  | some e => exact .some (Env.edited_declare e name _)

/-- **Expressions leave the local environment alone, and so do statements, but for
declarations.** -/
theorem still_eval_edits_exec (turns : Nat) :
    ∀ depth, (∀ e, Still (eval turns depth e))
      ∧ ∀ {s : Stmt}, s.Tidy → Edits s.declared?.isSome (exec turns depth s) := by
  intro depth
  induction depth with
  | zero => exact ⟨fun _ => .throw _, fun _ => (Still.throw _).edits _⟩
  | succ depth ih =>
    obtain ⟨heval, hexec⟩ := ih
    have hplainly : ∀ {s : Stmt}, s.Tidy → s.declared? = none → Still (exec turns depth s) := by
      intro s htidy hplain
      have hs := hexec htidy
      rw [hplain] at hs
      exact hs.still
    refine ⟨?_, ?_⟩
    · refine still_closed.eval_succ still_load still_store (fun decl captured arguments => ?_) heval
      exact still_inCall decl captured captured arguments _
    · intro s htidy
      cases htidy with
      | expr e => exact Still.edits ((heval e).bind fun _ => .pure _) false
      | print es =>
        refine Still.edits ((still_closed.each (fun e => ?_) es).bind fun _ =>
          (still_write _).bind fun _ => .pure _) false
        exact (heval e).bind fun _ => still_write _
      | ifThen condition ht hplain =>
        refine Still.edits ((heval condition).bind fun v => ?_) false
        split
        · exact hplainly ht hplain
        · exact .pure _
      | ifElse condition ht hplain ht' hplain' =>
        refine Still.edits ((heval condition).bind fun v => ?_) false
        split
        · exact hplainly ht hplain
        · exact hplainly ht' hplain'
      | block hbody =>
        have hrow := keeps_closed.sequence fun s hs => (hexec (hbody s hs)).keeps
        exact (still_inBlock hrow).edits false
      | varDecl name line initial =>
        exact (heval initial).bind_edits fun v => (edits_declare name v).bind_still fun _ => .pure _
      | whileLoop condition ht hplain =>
        have hcondition : Still (do return (← eval turns depth condition).truth) :=
          (heval condition).bind fun _ => .pure _
        exact (still_closed.loop hcondition (hplainly ht hplain) turns).edits false
      | funDecl name line params hbody =>
        intro m
        exact ((edits_declare name _).bind_still fun _ => .pure _) m
      | ret line value => exact Still.edits ((heval value).bind fun _ => .pure _) false

end Exec

namespace InPlace

/-! ## §2. Expressions and statements. -/

/-- Down to this depth, the evaluator in place does what the machine does.  An expression
leaves its environment as it is, and so does a statement, unless it is a declaration. -/
structure AgreesTo (turns depth : Nat) : Prop where
  eval : ∀ here e table w, w.table = table →
    Acts here Same Depicts w (eval turns depth here e) (Exec.eval turns depth (e.fill table))
  exec : ∀ here {s : Stmt}, s.Tidy → ∀ table w, w.table = table →
    Acts here (Allowed s.declared?.isSome) Ends w (exec turns depth here s)
      (Exec.exec turns depth (s.fill table))

section

variable {turns depth : Nat}

/-- A row of statements in the active scope, which may grow by their declarations. -/
theorem AgreesTo.row (h : AgreesTo turns depth) (here : Option Nat) {table : SlotTable}
    {body : List Stmt} (htidy : ∀ s ∈ body, s.Tidy) {w : World} (htable : w.table = table) :
    Acts here Env.Grown Ends w (Exec.sequence (InPlace.exec turns depth here) body)
      (Exec.sequence (Exec.exec turns depth) (Stmt.fillAll table body)) := by
  refine acts_sequence (fun s hs w' htable' => ?_) w htable
  exact (h.exec here (htidy s hs) table w' htable').mono fun _ _ => Allowed.grown

/-- One level of depth more, for expressions: one case for each form. -/
theorem AgreesTo.eval_succ (h : AgreesTo turns depth) :
    ∀ here e table w, w.table = table →
      Acts here Same Depicts w (InPlace.eval turns (depth + 1) here e)
        (Exec.eval turns (depth + 1) (e.fill table)) := by
  intro here e table w htable
  refine .watch ?_
  cases e with
  | literal value => exact .pure same_refl (.toValue value)
  | group inner => exact h.eval here inner table w htable
  | unary op line operand =>
    refine (h.eval here operand table w htable).still_bind same_refl fun v v' w' _ _ hv => ?_
    exact acts_ofExcept (hv.unary_apply op line)
  | binary op line left right =>
    cases op with
    | connective c =>
      refine (h.eval here left table w htable).still_bind same_refl
        fun v v' w' hchanges _ hv => ?_
      rw [hv.settledBy_eq c]
      split
      · exact .pure same_refl hv
      · exact h.eval here right table w' (hchanges.table.trans htable)
    | strict op =>
      refine (h.eval here left table w htable).still_bind same_refl
        fun v v' w' hchanges _ hv => ?_
      refine (h.eval here right table w' (hchanges.table.trans htable)).still_bind same_refl
        fun u u' w'' _ hlater hu => ?_
      exact acts_ofExcept ((hv.later hlater).strict_apply op line hu)
  | var ref =>
    rw [← htable]
    exact acts_load ref
  | assign target value =>
    refine (h.eval here value table w htable).still_bind same_refl
      fun v v' w' hchanges _ hv => ?_
    rw [← htable, ← hchanges.table]
    refine (acts_store target hv).still_bind same_refl fun _ _ w'' _ hlater _ => ?_
    exact .pure same_refl (hv.later hlater)
  | call line callee arguments =>
    refine (h.eval here callee table w htable).still_bind same_refl
      fun f f' w' hchanges _ hf => ?_
    rw [Expr.fillAll_eq_map]
    have harguments := acts_each (R := Depicts) (f := Expr.fill table) Depicts.later
      (fun e w htable => h.eval here e table w htable) arguments w'
      (hchanges.table.trans htable)
    refine harguments.still_bind same_refl fun vs vs' w'' _ hlater hvs => ?_
    exact acts_callValue (fun here _ _ _ htidy => h.row here htidy rfl) line (hf.later hlater) hvs

/-- One level of depth more, for statements: one case for each form. -/
theorem AgreesTo.exec_succ (h : AgreesTo turns depth) :
    ∀ here {s : Stmt}, s.Tidy → ∀ table w, w.table = table →
      Acts here (Allowed s.declared?.isSome) Ends w (InPlace.exec turns (depth + 1) here s)
        (Exec.exec turns (depth + 1) (s.fill table)) := by
  intro here s htidy table w htable
  refine .watch ?_
  cases htidy with
  | expr e =>
    refine (h.eval here e table w htable).still_bind same_refl fun _ _ _ _ _ _ => ?_
    exact .pure same_refl .normal
  | print es =>
    unfold Stmt.fill Exec.exec
    rw [Expr.fillAll_eq_map]
    refine Acts.still_bind (acts_each (R := fun _ _ _ => True) (fun _ _ => trivial) ?_ es w
      htable) same_refl fun _ _ w' _ _ _ => ?_
    · intro e w htable
      refine (h.eval here e table w htable).still_bind same_refl fun v v' w' _ _ hv => ?_
      rw [hv.text_eq]
      exact acts_write _
    · refine (acts_write "\n").still_bind same_refl fun _ _ _ _ _ _ => ?_
      exact .pure same_refl .normal
  | ifThen condition ht hplain =>
    have hthen := h.exec here ht
    rw [hplain] at hthen
    refine (h.eval here condition table w htable).still_bind same_refl
      fun v v' w' hchanges _ hv => ?_
    rw [hv.truth_eq]
    split
    · exact hthen table w' (hchanges.table.trans htable)
    · exact .pure same_refl .normal
  | ifElse condition ht hplain ht' hplain' =>
    have hthen := h.exec here ht
    have helse := h.exec here ht'
    rw [hplain] at hthen
    rw [hplain'] at helse
    refine (h.eval here condition table w htable).still_bind same_refl
      fun v v' w' hchanges _ hv => ?_
    rw [hv.truth_eq]
    split
    · exact hthen table w' (hchanges.table.trans htable)
    · exact helse table w' (hchanges.table.trans htable)
  | block hbody =>
    exact acts_inBlock fun here w' htable' => h.row here hbody (htable'.trans htable)
  | varDecl name line initial =>
    refine (h.eval here initial table w htable).still_bind (allowed_refl true)
      fun v v' w' _ _ hv => ?_
    refine (acts_declare name hv).bind_still fun _ _ _ _ _ _ => ?_
    exact .pure same_refl .normal
  | whileLoop condition ht hplain =>
    have hbody := h.exec here ht
    rw [hplain] at hbody
    refine acts_loop (fun w htable => ?_) (hbody table) turns w htable
    refine (h.eval here condition table w htable).still_bind same_refl fun v v' _ _ _ hv => ?_
    exact .pure same_refl hv.truth_eq
  | @funDecl name line params body hbody =>
    show Acts here (Allowed true) Ends w (capture here >>= _)
      ((do return (← get).locals.map Env.capture) >>= fun captured => do
        Exec.declare name (.function ⟨name, line, params, Stmt.fillAll table body⟩ captured)
        return .normal)
    refine acts_capture.still_bind (allowed_refl true)
      fun held captured w' hchanges _ ⟨henv, hknown, hheld⟩ => ?_
    have hfilled : (⟨name, line, params, Stmt.fillAll table body⟩ : FunDecl)
        = FunDecl.fill held.table ⟨name, line, params, body⟩ := by
      rw [hheld, hchanges.table, htable]
      rfl
    refine (acts_declare name (.function ⟨hfilled, hbody, henv, hknown⟩)).bind_still
      fun _ _ _ _ _ _ => ?_
    exact .pure same_refl .normal
  | ret line value =>
    refine (h.eval here value table w htable).still_bind same_refl fun v v' _ _ _ hv => ?_
    exact .pure same_refl (.returned hv)

end

/-- **The evaluator in place does what the machine does.** -/
theorem agreesTo (turns : Nat) : ∀ depth, AgreesTo turns depth := by
  intro depth
  induction depth with
  | zero =>
    refine ⟨?_, ?_⟩
    · intro here e table w _
      exact .throw same_refl _
    · intro here s _ table w _
      exact .throw (allowed_refl _) _
  | succ depth ih => exact ⟨ih.eval_succ, ih.exec_succ⟩

/-! ## §3. Programs. -/

/-- Top-level code owns no environment, and so changes none. -/
theorem acts_program (limits : Limits) {table : SlotTable} :
    ∀ {body : List Stmt}, (∀ s ∈ body, s.Tidy) →
      ∀ ⦃w : World⦄ ⦃last : Value Held⦄ ⦃last' : Value⦄, w.table = table → Depicts w last last' →
        Acts none Env.Grown Depicts w (program limits last body)
          (Exec.program limits last' (Stmt.fillAll table body)) := by
  intro body
  induction body with
  | nil =>
    intro _ w last last' _ hlast
    exact .pure Env.Grown.refl hlast
  | cons s body ih =>
    intro htidy w last last' htable hlast
    have hmore := ih fun t ht => htidy t (List.mem_cons_of_mem s ht)
    have hs := ((agreesTo limits.turns limits.depth).exec none (htidy s List.mem_cons_self)
      table w htable).mono (q := Env.Grown) fun _ _ => Allowed.grown
    -- the value of an expression statement is the last so far, any other statement may return
    cases s with
    | expr e =>
      refine ((agreesTo limits.turns limits.depth).eval none e table w htable).still_bind
        Env.Grown.refl fun v v' w' hchanges _ hv => ?_
      exact hmore (hchanges.table.trans htable) hv
    | _ =>
      refine hs.bind (fun _ _ hgrown => hgrown) (fun _ _ _ => Env.Grown.trans)
        fun c c' w' hchanges hlater hc => ?_
      cases hc with
      | normal => exact hmore (hchanges.table.trans htable) (hlast.later hlater)
      | returned _ => exact .pure Env.Grown.refl (hlast.later hlater)

/-- One input, with its own table, from top level to top level. -/
theorem run_depicted (i : AcceptedInput) {w : World} {n : Machine} (h : Depicted none w n) :
    Later w (w.run i.limits i.program).2
      ∧ Depicted none (w.run i.limits i.program).2 (n.run i.limits i.program).2
      ∧ SameResult (Depicts (w.run i.limits i.program).2) (w.run i.limits i.program).1
        (n.run i.limits i.program).1 := by
  -- the table is nothing to what functions have captured
  have hlater : Later w { w with table := Stmt.slotsAll i.program } := fun id hid => ⟨hid, rfl⟩
  have hstart : Depicted none { w with table := Stmt.slotsAll i.program } n :=
    ⟨heapRel_later h.heap hlater, h.globals, h.locals, h.output, owned_none h.owned.captures_lt⟩
  have hacts := acts_program i.limits (i.tidy_tagAll 0)
    (show World.table { w with table := Stmt.slotsAll i.program } = _ from rfl) .nil n hstart
  rw [Stmt.fill_tagAll i.program (SlotTable.has_self _)] at hacts
  obtain ⟨hchanges, hdepicted, hresult⟩ := hacts
  exact ⟨hlater.trans (hchanges.later hstart.owned), hdepicted, hresult⟩

/-- Inputs run in turn go on depicting the machine, each from the top level back to it. -/
theorem inTurn_depicted (inputs : List AcceptedInput) :
    ∀ {w : World} {n : Machine}, Depicted none w n →
      let watched := inTurn (fun w i => World.run w i.limits i.program) w inputs
      let actual := inTurn (fun n i => Machine.run n i.limits i.program) n inputs
      Later w watched.2 ∧ Depicted none watched.2 actual.2
        ∧ List.Forall₂ (SameResult (Depicts watched.2)) watched.1 actual.1 := by
  induction inputs with
  | nil =>
    intro w n h
    exact ⟨fun id hid => ⟨hid, rfl⟩, h, .nil⟩
  | cons i inputs ih =>
    intro w n h
    obtain ⟨hlater, hdepicted, hresult⟩ := run_depicted i h
    obtain ⟨hlater', hdepicted', hresults⟩ := ih hdepicted
    refine ⟨hlater.trans hlater', hdepicted', .cons ?_ hresults⟩
    exact sameResult_later (fun hv => hv.later hlater') hresult

end InPlace

/-- Runs that end alike come to a fault together. -/
theorem ne_fault_of_sameResult {α β : Type} {W : α → β → Prop} {as : List (Except Halt α)}
    {bs : List (Except Halt β)} (h : List.Forall₂ (SameResult W) as bs)
    (hbs : ∀ b ∈ bs, b ≠ .error .fault) : ∀ a ∈ as, a ≠ .error .fault := by
  induction h with
  | nil => exact nofun
  | @cons a b as bs hab _ ih =>
    intro a' ha'
    rcases List.mem_cons.1 ha' with rfl | ha'
    · intro hfault
      subst hfault
      refine hbs b List.mem_cons_self ?_
      cases b with
      | ok v => exact hab.elim
      | error halt => exact congrArg Except.error (show Halt.fault = halt from hab).symm
    · exact ih (fun b hb => hbs b (List.mem_cons_of_mem _ hb)) a' ha'

/-- **Scope discipline.**  Whatever inputs are run in turn, in place and under watch:

    • no watch ever objects: whatever an expression or a statement has come to, the table is
      the one it was, every environment that a function had captured is what it was, and its
      own environment is what it was, but for one edit by a declaration,
    • and each input ends on the machine as it does in place, with functions that captured
      what they captured there.

The machine itself, in any state and at any limits, has its local environment back after an
expression; and after a statement of a program, but for one edit by a declaration. -/
theorem scopes_are_disciplined (inputs : List AcceptedInput) :
    let watched := inTurn (fun w i => InPlace.World.run w i.limits i.program) .initial inputs
    let actual := inTurn (fun n i => Machine.run n i.limits i.program) .initial inputs
    (∀ result ∈ watched.1, result ≠ .error .fault)
      ∧ List.Forall₂ (SameResult (InPlace.Depicts watched.2)) watched.1 actual.1
      ∧ InPlace.Depicted none watched.2 actual.2
      ∧ (∀ turns depth e m, (Exec.eval turns depth e m).2.locals = m.locals)
      ∧ (∀ i ∈ inputs, ∀ s ∈ i.program, s.Tidy)
      ∧ ∀ turns depth (s : Stmt) m, s.Tidy →
        Option.Rel (InPlace.Allowed s.declared?.isSome) m.locals
          (Exec.exec turns depth s m).2.locals := by
  have hinitial : InPlace.Depicted none .initial .initial :=
    ⟨Heap.rel_empty .nil, rfl, rfl, rfl, InPlace.owned_none nofun⟩
  obtain ⟨-, hdepicted, hresults⟩ := InPlace.inTurn_depicted inputs hinitial
  obtain ⟨-, hfaults, -⟩ := inTurn_bridged inputs bridged_initial
  refine ⟨ne_fault_of_sameResult hresults hfaults, hresults, hdepicted, ?_, ?_, ?_⟩
  · intro turns depth e
    exact (Exec.still_eval_edits_exec turns depth).1 e
  · intro i _
    exact i.tidy_program
  · intro turns depth s m htidy
    exact (Exec.still_eval_edits_exec turns depth).2 htidy m

end LoxLang
