/-
  LoxLang.Proofs.Return.Answered
  ──────────────────────────────
  **Every return is taken by the innermost call.**  In the record of a run, calls are nested
  like brackets, and a return is followed at once by the end of the innermost call that is
  still open, which gives its caller the value that was returned (`Answered`).

  Blocks, branches, loops and rows of statements hand on a return without an event, and
  without a change to anything but the local variables.  So a return is the last event in the
  record of the statement that it ends (`Leaves`), and it stays so until the call takes it.

  Main results:
    * `notes_eval_exec`    — code enters calls that are over, and what is left behind them
                             is the return that ended it,
    * `verdicts_are_exact` — the resolver refuses what it should and nothing else, and in a
                             program that it lets through no return ever leaves its call.
-/
import LoxLang.Proofs.Program.InOrder
import LoxLang.Proofs.Return.Record
import LoxLang.Proofs.Scope.Verdict

namespace LoxLang

/-! ## §1. Records in which every return is taken. -/

/-- The last events of a call. -/
inductive Ending : List Event → Prop
  /-- The call came to the end of its body, and gives nil. -/
  | normal {m : Machine} : Ending [.answer (.ok .nil) m]
  /-- The call gives what was returned.  Between the two, the machine has done nothing but
  change back to other local variables. -/
  | returned {v : Value} {m m' : Machine} (same : { m with locals := m'.locals } = m') :
      Ending [.ret v m, .answer (.ok v) m']
  /-- The call stopped half-way. -/
  | stopped {halt : Halt} {m : Machine} : Ending [.answer (.error halt) m]

/-- A record of calls one after the other.  Each is over, with all the calls inside of it, and
has taken the return that ended it, if there was one; no return is anywhere else. -/
inductive Answered : List Event → Prop
  | nil : Answered []
  | call {decl : FunDecl} {inner ending rest : List Event} (inside : Answered inner)
      (ended : Ending ending) (more : Answered rest) :
      Answered (.call decl :: (inner ++ (ending ++ rest)))

/-- Two records in which every return is taken may follow each other. -/
theorem Answered.append {first second : List Event} (h : Answered first)
    (h' : Answered second) : Answered (first ++ second) := by
  induction h with
  | nil => exact h'
  | call inside ended _ _ ih =>
    rw [List.cons_append, List.append_assoc, List.append_assoc]
    exact .call inside ended ih

namespace Recorded

variable {α β : Type}

/-- What a statement leaves at the end of the record: nothing, or the return that ended
it. -/
inductive Leaves : Completion → Machine → List Event → Prop
  | normal {m : Machine} : Leaves .normal m []
  | returned {v : Value} {m m' : Machine} (same : { m with locals := m'.locals } = m') :
      Leaves (.returned v) m' [.ret v m]

/-- It does not matter which local variables the machine has. -/
theorem Leaves.relocate {c : Completion} {m : Machine} {last : List Event} (h : Leaves c m last)
    (locals : Captured) : Leaves c { m with locals } last := by
  cases h with
  | normal => exact .normal
  | @returned v m₀ m same =>
    refine .returned ?_
    rw [← same]

/-- What an expression leaves: nothing. -/
def Clean (_ : α) (_ : Machine) (last : List Event) : Prop :=
  last = []

/-! ## §2. Computations that keep the record. -/

/-- What a computation that began on `r` came to: the local variables have changed in their
active scope only, and the record has grown by calls that are over, and then by what the
computation is to leave. -/
inductive Noted (T : α → Machine → List Event → Prop) (r : Record) : Except Halt α × Record → Prop
  | ok {a : α} {m : Machine} {inner last : List Event}
      (keeps : Option.Rel Env.Grown r.machine.locals m.locals) (inside : Answered inner)
      (leaves : T a m last) : Noted T r (.ok a, ⟨m, r.events ++ (inner ++ last)⟩)
  | error {halt : Halt} {m : Machine} {inner : List Event}
      (keeps : Option.Rel Env.Grown r.machine.locals m.locals) (inside : Answered inner) :
      Noted T r (.error halt, ⟨m, r.events ++ inner⟩)

/-- The computation keeps the record. -/
def Notes (T : α → Machine → List Event → Prop) (x : Recorded α) : Prop :=
  ∀ r, Noted T r (x r)

variable {T : α → Machine → List Event → Prop} {U : β → Machine → List Event → Prop}
variable {x : Recorded α} {f : α → Recorded β}

/-- An event less in the record at the start is one more behind it. -/
theorem Noted.before {r : Record} {m : Machine} {first : List Event} {o : Except Halt α × Record}
    (h : Noted T ⟨m, r.events ++ first⟩ o) (hfirst : Answered first)
    (hkeeps : Option.Rel Env.Grown r.machine.locals m.locals) : Noted T r o := by
  cases h with
  | @ok a m' inner last keeps inside leaves =>
    rw [List.append_assoc, ← List.append_assoc first]
    exact .ok (Exec.grown_trans hkeeps keeps) (hfirst.append inside) leaves
  | @error halt m' inner keeps inside =>
    rw [List.append_assoc]
    exact .error (Exec.grown_trans hkeeps keeps) (hfirst.append inside)

/-- Nothing has happened to the record. -/
theorem Noted.quiet {r : Record} {a : α} {m : Machine} (h : T a m [])
    (hkeeps : Option.Rel Env.Grown r.machine.locals m.locals) :
    Noted T r (.ok a, ⟨m, r.events⟩) := by
  have hok : Noted T r (.ok a, ⟨m, r.events ++ ([] ++ [])⟩) := .ok hkeeps .nil h
  rw [List.append_nil, List.append_nil] at hok
  exact hok

/-- Nor has anything if the computation stopped at once. -/
theorem Noted.halted {r : Record} {halt : Halt} {m : Machine}
    (hkeeps : Option.Rel Env.Grown r.machine.locals m.locals) :
    Noted T r (.error halt, ⟨m, r.events⟩) := by
  have herror : Noted T r (.error halt, ⟨m, r.events ++ []⟩) := .error hkeeps .nil
  rw [List.append_nil] at herror
  exact herror

/-- A result that notes nothing. -/
theorem Notes.pure {a : α} (h : ∀ m, T a m []) : Notes T (pure a) :=
  fun r => .quiet (h r.machine) (Exec.grown_refl _)

/-- What stops notes nothing that has to be taken. -/
theorem Notes.throw (halt : Halt) : Notes T (throw halt) :=
  fun _ => .halted (Exec.grown_refl _)

/-- What the machine does is no event. -/
theorem notes_lift {y : Exec α} (h : Exec.Keeps y) : Notes Clean (Record.host.lift y) := by
  intro r
  have hkeeps := h r.machine
  rcases hrun : y r.machine with ⟨halt | a, m⟩
  · rw [hrun] at hkeeps
    rw [Host.lift_eq hrun]
    exact .halted hkeeps
  · rw [hrun] at hkeeps
    rw [Host.lift_eq hrun]
    exact .quiet rfl hkeeps

/-- What follows adds to the record. -/
theorem Notes.bind (h : Notes Clean x) (hf : ∀ a, Notes U (f a)) : Notes U (x >>= f) := by
  intro r
  have hr := h r
  generalize hx : x r = o at hr
  cases hr with
  | @ok a m inner last keeps inside leaves =>
    obtain rfl : last = [] := leaves
    rw [Attempt.bind_ok hx, List.append_nil]
    exact (hf a _).before inside keeps
  | error keeps inside =>
    rw [Attempt.bind_error hx]
    exact .error keeps inside

/-- Behind a statement: what follows adds to the record after a normal end, and what becomes
of a return is to be shown. -/
theorem Notes.bind_statement {x : Recorded Completion} {f : Completion → Recorded α}
    (h : Notes Leaves x) (hnormal : Notes T (f .normal))
    (hreturned : ∀ {r v m inner last}, (x r).1 = .ok (.returned v) →
      Option.Rel Env.Grown r.machine.locals m.locals → Answered inner →
      Leaves (.returned v) m last →
      Noted T r (f (.returned v) ⟨m, r.events ++ (inner ++ last)⟩)) : Notes T (x >>= f) := by
  intro r
  have hr := h r
  generalize hx : x r = o at hr
  cases hr with
  | @ok c m inner last keeps inside leaves =>
    rw [Attempt.bind_ok hx]
    cases c with
    | normal =>
      cases leaves
      rw [List.append_nil]
      exact (hnormal _).before inside keeps
    | returned v => exact hreturned (congrArg Prod.fst hx) keeps inside leaves
  | error keeps inside =>
    rw [Attempt.bind_error hx]
    exact .error keeps inside

/-- What follows is run behind a normal end only; a return is handed on. -/
theorem Notes.unless_returned {x : Recorded Completion} {f : Completion → Recorded Completion}
    (h : Notes Leaves x) (hnormal : Notes Leaves (f .normal))
    (hf : ∀ v, f (.returned v) = Pure.pure (.returned v)) : Notes Leaves (x >>= f) := by
  refine h.bind_statement hnormal fun _ keeps inside leaves => ?_
  rw [hf]
  exact .ok keeps inside leaves

/-! ## §3. Operations. -/

/-- Operators note nothing. -/
theorem notes_ofExcept (a : Except RuntimeError α) :
    Notes Clean (Record.host.lift (Exec.ofExcept a)) :=
  notes_lift (Exec.still_closed.ofExcept a).keeps

/-- Printing notes nothing. -/
theorem notes_write (text : String) : Notes Clean (Record.host.lift (Exec.write text)) :=
  notes_lift (Exec.still_write text).keeps

theorem notes_declare (name : String) (v : Value) :
    Notes Clean (Record.host.lift (Exec.declare name v)) :=
  notes_lift (Exec.keeps_declare name v)

theorem notes_load (ref : Ref) : Notes Clean (Record.host.lift (Exec.load ref)) :=
  notes_lift (Exec.still_load ref).keeps

theorem notes_store (ref : Ref) (v : Value) :
    Notes Clean (Record.host.lift (Exec.store ref v)) :=
  notes_lift (Exec.still_store ref v).keeps

/-- A return statement is the last that happens until the call takes its value. -/
theorem notes_return (v : Value) : Notes Leaves (book.ret v) := by
  intro r
  have hret : Noted Leaves r
      (.ok (.returned v), ⟨r.machine, r.events ++ ([] ++ [.ret v r.machine])⟩) :=
    .ok (Exec.grown_refl _) .nil (.returned rfl)
  exact hret

/-- Leaving nothing to be taken is handed on to what is put together. -/
theorem clean_closed : Attempt.Closed fun α (x : Recorded α) => Notes Clean x where
  pure _ := .pure fun _ => rfl
  throw := .throw
  bind := .bind

/-! ## §4. Blocks, rows and loops hand a return on. -/

/-- The block has the local variables back as they were, and nothing else has changed
since the end of its body. -/
theorem inBlock_apply {x : Recorded α} {r r' : Record} {result : Except Halt α}
    (hrun : x { r with machine := Exec.entered r.machine } = (result, r'))
    (hkeeps : Option.Rel Env.Grown (Exec.entered r.machine).locals r'.machine.locals) :
    Record.host.inBlock x r = (result, { r' with machine.locals := r.machine.locals }) := by
  have hblock : Exec.inBlock (fun _ => (result, r'.machine)) r.machine
      = (result, { r'.machine with locals := r.machine.locals }) := Exec.inBlock_eq rfl hkeeps
  simp only [Host.inBlock, Record.host, hrun, hblock]

/-- A block hands on the return of its body, in front of which nothing is left open. -/
theorem notes_inBlock {x : Recorded Completion} (h : Notes Leaves x) :
    Notes Leaves (Record.host.inBlock x) := by
  intro r
  have hr := h { r with machine := Exec.entered r.machine }
  generalize hx : x { r with machine := Exec.entered r.machine } = o at hr
  cases hr with
  | ok keeps inside leaves =>
    rw [inBlock_apply hx keeps]
    exact .ok (Exec.grown_refl _) inside (leaves.relocate _)
  | error keeps inside =>
    rw [inBlock_apply hx keeps]
    exact .error (Exec.grown_refl _) inside

/-- A row stops at the first statement that returns. -/
theorem notes_sequence {step : Unit → Stmt → Recorded Completion}
    (h : ∀ s, Notes Leaves (step () s)) :
    ∀ body, Notes Leaves (evaluator.sequence step () body) := by
  intro body
  induction body with
  | nil => exact .pure fun _ => .normal
  | cons s body ih => exact (h s).unless_returned ih (fun _ => rfl)

/-- A loop stops at the first turn that returns. -/
theorem notes_loop {condition : Recorded Bool} {body : Recorded Completion}
    (hcondition : Notes Clean condition) (hbody : Notes Leaves body) :
    ∀ turns, Notes Leaves (Exec.loop condition body turns) := by
  intro turns
  induction turns with
  | zero => exact .throw _
  | succ turns ih =>
    refine hcondition.bind fun holds => ?_
    cases holds with
    | false => exact .pure fun _ => .normal
    | true => exact hbody.unless_returned ih (fun _ => rfl)

/-! ## §5. Calls take a return. -/

/-- A call takes up the local variables of the function for its body, and hands a return on. -/
theorem notes_inCall (decl : FunDecl) (captured : Captured) (arguments : List Value)
    {x : Recorded Completion} (h : Notes Leaves x) :
    Notes Leaves (inCall decl captured arguments x) := by
  intro r
  have hr := h { r with machine := Exec.called decl captured captured arguments r.machine }
  unfold inCall
  generalize x { r with machine := Exec.called decl captured captured arguments r.machine } = o
    at hr
  cases hr with
  | ok keeps inside leaves => exact .ok (Exec.grown_refl _) inside (leaves.relocate _)
  | error keeps inside => exact .error (Exec.grown_refl _) inside

/-- What a call gives: nil behind a normal end, and else what was returned. -/
def given : Completion → Value
  | .normal => .nil
  | .returned v => v

/-- What a body leaves is taken by the answer behind it. -/
theorem Leaves.ending {c : Completion} {m : Machine} {last : List Event} (h : Leaves c m last) :
    Ending (last ++ [.answer (.ok (given c)) m]) := by
  cases h with
  | normal => exact .normal
  | returned same => exact .returned same

/-- The events of a call that is over. -/
theorem Noted.call {r : Record} {decl : FunDecl} {result : Except Halt Value} {m : Machine}
    {inner last : List Event} (keeps : Option.Rel Env.Grown r.machine.locals m.locals)
    (inside : Answered inner) (ended : Ending (last ++ [.answer result m])) :
    Noted Clean r
      (result, ⟨m, r.events ++ [.call decl] ++ (inner ++ last) ++ [.answer result m]⟩) := by
  have hcall : Answered (.call decl :: (inner ++ (last ++ [.answer result m] ++ []))) :=
    .call inside ended .nil
  have hevents : r.events ++ [.call decl] ++ (inner ++ last) ++ [.answer result m]
      = r.events ++ .call decl :: (inner ++ (last ++ [.answer result m] ++ [])) := by
    simp only [List.append_assoc, List.cons_append, List.nil_append, List.append_nil]
  rw [hevents]
  cases result with
  | error halt => exact .error keeps hcall
  | ok v =>
    rw [← List.append_nil (_ :: _)]
    exact .ok keeps hcall rfl

/-- **The return that ends the body of a function is taken by its call.** -/
theorem notes_answered {decl : FunDecl} {x : Recorded Completion}
    {f : Completion → Recorded Value} (h : Notes Leaves x)
    (hf : ∀ c, f c = Pure.pure (given c)) : Notes Clean (answered decl (x >>= f)) := by
  intro r
  have hr := h { r with events := r.events ++ [.call decl] }
  unfold answered
  generalize hx : x { r with events := r.events ++ [.call decl] } = o at hr
  cases hr with
  | ok keeps inside leaves =>
    rw [Attempt.bind_ok hx, hf]
    exact .call keeps inside leaves.ending
  | @error halt m inner keeps inside =>
    rw [Attempt.bind_error hx]
    rw [← List.append_nil inner]
    exact .call keeps inside .stopped

/-- The value of a call is what its body returned, so that nothing is left to be taken. -/
theorem notes_callValue {run : FunDecl → Captured → Recorded Completion}
    (h : ∀ decl captured, Notes Leaves (run decl captured)) (line : Int) (callee : Value)
    (arguments : List Value) : Notes Clean (evaluator.callValue run line callee arguments) := by
  cases callee with
  | function decl captured =>
    unfold Evaluator.callValue
    dsimp only
    split
    · refine notes_answered (notes_inCall decl captured arguments (h decl captured)) ?_
      rintro (_ | v)
      · rfl
      · rfl
    · exact .throw _
  | _ => exact .throw _

/-! ## §6. All code. -/

/-- **Expressions leave calls that are over; statements leave these, and behind them the
return that ended the statement, if there was one.**  By induction on the depth, over all
expressions and statements at once: what a function does when it is called was known one
level down. -/
theorem notes_eval_exec (turns : Nat) :
    ∀ depth, (∀ e, Notes Clean (evaluator.eval turns depth () e))
      ∧ ∀ s, Notes Leaves (evaluator.exec turns depth () s) := by
  have hnormal : Notes Leaves (Pure.pure .normal) := .pure fun _ => .normal
  intro depth
  induction depth with
  | zero => exact ⟨fun _ => .throw _, fun _ => .throw _⟩
  | succ depth ih =>
    obtain ⟨heval, hexec⟩ := ih
    refine ⟨?_, ?_⟩
    · intro e
      cases e with
      | literal value => exact .pure fun _ => rfl
      | group inner => exact heval inner
      | unary op line operand => exact (heval operand).bind fun _ => notes_ofExcept _
      | binary op line left right =>
        cases op with
        | connective c =>
          refine (heval left).bind fun v => ?_
          split
          · exact .pure fun _ => rfl
          · exact heval right
        | strict op =>
          exact (heval left).bind fun _ => (heval right).bind fun _ => notes_ofExcept _
      | var ref => exact notes_load ref
      | assign target value =>
        exact (heval value).bind fun v => (notes_store target v).bind fun _ => .pure fun _ => rfl
      | call line callee arguments =>
        exact (heval callee).bind fun _ => (clean_closed.each heval arguments).bind fun _ =>
          notes_callValue (fun decl _ => notes_sequence hexec decl.body) _ _ _
    · intro s
      cases s with
      | expr e => exact (heval e).bind fun _ => hnormal
      | print es =>
        refine Notes.bind (clean_closed.each (fun e => ?_) es) fun _ =>
          (notes_write _).bind fun _ => hnormal
        exact (heval e).bind fun _ => notes_write _
      | ifThen condition thenBranch =>
        refine (heval condition).bind fun v => ?_
        split
        · exact hexec thenBranch
        · exact hnormal
      | ifElse condition thenBranch elseBranch =>
        refine (heval condition).bind fun v => ?_
        split
        · exact hexec thenBranch
        · exact hexec elseBranch
      | block body => exact notes_inBlock (notes_sequence hexec body)
      | varDecl name line initial =>
        exact (heval initial).bind fun v => (notes_declare name v).bind fun _ => hnormal
      | whileLoop condition body =>
        exact notes_loop ((heval condition).bind fun _ => .pure fun _ => rfl) (hexec body) turns
      | funDecl name line params body =>
        exact fun r => ((notes_declare name _).bind fun _ => hnormal) r
      | ret line value => exact (heval value).bind notes_return

/-- Behind a statement that does not return there is nothing but calls that are over. -/
theorem Notes.past_statement {x : Recorded Completion} {y : Exec Completion}
    {f : Completion → Recorded α} (h : Notes Leaves x) (htells : Tells Record.machine x y)
    (hproceeds : Exec.Proceeds y) (hnormal : Notes T (f .normal)) : Notes T (x >>= f) := by
  refine h.bind_statement hnormal ?_
  intro r v m _ _ hreturned
  -- the machine in the record would return as well
  have hmachine : (y r.machine).1 = .ok (.returned v) := by
    rw [htells.eq r]
    exact hreturned
  exact absurd hmachine (hproceeds r.machine v)

/-- A program none of whose statements returns leaves nothing to be taken. -/
theorem notes_program {limits : Limits} {body : List Stmt}
    (h : ∀ s ∈ body, Exec.Proceeds (Exec.exec limits.turns limits.depth s)) :
    ∀ last, Notes Clean (evaluator.program limits () last body) := by
  obtain ⟨heval, hexec⟩ := notes_eval_exec limits.turns limits.depth
  have htells := (book.tells_eval_exec limits.turns limits.depth).2
  induction body with
  | nil => exact fun last => .pure fun _ => rfl
  | cons s body ih =>
    intro last
    have hs := h s List.mem_cons_self
    have hmore := ih fun t ht => h t (List.mem_cons_of_mem s ht)
    cases s with
    | expr e => exact (heval e).bind fun v => hmore v
    | _ => exact (hexec _).past_statement (htells _) hs (hmore last)

end Recorded

/-! ## §7. Programs that were resolved. -/

/-- In the record of a program that was resolved, every return is taken; and the run with a
record is the run of the machine. -/
theorem Machine.runRecorded_of_resolve {body program : List Stmt}
    (h : (Resolver.initial.resolve body).1 = .ok program) (limits : Limits) (m : Machine) :
    ∃ events, m.runRecorded limits program
        = ((m.run limits program).1, ⟨(m.run limits program).2, events⟩) ∧ Answered events := by
  have hnotes := Recorded.notes_program (proceeds_program h limits.turns limits.depth) .nil ⟨m, []⟩
  rw [m.run_eq_runRecorded]
  unfold Machine.runRecorded
  generalize Recorded.evaluator.program limits () .nil program ⟨m, []⟩ = o at hnotes
  cases hnotes with
  | @ok v m' inner last _ inside leaves =>
    obtain rfl : last = [] := leaves
    exact ⟨inner, by rw [List.append_nil]; rfl, inside⟩
  | @error halt m' inner _ inside => exact ⟨inner, rfl, inside⟩

-- a return in a block, in a function that is called by another
example : ((Machine.initial.runRecorded ⟨20, 1⟩
    [.funDecl "f" 1 [] [.block [.ret 1 (.literal .nil)]],
      .funDecl "g" 2 [] [.expr (.call 2 (.var ⟨"f", 2, none⟩) []), .ret 2 (.literal .nil)],
      .expr (.call 3 (.var ⟨"g", 3, none⟩) [])]).2.events.map fun
        | .call decl => decl.name
        | .ret _ _ => "return"
        | .answer _ _ => "end")
    = ["g", "f", "return", "end", "return", "end"] := rfl

/-- **The verdict on a program is exact, and returns stay inside of calls.**  A program is
refused if and only if a return is in no function or the parameters of a function are not
distinct, and the error is that of the first such statement, where a function comes before
what is in its body.  In a program that is not refused, no top-level statement returns; so
every run takes its course through all statements in order, or up to the one that stops, and
in its record every return is taken by the innermost call. -/
theorem verdicts_are_exact (body : List Stmt) :
    ((∃ e, (Resolver.initial.resolve body).1 = .error e)
      ↔ (∃ line value, ⟨.ret line value, false⟩ ∈ Stmt.occurrencesAll false body)
        ∨ ∃ name line params inner inFunction,
          ⟨.funDecl name line params inner, inFunction⟩ ∈ Stmt.occurrencesAll false body
            ∧ ¬ params.Nodup)
      ∧ (∀ e, (Resolver.initial.resolve body).1 = .error e
        ↔ ∃ before o after, Stmt.occurrencesAll false body = before ++ o :: after ∧ o.Refused e
          ∧ ∀ o' ∈ before, ∀ e', ¬ o'.Refused e')
      ∧ ∀ program, (Resolver.initial.resolve body).1 = .ok program →
        (∀ s ∈ program, ∀ turns depth m v, (Exec.exec turns depth s m).1 ≠ .ok (.returned v))
        ∧ ∀ limits m, Course limits m .nil program (m.run limits program)
          ∧ ∃ events, m.runRecorded limits program
              = ((m.run limits program).1, ⟨(m.run limits program).2, events⟩)
            ∧ Answered events := by
  refine ⟨resolve_refuses_iff, fun e => resolve_eq_error_iff, fun program h => ⟨?_, ?_⟩⟩
  · intro s hs turns depth m v
    exact proceeds_program h turns depth s hs m v
  · intro limits m
    exact ⟨course_of_resolve h limits m, m.runRecorded_of_resolve h limits⟩

end LoxLang
