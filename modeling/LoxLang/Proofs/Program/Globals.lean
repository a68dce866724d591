/-
  LoxLang.Proofs.Program.Globals
  ──────────────────────────────
  **Which global names there are can be read off the program.**  Only the declarations that
  stand at top level of a program make global variables.  All other code, be it the inside of
  a block or the body of a call, an assignment or a loop, leaves the row of global variables
  exactly as it is, names and cells (`spares_eval_exec`); what it may change are the values in
  the cells.

  So behind a program the names are those there were, followed by the new ones of its own
  declarations in the order in which they come first (`followedBy`).  If a statement
  stops, those in front of it count, and it does not.
-/
import LoxLang.Proofs.InPlace.Table
import LoxLang.Proofs.Program.InOrder

namespace LoxLang

namespace Exec

/-! ## §1. Code that spares the global variables. -/

variable {α β : Type} {inside : Bool} {x : Exec α} {f : α → Exec β}

/-- The computation leaves the row of global variables as it is, and stays inside of a block
or a call if it was there; it may depend on being there. -/
def Spares (inside : Bool) (x : Exec α) : Prop :=
  ∀ m, (inside = true → m.locals.isSome = true) →
    (x m).2.globals = m.globals ∧ (x m).2.locals.isSome = m.locals.isSome

theorem Spares.pure (a : α) : Spares inside (pure a : Exec α) :=
  fun _ _ => ⟨rfl, rfl⟩

theorem Spares.throw (halt : Halt) : Spares inside (throw halt : Exec α) :=
  fun _ _ => ⟨rfl, rfl⟩

/-- What comes second starts inside if what comes first does. -/
theorem Spares.bind (h : Spares inside x) (hf : ∀ a, Spares inside (f a)) :
    Spares inside (x >>= f) := by
  intro m hm
  have hx := h m hm
  rcases hrun : x m with ⟨halt | a, m'⟩
  · rw [hrun] at hx
    rw [Attempt.bind_error hrun]
    exact hx
  · rw [hrun] at hx
    rw [Attempt.bind_ok hrun]
    obtain ⟨hglobals, hlocals⟩ := hx
    obtain ⟨hglobals', hlocals'⟩ := hf a m' fun hinside => hlocals.trans (hm hinside)
    exact ⟨hglobals'.trans hglobals, hlocals'.trans hlocals⟩

theorem Spares.get_bind {f : Machine → Exec β} (hf : ∀ m, Spares inside (f m)) :
    Spares inside (get >>= f) :=
  fun m => hf m m

/-- Sparing the global variables is handed on to what is put together. -/
theorem spares_closed (inside : Bool) : Attempt.Closed fun α (x : Exec α) => Spares inside x where
  pure := Spares.pure
  throw := Spares.throw
  bind := Spares.bind

theorem spares_write (text : String) : Spares inside (write text : Exec Unit) :=
  fun _ _ => ⟨rfl, rfl⟩

/-- Looking a variable up changes nothing. -/
theorem spares_cell (ref : Ref) : Spares inside (cell ref : Exec Addr) := by
  intro m _
  rw [cell_state]
  exact ⟨rfl, rfl⟩

theorem spares_load (ref : Ref) : Spares inside (load ref : Exec Value) := by
  intro m _
  rw [load_state]
  exact ⟨rfl, rfl⟩

/-- An assignment finds its cell or stops; it never makes one. -/
theorem spares_store (ref : Ref) (v : Value) : Spares inside (store ref v) :=
  (spares_cell ref).bind fun _ _ _ => ⟨rfl, rfl⟩

/-- Inside of a block or a call, what is declared is local. -/
theorem spares_declare (name : String) (v : Value) : Spares true (declare name v) := by
  intro m hm
  obtain ⟨heap, globals, locals, output⟩ := m
  cases locals with
  | none => exact absurd (hm rfl) nofun
  | some e => exact ⟨rfl, rfl⟩

/-- A block is inside, and so is its body. -/
theorem spares_inBlock {body : Exec α} (h : Spares true body) : Spares inside (inBlock body) := by
  intro m _
  obtain ⟨heap, globals, locals, output⟩ := m
  cases locals with
  | none => exact ⟨(h ⟨heap, globals, some .empty, output⟩ fun _ => rfl).1, rfl⟩
  | some e =>
    obtain ⟨hglobals, hlocals⟩ := h ⟨heap, globals, some e.openScope, output⟩ fun _ => rfl
    unfold inBlock
    dsimp only
    rcases hrun : body ⟨heap, globals, some e.openScope, output⟩ with
      ⟨result, ⟨heap', globals', locals', output'⟩⟩
    rw [hrun] at hglobals hlocals
    dsimp only
    -- the scope is closed, or a fault keeps what there is
    split
    · exact ⟨hglobals, rfl⟩
    · exact ⟨hglobals, hlocals⟩

/-- A call is inside, wherever it was made: its local variables are its own. -/
theorem spares_inCall (decl : FunDecl) (env captured : Captured) (arguments : List Value)
    {body : Exec α} (h : Spares true body) :
    Spares inside (inCall decl env captured arguments body) :=
  fun m _ => ⟨(h (called decl env captured arguments m) fun _ => rfl).1, rfl⟩

/-! ## §2. All code but top-level declarations. -/

/-- Where the statement runs, no global variable is declared: inside of a block or a call, or
anywhere if it is no declaration. -/
def Secluded (inside : Bool) (s : Stmt) : Prop :=
  inside = true ∨ s.Tidy ∧ s.declared? = none

/-- A branch, or the body of a loop, is no declaration either. -/
theorem Secluded.ifThen {c : Expr} {t : Stmt} (h : Secluded inside (.ifThen c t)) :
    Secluded inside t := by
  rcases h with hinside | ⟨⟨⟩, -⟩
  · exact .inl hinside
  · exact .inr ⟨‹_›, ‹_›⟩

/-- Both branches are as secluded as the statement. -/
theorem Secluded.ifElse {c : Expr} {t u : Stmt} (h : Secluded inside (.ifElse c t u)) :
    Secluded inside t ∧ Secluded inside u := by
  rcases h with hinside | ⟨⟨⟩, -⟩
  · exact ⟨.inl hinside, .inl hinside⟩
  · exact ⟨.inr ⟨‹_›, ‹_›⟩, .inr ⟨‹_›, ‹_›⟩⟩

/-- The body of a loop is as secluded as the loop. -/
theorem Secluded.whileLoop {c : Expr} {t : Stmt} (h : Secluded inside (.whileLoop c t)) :
    Secluded inside t := by
  rcases h with hinside | ⟨⟨⟩, -⟩
  · exact .inl hinside
  · exact .inr ⟨‹_›, ‹_›⟩

/-- A statement that declares a name is secluded inside of a block or a call only. -/
theorem Secluded.eq_true_of_declares {s : Stmt} {name : String} (h : Secluded inside s)
    (hs : s.declared? = some name) : inside = true := by
  rcases h with hinside | ⟨-, hplain⟩
  · exact hinside
  · rw [hs] at hplain
    cases hplain

/-- **Nothing but a top-level declaration changes the row of global variables.** -/
theorem spares_eval_exec (turns : Nat) :
    ∀ depth, (∀ {inside} e, Spares inside (eval turns depth e))
      ∧ ∀ {inside s}, Secluded inside s → Spares inside (exec turns depth s) := by
  intro depth
  induction depth with
  | zero => exact ⟨fun _ => .throw _, fun _ => .throw _⟩
  | succ depth ih =>
    obtain ⟨heval, hexec⟩ := ih
    have hrow : ∀ body, Spares true (sequence (exec turns depth) body) :=
      fun _ => (spares_closed true).sequence fun _ _ => hexec (.inl rfl)
    refine ⟨?_, ?_⟩
    · intro inside e
      refine (spares_closed inside).eval_succ spares_load spares_store
        (fun decl captured arguments => ?_) heval e
      exact spares_inCall decl captured captured arguments (hrow decl.body)
    · intro inside s hs
      cases s with
      | expr e => exact (heval e).bind fun _ => .pure _
      | print es =>
        refine Spares.bind ((spares_closed inside).each (fun e => ?_) es) fun _ =>
          (spares_write _).bind fun _ => .pure _
        exact (heval e).bind fun _ => spares_write _
      | ifThen condition thenBranch =>
        refine (heval condition).bind fun v => ?_
        split
        · exact hexec hs.ifThen
        · exact .pure _
      | ifElse condition thenBranch elseBranch =>
        refine (heval condition).bind fun v => ?_
        split
        · exact hexec hs.ifElse.1
        · exact hexec hs.ifElse.2
      | block body =>
        exact spares_inBlock (hrow body)
      | varDecl name line initial =>
        obtain rfl := hs.eq_true_of_declares rfl
        exact (heval initial).bind fun v => (spares_declare name v).bind fun _ => .pure _
      | whileLoop condition body =>
        have hcondition : Spares inside (do return (← eval turns depth condition).truth) :=
          (heval condition).bind fun _ => .pure _
        exact (spares_closed inside).loop hcondition (hexec hs.whileLoop) turns
      | funDecl name line params body =>
        obtain rfl := hs.eq_true_of_declares rfl
        exact .get_bind fun m => (spares_declare name _).bind fun _ => .pure _
      | ret line value => exact (heval value).bind fun _ => .pure _

end Exec

/-! ## §3. Names. -/

/-- The names, followed by those of `more` that are not among them, each where it comes
first. -/
def followedBy (names more : List String) : List String :=
  names ++ (more.filter (· ∉ names)).eraseDups

/-- Nothing is added by no names. -/
theorem followedBy_nil (names : List String) : followedBy names [] = names :=
  List.append_nil names

/-- The names are added one by one. -/
theorem followedBy_cons (names : List String) (name : String) (more : List String) :
    followedBy names (name :: more)
      = followedBy (if name ∈ names then names else names ++ [name]) more := by
  unfold followedBy
  by_cases hname : name ∈ names
  · simp [hname]
  · simp only [hname, not_false_eq_true, decide_true, List.filter_cons_of_pos, if_false,
      List.eraseDups_cons, List.append_assoc, List.singleton_append, List.filter_filter]
    congr 3
    refine List.filter_congr fun n _ => ?_
    grind

example : followedBy ["a", "b"] ["c", "a", "d", "c"] = ["a", "b", "c", "d"] := by decide

namespace Env

variable {e : Env Addr}

/-- An environment of global variables: no scope is open, and no name is there twice. -/
structure Flat (e : Env Addr) : Prop where
  marks : e.marks = []
  nodup : e.names.Nodup

/-- The initial row of global variables is flat. -/
theorem flat_empty : Flat .empty := ⟨rfl, .nil⟩

/-- Where no scope is open, a declaration adds its name unless it is there. -/
theorem names_declare_of_marks (h : e.marks = []) (name : String) (a : Addr) :
    (e.declare name a).names = if name ∈ e.names then e.names else e.names ++ [name] := by
  have hactive : e.activeSlot? name = e.slotOf? name := by
    have hstart : e.activeStart = 0 := by
      unfold activeStart
      rw [h]
      rfl
    unfold activeSlot? slotOf?
    rw [hstart, List.drop_zero]
    simp
  cases hslot : e.slotOf? name with
  | some slot =>
    have hname : name ∈ e.names := by
      by_contra hnot
      rw [show e.slotOf? name = none from lastIndex?_eq_none_iff.2 hnot] at hslot
      cases hslot
    rw [names_declare_of_activeSlot? (hactive.trans hslot), if_pos hname]
  | none =>
    have hname : name ∉ e.names := lastIndex?_eq_none_iff.1 hslot
    rw [names_declare, hactive, hslot, if_neg hname]

/-- A row that is flat stays flat, since a name that is there gets its own place again. -/
theorem Flat.declare (h : e.Flat) (name : String) (a : Addr) : (e.declare name a).Flat := by
  refine ⟨(marks_declare e name a).trans h.marks, ?_⟩
  rw [names_declare_of_marks h.marks]
  split
  · exact h.nodup
  · next hname =>
    refine List.nodup_append.2 ⟨h.nodup, List.pairwise_singleton _ _, ?_⟩
    intro n hn other hother heq
    rw [heq, List.mem_singleton.1 hother] at hn
    exact hname hn

end Env

/-! ## §4. Top-level statements. -/

open Exec

variable {limits : Limits} {m m' : Machine} {s : Stmt} {body : List Stmt} {vs : List Value}

/-- What a top-level statement, run on `m`, does to the row of global variables. -/
inductive Effect (s : Stmt) (m : Machine) : Except Halt Completion × Machine → Prop
  /-- It declares its name, and ends. -/
  | declares {name : String} {a : Addr} {m' : Machine} (declared : s.declared? = some name)
      (globals : m'.globals = m.globals.declare name a) (locals : m'.locals = none) :
      Effect s m (.ok .normal, m')
  /-- It declares nothing, and changes nothing. -/
  | spares {c : Completion} {m' : Machine} (plain : s.declared? = none)
      (globals : m'.globals = m.globals) (locals : m'.locals = none) : Effect s m (.ok c, m')
  /-- It stops before it has declared anything. -/
  | stops {halt : Halt} {m' : Machine} (globals : m'.globals = m.globals)
      (locals : m'.locals = none) : Effect s m (.error halt, m')

/-- Code that spares the global variables, at the top level. -/
theorem Exec.Spares.topLevel {α : Type} {x : Exec α} (h : Spares false x) (htop : m.locals = none) :
    (x m).2.globals = m.globals ∧ (x m).2.locals = none := by
  obtain ⟨hglobals, hlocals⟩ := h m nofun
  rw [htop, Option.isSome_none, Option.isSome_eq_false_iff, Option.isNone_iff_eq_none] at hlocals
  exact ⟨hglobals, hlocals⟩

/-- At the top level a name is declared in the row of global variables. -/
theorem declare_topLevel (name : String) (v : Value) (htop : m.locals = none) :
    ∃ m', Exec.declare name v m = (.ok (), m')
      ∧ m'.globals = m.globals.declare name m.heap.next ∧ m'.locals = none := by
  obtain ⟨heap, globals, locals, output⟩ := m
  cases htop
  exact ⟨_, rfl, rfl, rfl⟩

/-- **A top-level statement declares its own name, or nothing at all.** -/
theorem effect_exec (turns depth : Nat) (h : s.Tidy) (htop : m.locals = none) :
    Effect s m (exec turns depth s m) := by
  cases hname : s.declared? with
  | none =>
    have hspares : Spares false (exec turns depth s) :=
      (spares_eval_exec turns depth).2 (.inr ⟨h, hname⟩)
    obtain ⟨hglobals, hlocals⟩ := hspares.topLevel htop
    rcases hrun : exec turns depth s m with ⟨halt | c, m'⟩
    · rw [hrun] at hglobals hlocals
      exact .stops hglobals hlocals
    · rw [hrun] at hglobals hlocals
      exact .spares hname hglobals hlocals
  | some name =>
    cases depth with
    | zero => exact .stops rfl htop
    | succ depth =>
      cases h with
      | varDecl name line initial =>
        obtain ⟨hglobals, hlocals⟩ :=
          ((spares_eval_exec turns depth).1 initial).topLevel htop
        unfold exec
        rcases hrun : eval turns depth initial m with ⟨halt | v, m₁⟩
        · rw [hrun] at hglobals hlocals
          rw [Attempt.bind_error hrun]
          exact .stops hglobals hlocals
        · rw [hrun] at hglobals hlocals
          obtain ⟨m', hdeclare, hglobals', hlocals'⟩ := declare_topLevel name v hlocals
          rw [Attempt.bind_ok hrun, Attempt.bind_ok hdeclare]
          rw [show m₁.globals = m.globals from hglobals] at hglobals'
          exact .declares rfl hglobals' hlocals'
      | @funDecl name line params body _ =>
        unfold exec
        rw [Attempt.bind_ok (Attempt.get_apply m)]
        obtain ⟨m', hdeclare, hglobals', hlocals'⟩ := declare_topLevel name
          (.function ⟨name, line, params, body⟩ (m.locals.map Env.capture)) htop
        rw [Attempt.bind_ok hdeclare]
        exact .declares rfl hglobals' hlocals'
      | _ => cases hname

/-- A statement that stops leaves the row of global variables as it is. -/
theorem Halted.globals {halt : Halt} (h : Halted limits m s halt m') (htidy : s.Tidy)
    (htop : m.locals = none) : m'.globals = m.globals ∧ m'.locals = none := by
  cases h with
  | @value m' e halt hrun =>
    have hspares := ((spares_eval_exec limits.turns limits.depth).1 e).topLevel htop
    rw [hrun] at hspares
    exact hspares
  | statement hplain hrun =>
    have heffect := effect_exec limits.turns limits.depth htidy htop
    rw [hrun] at heffect
    cases heffect with
    | stops hglobals hlocals => exact ⟨hglobals, hlocals⟩

/-- **Behind statements that came to their end there are the names of before and theirs.** -/
theorem Passed.names (h : Passed limits m body vs m') (htidy : ∀ s ∈ body, s.Tidy)
    (htop : m.locals = none) (hflat : m.globals.Flat) :
    m'.globals.names = followedBy m.globals.names (body.filterMap Stmt.declared?)
      ∧ m'.globals.Flat ∧ m'.locals = none := by
  induction h with
  | nil => exact ⟨(followedBy_nil _).symm, hflat, htop⟩
  | @value m m₁ m' e v rest vs hrun _ ih =>
    obtain ⟨hglobals, hlocals⟩ :=
      ((spares_eval_exec limits.turns limits.depth).1 e).topLevel htop
    rw [hrun] at hglobals hlocals
    rw [show m₁.globals = m.globals from hglobals] at ih
    exact ih (fun s hs => htidy s (List.mem_cons_of_mem _ hs)) hlocals hflat
  | @normal m m₁ m' s rest vs hplain hrun _ ih =>
    have hrest := fun s' hs' => htidy s' (List.mem_cons_of_mem s hs')
    have heffect := effect_exec limits.turns limits.depth (htidy s List.mem_cons_self) htop
    rw [hrun] at heffect
    cases heffect with
    | @declares name a _ hname hglobals hlocals =>
      rw [hglobals, Env.names_declare_of_marks hflat.marks] at ih
      rw [List.filterMap_cons_some hname, followedBy_cons]
      exact ih hrest hlocals (hflat.declare name a)
    | spares hname hglobals hlocals =>
      rw [hglobals] at ih
      rw [List.filterMap_cons_none hname]
      exact ih hrest hlocals hflat

/-- If the next one stops, those in front of it count. -/
theorem Passed.names_of_halted {done rest : List Stmt} {m₁ : Machine} {halt : Halt}
    (h : Passed limits m done vs m₁) (hhalted : Halted limits m₁ s halt m')
    (htidy : ∀ t ∈ done ++ s :: rest, t.Tidy) (htop : m.locals = none) (hflat : m.globals.Flat) :
    m'.globals.names = followedBy m.globals.names (done.filterMap Stmt.declared?)
      ∧ m'.globals.Flat ∧ m'.locals = none := by
  have hdone := fun t ht => htidy t (List.mem_append_left _ ht)
  have hs := htidy s (List.mem_append_right _ List.mem_cons_self)
  obtain ⟨hnames, hflat₁, htop₁⟩ := h.names hdone htop hflat
  obtain ⟨hglobals, htop'⟩ := hhalted.globals hs htop₁
  rw [hglobals]
  exact ⟨hnames, hflat₁, htop'⟩

/-! ## §5. Programs. -/

/-- What a run leaves: no code is inside of anything, and the global variables are in
order. -/
theorem AcceptedInput.run_keeps_flat (i : AcceptedInput) (htop : m.locals = none)
    (hflat : m.globals.Flat) :
    (m.run i.limits i.program).2.locals = none ∧ (m.run i.limits i.program).2.globals.Flat := by
  have htidy := i.tidy_program
  have hcourse := course_of_resolve i.resolved i.limits m
  generalize m.run i.limits i.program = r at hcourse
  cases hcourse with
  | through hpassed =>
    obtain ⟨-, hflat', htop'⟩ := hpassed.names htidy htop hflat
    exact ⟨htop', hflat'⟩
  | stopped hsplit hpassed hhalted =>
    rw [hsplit] at htidy
    obtain ⟨-, hflat', htop'⟩ := hpassed.names_of_halted hhalted htidy htop hflat
    exact ⟨htop', hflat'⟩

/-- Inputs run in turn keep the row of global variables flat, and leave no local ones. -/
theorem inTurn_keeps_flat (inputs : List AcceptedInput) :
    ∀ {m : Machine}, m.locals = none → m.globals.Flat →
      let m' := (inTurn (fun n i => Machine.run n i.limits i.program) m inputs).2
      m'.locals = none ∧ m'.globals.Flat := by
  induction inputs with
  | nil => exact fun htop hflat => ⟨htop, hflat⟩
  | cons i inputs ih =>
    intro m htop hflat
    obtain ⟨htop', hflat'⟩ := i.run_keeps_flat htop hflat
    exact ih htop' hflat'

/-- **The names of the global variables can be read off the programs.**  Whatever inputs were
run before, no scope is open among the global variables and no name is there twice.  Behind a
program that runs through, the names are those there were, followed by the new ones of its
top-level declarations; if one of its statements stops, those in front of it count.  No
expression changes the row of global variables, whatever it calls and assigns; nor does any
code inside of a block or a call; nor does a top-level statement that is no declaration. -/
theorem global_names_follow_the_text (earlier : List AcceptedInput) (i : AcceptedInput) :
    let m := (inTurn (fun n i => Machine.run n i.limits i.program) .initial earlier).2
    (m.globals.marks = [] ∧ m.globals.names.Nodup)
      ∧ (∀ v m', m.run i.limits i.program = (.ok v, m') →
        m'.globals.names = followedBy m.globals.names (i.program.filterMap Stmt.declared?))
      ∧ (∀ halt m', m.run i.limits i.program = (.error halt, m') →
        ∃ done s rest vs m₁, i.program = done ++ s :: rest ∧ Passed i.limits m done vs m₁
          ∧ Halted i.limits m₁ s halt m'
          ∧ m'.globals.names = followedBy m.globals.names (done.filterMap Stmt.declared?))
      ∧ (∀ turns depth e n, (eval turns depth e n).2.globals = n.globals)
      ∧ (∀ turns depth s n, n.locals.isSome = true →
        (exec turns depth s n).2.globals = n.globals)
      ∧ ∀ s ∈ i.program, s.declared? = none →
        ∀ turns depth n, (exec turns depth s n).2.globals = n.globals := by
  intro m
  obtain ⟨htop, hflat⟩ := inTurn_keeps_flat earlier (m := .initial) rfl Env.flat_empty
  have htidy := i.tidy_program
  have hcourse := course_of_resolve i.resolved i.limits m
  refine ⟨⟨hflat.marks, hflat.nodup⟩, ?_, ?_, ?_, ?_, ?_⟩
  · intro v m' hrun
    rw [hrun] at hcourse
    cases hcourse with
    | through hpassed => exact (hpassed.names htidy htop hflat).1
  · intro halt m' hrun
    rw [hrun] at hcourse
    cases hcourse with
    | @stopped done rest s vs m₁ m' halt hsplit hpassed hhalted =>
      rw [hsplit] at htidy
      obtain ⟨hnames, -, -⟩ := hpassed.names_of_halted hhalted htidy htop hflat
      exact ⟨done, s, rest, vs, m₁, hsplit, hpassed, hhalted, hnames⟩
  · intro turns depth e n
    have hspares : Spares false (eval turns depth e) := (spares_eval_exec turns depth).1 e
    exact (hspares n nofun).1
  · intro turns depth s n hinside
    exact ((spares_eval_exec turns depth).2 (.inl rfl) n fun _ => hinside).1
  · intro s hs hplain turns depth n
    have hspares : Spares false (exec turns depth s) :=
      (spares_eval_exec turns depth).2 (.inr ⟨htidy s hs, hplain⟩)
    exact (hspares n nofun).1

end LoxLang
