/-
  LoxLang.Proofs.Report.Discipline
  ────────────────────────────────
  **Every stage fails in its own way, or not at all.**  Whatever was run before it, an
  input is refused by the scanner, by the parser or by the resolver, or it runs: to its
  end, to an error of its own, or to the limits of the run (`Conducted`).  Each error has
  a message, its first message quotes a line, and that is the line of the error
  (`Disciplined`).

  What would be a fault of the interpreter itself does not happen, and for each stage
  another invariant sees to it:

    • faults of syntax blame a token of the input or its end (`trail_of_parse`),
    • a program without such faults is derived, so that no statement is missing
      (`parse_eq_ok_iff`),
    • a block or function that is left has a scope or a template to drop, however it is
      left (`unwinds_resolveAll`),
    • every slot that is looked up is there (`run_bridged`),
    • no quotient is asked for where there is none (`Number.isSome_divide?`).
-/
import LoxLang.Proofs.Grammar.Position
import LoxLang.Proofs.Scope.Refinement
import LoxLang.Proofs.Scope.Unwinding
import LoxLang.Proofs.Token.Cutting

namespace LoxLang

/-! ## §1. Lines in messages. -/

/-- The message quotes this line, in the way of the stage. -/
def Stage.Quotes (n : Int) (message : String) : Stage → Prop
  | .general => False
  | .scan => ∃ text, message = "Line " ++ toString n ++ ": " ++ text
  | .parse => ∃ text, message = "Line " ++ toString n ++ " at " ++ text
  | .resolve | .run => ∃ text, message = text ++ " at line " ++ toString n

/-- A character of a written number. -/
def isNumeric (c : Char) : Bool := c.isDigit || c == '-'

/-- A negative number begins with its sign. -/
theorem toList_toString_negSucc (m : Nat) :
    (toString (Int.negSucc m)).toList = '-' :: Nat.toDigits 10 (m + 1) := by
  change ("-" ++ (m + 1).repr).toList = _
  rw [String.toList_append, Nat.toList_repr]
  rfl

/-- A number is written in digits, with a sign if it is negative. -/
theorem isNumeric_of_mem_toString (n : Int) : ∀ c ∈ (toString n).toList, isNumeric c = true := by
  have hdigits : ∀ m : Nat, ∀ c ∈ Nat.toDigits 10 m, isNumeric c = true := by
    intro m c hc
    have hdigit := Nat.isDigit_of_mem_toDigits (by decide) (by decide) hc
    simp [isNumeric, hdigit]
  intro c hc
  cases n with
  | ofNat m =>
    rw [show (toString (Int.ofNat m)).toList = Nat.toDigits 10 m from Nat.toList_repr] at hc
    exact hdigits m c hc
  | negSucc m =>
    rw [toList_toString_negSucc] at hc
    rcases List.mem_cons.1 hc with rfl | hc
    · rfl
    · exact hdigits (m + 1) c hc

/-- Digits and a sign give a number away. -/
theorem eq_of_toList_toString {n k : Int} (h : (toString n).toList = (toString k).toList) :
    n = k := by
  have hdigits : ∀ {a b : Nat}, Nat.toDigits 10 a = Nat.toDigits 10 b → a = b := by
    intro a b hab
    simpa using congrArg (fun ds => Nat.ofDigitChars 10 ds 0) hab
  have hsign : ∀ {a b : Nat}, Nat.toDigits 10 a ≠ '-' :: Nat.toDigits 10 b := by
    intro a b hab
    have hminus : '-' ∈ Nat.toDigits 10 a := by
      rw [hab]
      exact List.mem_cons_self
    exact absurd (Nat.isDigit_of_mem_toDigits (by decide) (by decide) hminus) (by decide)
  have hnat : ∀ m : Nat, (toString (Int.ofNat m)).toList = Nat.toDigits 10 m :=
    fun m => Nat.toList_repr
  cases n with
  | ofNat a =>
    cases k with
    | ofNat b =>
      rw [hnat, hnat] at h
      rw [hdigits h]
    | negSucc b =>
      rw [hnat, toList_toString_negSucc] at h
      exact absurd h hsign
  | negSucc a =>
    cases k with
    | ofNat b =>
      rw [hnat, toList_toString_negSucc] at h
      exact absurd h.symm hsign
    | negSucc b =>
      rw [toList_toString_negSucc, toList_toString_negSucc] at h
      rw [Nat.succ.inj (hdigits (List.tail_eq_of_cons_eq h))]

/-- A written number can be told from what follows it. -/
theorem eq_of_toString_append {n k : Int} {c : Char} {rest rest' : List Char}
    (hc : isNumeric c = false)
    (h : (toString n).toList ++ c :: rest = (toString k).toList ++ c :: rest') : n = k := by
  have hwritten : ∀ (i : Int) (cs : List Char),
      ((toString i).toList ++ c :: cs).takeWhile isNumeric = (toString i).toList := by
    intro i cs
    exact (Piece.takeWhile_append_eq isNumeric (isNumeric_of_mem_toString i) (by simpa using hc)).1
  apply eq_of_toList_toString
  rw [← hwritten n rest, h, hwritten k rest']

/-- A written number can be told from what stands in front of it. -/
theorem eq_of_append_toString {n k : Int} {c : Char} {front front' : List Char}
    (hc : isNumeric c = false)
    (h : front ++ c :: (toString n).toList = front' ++ c :: (toString k).toList) : n = k := by
  have hwritten : ∀ (i : Int) (cs : List Char),
      (cs ++ c :: (toString i).toList).reverse.takeWhile isNumeric
        = (toString i).toList.reverse := by
    intro i cs
    rw [List.reverse_append, List.reverse_cons, List.append_assoc]
    refine (Piece.takeWhile_append_eq isNumeric ?_ (by simpa using hc)).1
    exact fun d hd => isNumeric_of_mem_toString i d (List.mem_reverse.1 hd)
  apply eq_of_toList_toString
  rw [← List.reverse_reverse (toString n).toList, ← hwritten n front, h, hwritten k front',
    List.reverse_reverse]

/-- No message quotes two lines. -/
theorem Stage.Quotes.unique {stage : Stage} {n k : Int} {message : String}
    (h : stage.Quotes n message) (h' : stage.Quotes k message) : n = k := by
  have hfront : ∀ {separator : String} {c : Char} {cs : List Char} {text text' : String},
      separator.toList = c :: cs → isNumeric c = false →
      "Line " ++ toString n ++ separator ++ text = "Line " ++ toString k ++ separator ++ text' →
      n = k := by
    intro separator c cs text text' hseparator hc heq
    have hchars := congrArg String.toList heq
    simp only [String.toList_append, List.append_assoc, hseparator, List.cons_append] at hchars
    exact eq_of_toString_append hc (List.append_cancel_left hchars)
  have hback : ∀ {text text' : String},
      text ++ " at line " ++ toString n = text' ++ " at line " ++ toString k → n = k := by
    intro text text' heq
    have hchars := congrArg String.toList heq
    have hend : " at line ".toList = " at line".toList ++ [' '] := by
      decide
    simp only [String.toList_append, hend, List.append_assoc, List.singleton_append] at hchars
    rw [← List.append_assoc, ← List.append_assoc text'.toList] at hchars
    exact eq_of_append_toString rfl hchars
  cases stage with
  | general => exact h.elim
  | scan =>
    obtain ⟨text, rfl⟩ := h
    obtain ⟨text', heq⟩ := h'
    exact hfront (show ": ".toList = [':', ' '] by decide) rfl heq
  | parse =>
    obtain ⟨text, rfl⟩ := h
    obtain ⟨text', heq⟩ := h'
    exact hfront (show " at ".toList = [' ', 'a', 't', ' '] by decide) rfl heq
  | resolve =>
    obtain ⟨text, rfl⟩ := h
    obtain ⟨text', heq⟩ := h'
    exact hback heq
  | run =>
    obtain ⟨text, rfl⟩ := h
    obtain ⟨text', heq⟩ := h'
    exact hback heq

/-! ## §2. Errors that keep to the form. -/

/-- The diagnostic is one of this stage and blames the input; it has a message, and the
first quotes its line and no other. -/
structure Diagnostic.Disciplined (stage : Stage) (d : Diagnostic) : Prop where
  own : d.stage = stage
  blameless : d.internal = false
  quoted : ∃ n message others, d.messages = message :: others ∧ d.line = some n
    ∧ ∀ k, stage.Quotes k message ↔ k = n

namespace Diagnostic

/-- An error is disciplined if its first message quotes its line in the form of its stage. -/
theorem Disciplined.mk_of_quotes {stage : Stage} {n : Int} {message : String}
    {others : List String} (h : stage.Quotes n message) :
    Disciplined stage ⟨stage, message :: others, some n, false⟩ := by
  refine ⟨rfl, rfl, n, message, others, rfl, rfl, ?_⟩
  intro k
  constructor
  · exact fun hk => hk.unique h
  · rintro rfl
    exact h

theorem disciplined_ofLexical {faults : List LexicalFault} (h : faults ≠ []) :
    (ofLexical faults).Disciplined .scan := by
  cases faults with
  | nil => exact absurd rfl h
  | cons f faults => exact .mk_of_quotes ⟨f.cause.message, rfl⟩

/-- A syntax report has one message for each fault, and the line of the first. -/
theorem disciplined_ofSyntactic {faults : List SyntaxFault} (h : faults ≠ []) :
    (ofSyntactic faults).Disciplined .parse := by
  cases faults with
  | nil => exact absurd rfl h
  | cons f faults =>
    refine .mk_of_quotes ⟨f.place ++ ": " ++ f.cause.message, ?_⟩
    simp only [SyntaxFault.message, String.append_assoc]

theorem disciplined_ofResolve (e : ResolveError) : (ofResolve e).Disciplined .resolve :=
  .mk_of_quotes ⟨e.cause.message, rfl⟩

theorem disciplined_ofRuntime (e : RuntimeError) : (ofRuntime e).Disciplined .run :=
  .mk_of_quotes ⟨e.cause.message, rfl⟩

end Diagnostic

/-! ## §3. The stages. -/

/-- A text that cannot be scanned has a fault. -/
theorem ne_nil_of_scan {source : String} {line : Int} {faults : List LexicalFault}
    (h : scan source line = .error faults) : faults ≠ [] := by
  unfold scan at h
  dsimp only at h
  split at h
  · cases h
  · next hne =>
    cases h
    exact hne

/-- An input runs without a fault, whatever was run before. -/
theorem run_ne_fault (earlier : List AcceptedInput) (i : AcceptedInput) :
    ((inTurn (fun n i => Machine.run n i.limits i.program) .initial earlier).2.run
      i.limits i.program).1 ≠ .error .fault := by
  obtain ⟨-, -, hbridged⟩ := inTurn_bridged earlier bridged_initial
  exact (run_bridged i hbridged).2.1

/-- What becomes of an input, stage by stage. -/
inductive Conducted (m : Machine) (limits : Limits) (source : String) (line : Int) : Prop
  /-- It is no row of tokens. -/
  | unscanned {faults : List LexicalFault} (scanned : scan source line = .error faults)
      (disciplined : (Diagnostic.ofLexical faults).Disciplined .scan)
  /-- It is no program; what is blamed is in the input, or its end. -/
  | unparsed {input : Token.Stream} {faults : List SyntaxFault}
      (scanned : scan source line = .ok input) (parsed : parse input = .error faults)
      (inside : ∀ f ∈ faults, f.input.tokens <:+ input.tokens
        ∧ f.input.endLine = input.endLine)
      (disciplined : (Diagnostic.ofSyntactic faults).Disciplined .parse)
  /-- It is a program, but the resolver refuses it. -/
  | unresolved {input : Token.Stream} {body : List Stmt} {e : ResolveError}
      (scanned : scan source line = .ok input) (parsed : parse input = .ok body)
      (derived : Program .nearest input.tokens body)
      (resolved : Resolver.initial.resolve body = (.error e, .initial))
      (disciplined : (Diagnostic.ofResolve e).Disciplined .resolve)
  /-- It runs to an error of its own. -/
  | stopped {input : Token.Stream} {body program : List Stmt} {e : RuntimeError} {m' : Machine}
      (scanned : scan source line = .ok input) (parsed : parse input = .ok body)
      (derived : Program .nearest input.tokens body)
      (resolved : Resolver.initial.resolve body = (.ok program, .initial))
      (run : m.run limits program = (.error (.error e), m'))
      (disciplined : (Diagnostic.ofRuntime e).Disciplined .run)
  /-- It runs to its limits. -/
  | exhausted {input : Token.Stream} {body program : List Stmt} {m' : Machine}
      (scanned : scan source line = .ok input) (parsed : parse input = .ok body)
      (derived : Program .nearest input.tokens body)
      (resolved : Resolver.initial.resolve body = (.ok program, .initial))
      (run : m.run limits program = (.error .exhausted, m'))
  /-- It runs to its end. -/
  | completed {input : Token.Stream} {body program : List Stmt} {v : Value} {m' : Machine}
      (scanned : scan source line = .ok input) (parsed : parse input = .ok body)
      (derived : Program .nearest input.tokens body)
      (resolved : Resolver.initial.resolve body = (.ok program, .initial))
      (run : m.run limits program = (.ok v, m'))

/-- The stages, one after the other: each hands on, or ends the input in its own way. -/
theorem conducted (earlier : List AcceptedInput) (limits : Limits) (source : String)
    (line : Int) :
    Conducted (inTurn (fun n i => Machine.run n i.limits i.program) .initial earlier).2
      limits source line := by
  -- a stage is entered only with what the one before it gave
  rcases hscan : scan source line with faults | input
  · exact .unscanned hscan (Diagnostic.disciplined_ofLexical (ne_nil_of_scan hscan))
  rcases hparse : parse input with faults | body
  · obtain ⟨hne, rest, htrail⟩ := trail_of_parse hparse
    exact .unparsed hscan hparse htrail.suffix_of_mem (Diagnostic.disciplined_ofSyntactic hne)
  have hderived := (parse_eq_ok_iff input body).1 hparse
  have hback := resolve_initial body
  rcases hresolve : Resolver.initial.resolve body with ⟨e | program, r⟩
  · rw [hresolve] at hback
    cases hback
    exact .unresolved hscan hparse hderived hresolve (Diagnostic.disciplined_ofResolve e)
  rw [hresolve] at hback
  cases hback
  -- the input is accepted, and accepted inputs run without a fault
  have hread : readProgram source line = .ok body :=
    readProgram_eq_ok_iff.2 ⟨input, hscan, hparse⟩
  have hfault := run_ne_fault earlier
    ⟨source, line, limits, body, program, hread, congrArg Prod.fst hresolve⟩
  rcases hrun : (inTurn (fun n i => Machine.run n i.limits i.program) .initial earlier).2.run
      limits program with ⟨halt | v, m'⟩
  · cases halt with
    | error e =>
      exact .stopped hscan hparse hderived hresolve hrun (Diagnostic.disciplined_ofRuntime e)
    | exhausted => exact .exhausted hscan hparse hderived hresolve hrun
    | fault =>
      rw [hrun] at hfault
      exact absurd rfl hfault
  · exact .completed hscan hparse hderived hresolve hrun

/-- An operator between numbers always has a result, also if it divides by zero. -/
theorem StrictOp.exists_apply_number {κ : Type} (op : StrictOp) (line : Int) (x y : Float) :
    ∃ v : Value κ, op.apply line (.number x) (.number y) = .ok v := by
  cases op with
  | add => exact ⟨_, rfl⟩
  | comparison c => exact ⟨_, rfl⟩
  | arithmetic a => exact ⟨_, rfl⟩

/-- **Every input is conducted through the stages**, whatever was run before it: each
stage succeeds or fails in its own way, with an error that quotes its line.  Reading stays
inside the input; a block or a function that the resolver leaves, whether or not it
refused something inside, has a template to drop or a scope in it to close; a division has a
result, since it asks for no quotient by zero; and operators fail for their operands alone. -/
theorem inputs_are_conducted (earlier : List AcceptedInput) (limits : Limits)
    (source : String) (line : Int) :
    Conducted (inTurn (fun n i => Machine.run n i.limits i.program) .initial earlier).2
        limits source line
      ∧ (∀ input, (Reader.program ⟨input, []⟩).2.input.tokens <:+ input.tokens)
      ∧ (∀ (r : Resolver) (body : List Stmt),
          (Stmt.resolveAll body r.enterBlock).2.templates ≠ []
            ∧ (r.templates ≠ [] → (Stmt.resolveAll body r.enterBlock).2.Closable)
            ∧ ∀ name params,
                (Stmt.resolveAll body (r.enterFunction name params)).2.templates ≠ [])
      ∧ (∀ x y : Float, (Number.divide? x y).isSome)
      ∧ ∀ (op : StrictOp) (line : Int) (x y : Float),
          ∃ v : Value, op.apply line (.number x) (.number y) = .ok v := by
  refine ⟨conducted earlier limits source line, suffix_of_program, ?_, Number.isSome_divide?,
    StrictOp.exists_apply_number⟩
  intro r body
  refine ⟨?_, ?_, ?_⟩
  · exact Resolver.templates_ne_nil_of_grown (unwinds_resolveAll body _)
      r.templates_enterBlock_ne_nil
  · exact Resolver.closable_of_grown (unwinds_resolveAll body _)
  · intro name params
    exact Resolver.templates_ne_nil_of_grown (unwinds_resolveAll body _) (List.cons_ne_nil _ _)

end LoxLang
