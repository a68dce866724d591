/-
  LoxLang.Proofs.Line.Equivariance
  ────────────────────────────────
  **The number of the first line is only a number.**  A source whose first line is
  number `line + d` comes as far through the stages as it does from `line`, and all that the
  stages make of it is the same, `d` lines further on: its tokens, its tree, its slots, and
  the machine on which it was run.  If a stage refuses it, the same stage does, with the
  same messages in the same order, but for the line that each of them quotes.
-/
import LoxLang.Proofs.Line.Reading
import LoxLang.Proofs.Line.Running
import LoxLang.Report.Failure
import Mathlib.Data.List.Forall2

namespace LoxLang

/-! ## §1. Scanning. -/

namespace Piece

/-- Pieces are placed by counting newlines from the line of the first. -/
theorem place_shift (d : Int) (ps : List Piece) : ∀ line : Int,
    place (line + d) ps = (place line ps).map fun (l, p) => (l + d, p) := by
  induction ps with
  | nil =>
    intro line
    rfl
  | cons p ps ih =>
    intro line
    show (line + d, p) :: place (line + d + p.newlines) ps = (line + d, p) :: _
    rw [show line + d + (p.newlines : Int) = line + p.newlines + d by omega, ih]

/-- A token has the line that its piece was placed on. -/
theorem token?_shift (d line : Int) (p : Piece) :
    p.token? (line + d) = (p.token? line).map (Token.shift d) := by
  unfold token?
  cases p.kind? with
  | none => rfl
  | some kind => rfl

/-- A fault has the line that its piece was placed on. -/
theorem fault?_shift (d line : Int) (p : Piece) :
    p.fault? (line + d) = (p.fault? line).map (LexicalFault.shift d) := by
  unfold fault?
  cases p.cause? with
  | none => rfl
  | some cause => rfl

end Piece

/-- **Scanning commutes with moving the first line**: the same tokens, or the same faults in
the same order, each `d` lines further on. -/
theorem scan_shift (source : String) (line d : Int) :
    scan source (line + d)
      = ((scan source line).map (Token.Stream.shift d)).mapError
          (List.map (LexicalFault.shift d)) := by
  have hfaults : ∀ placed : List (Int × Piece),
      (placed.map fun (l, p) => (l + d, p)).filterMap (fun (l, p) => p.fault? l)
        = (placed.filterMap fun (l, p) => p.fault? l).map (LexicalFault.shift d) := by
    intro placed
    rw [List.filterMap_map, List.map_filterMap]
    exact List.filterMap_congr fun x _ => Piece.fault?_shift d x.1 x.2
  have htokens : ∀ placed : List (Int × Piece),
      (placed.map fun (l, p) => (l + d, p)).filterMap (fun (l, p) => p.token? l)
        = (placed.filterMap fun (l, p) => p.token? l).map (Token.shift d) := by
    intro placed
    rw [List.filterMap_map, List.map_filterMap]
    exact List.filterMap_congr fun x _ => Piece.token?_shift d x.1 x.2
  unfold scan
  rw [Piece.place_shift]
  simp only [hfaults, htokens]
  cases (Piece.place line (Piece.cut source.toList)).filterMap fun (l, p) => p.fault? l with
  | nil =>
    show Except.ok (⟨_, line + d + _⟩ : Token.Stream) = Except.ok (⟨_, line + _ + d⟩ : Token.Stream)
    rw [Int.add_right_comm]
  | cons f faults => rfl

/-! ## §2. Messages. -/

/-- The second message is the first, but for the line that it quotes in the way of the
stage, which is `d` lines further on. -/
inductive Stage.Moves (d : Int) : Stage → String → String → Prop
  | scan (n : Int) (text : String) :
      Moves d .scan ("Line " ++ toString n ++ ": " ++ text)
        ("Line " ++ toString (n + d) ++ ": " ++ text)
  | parse (n : Int) (text : String) :
      Moves d .parse ("Line " ++ toString n ++ " at " ++ text)
        ("Line " ++ toString (n + d) ++ " at " ++ text)
  | resolve (n : Int) (text : String) :
      Moves d .resolve (text ++ " at line " ++ toString n) (text ++ " at line " ++ toString (n + d))
  | run (n : Int) (text : String) :
      Moves d .run (text ++ " at line " ++ toString n) (text ++ " at line " ++ toString (n + d))

/-- The second diagnostic is the first, `d` lines further on. -/
structure Diagnostic.Moved (d : Int) (a b : Diagnostic) : Prop where
  stage : b.stage = a.stage
  internal : b.internal = a.internal
  line : b.line = a.line.map (· + d)
  messages : List.Forall₂ (a.stage.Moves d) a.messages b.messages

/-- The second failure is the first, `d` lines further on if it is about a line. -/
inductive Failure.Moved (d : Int) : Failure → Failure → Prop
  | diagnosed {a b : Diagnostic} (moved : a.Moved d b) : Moved d (.diagnosed a) (.diagnosed b)
  | tooDeep : Moved d .tooDeep .tooDeep
  | fault (f : Fault) : Moved d (.fault f) (.fault f)

namespace Diagnostic

/-- If each message moves, so do the messages of a list of faults. -/
theorem forall₂_messages {φ : Type} {R : String → String → Prop} {shift : φ → φ}
    {message : φ → String} (h : ∀ f, R (message f) (message (shift f))) (faults : List φ) :
    List.Forall₂ R (faults.map message) ((faults.map shift).map message) := by
  induction faults with
  | nil => exact .nil
  | cons f faults ih => exact .cons (h f) ih

/-- Each message of a lexical report moves with its fault. -/
theorem moved_ofLexical (d : Int) (faults : List LexicalFault) :
    (ofLexical faults).Moved d (ofLexical (faults.map (LexicalFault.shift d))) := by
  refine ⟨rfl, rfl, ?_, forall₂_messages (fun f => .scan f.line f.cause.message) faults⟩
  cases faults with
  | nil => rfl
  | cons f faults => rfl

/-- Each message of a syntax report moves with its fault, to whose token it points. -/
theorem moved_ofSyntactic (d : Int) (faults : List SyntaxFault) :
    (ofSyntactic faults).Moved d (ofSyntactic (faults.map (SyntaxFault.shift d))) := by
  have hline : ∀ f : SyntaxFault, (f.shift d).line = f.line + d :=
    fun f => Token.Stream.line_shift d f.input
  refine ⟨rfl, rfl, ?_, forall₂_messages (fun f => ?_) faults⟩
  · cases faults with
    | nil => rfl
    | cons f faults => exact congrArg some (hline f)
  · show Stage.Moves d .parse f.message (f.shift d).message
    have hcause : (f.shift d).cause = f.cause := rfl
    have hmoves := Stage.Moves.parse (d := d) f.line (f.place ++ ": " ++ f.cause.message)
    simpa only [SyntaxFault.message, hline, SyntaxFault.place_shift, hcause, String.append_assoc]
      using hmoves

/-- The message of a refusal moves with it. -/
theorem moved_ofResolve (d : Int) (e : ResolveError) :
    (ofResolve e).Moved d (ofResolve (e.shift d)) :=
  ⟨rfl, rfl, rfl, .cons (.resolve e.line e.cause.message) .nil⟩

theorem moved_ofRuntime (d : Int) (e : RuntimeError) :
    (ofRuntime e).Moved d (ofRuntime (e.shift d)) :=
  ⟨rfl, rfl, rfl, .cons (.run e.line e.cause.message) .nil⟩

end Diagnostic

/-- Running out of depth has no line, and any other failure moves with its error. -/
theorem Failure.moved_ofHalt (d : Int) (halt : Halt) :
    Failure.Moved d (.ofHalt halt) (.ofHalt (halt.shift d)) := by
  cases halt with
  | error e => exact .diagnosed (Diagnostic.moved_ofRuntime d e)
  | exhausted => exact .tooDeep
  | fault => exact .fault .machine

/-! ## §3. A source on its way through the stages. -/

/-- How far a source comes, and what every stage that it came through made of it. -/
inductive Passage where
  | unscanned (faults : List LexicalFault)
  | unparsed (input : Token.Stream) (faults : List SyntaxFault)
  | unresolved (input : Token.Stream) (body : List Stmt) (e : ResolveError)
  | ran (input : Token.Stream) (body program : List Stmt) (result : Except Halt Value)
      (machine : Machine)

namespace Passage

/-- The passage of a tree that was read from these tokens, run on a machine on which nothing
was run before. -/
def ofBody (limits : Limits) (input : Token.Stream) (body : List Stmt) : Passage :=
  match (Resolver.initial.resolve body).1 with
  | .error e => .unresolved input body e
  | .ok program =>
      let (result, machine) := Machine.initial.run limits program
      .ran input body program result machine

/-- The passage of a row of tokens. -/
def ofInput (limits : Limits) (input : Token.Stream) : Passage :=
  match parse input with
  | .error faults => .unparsed input faults
  | .ok body => ofBody limits input body

/-- The passage of a source whose first line is number `line`. -/
def of (limits : Limits) (source : String) (line : Int) : Passage :=
  match scan source line with
  | .error faults => .unscanned faults
  | .ok input => ofInput limits input

/-- The passage, `d` lines further on. -/
def shift (d : Int) : Passage → Passage
  | .unscanned faults => .unscanned (faults.map (LexicalFault.shift d))
  | .unparsed input faults => .unparsed (input.shift d) (faults.map (SyntaxFault.shift d))
  | .unresolved input body e =>
      .unresolved (input.shift d) (Stmt.shiftAll d body) (e.shift d)
  | .ran input body program result machine =>
      .ran (input.shift d) (Stmt.shiftAll d body) (Stmt.shiftAll d program)
        ((result.map (Value.shift d)).mapError (Halt.shift d)) (machine.shift d)

/-- What ended the passage early, if anything did. -/
def failure? : Passage → Option Failure
  | .unscanned faults => some (.diagnosed (.ofLexical faults))
  | .unparsed _ faults => some (.diagnosed (.ofSyntactic faults))
  | .unresolved _ _ e => some (.diagnosed (.ofResolve e))
  | .ran _ _ _ (.error halt) _ => some (.ofHalt halt)
  | .ran _ _ _ (.ok _) _ => none

/-- The machine at its start has no values, and so no lines. -/
theorem initial_shift (d : Int) : (Machine.initial : Machine).shift d = .initial := by
  simp [Machine.shift, Heap.shift, Machine.initial, Heap.empty]

/-- From the tree on: resolving and running. -/
theorem ofBody_shift (limits : Limits) (d : Int) (input : Token.Stream) (body : List Stmt) :
    ofBody limits (input.shift d) (Stmt.shiftAll d body) = (ofBody limits input body).shift d := by
  unfold ofBody
  rw [Resolver.resolve_shift]
  rcases (Resolver.initial.resolve body).1 with e | program
  · rfl
  · have hrun := Machine.run_shift d .initial limits program
    rw [initial_shift] at hrun
    simp only [Except.map, Except.mapError] at hrun ⊢
    rw [hrun]
    rfl

/-- From the tokens on: parsing, and what comes behind it. -/
theorem ofInput_shift (limits : Limits) (d : Int) (input : Token.Stream) :
    ofInput limits (input.shift d) = (ofInput limits input).shift d := by
  unfold ofInput
  rw [parse_shift]
  rcases parse input with faults | body
  · rfl
  · exact ofBody_shift limits d input body

/-- From the source on: scanning, and what comes behind it. -/
theorem of_shift (limits : Limits) (source : String) (line d : Int) :
    of limits source (line + d) = (of limits source line).shift d := by
  unfold of
  rw [scan_shift]
  rcases scan source line with faults | input
  · rfl
  · exact ofInput_shift limits d input

/-- A passage that fails in some stage fails in the same one when it is moved. -/
theorem moved_failure? (d : Int) (passage : Passage) :
    Option.Rel (Failure.Moved d) passage.failure? (passage.shift d).failure? := by
  cases passage with
  | unscanned faults => exact .some (.diagnosed (Diagnostic.moved_ofLexical d faults))
  | unparsed input faults => exact .some (.diagnosed (Diagnostic.moved_ofSyntactic d faults))
  | unresolved input body e => exact .some (.diagnosed (Diagnostic.moved_ofResolve d e))
  | ran input body program result machine =>
    cases result with
    | error halt => exact .some (Failure.moved_ofHalt d halt)
    | ok v => exact .none

end Passage

/-- **A source passes the stages alike from every line on.**  If its first line is number
`line + d`, it comes as far as from `line`: every stage gives the same, with `d` more in each
line, or refuses it with the same messages in the same order, `d` more in the line that
each quotes and in the line of the failure. -/
theorem passages_move_with_the_line (limits : Limits) (source : String) (line d : Int) :
    Passage.of limits source (line + d) = (Passage.of limits source line).shift d
      ∧ Option.Rel (Failure.Moved d) (Passage.of limits source line).failure?
          (Passage.of limits source (line + d)).failure? := by
  have hshift := Passage.of_shift limits source line d
  refine ⟨hshift, ?_⟩
  rw [hshift]
  exact Passage.moved_failure? d _

end LoxLang
