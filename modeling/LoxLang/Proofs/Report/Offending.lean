/-
  LoxLang.Proofs.Report.Offending
  ───────────────────────────────
  **The line that a report shows.**  Lines are numbered twice: a diagnostic has the number of a
  line as the newlines of the source separate it, and the reporter looks that number up among
  the lines in which the source is stored, which every line boundary separates.  As long as no
  other boundary stands in the lines up to the diagnosed one, both count alike
  (`Text.getElem?_cutLines`), and the report shows the offending line; a form feed in a comment
  is enough to mislead it.
-/
import LoxLang.Proofs.Line.Blamed
import LoxLang.Report.Reporter
import Mathlib.Data.List.TakeWhile

namespace LoxLang

/-! ## §1. Lines between newlines. -/

namespace Text

/-- The lines of a text, as its newlines separate them. -/
def lines (cs : List Char) : List (List Char) :=
  cs.splitOn '\n'

theorem lines_newline (cs : List Char) : lines ('\n' :: cs) = [] :: lines cs := by
  simp [lines, List.splitOn, List.splitOnP_cons_eq_if_modifyHead]

/-- Another character belongs to the first line. -/
theorem lines_cons {c : Char} (hc : c ≠ '\n') (cs : List Char) :
    ∃ first rest, lines cs = first :: rest ∧ lines (c :: cs) = (c :: first) :: rest := by
  obtain ⟨first, rest, hlines⟩ := List.exists_cons_of_ne_nil (List.splitOn_ne_nil '\n' cs)
  refine ⟨first, rest, hlines, ?_⟩
  have hsplit : cs.splitOnP (· == '\n') = first :: rest := hlines
  simp [lines, List.splitOn, List.splitOnP_cons_eq_if_modifyHead, hc, hsplit]

theorem length_lines (cs : List Char) : (lines cs).length = cs.count '\n' + 1 := by
  induction cs with
  | nil => rfl
  | cons c cs ih =>
    by_cases hc : c = '\n'
    · subst hc
      rw [lines_newline, List.length_cons, ih, List.count_cons_self]
    · obtain ⟨first, rest, hlines, hcons⟩ := lines_cons hc cs
      rw [hlines, List.length_cons] at ih
      rw [hcons, List.length_cons, List.count_cons_of_ne hc, ih]

/-! ## §2. Lines of a stored source. -/

theorem cutLines_cons {c : Char} (hc : c ≠ '\r') (line cs : List Char) :
    cutLines line (c :: cs)
      = if isLineBoundary c then line.reverse :: cutLines [] cs else cutLines (c :: line) cs := by
  rw [cutLines.eq_def]
  split
  · next heq => cases heq
  · next heq =>
    cases heq
    exact absurd rfl hc
  · next heq =>
    cases heq
    rfl

/-- No boundary but newlines stands in the lines up to number `n`, counted from zero. -/
def PlainUpTo (cs : List Char) (n : Nat) : Prop :=
  ∀ line ∈ (lines cs).take (n + 1), ∀ c ∈ line, isLineBoundary c = false

instance (cs : List Char) (n : Nat) : Decidable (PlainUpTo cs n) :=
  decidable_of_iff (((lines cs).take (n + 1)).all fun line => line.all fun c => !isLineBoundary c)
    (by simp [PlainUpTo])

/-- **Both count alike.**  If no other boundary stands in the lines up to number `n`, that line
is stored under its number; and if it is not stored, being the last one, it is empty. -/
theorem getElem?_cutLines {cs : List Char} : ∀ (before : List Char) {text : List Char} {n : Nat},
    (lines cs)[n]? = some text → PlainUpTo cs n →
      (cutLines before cs)[n]?.getD [] = if n = 0 then before.reverse ++ text else text := by
  induction cs with
  | nil =>
    intro before text n htext _
    -- the only line is the one that is being read
    have hn : n = 0 := by
      have hlt := (List.getElem?_eq_some_iff.1 htext).1
      rw [length_lines] at hlt
      simpa using hlt
    subst hn
    have htext' : some [] = some text := htext
    cases htext'
    rw [cutLines.eq_def, if_pos rfl, List.append_nil]
    cases before with
    | nil => rfl
    | cons c before => rfl
  | cons c cs ih =>
    intro before text n htext hplain
    by_cases hc : c = '\n'
    · -- a newline ends the line in both ways of counting
      subst hc
      unfold PlainUpTo at hplain
      rw [lines_newline] at htext hplain
      rw [cutLines_cons (by decide), if_pos (by decide)]
      cases n with
      | zero =>
        cases htext
        rw [if_pos rfl, List.append_nil]
        rfl
      | succ n =>
        have hrest : PlainUpTo cs n := fun line hline => hplain line (List.mem_cons_of_mem _ hline)
        have hn := ih [] htext hrest
        rw [List.reverse_nil, List.nil_append, ite_self] at hn
        rw [if_neg (Nat.succ_ne_zero n)]
        exact hn
    · -- any other character goes on the line, being no boundary
      obtain ⟨first, rest, hlines, hcons⟩ := lines_cons hc cs
      unfold PlainUpTo at hplain
      rw [hcons] at htext hplain
      obtain ⟨hfirst, hothers⟩ := List.forall_mem_cons.1 hplain
      obtain ⟨hbound, hfirst'⟩ := List.forall_mem_cons.1 hfirst
      have hreturn : c ≠ '\r' := by
        rintro rfl
        exact absurd hbound (by decide)
      have hrest : PlainUpTo cs n := by
        unfold PlainUpTo
        rw [hlines]
        exact List.forall_mem_cons.2 ⟨hfirst', hothers⟩
      rw [cutLines_cons hreturn, hbound, if_neg Bool.false_ne_true]
      cases n with
      | zero =>
        cases htext
        have hn := ih (c :: before) (n := 0) (congrArg (·[0]?) hlines) hrest
        rw [if_pos rfl, List.reverse_cons, List.append_assoc] at hn
        rw [if_pos rfl]
        exact hn
      | succ n =>
        have hn := ih (c :: before) ((congrArg (·[n + 1]?) hlines).trans htext) hrest
        rw [if_neg (Nat.succ_ne_zero n)] at hn ⊢
        exact hn

/-! ## §3. Blank lines. -/

/-- Trimming leaves nothing exactly if there is nothing but white space. -/
theorem trim_eq_empty_iff (cs : List Char) :
    trim (String.ofList cs) = "" ↔ ∀ c ∈ cs, isBlank c = true := by
  have hsplit : cs.takeWhile isBlank ++ dropBlanks cs = cs := List.takeWhile_append_dropWhile
  have htrim : trim (String.ofList cs) = "" ↔ ∀ c ∈ dropBlanks cs, isBlank c = true := by
    show String.ofList (dropBlanksEnd (dropBlanks (String.ofList cs).toList)) = "" ↔ _
    rw [String.toList_ofList, ← String.toList_inj, String.toList_ofList]
    simp [dropBlanksEnd, dropBlanks, List.dropWhile_eq_nil_iff]
  rw [htrim]
  constructor
  · intro h c hc
    rw [← hsplit] at hc
    rcases List.mem_append.1 hc with hc | hc
    · exact List.all_eq_true.1 List.all_takeWhile c hc
    · exact h c hc
  · intro h c hc
    exact h c (hsplit ▸ List.mem_append_right _ hc)

end Text

/-! ## §4. Reports. -/

namespace Reporter

/-- Of the only stored source, line number `n + 1` is looked up under the position `n`. -/
theorem sourceLine?_addFile {r : Reporter} (hr : r.sources = []) (path source : String) (n : Nat) :
    (r.addFile path (some source)).sourceLine? ((n : Int) + 1)
      = (Text.cutLines [] source.toList)[n]?.map String.ofList := by
  have hpos : (0 : Int) < (n : Int) + 1 := by omega
  simp [sourceLine?, addFile, hr, putEntry, lineAt?, hpos, Text.storedLines]

end Reporter

/-- **The diagnosed line is the offending line.**  A source is stored in a reporter that knows
no other, and fails in some stage.  Then it is diagnosed on one of its lines.  If no boundary
but newlines stands in the lines up to this one, the report shows the number and the line,
without the white space around it, and shows nothing exactly if the line is blank. -/
theorem diagnosed_line_is_offending (limits : Limits) (source path : String) (r : Reporter)
    (d : Diagnostic) (hr : r.sources = [])
    (h : (Passage.of limits source 1).failure? = some (.diagnosed d)) :
    ∃ n text, d.line = some ((n : Nat) + 1) ∧ (Text.lines source.toList)[n]? = some text
      ∧ (Text.PlainUpTo source.toList n →
        let shown := (r.addFile path (some source)).offendingLine d
        (shown = "" ↔ ∀ c ∈ text, Text.isBlank c = true)
          ∧ (shown ≠ "" → shown = "  " ++ toString ((n : Int) + 1) ++ " | "
            ++ r.paint .yellow (Text.trim (String.ofList text)))) := by
  obtain ⟨hinternal, k, hline, hle, hge⟩ := Passage.places_of_failure? h
  -- the number, counted from zero, is a position among the lines
  obtain ⟨n, rfl⟩ : ∃ n : Nat, k = n + 1 := ⟨(k - 1).toNat, by omega⟩
  have hlt : n < (Text.lines source.toList).length := by
    rw [Text.length_lines]
    omega
  refine ⟨n, (Text.lines source.toList)[n], hline, List.getElem?_eq_getElem hlt, ?_⟩
  intro hplain
  have hstored := Text.getElem?_cutLines [] (List.getElem?_eq_getElem hlt) hplain
  rw [List.reverse_nil, List.nil_append, ite_self] at hstored
  have hsource : ((r.addFile path (some source)).sourceLine? ((n : Int) + 1)).getD ""
      = String.ofList (Text.lines source.toList)[n] := by
    rw [Reporter.sourceLine?_addFile hr, ← hstored]
    exact Option.getD_map String.ofList [] _
  have hshown : (r.addFile path (some source)).offendingLine d
      = if Text.trim (String.ofList (Text.lines source.toList)[n]) = "" then ""
        else "  " ++ toString ((n : Int) + 1) ++ " | "
          ++ r.paint .yellow (Text.trim (String.ofList (Text.lines source.toList)[n])) := by
    unfold Reporter.offendingLine
    rw [hline]
    simp only [hsource, hinternal, Bool.false_eq_true, false_or]
    rfl
  rw [← Text.trim_eq_empty_iff]
  dsimp only
  rw [hshown]
  split
  · next hblank => exact ⟨⟨fun _ => hblank, fun _ => rfl⟩, fun hne => absurd rfl hne⟩
  · next hvisible =>
    refine ⟨⟨fun hnone => ?_, fun hblank => absurd hblank hvisible⟩, fun _ => rfl⟩
    simp at hnone

/-- A mention of no variable, on a line with white space around it. -/
theorem diagnosed_line_is_offending_second :
    ∃ d, (Passage.of ⟨9, 1⟩ "nil;\n x; " 1).failure? = some (.diagnosed d)
      ∧ Text.PlainUpTo "nil;\n x; ".toList 1
      ∧ ((Reporter.new true Text.plain).addFile "p" (some "nil;\n x; ")).offendingLine d
        = "  2 | x;" := by
  have hscan : scan "nil;\n x; " 1 = .ok ⟨[⟨.keyword .nilKw, "nil", 1⟩,
      ⟨.symbol .semicolon, ";", 1⟩, ⟨.identifier, "x", 2⟩, ⟨.symbol .semicolon, ";", 2⟩], 2⟩ := by
    with_unfolding_all rfl
  have hfailure : (Passage.of ⟨9, 1⟩ "nil;\n x; " 1).failure?
      = some (.diagnosed (.ofRuntime ⟨.undefinedVariable "x", 2⟩)) :=
    Passage.failure?_of_run hscan rfl rfl rfl
  have hplain : Text.PlainUpTo "nil;\n x; ".toList 1 := by decide
  obtain ⟨n, text, hline, htext, hshown⟩ := diagnosed_line_is_offending ⟨9, 1⟩ "nil;\n x; " "p"
    (.new true Text.plain) _ rfl hfailure
  obtain rfl : n = 1 := by
    have hsecond : (2 : Int) = (n : Int) + 1 := Option.some.inj hline
    omega
  have hsecond : (Text.lines "nil;\n x; ".toList)[1]? = some [' ', 'x', ';', ' '] := by decide
  rw [hsecond] at htext
  cases htext
  obtain ⟨hempty, htrim⟩ := hshown hplain
  refine ⟨_, hfailure, hplain, (htrim ?_).trans (by decide)⟩
  rw [ne_eq, hempty]
  intro hblank
  exact absurd (hblank 'x' (by simp)) (by decide)

/-- Behind a form feed in a comment, the line before the offending one is shown. -/
theorem diagnosed_line_misplaced :
    ∃ d, (Passage.of ⟨9, 1⟩ "//\x0c a\nx;" 1).failure? = some (.diagnosed d)
      ∧ d.line = some 2 ∧ (Text.lines "//\x0c a\nx;".toList)[1]? = some ['x', ';']
      ∧ ((Reporter.new true Text.plain).addFile "p" (some "//\x0c a\nx;")).offendingLine d
        = "  2 | a" := by
  have hscan : scan "//\x0c a\nx;" 1 = .ok ⟨[⟨.identifier, "x", 2⟩,
      ⟨.symbol .semicolon, ";", 2⟩], 2⟩ := by
    with_unfolding_all rfl
  have hfailure : (Passage.of ⟨9, 1⟩ "//\x0c a\nx;" 1).failure?
      = some (.diagnosed (.ofRuntime ⟨.undefinedVariable "x", 2⟩)) :=
    Passage.failure?_of_run hscan rfl rfl rfl
  exact ⟨_, hfailure, rfl, by decide, by decide⟩

end LoxLang
