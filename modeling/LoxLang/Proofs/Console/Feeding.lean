/-
  LoxLang.Proofs.Console.Feeding
  ──────────────────────────────
  **Lines, one after the other.**  A console is fed a row of lines, whatever it answers to
  them.  `Fed` says what one line can do, in four cases:

    • it is the end of input, and drops what is held back,
    • it is a command, or blank, where nothing is held back,
    • it leaves a brace open, and is held back,
    • it leaves none open, and is submitted with all that is held back.

  Whether a brace is left open is a matter of the lines alone: neither the newlines between
  them nor the white space that is trimmed off at the end are braces.  Nor does it matter where
  the lines come from, unless there are carriage returns in them (`LineSource.lines_ended`).
-/
import LoxLang.Console

namespace LoxLang

/-! ## §1. Texts of several lines. -/

namespace Text

/-- The lines, each with its newline. -/
def ended (lines : List String) : String :=
  String.join (lines.map (· ++ "\n"))

@[simp] theorem ended_nil : ended [] = "" := rfl

theorem ended_cons (line : String) (lines : List String) :
    ended (line :: lines) = line ++ "\n" ++ ended lines :=
  String.join_cons

/-- One line more is ended at the end. -/
theorem ended_concat (lines : List String) (line : String) :
    ended (lines ++ [line]) = ended lines ++ line ++ "\n" := by
  simp [ended, String.join_append, String.append_assoc]

/-- Lines with newlines between them are all but the last ended, and then the last. -/
theorem intercalate_concat (lines : List String) (line : String) :
    "\n".intercalate (lines ++ [line]) = ended lines ++ line := by
  induction lines with
  | nil => simp
  | cons first lines ih =>
    rw [List.cons_append, String.intercalate_cons_of_ne_nil (by simp), ih, ended_cons]
    simp only [String.append_assoc]

/-- Lines that are ended have one newline more than lines with newlines between them. -/
theorem ended_eq {lines : List String} (h : lines ≠ []) :
    ended lines = "\n".intercalate lines ++ "\n" := by
  rw [← List.dropLast_concat_getLast h, ended_concat, intercalate_concat]

/-- What is trimmed off at the end is white space. -/
theorem exists_eq_trimEnd_append (text : String) :
    ∃ blanks : List Char, text.toList = (trimEnd text).toList ++ blanks
      ∧ ∀ c ∈ blanks, isBlank c = true := by
  refine ⟨(text.toList.reverse.takeWhile isBlank).reverse, ?_, ?_⟩
  · have hsplit := List.takeWhile_append_dropWhile (p := isBlank) (l := text.toList.reverse)
    have hreverse := congrArg List.reverse hsplit
    rw [List.reverse_append, List.reverse_reverse] at hreverse
    rw [trimEnd, String.toList_ofList]
    exact hreverse.symm
  · intro c hc
    exact List.all_eq_true.1 List.all_takeWhile c (List.mem_reverse.1 hc)

/-- Trimming takes away nothing but white space. -/
theorem count_trimEnd {c : Char} (hc : isBlank c = false) (text : String) :
    (trimEnd text).toList.count c = text.toList.count c := by
  obtain ⟨blanks, htext, hblanks⟩ := exists_eq_trimEnd_append text
  have hnone : blanks.count c = 0 := by
    refine List.count_eq_zero.2 fun hmem => ?_
    rw [hblanks c hmem] at hc
    cases hc
  rw [htext, List.count_append, hnone, Nat.add_zero]

theorem toList_ended_cons (line : String) (lines : List String) :
    (ended (line :: lines)).toList = line.toList ++ '\n' :: (ended lines).toList := by
  simp [ended_cons, String.toList_append]

/-- A line is cut off at its newline. -/
theorem cutTyped_append_newline {line : List Char} (rest : List Char) (h : '\n' ∉ line) :
    ∀ before : List Char,
      cutTyped before (line ++ '\n' :: rest) = (before.reverse ++ line) :: cutTyped [] rest := by
  induction line with
  | nil => simp [cutTyped]
  | cons c line ih =>
    intro before
    rw [List.mem_cons, not_or] at h
    rw [List.cons_append, cutTyped, if_neg (Ne.symm h.1), ih h.2, List.reverse_cons,
      List.append_assoc, List.singleton_append]

/-- Lines are read back from what is typed in if each is ended. -/
theorem typedLines_ended {lines : List String} (h : ∀ line ∈ lines, '\n' ∉ line.toList) :
    typedLines (ended lines) = lines := by
  induction lines with
  | nil => rfl
  | cons line lines ih =>
    obtain ⟨hline, hlines⟩ := List.forall_mem_cons.1 h
    rw [typedLines, toList_ended_cons, cutTyped_append_newline _ hline, List.map_cons,
      List.reverse_nil, List.nil_append, String.ofList_toList]
    exact congrArg _ (ih hlines)

/-- A line without carriage returns loses none. -/
theorem dropReturns_eq_self {s : String} (h : '\r' ∉ s.toList) : dropReturns s = s := by
  have hkeep : s.toList.reverse.dropWhile (· = '\r') = s.toList.reverse := by
    cases hlast : s.toList.reverse with
    | nil => rfl
    | cons c cs =>
      have hc : c ≠ '\r' := fun heq =>
        h (List.mem_reverse.1 (hlast ▸ heq ▸ List.mem_cons_self))
      rw [List.dropWhile_cons_of_neg (by simpa using hc)]
  rw [dropReturns, hkeep, List.reverse_reverse, String.ofList_toList]

/-- A terminal and a stream give the same lines, unless carriage returns stand in them. -/
theorem LineSource.lines_ended (source : LineSource) {lines : List String}
    (h : ∀ line ∈ lines, '\n' ∉ line.toList ∧ '\r' ∉ line.toList) :
    source.lines (ended lines) = lines := by
  have htyped := typedLines_ended fun line hline => (h line hline).1
  cases source with
  | terminal => exact htyped
  | stream =>
    rw [LineSource.lines, htyped]
    have hkept : ∀ line ∈ lines, dropReturns line = id line := fun line hline =>
      dropReturns_eq_self (h line hline).2
    rw [List.map_congr_left hkept, List.map_id]

end Text

/-- A brace is no white space. -/
@[simp] theorem hasOpenBrace_trimEnd (text : String) :
    hasOpenBrace (Text.trimEnd text) = hasOpenBrace text := by
  unfold hasOpenBrace
  rw [Text.count_trimEnd (by decide), Text.count_trimEnd (by decide)]

/-- A newline is no brace. -/
@[simp] theorem hasOpenBrace_append_newline (text : String) :
    hasOpenBrace (text ++ "\n") = hasOpenBrace text := by
  simp [hasOpenBrace, String.toList_append]

/-! ## §2. One line. -/

namespace Console

/-- The line is no command: it is taken in, as an input or as a part of one. -/
def Takes (c : Console) (line : String) : Prop :=
  Text.trim line ≠ "EOF" ∧ (c.held = "" → Text.trim line ∉ ["help", "exit", ""])

instance (c : Console) (line : String) : Decidable (c.Takes line) :=
  inferInstanceAs (Decidable (_ ∧ _))

/-- The number of the first line of an input that the next line goes on or starts. -/
def firstLine (c : Console) : Nat :=
  if c.held = "" then c.lineCount + 1 else c.heldLine

/-- What can come of a line. -/
inductive Fed (c : Console) (line : String) : Reply × Console → Prop
  | ended (eof : Text.trim line = "EOF") :
      Fed c line ({ stop := true, output := "\n" }, { c with prompt := .primary, held := "" })
  | commanded {reply : Reply} (eof : Text.trim line ≠ "EOF") (idle : c.held = "")
      (command : Text.trim line ∈ ["help", "exit", ""]) (failure : reply.failure = none)
      (stop : reply.stop = true ↔ Text.trim line = "exit") : Fed c line (reply, c)
  | heldBack (takes : c.Takes line) (isOpen : hasOpenBrace (c.held ++ line) = true) :
      Fed c line ({}, ⟨c.session, .continuation, c.held ++ line ++ "\n", c.firstLine,
        c.lineCount + 1⟩)
  | submitted {reply : Reply} {session : Session} (takes : c.Takes line)
      (closed : hasOpenBrace (c.held ++ line) = false)
      (submission : submit c.session (Text.trimEnd (c.held ++ line)) c.firstLine
        = (reply, session)) :
      Fed c line (reply, ⟨session, .primary, "", c.firstLine, c.lineCount + 1⟩)

/-- A line that is no command gets past all commands. -/
theorem feed_of_takes {c : Console} {line : String} (h : c.Takes line) :
    c.feed line = c.enter line := by
  obtain ⟨heof, hcommand⟩ := h
  simp only [List.mem_cons, List.not_mem_nil, or_false, not_or] at hcommand
  rw [feed, if_neg heof, if_neg fun h => (hcommand h.1).1 h.2,
    if_neg fun h => (hcommand h.1).2.1 h.2, if_neg fun h => (hcommand h.1).2.2 h.2]

/-- A line that leaves a brace open is held back with its newline. -/
theorem feed_of_open {c : Console} {line : String} (h : c.Takes line)
    (hopen : hasOpenBrace (c.held ++ line) = true) :
    c.feed line = ({}, ⟨c.session, .continuation, c.held ++ line ++ "\n", c.firstLine,
      c.lineCount + 1⟩) := by
  rw [feed_of_takes h, enter]
  simp only [hasOpenBrace_trimEnd, hopen, if_true]
  rfl

/-- A line that leaves no brace open is submitted, with what is held back in front. -/
theorem feed_of_closed {c : Console} {line : String} (h : c.Takes line)
    (hclosed : hasOpenBrace (c.held ++ line) = false) :
    c.feed line = ((submit c.session (Text.trimEnd (c.held ++ line)) c.firstLine).1,
      ⟨(submit c.session (Text.trimEnd (c.held ++ line)) c.firstLine).2, .primary, "",
        c.firstLine, c.lineCount + 1⟩) := by
  rw [feed_of_takes h, enter]
  simp only [hasOpenBrace_trimEnd, hclosed, Bool.false_eq_true, if_false]
  rfl

/-- **What a line does to a console**, case by case. -/
theorem fed (c : Console) (line : String) : Fed c line (c.feed line) := by
  by_cases h : c.Takes line
  · by_cases hopen : hasOpenBrace (c.held ++ line) = true
    · rw [feed_of_open h hopen]
      exact .heldBack h hopen
    · have hclosed := Bool.eq_false_iff.2 hopen
      rw [feed_of_closed h hclosed]
      exact .submitted h hclosed rfl
  by_cases heof : Text.trim line = "EOF"
  · rw [feed, if_pos heof]
    exact .ended heof
  -- what is left are the commands, and they are none in a continuation
  have hcommand : c.held = "" ∧ Text.trim line ∈ ["help", "exit", ""] :=
    Decidable.byContradiction fun hno => h ⟨heof, fun hidle hmem => hno ⟨hidle, hmem⟩⟩
  obtain ⟨hidle, hcommand⟩ := hcommand
  have hcases : Text.trim line = "help" ∨ Text.trim line = "exit" ∨ Text.trim line = "" := by
    simpa using hcommand
  rcases hcases with hhelp | hexit | hblank
  · rw [feed, if_neg heof, if_pos ⟨hidle, hhelp⟩]
    exact .commanded heof hidle hcommand rfl (by simp [hhelp])
  · rw [feed, if_neg heof, if_neg (by simp [hexit]), if_pos ⟨hidle, hexit⟩]
    exact .commanded heof hidle hcommand rfl (by simp [hexit])
  · rw [feed, if_neg heof, if_neg (by simp [hblank]), if_neg (by simp [hblank]),
      if_pos ⟨hidle, hblank⟩]
    exact .commanded heof hidle hcommand rfl (by simp [hblank])

/-! ## §3. Rows of lines. -/

/-- The replies to a row of lines, and the console behind them; it is fed on after a line
that ends the conversation, too. -/
def feedAll (c : Console) : List String → List Reply × Console
  | [] => ([], c)
  | line :: rest =>
      let (reply, after) := c.feed line
      let (replies, last) := after.feedAll rest
      (reply :: replies, last)

/-- The console behind a row of lines. -/
def after (c : Console) (lines : List String) : Console :=
  (c.feedAll lines).2

/-- Of a row of lines, those that are taken in. -/
def taken (c : Console) : List String → List String
  | [] => []
  | line :: rest =>
      if c.Takes line then line :: (c.feed line).2.taken rest else (c.feed line).2.taken rest

@[simp] theorem after_nil (c : Console) : c.after [] = c := by
  simp only [after, feedAll]

theorem feedAll_cons (c : Console) (line : String) (rest : List String) :
    c.feedAll (line :: rest)
      = ((c.feed line).1 :: ((c.feed line).2.feedAll rest).1, (c.feed line).2.after rest) := by
  simp only [feedAll, after]

theorem after_cons (c : Console) (line : String) (rest : List String) :
    c.after (line :: rest) = (c.feed line).2.after rest := by
  rw [after, feedAll_cons]

/-- Lines may be fed in two parts. -/
theorem feedAll_append (lines more : List String) : ∀ c : Console,
    c.feedAll (lines ++ more)
      = ((c.feedAll lines).1 ++ ((c.after lines).feedAll more).1, (c.after lines).after more) := by
  induction lines with
  | nil =>
    intro c
    simp only [List.nil_append, feedAll, after]
  | cons line lines ih =>
    intro c
    rw [List.cons_append, feedAll_cons, feedAll_cons, after_cons, after, ih, List.cons_append]

theorem feedAll_concat (c : Console) (lines : List String) (line : String) :
    c.feedAll (lines ++ [line])
      = ((c.feedAll lines).1 ++ [((c.after lines).feed line).1],
          ((c.after lines).feed line).2) := by
  rw [feedAll_append, feedAll_cons, after_cons, after_nil]
  simp only [feedAll]

theorem after_concat (c : Console) (lines : List String) (line : String) :
    c.after (lines ++ [line]) = ((c.after lines).feed line).2 := by
  rw [after, feedAll_concat]

/-- The last line is taken in, or not, as the console then stands. -/
theorem taken_concat (lines : List String) (line : String) : ∀ c : Console,
    c.taken (lines ++ [line])
      = c.taken lines ++ if (c.after lines).Takes line then [line] else [] := by
  induction lines with
  | nil =>
    intro c
    simp only [List.nil_append, taken, after_nil]
  | cons first lines ih =>
    intro c
    rw [List.cons_append, taken, taken, after_cons, ih]
    split
    · rw [List.cons_append]
    · rfl

end Console

end LoxLang
