/-
  LoxLang.Proofs.Console.Continuation
  ───────────────────────────────────
  **Lines that are held back are one input.**  Let a brace stay open behind each of a row of
  lines but the last.  Typed one by one, they do what one submission does of the lines with
  newlines between them, on the line after the last one counted; and until the last line is
  typed, they do nothing.

  Lines are counted twice, by the console as they are typed and by the scanner as it meets
  the newlines between them.  The counts agree: a token has the number that the console gave
  to the line on which it starts, whatever else was typed in between.
-/
import LoxLang.Proofs.Console.Feeding
import LoxLang.Proofs.Token.Seam

namespace LoxLang

/-! ## §1. Lines of a text. -/

namespace Text

theorem ended_ne_empty {lines : List String} (h : lines ≠ []) : ended lines ≠ "" := by
  intro hempty
  cases lines with
  | nil => exact h rfl
  | cons line lines =>
    have hchars := congrArg String.toList hempty
    simp [toList_ended_cons] at hchars

/-- Lines have as many newlines as there are lines. -/
theorem count_newline_ended {lines : List String} (h : ∀ line ∈ lines, '\n' ∉ line.toList) :
    (ended lines).toList.count '\n' = lines.length := by
  induction lines with
  | nil => rfl
  | cons line lines ih =>
    have hline : line.toList.count '\n' = 0 := List.count_eq_zero.2 (h line List.mem_cons_self)
    have hrest := ih fun l hl => h l (List.mem_cons_of_mem line hl)
    rw [toList_ended_cons, List.count_append, List.count_cons_self, hline, hrest, List.length_cons]
    omega

/-- Behind the text `front` comes the character `c` of line number `n`, counted from zero. -/
def StandsOn (lines : List String) (n : Nat) (front : List Char) (c : Char) : Prop :=
  ∃ line before behind, lines[n]? = some line ∧ line.toList = before ++ c :: behind
    ∧ front = (ended (lines.take n)).toList ++ before

theorem StandsOn.lt_length {lines : List String} {n : Nat} {front : List Char} {c : Char}
    (h : StandsOn lines n front c) : n < lines.length := by
  obtain ⟨line, before, behind, hline, -, -⟩ := h
  exact (List.getElem?_eq_some_iff.1 hline).1

/-- The newlines in front of a character tell its line. -/
theorem StandsOn.count_newline {lines : List String} {n : Nat} {front : List Char} {c : Char}
    (h : StandsOn lines n front c) (hlines : ∀ line ∈ lines, '\n' ∉ line.toList) :
    front.count '\n' = n := by
  have hn := h.lt_length
  obtain ⟨line, before, behind, hline, hchars, rfl⟩ := h
  have hbefore : before.count '\n' = 0 := by
    refine List.count_eq_zero.2 fun hmem => ?_
    refine hlines line (List.mem_of_getElem? hline) ?_
    rw [hchars]
    exact List.mem_append_left _ hmem
  have hfront : (ended (lines.take n)).toList.count '\n' = (lines.take n).length :=
    count_newline_ended fun l hl => hlines l (List.mem_of_mem_take hl)
  have hlength : (lines.take n).length = n := by
    rw [List.length_take]
    omega
  rw [List.count_append, hfront, hbefore, hlength]
  omega

/-- A character that is no newline stands on a line. -/
theorem exists_standsOn {c : Char} (hc : c ≠ '\n') {behind : List Char} (lines : List String) :
    ∀ {front : List Char}, (ended lines).toList = front ++ c :: behind →
      ∃ n, StandsOn lines n front c := by
  induction lines with
  | nil =>
    intro front h
    simp at h
  | cons line lines ih =>
    intro front h
    rw [toList_ended_cons] at h
    rcases List.append_eq_append_iff.1 h with ⟨more, hfront, hmore⟩ | ⟨more, hline, hmore⟩
    · -- it stands behind the first line, and so behind its newline
      cases more with
      | nil =>
        exact absurd (List.cons.inj hmore).1.symm hc
      | cons newline more =>
        obtain ⟨hnewline, hrest⟩ := List.cons.inj hmore
        obtain ⟨n, line', before, behind', hline', hchars, hmore'⟩ := ih hrest
        refine ⟨n + 1, line', before, behind', hline', hchars, ?_⟩
        rw [hfront, List.take_succ_cons, toList_ended_cons, hmore', ← hnewline]
        simp
    · cases more with
      | nil =>
        exact absurd (List.cons.inj hmore).1 hc
      | cons first more =>
        obtain ⟨rfl, -⟩ := List.cons.inj hmore
        exact ⟨0, line, front, more, rfl, hline, by simp⟩

end Text

/-! ## §2. Tokens on their lines. -/

namespace Piece

theorem exists_rest_of_mem_located {ps : List Piece} : ∀ {x : List Piece × Piece},
    x ∈ located ps → ∃ rest, ps = x.1 ++ x.2 :: rest := by
  induction ps with
  | nil =>
    intro x hx
    cases hx
  | cons p ps ih =>
    intro x hx
    rw [located_cons] at hx
    rcases List.mem_cons.1 hx with rfl | hx
    · exact ⟨ps, rfl⟩
    · obtain ⟨y, hy, rfl⟩ := List.mem_map.1 hx
      obtain ⟨rest, hrest⟩ := ih hy
      exact ⟨rest, congrArg (p :: ·) hrest⟩

/-- No token starts with a newline. -/
theorem exists_head_ne_newline {p : Piece} (h : p.WellFormed) (htoken : p.isToken = true) :
    ∃ c cs, p.chars = c :: cs ∧ c ≠ '\n' := by
  cases h with
  | symbol s => cases s <;> exact ⟨_, _, rfl, by decide⟩
  | @word c cs hc =>
    refine ⟨c, cs, rfl, ?_⟩
    rintro rfl
    exact absurd hc (by decide)
  | @number whole fraction h =>
    obtain ⟨c, ds, rfl, hc⟩ := h.exists_cons
    have hne : c ≠ '\n' := by
      rintro rfl
      exact absurd hc (by decide)
    cases fraction with
    | none => exact ⟨c, ds, rfl, hne⟩
    | some fraction => exact ⟨c, _, rfl, hne⟩
  | @string body => exact ⟨'"', _, rfl, by decide⟩
  | _ => cases htoken

/-- The first character of a piece stands on line number `n`, counted from zero. -/
def StartsOn (lines : List String) (n : Nat) (x : List Piece × Piece) : Prop :=
  ∃ c, x.2.chars.head? = some c ∧ Text.StandsOn lines n (x.1.flatMap chars) c

/-- In the text of some lines, trimmed at its end, a token starts on one of the lines. -/
theorem exists_startsOn {lines : List String} (hne : lines ≠ []) {ps : List Piece}
    (h : IsCutting (Text.trimEnd ("\n".intercalate lines)).toList ps) {x : List Piece × Piece}
    (hx : x ∈ (located ps).filter (·.2.isToken)) : ∃ n, StartsOn lines n x := by
  obtain ⟨hmem, htoken⟩ := List.mem_filter.1 hx
  obtain ⟨rest, hps⟩ := exists_rest_of_mem_located hmem
  have hwell : x.2.WellFormed := h.wellFormed _ (by rw [hps]; simp)
  obtain ⟨c, cs, hchars, hc⟩ := exists_head_ne_newline hwell htoken
  obtain ⟨blanks, htext, -⟩ := Text.exists_eq_trimEnd_append ("\n".intercalate lines)
  -- the lines are what is in front, the piece, and what was behind it before it was trimmed
  have hlines : (Text.ended lines).toList
      = x.1.flatMap chars ++ c :: (cs ++ rest.flatMap chars ++ blanks ++ ['\n']) := by
    rw [Text.ended_eq hne, String.toList_append, htext, ← h.flatMap_chars, hps]
    simp [hchars]
  obtain ⟨n, hn⟩ := Text.exists_standsOn hc lines hlines
  exact ⟨n, c, by rw [hchars]; rfl, hn⟩

/-- A token has the number of the line on which it starts. -/
theorem IsTokenOf.line_of_startsOn {lines : List String}
    (hlines : ∀ line ∈ lines, '\n' ∉ line.toList) {start : Int} {x : List Piece × Piece} {t : Token}
    (h : IsTokenOf start x t) {n : Nat} (hn : StartsOn lines n x) : t.line = start + n := by
  obtain ⟨c, -, hstands⟩ := hn
  rw [h.line_eq, lineAfter, hstands.count_newline hlines]

end Piece

/-! ## §3. Lines held back. -/

/-- The lines are one input: a brace is open behind each of them but the last, none is the
end of input, and the first is no command. -/
structure IsContinuation (lines : List String) : Prop where
  ne_nil : lines ≠ []
  single : ∀ line ∈ lines, '\n' ∉ line.toList
  not_eof : ∀ line ∈ lines, Text.trim line ≠ "EOF"
  not_command : ∀ line ∈ lines.head?, Text.trim line ∉ ["help", "exit", ""]
  isOpen : ∀ n, 0 < n → n < lines.length →
    hasOpenBrace ("\n".intercalate (lines.take n)) = true
  closed : hasOpenBrace ("\n".intercalate lines) = false

namespace Console

/-- The console with some lines held back that it did not hold back before. -/
def holding (c : Console) (front : List String) : Console :=
  if front = [] then c
  else ⟨c.session, .continuation, Text.ended front, c.lineCount + 1, c.lineCount + front.length⟩

variable {c : Console} {lines : List String}

@[simp] theorem session_holding (c : Console) (front : List String) :
    (c.holding front).session = c.session := by
  unfold holding
  split
  · rfl
  · rfl

@[simp] theorem lineCount_holding (c : Console) (front : List String) :
    (c.holding front).lineCount = c.lineCount + front.length := by
  unfold holding
  split
  · next h => simp [h]
  · rfl

theorem held_holding (hc : c.held = "") (front : List String) :
    (c.holding front).held = Text.ended front := by
  unfold holding
  split
  · next h => rw [h, hc, Text.ended_nil]
  · rfl

theorem firstLine_holding (hc : c.held = "") (front : List String) :
    (c.holding front).firstLine = c.lineCount + 1 := by
  by_cases h : front = []
  · rw [holding, if_pos h, firstLine, if_pos hc]
  · have hheld : (c.holding front).held ≠ "" := by
      rw [held_holding hc]
      exact Text.ended_ne_empty h
    rw [firstLine, if_neg hheld, holding, if_neg h]

/-- The next line of a continuation is taken in, even if it would be a command elsewhere. -/
theorem takes_holding (hc : c.held = "") (h : IsContinuation lines) {front rest : List String}
    {line : String} (hlines : lines = front ++ line :: rest) : (c.holding front).Takes line := by
  refine ⟨h.not_eof line (by simp [hlines]), ?_⟩
  intro hheld
  rw [held_holding hc] at hheld
  have hfront : front = [] := by
    by_contra hne
    exact Text.ended_ne_empty hne hheld
  exact h.not_command line (by simp [hlines, hfront])

/-- **Lines of a continuation are held back**, one by one, and nothing else comes of them. -/
theorem feedAll_of_open (hc : c.held = "") (h : IsContinuation lines) {front : List String} :
    ∀ {rest : List String}, lines = front ++ rest → rest ≠ [] →
      c.feedAll front = (List.replicate front.length {}, c.holding front) := by
  induction front using List.reverseRecOn with
  | nil =>
    intro rest _ _
    simp [feedAll, holding]
  | append_singleton front line ih =>
    intro rest hlines hrest
    have hlines' : lines = front ++ line :: rest := by
      rw [hlines, List.append_assoc]
      rfl
    have hbefore := ih hlines' (by simp)
    have hafter : c.after front = c.holding front := congrArg Prod.snd hbefore
    have hopen : hasOpenBrace ((c.holding front).held ++ line) = true := by
      have hlength : front.length + 1 < lines.length := by
        have := List.length_pos_iff.2 hrest
        simp [hlines]
        omega
      have htake : lines.take (front.length + 1) = front ++ [line] := by
        rw [hlines]
        exact List.take_left' (by simp)
      have hprefix := h.isOpen (front.length + 1) (by omega) hlength
      rwa [htake, Text.intercalate_concat, ← held_holding hc] at hprefix
    rw [feedAll_concat, hbefore, hafter, feed_of_open (takes_holding hc h hlines') hopen,
      firstLine_holding hc, held_holding hc, session_holding, lineCount_holding]
    simp [holding, List.replicate_succ', Text.ended_concat, Nat.add_assoc]

/-- Behind some of the lines, but not all, nothing has happened but that they are held back. -/
theorem feedAll_take (hc : c.held = "") (h : IsContinuation lines) {n : Nat} (hpos : 0 < n)
    (hn : n < lines.length) :
    c.feedAll (lines.take n) = (List.replicate n {},
      ⟨c.session, .continuation, Text.ended (lines.take n), c.lineCount + 1, c.lineCount + n⟩) := by
  have hlength : (lines.take n).length = n := by
    rw [List.length_take]
    omega
  have hfront : lines.take n ≠ [] := by
    intro hnil
    rw [hnil, List.length_nil] at hlength
    omega
  have hrest : lines.drop n ≠ [] := by
    simpa using hn
  rw [feedAll_of_open hc h (List.take_append_drop n lines).symm hrest, holding, if_neg hfront,
    hlength]

/-- The last line closes the braces, and takes all lines before it with it. -/
theorem feedAll_continuation (hc : c.held = "") (h : IsContinuation lines) :
    c.feedAll lines
      = (List.replicate (lines.length - 1) ({} : Reply) ++
          [(submit c.session (Text.trimEnd ("\n".intercalate lines)) (c.lineCount + 1 : Nat)).1],
        ⟨(submit c.session (Text.trimEnd ("\n".intercalate lines)) (c.lineCount + 1 : Nat)).2,
          .primary, "", c.lineCount + 1, c.lineCount + lines.length⟩) := by
  obtain ⟨front, last, hlines⟩ : ∃ front last, lines = front ++ [last] :=
    ⟨_, _, (List.dropLast_concat_getLast h.ne_nil).symm⟩
  have hbefore := feedAll_of_open hc h hlines (by simp)
  have hafter : c.after front = c.holding front := congrArg Prod.snd hbefore
  have hsource : (c.holding front).held ++ last = "\n".intercalate lines := by
    rw [held_holding hc, hlines, Text.intercalate_concat]
  have hclosed : hasOpenBrace ((c.holding front).held ++ last) = false := by
    rw [hsource]
    exact h.closed
  have hlength : lines.length = front.length + 1 := by
    simp [hlines]
  have hall : c.feedAll lines = c.feedAll (front ++ [last]) := by
    rw [hlines]
  rw [hall, feedAll_concat, hbefore, hafter, feed_of_closed (takes_holding hc h hlines) hclosed,
    hsource, firstLine_holding hc, session_holding, lineCount_holding, hlength,
    Nat.add_sub_cancel, Nat.add_assoc]

theorem lineCount_after_take (hc : c.held = "") (h : IsContinuation lines) {n : Nat}
    (hpos : 0 < n) (hn : n ≤ lines.length) :
    (c.after (lines.take n)).lineCount = c.lineCount + n := by
  by_cases hall : n = lines.length
  · rw [hall, List.take_length, after, feedAll_continuation hc h]
  · rw [after, feedAll_take hc h hpos (by omega)]

/-- **A continuation is one input.**  On a console that holds nothing back, its lines, typed
one by one, come to what one submission comes to of the lines with newlines between them and
without white space at the end.  Before the last line, nothing is run, shown or reported.  A
token of the input has the number of the line that was typed where it starts. -/
theorem continuation_is_one_input (hc : c.held = "") (h : IsContinuation lines) :
    let source := Text.trimEnd ("\n".intercalate lines)
    let submission := submit c.session source (c.lineCount + 1 : Nat)
    c.feedAll lines
        = (List.replicate (lines.length - 1) ({} : Reply) ++ [submission.1],
            ⟨submission.2, .primary, "", c.lineCount + 1, c.lineCount + lines.length⟩)
      ∧ (∀ n, 0 < n → n < lines.length →
          c.feedAll (lines.take n) = (List.replicate n {},
            ⟨c.session, .continuation, Text.ended (lines.take n), c.lineCount + 1,
              c.lineCount + n⟩))
      ∧ ∀ stream, scan source (c.lineCount + 1 : Nat) = .ok stream →
          ∃ ps, Piece.IsCutting source.toList ps
            ∧ List.Forall₂ (fun x t => Piece.IsTokenOf (c.lineCount + 1 : Nat) x t
                ∧ (∃ n, Piece.StartsOn lines n x)
                ∧ ∀ n, Piece.StartsOn lines n x →
                    t.line = (c.lineCount + (n + 1) : Nat)
                      ∧ (c.after (lines.take (n + 1))).lineCount = c.lineCount + (n + 1))
              ((Piece.located ps).filter (·.2.isToken)) stream.tokens := by
  intro source submission
  refine ⟨feedAll_continuation hc h, fun n hpos hn => feedAll_take hc h hpos hn, ?_⟩
  intro stream hscan
  obtain ⟨ps, hcut, -, rfl⟩ := Piece.exists_isCutting_of_scan hscan
  refine ⟨ps, hcut, ?_⟩
  have htokens := List.forall₂_iff_zip.1 (Piece.tokens_of_place (c.lineCount + 1 : Nat) ps)
  refine List.forall₂_iff_zip.2 ⟨htokens.1, fun {x t} hxt => ?_⟩
  have htoken := htokens.2 hxt
  refine ⟨htoken, Piece.exists_startsOn h.ne_nil hcut (List.of_mem_zip hxt).1, ?_⟩
  intro n hn
  have hline := htoken.line_of_startsOn h.single hn
  obtain ⟨first, -, hstands⟩ := hn
  refine ⟨?_, lineCount_after_take hc h (by omega) hstands.lt_length⟩
  rw [hline]
  omega

/-- In a block that goes over four lines, a blank line counts, and help is a name. -/
theorem continuation_is_one_input_help :
    let c := Console.initial (.fresh (.new true Text.plain) Session.typedPath true ⟨9, 9⟩)
    let lines := ["\x7b print", "help", "", "; \x7d  "]
    let submission := submit c.session "\x7b print\nhelp\n\n; \x7d" 1
    c.held = "" ∧ IsContinuation lines
      ∧ c.feedAll lines = ([{}, {}, {}, submission.1], ⟨submission.2, .primary, "", 1, 4⟩) := by
  have hlines : IsContinuation ["\x7b print", "help", "", "; \x7d  "] := by
    refine ⟨by simp, by decide, by decide, ?_, ?_, by cbv⟩
    · rintro line ⟨⟩
      decide
    · intro n hpos hn
      have hn : n = 1 ∨ n = 2 ∨ n = 3 := by
        simp only [List.length_cons, List.length_nil] at hn
        omega
      rcases hn with rfl | rfl | rfl
      · cbv
      · cbv
      · cbv
  have hsource : Text.trimEnd ("\n".intercalate ["\x7b print", "help", "", "; \x7d  "])
      = "\x7b print\nhelp\n\n; \x7d" := by
    cbv
  have hfed := (continuation_is_one_input
    (c := Console.initial (.fresh (.new true Text.plain) Session.typedPath true ⟨9, 9⟩))
    rfl hlines).1
  rw [hsource] at hfed
  exact ⟨rfl, hlines, hfed⟩

end Console

end LoxLang
