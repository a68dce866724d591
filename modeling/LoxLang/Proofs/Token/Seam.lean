/-
  LoxLang.Proofs.Token.Seam
  ─────────────────────────
  **Texts behind each other.**  Where two texts meet at a newline, neither is cut
  differently for the other's sake: no piece of the first goes on across the newline,
  unless it is a string that was never closed.

  Main results:
    * `IsCutting.append_newline`  — the cutting of the two texts is the cutting of the
      one, the newline, and the cutting of the other,
    * `scan_append_newline`       — so are their tokens, the second text starting on the
      line behind the first.
-/
import LoxLang.Proofs.Token.Scanning

namespace LoxLang

namespace Piece

/-! ## §1. The tokens of a row of pieces. -/

/-- The tokens among the pieces of a text that starts on `line`. -/
def tokens (line : Int) (ps : List Piece) : List Token :=
  (place line ps).filterMap fun (l, p) => p.token? l

@[simp] theorem lineAfter_nil (line : Int) : lineAfter line [] = line := by
  simp [lineAfter]

/-- The line behind pieces is told by the newlines of their text. -/
theorem lineAfter_eq {cs : List Char} {ps : List Piece} (h : ps.flatMap chars = cs) (line : Int) :
    lineAfter line ps = line + cs.count '\n' := by
  unfold lineAfter
  rw [h]

theorem tokens_cons (line : Int) (p : Piece) (ps : List Piece) :
    tokens line (p :: ps) = (p.token? line).toList ++ tokens (line + p.newlines) ps := by
  unfold tokens
  rw [place]
  cases htoken : p.token? line with
  | none => exact List.filterMap_cons_none htoken
  | some t => exact List.filterMap_cons_some htoken

/-- The tokens of pieces behind others start on the line that those lead to. -/
theorem tokens_append (line : Int) (ps qs : List Piece) :
    tokens line (ps ++ qs) = tokens line ps ++ tokens (lineAfter line ps) qs := by
  induction ps generalizing line with
  | nil =>
    rw [lineAfter_nil]
    rfl
  | cons p ps ih =>
    rw [List.cons_append, tokens_cons, tokens_cons, ih, lineAfter_cons, List.append_assoc]

/-- What is no token gives none. -/
theorem token?_eq_none {p : Piece} (h : p.isToken = false) (line : Int) : p.token? line = none := by
  rw [isToken_eq_isSome line] at h
  exact Option.isSome_eq_false_iff.1 h |> Option.isNone_iff_eq_none.1

/-- White space and comments have no tokens among them. -/
theorem tokens_eq_nil {ps : List Piece} (h : ∀ p ∈ ps, p.isToken = false) (line : Int) :
    tokens line ps = [] := by
  induction ps generalizing line with
  | nil => rfl
  | cons p ps ih =>
    rw [tokens_cons, token?_eq_none (h p List.mem_cons_self),
      ih fun q hq => h q (List.mem_cons_of_mem p hq)]
    rfl

/-! ## §2. Scanning, by any cutting. -/

/-- A cutting without faults tells what scanning gives. -/
theorem scan_of_isCutting {source : String} {ps : List Piece} (h : IsCutting source.toList ps)
    (hclean : ∀ p ∈ ps, p.isFault = false) (line : Int) :
    scan source line = .ok ⟨tokens line ps, line + source.toList.count '\n'⟩ := by
  rw [h.eq_cut] at hclean ⊢
  exact scan_eq_ok hclean

/-- What scanning gives is told by a cutting without faults. -/
theorem exists_isCutting_of_scan {source : String} {line : Int} {stream : Token.Stream}
    (h : scan source line = .ok stream) :
    ∃ ps, IsCutting source.toList ps ∧ (∀ p ∈ ps, p.isFault = false)
      ∧ stream = ⟨tokens line ps, line + source.toList.count '\n'⟩ := by
  have hclean : ∀ p ∈ cut source.toList, p.isFault = false := by
    intro p hp
    by_cases hfault : p.isFault = true
    · rw [scan_eq_error ⟨p, hp, hfault⟩] at h
      cases h
    · exact Bool.eq_false_iff.2 hfault
  refine ⟨cut source.toList, cut_isCutting source.toList, hclean, ?_⟩
  rw [scan_of_isCutting (cut_isCutting source.toList) hclean] at h
  exact (Except.ok.inj h).symm

/-! ## §3. Across a newline. -/

/-- White space ends a word. -/
theorem isWordChar_of_isBlank {c : Char} (h : Text.isBlank c = true) : isWordChar c = false := by
  rw [isWordChar, Bool.or_eq_false_iff]
  constructor
  · by_cases hword : isWordStart c = true
    · rw [(isWordStart_apart hword).1] at h
      cases h
    · exact Bool.eq_false_iff.2 hword
  · by_cases hdigit : c.isDigit = true
    · rw [(isDigit_apart hdigit).1] at h
      cases h
    · exact Bool.eq_false_iff.2 hdigit

/-- The next character behind a text is its own, or else the newline. -/
theorem forall_head?_append_newline {P : Char → Prop} {rest : List Char}
    (hrest : ∀ c ∈ rest.head?, P c) (hnewline : P '\n') (more : List Char) :
    ∀ c ∈ (rest ++ '\n' :: more).head?, P c := by
  cases rest with
  | nil =>
    intro c hc
    cases hc
    exact hnewline
  | cons d ds => exact hrest

/-- **A newline ends every piece** that is not a string without an end. -/
theorem Maximal.append_newline {p : Piece} {rest : List Char} (h : p.Maximal rest)
    (hclean : p.isFault = false) (more : List Char) : p.Maximal (rest ++ '\n' :: more) := by
  have hword : (∀ c ∈ rest.head?, isWordChar c = false) →
      ∀ c ∈ (rest ++ '\n' :: more).head?, isWordChar c = false :=
    fun hrest => forall_head?_append_newline hrest (by decide) more
  have hother : ∀ {d : Char}, d ≠ '\n' → rest.head? ≠ some d →
      (rest ++ '\n' :: more).head? ≠ some d := by
    intro d hd hrest hhead
    refine forall_head?_append_newline (P := (· ≠ d)) ?_ hd.symm more d hhead rfl
    intro c hc hcd
    exact hrest (hcd ▸ hc)
  cases p with
  | comment body => exact forall_head?_append_newline h rfl more
  | symbol s =>
    exact ⟨fun hs => hother (by decide) (h.1 hs), fun hs => hother (by decide) (h.2 hs)⟩
  | word cs => exact hword h
  | number whole fraction =>
    refine ⟨hword h.1, ?_⟩
    intro hnone d ds heq
    -- behind a point at the very end comes the newline, which is no digit
    cases rest with
    | nil => cases (List.cons.inj heq).1
    | cons c cs =>
      cases cs with
      | nil =>
        obtain ⟨-, htail⟩ := List.cons.inj heq
        obtain ⟨hd, -⟩ := List.cons.inj htail
        rw [← hd]
        decide
      | cons c' cs =>
        obtain ⟨hpoint, htail⟩ := List.cons.inj heq
        obtain ⟨hd, -⟩ := List.cons.inj htail
        exact h.2 hnone d cs (by rw [← hpoint, ← hd])
  | blank c => trivial
  | string body => trivial
  | unexpected c => cases hclean
  | badNumber cs => cases hclean
  | openString body => cases hclean

/-- **Two texts with a newline between them are cut each on its own.** -/
theorem IsCutting.append_newline {cs ds : List Char} {ps qs : List Piece} (h : IsCutting cs ps)
    (hclean : ∀ p ∈ ps, p.isFault = false) (h' : IsCutting ds qs) :
    IsCutting (cs ++ '\n' :: ds) (ps ++ .blank '\n' :: qs) := by
  induction ps generalizing cs with
  | nil =>
    obtain rfl : [] = cs := h.flatMap_chars
    exact isCutting_cons.2 ⟨ds, rfl, .blank (by decide), trivial, h'⟩
  | cons p ps ih =>
    obtain ⟨rest, rfl, hp, hmax, hrest⟩ := isCutting_cons.1 h
    have hmore := ih hrest fun q hq => hclean q (List.mem_cons_of_mem p hq)
    rw [List.cons_append, isCutting_cons]
    refine ⟨rest ++ '\n' :: ds, ?_, hp, ?_, hmore⟩
    · rw [List.append_assoc]
    · exact hmax.append_newline (hclean p List.mem_cons_self) ds

end Piece

open Piece

/-- **Two sources with a newline between them have the tokens of both**, those of the
second from the line behind the first on. -/
theorem scan_append_newline {first second : String} {line : Int} {input input' : Token.Stream}
    (h : scan first line = .ok input)
    (h' : scan second (line + 1 + first.toList.count '\n') = .ok input') :
    scan (first ++ "\n" ++ second) line
      = .ok ⟨input.tokens ++ input'.tokens, input'.endLine⟩ := by
  obtain ⟨ps, hps, hclean, rfl⟩ := exists_isCutting_of_scan h
  obtain ⟨qs, hqs, hclean', rfl⟩ := exists_isCutting_of_scan h'
  have htext : (first ++ "\n" ++ second).toList = first.toList ++ '\n' :: second.toList := by
    simp
  have hcutting : IsCutting (first ++ "\n" ++ second).toList (ps ++ .blank '\n' :: qs) := by
    rw [htext]
    exact hps.append_newline hclean hqs
  have hall : ∀ p ∈ ps ++ .blank '\n' :: qs, p.isFault = false := by
    intro p hp
    rcases List.mem_append.1 hp with hp | hp
    · exact hclean p hp
    · rcases List.mem_cons.1 hp with rfl | hp
      · rfl
      · exact hclean' p hp
  -- the newline is no token, and moves the second text on by one line
  have hline : lineAfter line ps + (blank '\n').newlines = line + 1 + first.toList.count '\n' := by
    rw [lineAfter_eq hps.flatMap_chars, show (blank '\n').newlines = 1 from rfl]
    omega
  have htokens : tokens line (ps ++ .blank '\n' :: qs)
      = tokens line ps ++ tokens (line + 1 + first.toList.count '\n') qs := by
    rw [tokens_append, tokens_cons, hline]
    rfl
  have hend : line + ((first ++ "\n" ++ second).toList.count '\n' : Nat)
      = line + 1 + first.toList.count '\n' + second.toList.count '\n' := by
    rw [htext, List.count_append, List.count_cons_self]
    omega
  rw [scan_of_isCutting hcutting hall line, htokens, hend]

end LoxLang
