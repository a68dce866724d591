/-
  LoxLang.Proofs.Token.Cutting
  ────────────────────────────
  **Every text has exactly one cutting.**  A cutting of a text is a row of pieces
  that put together are the text, each of which is well-formed for its kind
  (`Piece.WellFormed`) and could not have gone on into what follows it
  (`Piece.Maximal`).  Both conditions speak of characters only and know nothing of
  how a text is cut.

  Main results:
    * `cut_isCutting`  — `cut` gives a cutting of every text,
    * `IsCutting.eq_cut` — there is no other.

  The second rests on `first_eq`: whatever well-formed, maximal piece a text starts
  with is the one that `first` finds.
-/
import LoxLang.Token.Scan

namespace LoxLang

/-! ## §1. Character classes, as ranges of code points. -/

/-- A digit is one of ten code points. -/
theorem isDigit_iff (c : Char) : c.isDigit = true ↔ 48 ≤ c.toNat ∧ c.toNat ≤ 57 := by
  simp [Char.isDigit, UInt32.le_iff_toNat_le]

/-- A word starts with a letter or an underscore. -/
theorem isWordStart_iff (c : Char) :
    isWordStart c = true ↔
      (65 ≤ c.toNat ∧ c.toNat ≤ 90) ∨ (97 ≤ c.toNat ∧ c.toNat ≤ 122) ∨ c.toNat = 95 := by
  have hunderscore : c = '_' ↔ c.toNat = 95 := by
    constructor
    · intro h
      rw [h]
      rfl
    · intro h
      exact Char.toNat_inj.1 h
  have halpha : c.isAlpha = (decide (65 ≤ c.val ∧ c.val ≤ 90)
      || decide (97 ≤ c.val) && decide (c.val ≤ 122)) := rfl
  simp [isWordStart, halpha, UInt32.le_iff_toNat_le, hunderscore, or_assoc]

/-- A digit is no other kind of character that a piece may start with. -/
theorem isDigit_apart {c : Char} (h : c.isDigit = true) :
    Text.isBlank c = false ∧ c ≠ '/' ∧ c ≠ '"' := by
  rw [isDigit_iff] at h
  refine ⟨?_, ?_, ?_⟩
  · simp [Text.isBlank]
    omega
  · rintro rfl
    revert h
    decide
  · rintro rfl
    revert h
    decide

/-- A letter or an underscore is no other kind of character that a piece may start
with. -/
theorem isWordStart_apart {c : Char} (h : isWordStart c = true) :
    Text.isBlank c = false ∧ c ≠ '/' ∧ c ≠ '"' ∧ c.isDigit = false := by
  -- digits and letters are ranges that do not meet
  have hdigit : c.isDigit = false := by
    rw [Bool.eq_false_iff, ne_eq, isDigit_iff]
    rw [isWordStart_iff] at h
    omega
  rw [isWordStart_iff] at h
  refine ⟨?_, ?_, ?_, hdigit⟩
  · simp [Text.isBlank]
    omega
  · rintro rfl
    revert h
    decide
  · rintro rfl
    revert h
    decide

/-! ## §2. What a cutting is. -/

namespace Piece

/-- Digits, and digits after a point if there is one. -/
structure IsNumeral (whole : List Char) (fraction : Option (List Char)) : Prop where
  whole_ne_nil : whole ≠ []
  whole_digits : ∀ c ∈ whole, c.isDigit = true
  fraction_ne_nil : fraction ≠ some []
  fraction_digits : ∀ ds ∈ fraction, ∀ c ∈ ds, c.isDigit = true

/-- A character that no piece but a fault may start with. -/
structure StartsNothing (c : Char) : Prop where
  not_blank : Text.isBlank c = false
  not_quote : c ≠ '"'
  not_digit : c.isDigit = false
  not_wordStart : isWordStart c = false
  not_symbol : ∀ s : Symbol, s.lexeme.toList.head? ≠ some c

/-- The pieces that there are: what a piece of each kind is made of. -/
inductive WellFormed : Piece → Prop where
  | blank {c : Char} (h : Text.isBlank c = true) : WellFormed (.blank c)
  | comment {body : List Char} (h : '\n' ∉ body) : WellFormed (.comment body)
  | symbol (s : Symbol) : WellFormed (.symbol s)
  | word {c : Char} {cs : List Char} (hc : isWordStart c = true)
      (hcs : ∀ d ∈ cs, isWordChar d = true) : WellFormed (.word (c :: cs))
  | number {whole : List Char} {fraction : Option (List Char)}
      (h : IsNumeral whole fraction) : WellFormed (.number whole fraction)
  | string {body : List Char} (h : '"' ∉ body) : WellFormed (.string body)
  | unexpected {c : Char} (h : StartsNothing c) : WellFormed (.unexpected c)
  | badNumber {whole : List Char} {fraction : Option (List Char)} {c : Char}
      {cs : List Char} (h : IsNumeral whole fraction) (hc : isWordStart c = true)
      (hcs : ∀ d ∈ cs, isWordChar d = true) :
      WellFormed (.badNumber (numeral whole fraction ++ c :: cs))
  | openString {body : List Char} (h : '"' ∉ body) : WellFormed (.openString body)

/-- The piece could not have gone on into the text `rest` behind it. -/
def Maximal (rest : List Char) : Piece → Prop
  | .comment _ => ∀ c ∈ rest.head?, c = '\n'
  | .symbol s =>
      (s ∈ [Symbol.bang, .equal, .greater, .less] → rest.head? ≠ some '=')
        ∧ (s = .slash → rest.head? ≠ some '/')
  | .word _ | .badNumber _ => ∀ c ∈ rest.head?, isWordChar c = false
  | .number _ fraction =>
      (∀ c ∈ rest.head?, isWordChar c = false)
        ∧ (fraction = none → ∀ d ds, rest = '.' :: d :: ds → d.isDigit = false)
  | .openString _ => rest = []
  | _ => True

/-- The pieces, put together, are the text, and each is well-formed and maximal. -/
structure IsCutting (cs : List Char) (ps : List Piece) : Prop where
  flatMap_chars : ps.flatMap chars = cs
  wellFormed : ∀ p ∈ ps, p.WellFormed
  maximal : ∀ before p after, ps = before ++ p :: after → p.Maximal (after.flatMap chars)

/-- No well-formed piece is empty. -/
theorem WellFormed.chars_ne_nil {p : Piece} (h : p.WellFormed) : p.chars ≠ [] := by
  cases h with
  | symbol s => exact s.lexeme_toList_ne_nil
  | @number whole fraction h =>
    have hne := h.whole_ne_nil
    cases fraction <;> simp [chars, numeral, hne]
  | badNumber => simp [chars]
  | _ => simp [chars]

/-- Nothing is cut into no pieces. -/
theorem isCutting_nil : IsCutting [] [] := by
  refine ⟨rfl, ?_, ?_⟩
  · intro p hp
    cases hp
  · intro before p after h
    simp at h

/-- A cutting is a first piece, well-formed and maximal, and a cutting of the rest. -/
theorem isCutting_cons {cs : List Char} {p : Piece} {ps : List Piece} :
    IsCutting cs (p :: ps) ↔
      ∃ rest, cs = p.chars ++ rest ∧ p.WellFormed ∧ p.Maximal rest ∧ IsCutting rest ps := by
  constructor
  · intro h
    -- the rest is what the other pieces make up
    refine ⟨ps.flatMap chars, ?_, ?_, ?_, rfl, ?_, ?_⟩
    · rw [← h.flatMap_chars, List.flatMap_cons]
    · exact h.wellFormed p List.mem_cons_self
    · exact h.maximal [] p ps rfl
    · intro q hq
      exact h.wellFormed q (List.mem_cons_of_mem p hq)
    · intro before q after hsplit
      exact h.maximal (p :: before) q after (by rw [hsplit]; rfl)
  · rintro ⟨rest, rfl, hp, hmax, h⟩
    refine ⟨?_, ?_, ?_⟩
    · rw [List.flatMap_cons, h.flatMap_chars]
    · intro q hq
      rcases List.mem_cons.1 hq with rfl | hq
      · exact hp
      · exact h.wellFormed q hq
    · intro before q after hsplit
      -- a later piece has the same text behind it in the whole as in the rest
      cases before with
      | nil =>
        obtain ⟨rfl, rfl⟩ := List.cons.inj hsplit
        rw [h.flatMap_chars]
        exact hmax
      | cons b before =>
        obtain ⟨-, hps⟩ := List.cons.inj hsplit
        exact h.maximal before q after hps

/-! ## §3. `cut` gives a cutting. -/

/-- A text cut behind its longest beginning of characters in a class. -/
theorem head?_dropWhile_eq_false {p : Char → Bool} (cs : List Char) :
    ∀ c ∈ (cs.dropWhile p).head?, p c = false := by
  intro c hc
  have h := List.head?_dropWhile_not p cs
  rw [Option.mem_def.1 hc] at h
  simpa using h

/-- Taking while a test holds takes characters of which it holds. -/
theorem forall_mem_takeWhile {p : Char → Bool} (cs : List Char) :
    ∀ c ∈ cs.takeWhile p, p c = true := by
  exact List.all_eq_true.1 List.all_takeWhile

/-- Taking up to a character takes none that is equal to it. -/
theorem not_mem_takeWhile_ne (a : Char) (cs : List Char) :
    a ∉ cs.takeWhile (· != a) := by
  intro h
  have := forall_mem_takeWhile cs a h
  simp at this

/-- Behind a quote there is a string up to the next quote, or an open one. -/
theorem firstString_isPiece (cs : List Char) :
    (firstString cs).1.WellFormed ∧ (firstString cs).1.Maximal (firstString cs).2 := by
  unfold firstString
  split
  · next h =>
    refine ⟨.openString ?_, rfl⟩
    -- no quote ends the string, so that there is none in the text
    have hall : cs.takeWhile (· != '"') = cs := by
      have hsplit := List.takeWhile_append_dropWhile (p := (· != '"')) (l := cs)
      rwa [h, List.append_nil] at hsplit
    rw [← hall]
    exact not_mem_takeWhile_ne '"' cs
  · exact ⟨.string (not_mem_takeWhile_ne '"' cs), trivial⟩

/-- Behind a slash there is a comment up to the end of the line, or the slash is a symbol. -/
theorem firstSlash_isPiece (cs : List Char) :
    (firstSlash cs).1.WellFormed ∧ (firstSlash cs).1.Maximal (firstSlash cs).2 := by
  unfold firstSlash
  split
  · next cs =>
    refine ⟨.comment (not_mem_takeWhile_ne '\n' cs), ?_⟩
    intro c hc
    simpa using head?_dropWhile_eq_false cs c hc
  · next hslash =>
    refine ⟨.symbol _, by simp, ?_⟩
    intro _ hhead
    cases cs with
    | nil => simp at hhead
    | cons d ds =>
      simp only [List.head?_cons, Option.some.injEq] at hhead
      exact hslash ds (by rw [hhead])

/-- A symbol that an equals sign may go on is taken together with it. -/
theorem firstPair_isPiece {c : Char} {alone withEqual : Symbol}
    (h : pair? c = some (alone, withEqual)) (cs : List Char) :
    (firstPair alone withEqual cs).1.WellFormed
      ∧ (firstPair alone withEqual cs).1.Maximal (firstPair alone withEqual cs).2 := by
  -- the second symbol of a pair is complete, and no pair is about slashes
  have hnotSlash : alone ≠ .slash ∧ withEqual ≠ .slash
      ∧ withEqual ∉ [Symbol.bang, .equal, .greater, .less] := by
    unfold pair? at h
    split at h <;> simp at h <;> obtain ⟨rfl, rfl⟩ := h <;> decide
  unfold firstPair
  split
  · exact ⟨.symbol _, fun hmem => absurd hmem hnotSlash.2.2, fun hs => absurd hs hnotSlash.2.1⟩
  · next hequal =>
    refine ⟨.symbol _, ?_, fun hs => absurd hs hnotSlash.1⟩
    intro _ hhead
    cases cs with
    | nil => simp at hhead
    | cons d ds =>
      simp only [List.head?_cons, Option.some.injEq] at hhead
      exact hequal ds (by rw [hhead])

/-- The digits of a fraction, which no further digit follows. -/
theorem firstFraction?_isNumeral {cs fraction rest : List Char}
    (h : firstFraction? cs = some (fraction, rest)) :
    fraction ≠ [] ∧ (∀ c ∈ fraction, c.isDigit = true)
      ∧ ∀ c ∈ rest.head?, c.isDigit = false := by
  unfold firstFraction? at h
  split at h
  · next d ds =>
    split at h
    · next hd =>
      simp only [Option.some.injEq, Prod.mk.injEq] at h
      obtain ⟨rfl, rfl⟩ := h
      -- the digit behind the point, and all that follow it
      refine ⟨by simp, ?_, head?_dropWhile_eq_false ds⟩
      intro c hc
      rcases List.mem_cons.1 hc with rfl | hc
      · exact hd
      · exact forall_mem_takeWhile ds c hc
    · simp at h
  · simp at h

/-- No fraction is taken where no digit stands behind the point. -/
theorem firstFraction?_eq_none {cs : List Char} (h : firstFraction? cs = none) :
    ∀ d ds, cs = '.' :: d :: ds → d.isDigit = false := by
  intro d ds hcs
  subst hcs
  cases hd : d.isDigit with
  | false => rfl
  | true => simp [firstFraction?, hd] at h

/-- A number ends where neither a digit nor a fraction goes on; with letters behind
it, it is bad. -/
theorem closeNumber_isPiece {whole : List Char} {fraction : Option (List Char)}
    {cs : List Char} (hnumeral : IsNumeral whole fraction)
    (hdigit : ∀ c ∈ cs.head?, c.isDigit = false)
    (hpoint : fraction = none → ∀ d ds, cs = '.' :: d :: ds → d.isDigit = false) :
    (closeNumber whole fraction cs).1.WellFormed
      ∧ (closeNumber whole fraction cs).1.Maximal (closeNumber whole fraction cs).2 := by
  unfold closeNumber
  split
  · exact ⟨.number hnumeral, by simp, by simp⟩
  · next c rest =>
    split
    · next hc =>
      -- a number that runs into a letter takes the whole word along
      exact ⟨.badNumber hnumeral hc (forall_mem_takeWhile rest), head?_dropWhile_eq_false rest⟩
    · next hc =>
      -- what follows is no letter, and it is no digit
      refine ⟨.number hnumeral, ?_, hpoint⟩
      intro d hd
      have hnot := hdigit d hd
      simp only [List.head?_cons, Option.mem_def, Option.some.injEq] at hd
      subst hd
      simp [isWordChar, hc, hnot]

/-- A numeral is all digits, and the fraction if there is one. -/
theorem firstNumber_isPiece {c : Char} (hc : c.isDigit = true) (cs : List Char) :
    (firstNumber c cs).1.WellFormed ∧ (firstNumber c cs).1.Maximal (firstNumber c cs).2 := by
  have hwhole : ∀ d ∈ c :: cs.takeWhile Char.isDigit, d.isDigit = true := by
    intro d hd
    rcases List.mem_cons.1 hd with rfl | hd
    · exact hc
    · exact forall_mem_takeWhile cs d hd
  unfold firstNumber
  dsimp only
  split
  · -- a point with a digit behind it belongs to the number
    next fraction rest h =>
    obtain ⟨hne, hdigits, hrest⟩ := firstFraction?_isNumeral h
    refine closeNumber_isPiece ⟨by simp, hwhole, by simp [hne], ?_⟩ hrest (by simp)
    intro ds hds
    cases hds
    exact hdigits
  · next h =>
    exact closeNumber_isPiece ⟨by simp, hwhole, by simp, by simp⟩
      (head?_dropWhile_eq_false cs) (fun _ => firstFraction?_eq_none h)

/-- A character from which no symbol is made. -/
theorem head?_lexeme_ne {c : Char} (hslash : c ≠ '/') (hsingle : single? c = none)
    (hpair : pair? c = none) (s : Symbol) : s.lexeme.toList.head? ≠ some c := by
  intro h
  -- the first character of a symbol is in one of the two tables, or a slash
  cases s <;> simp [Symbol.lexeme] at h <;> subst h <;> simp [single?, pair?] at *

/-- The first piece of a text is well-formed, and as long as it can be. -/
theorem first_isPiece (c : Char) (cs : List Char) :
    (first c cs).1.WellFormed ∧ (first c cs).1.Maximal (first c cs).2 := by
  unfold first
  -- the questions of `first`, in its order
  split
  · next hblank => exact ⟨.blank hblank, trivial⟩
  split
  · exact firstSlash_isPiece cs
  split
  · exact firstString_isPiece cs
  split
  · next hdigit => exact firstNumber_isPiece hdigit cs
  split
  · next hword => exact ⟨.word hword (forall_mem_takeWhile cs), head?_dropWhile_eq_false cs⟩
  next hblank hslash hquote hdigit hword =>
  split
  · next s h =>
    refine ⟨.symbol s, ?_⟩
    unfold single? at h
    split at h <;> simp at h <;> subst h <;> simp [Maximal]
  · next h => exact firstPair_isPiece h cs
  · next hsingle hpair =>
    refine ⟨.unexpected ⟨?_, hquote, ?_, ?_, head?_lexeme_ne hslash hsingle hpair⟩, trivial⟩
    · simpa using hblank
    · simpa using hdigit
    · simpa using hword

/-- **Every text has a cutting.** -/
theorem cut_isCutting (cs : List Char) : IsCutting cs (cut cs) := by
  fun_induction cut cs with
  | case1 => exact isCutting_nil
  | case2 c cs ih =>
    -- the first piece is as it should be, and the rest is cut in the same way
    have hpiece := first_isPiece c cs
    rw [isCutting_cons]
    exact ⟨(first c cs).2, (first_chars c cs).symm, hpiece.1, hpiece.2, ih⟩

/-! ## §4. There is no other cutting. -/

/-- A beginning in a class, followed by a character out of the class, is the longest
one in it. -/
theorem takeWhile_append_eq (p : Char → Bool) {xs rest : List Char}
    (hxs : ∀ c ∈ xs, p c = true) (hrest : ∀ c ∈ rest.head?, p c = false) :
    (xs ++ rest).takeWhile p = xs ∧ (xs ++ rest).dropWhile p = rest := by
  rw [List.takeWhile_append_of_pos hxs, List.dropWhile_append_of_pos hxs]
  cases rest with
  | nil => simp
  | cons c rest =>
    have hc : p c = false := hrest c rfl
    simp [hc]

/-- The test that looks for a character fails on it only. -/
theorem forall_mem_bne {a : Char} {xs : List Char} (h : a ∉ xs) :
    ∀ c ∈ xs, (c != a) = true := by
  intro c hc
  rw [bne_iff_ne]
  rintro rfl
  exact h hc

/-- A comment is taken up to the newline that ends it. -/
theorem firstSlash_eq_comment {body rest : List Char} (hbody : '\n' ∉ body)
    (hrest : ∀ c ∈ rest.head?, c = '\n') :
    firstSlash ('/' :: (body ++ rest)) = (.comment body, rest) := by
  have hstop : ∀ c ∈ rest.head?, (c != '\n') = false := by
    intro c hc
    rw [hrest c hc]
    rfl
  have hspan := takeWhile_append_eq (· != '\n') (forall_mem_bne hbody) hstop
  show (Piece.comment ((body ++ rest).takeWhile (· != '\n')),
    (body ++ rest).dropWhile (· != '\n')) = _
  rw [hspan.1, hspan.2]

/-- A string is taken up to the quote that closes it. -/
theorem firstString_eq_string {body : List Char} (hbody : '"' ∉ body) (rest : List Char) :
    firstString (body ++ '"' :: rest) = (.string body, rest) := by
  have hspan : (body ++ '"' :: rest).takeWhile (· != '"') = body
      ∧ (body ++ '"' :: rest).dropWhile (· != '"') = '"' :: rest :=
    takeWhile_append_eq (· != '"') (forall_mem_bne hbody) (by simp)
  unfold firstString
  rw [hspan.1, hspan.2]

/-- Without a quote, all of the text is an open string. -/
theorem firstString_eq_openString {body : List Char} (hbody : '"' ∉ body) :
    firstString body = (.openString body, []) := by
  have hspan : (body ++ []).takeWhile (· != '"') = body
      ∧ (body ++ []).dropWhile (· != '"') = [] :=
    takeWhile_append_eq (· != '"') (forall_mem_bne hbody) (by simp)
  rw [List.append_nil] at hspan
  unfold firstString
  rw [hspan.2]

/-- What stands behind a word, or behind a number, goes on no numeral. -/
theorem not_digit_of_not_wordChar {rest : List Char}
    (hrest : ∀ c ∈ rest.head?, isWordChar c = false) :
    ∀ c ∈ rest.head?, c.isDigit = false := by
  intro c hc
  have h := hrest c hc
  simp only [isWordChar, Bool.or_eq_false_iff] at h
  exact h.2

/-- A numeral is read whole, up to its last digit, and then closed. -/
theorem firstNumber_eq_closeNumber {c : Char} {whole : List Char}
    {fraction : Option (List Char)} {rest : List Char}
    (hnumeral : IsNumeral (c :: whole) fraction)
    (hdigit : ∀ d ∈ rest.head?, d.isDigit = false)
    (hpoint : fraction = none → ∀ d ds, rest = '.' :: d :: ds → d.isDigit = false) :
    ∀ cs, numeral (c :: whole) fraction ++ rest = c :: cs →
      firstNumber c cs = closeNumber (c :: whole) fraction rest := by
  intro cs hcs
  have hwhole : ∀ d ∈ whole, d.isDigit = true :=
    fun d hd => hnumeral.whole_digits d (List.mem_cons_of_mem c hd)
  cases fraction with
  | none =>
    -- without a fraction, a point is not followed by a digit
    obtain rfl : cs = whole ++ rest := by
      simpa [numeral] using hcs.symm
    have hspan := takeWhile_append_eq Char.isDigit hwhole hdigit
    have hnone : firstFraction? rest = none := by
      unfold firstFraction?
      split
      · next d ds => simp [hpoint rfl d ds rfl]
      · rfl
    simp only [firstNumber, hspan.1, hspan.2, hnone]
  | some fraction =>
    -- with one, the digits end at the point, and those of the fraction at `rest`
    obtain ⟨d, ds, rfl⟩ : ∃ d ds, fraction = d :: ds := by
      cases fraction with
      | nil => exact absurd rfl hnumeral.fraction_ne_nil
      | cons d ds => exact ⟨d, ds, rfl⟩
    have hd : d.isDigit = true := hnumeral.fraction_digits _ rfl d List.mem_cons_self
    have hds : ∀ x ∈ ds, x.isDigit = true :=
      fun x hx => hnumeral.fraction_digits _ rfl x (List.mem_cons_of_mem d hx)
    obtain rfl : cs = whole ++ '.' :: (d :: ds ++ rest) := by
      simpa [numeral] using hcs.symm
    have hspan : (whole ++ '.' :: (d :: ds ++ rest)).takeWhile Char.isDigit = whole
        ∧ (whole ++ '.' :: (d :: ds ++ rest)).dropWhile Char.isDigit = '.' :: (d :: ds ++ rest) :=
      takeWhile_append_eq Char.isDigit hwhole (by simp)
    have hspan' := takeWhile_append_eq Char.isDigit hds hdigit
    have hsome : firstFraction? ('.' :: (d :: ds ++ rest)) = some (d :: ds, rest) := by
      simp [firstFraction?, hd, hspan'.1, hspan'.2]
    simp only [firstNumber, hspan.1, hspan.2, hsome]

/-- With no character of a word behind it, a numeral is a number. -/
theorem closeNumber_eq_number {whole : List Char} {fraction : Option (List Char)}
    {rest : List Char} (hrest : ∀ c ∈ rest.head?, isWordChar c = false) :
    closeNumber whole fraction rest = (.number whole fraction, rest) := by
  cases rest with
  | nil => rfl
  | cons c rest =>
    have hc : isWordStart c = false := by
      have h := hrest c rfl
      simp only [isWordChar, Bool.or_eq_false_iff] at h
      exact h.1
    simp [closeNumber, hc]

/-- With a word behind it, a numeral is bad up to the end of the word. -/
theorem closeNumber_eq_badNumber {whole : List Char} {fraction : Option (List Char)}
    {c : Char} {cs rest : List Char} (hc : isWordStart c = true)
    (hcs : ∀ d ∈ cs, isWordChar d = true) (hrest : ∀ d ∈ rest.head?, isWordChar d = false) :
    closeNumber whole fraction (c :: (cs ++ rest))
      = (.badNumber (numeral whole fraction ++ c :: cs), rest) := by
  have hspan := takeWhile_append_eq isWordChar hcs hrest
  simp only [closeNumber, hc, hspan.1, hspan.2, if_true]

/-- The numeral of a number, or of a number that runs into a word, starts with a
digit. -/
theorem IsNumeral.exists_cons {whole : List Char} {fraction : Option (List Char)}
    (h : IsNumeral whole fraction) : ∃ c ds, whole = c :: ds ∧ c.isDigit = true := by
  cases whole with
  | nil => exact absurd rfl h.whole_ne_nil
  | cons c ds => exact ⟨c, ds, rfl, h.whole_digits c List.mem_cons_self⟩

/-- A digit starts a number and nothing else. -/
theorem first_eq_firstNumber {c : Char} (hc : c.isDigit = true) (cs : List Char) :
    first c cs = firstNumber c cs := by
  obtain ⟨hblank, hslash, hquote⟩ := isDigit_apart hc
  simp [first, hblank, hslash, hquote, hc]

/-- From its digits and its fraction, a numeral is read as it was written. -/
theorem first_eq_of_numeral {c : Char} {cs whole : List Char}
    {fraction : Option (List Char)} {rest : List Char} (hnumeral : IsNumeral whole fraction)
    (hdigit : ∀ d ∈ rest.head?, d.isDigit = false)
    (hpoint : fraction = none → ∀ d ds, rest = '.' :: d :: ds → d.isDigit = false)
    (h : numeral whole fraction ++ rest = c :: cs) :
    first c cs = closeNumber whole fraction rest := by
  obtain ⟨d, ds, rfl, hd⟩ := hnumeral.exists_cons
  obtain rfl : d = c := by
    cases fraction <;> simp [numeral] at h <;> exact h.1
  rw [first_eq_firstNumber hd, firstNumber_eq_closeNumber hnumeral hdigit hpoint cs h]

/-- A symbol is read as it was written if it could not have gone on. -/
theorem first_eq_symbol {s : Symbol} {c : Char} {cs rest : List Char}
    (hmax : (Piece.symbol s).Maximal rest) (h : s.lexeme.toList ++ rest = c :: cs) :
    first c cs = (.symbol s, rest) := by
  have hequal : s ∈ [Symbol.bang, .equal, .greater, .less] → rest.head? ≠ some '=' := hmax.1
  have hslash : s = .slash → rest.head? ≠ some '/' := hmax.2
  cases s <;> simp [Symbol.lexeme] at h <;> obtain ⟨rfl, rfl⟩ := h <;> try rfl
  -- left are the five symbols that the next character might have made longer
  all_goals
    cases rest with
    | nil => rfl
    | cons d ds => ?_
  · have hd : d ≠ '/' := by simpa using hslash rfl
    show firstSlash (d :: ds) = _
    unfold firstSlash
    split
    · next heq => exact absurd (List.cons.inj heq).1 hd
    · rfl
  all_goals
    have hd : d ≠ '=' := by simpa using hequal (by decide)
    show firstPair _ _ (d :: ds) = _
    unfold firstPair
    split
    · next heq => exact absurd (List.cons.inj heq).1 hd
    · rfl

/-- A character that starts nothing is a piece of its own. -/
theorem first_eq_unexpected {c : Char} (h : StartsNothing c) (cs : List Char) :
    first c cs = (.unexpected c, cs) := by
  have hslash : c ≠ '/' := by
    rintro rfl
    exact h.not_symbol .slash rfl
  have hsingle : single? c = none := by
    cases hs : single? c with
    | none => rfl
    | some s => exact absurd (by rw [single?_chars hs]; rfl) (h.not_symbol s)
  have hpair : pair? c = none := by
    unfold pair?
    split
    · exact absurd rfl (h.not_symbol .bang)
    · exact absurd rfl (h.not_symbol .equal)
    · exact absurd rfl (h.not_symbol .greater)
    · exact absurd rfl (h.not_symbol .less)
    · rfl
  simp [first, h.not_blank, hslash, h.not_quote, h.not_digit, h.not_wordStart, hsingle, hpair]

/-- **The first piece is determined**: a well-formed, maximal piece that a text starts
with is the one that `first` finds. -/
theorem first_eq {p : Piece} {c : Char} {cs rest : List Char} (hp : p.WellFormed)
    (hmax : p.Maximal rest) (h : p.chars ++ rest = c :: cs) : first c cs = (p, rest) := by
  cases hp with
  | blank hblank =>
    obtain ⟨rfl, rfl⟩ := List.cons.inj h
    simp [first, hblank]
  | comment hbody =>
    obtain ⟨rfl, rfl⟩ := List.cons.inj h
    exact firstSlash_eq_comment hbody hmax
  | symbol s => exact first_eq_symbol hmax h
  | @word d ds hd hds =>
    obtain ⟨rfl, rfl⟩ := List.cons.inj h
    obtain ⟨hblank, hslash, hquote, hdigit⟩ := isWordStart_apart hd
    have hspan := takeWhile_append_eq isWordChar hds hmax
    show first d (ds ++ rest) = _
    simp only [first, hblank, hslash, hquote, hdigit, hd, hspan.1, hspan.2, if_true,
      Bool.false_eq_true, if_false]
  | @number whole fraction hnumeral =>
    rw [first_eq_of_numeral hnumeral (not_digit_of_not_wordChar hmax.1) hmax.2 h]
    exact closeNumber_eq_number hmax.1
  | @string body hbody =>
    obtain ⟨rfl, rfl⟩ := List.cons.inj h
    show firstString ((body ++ ['"']) ++ rest) = _
    rw [List.append_assoc]
    exact firstString_eq_string hbody rest
  | unexpected hc =>
    obtain ⟨rfl, rfl⟩ := List.cons.inj h
    exact first_eq_unexpected hc rest
  | @badNumber whole fraction d ds hnumeral hd hds =>
    -- a letter is neither a digit nor a point, so that the numeral ends in front of it
    have hstop : ∀ x ∈ (d :: (ds ++ rest)).head?, x.isDigit = false := by
      intro x hx
      obtain rfl : d = x := by simpa using hx
      exact (isWordStart_apart hd).2.2.2
    have hpoint : fraction = none →
        ∀ x xs, d :: (ds ++ rest) = '.' :: x :: xs → x.isDigit = false := by
      intro _ x xs hx
      rw [(List.cons.inj hx).1] at hd
      exact absurd hd (by decide)
    have hcs : numeral whole fraction ++ d :: (ds ++ rest) = c :: cs := by
      simpa [chars] using h
    rw [first_eq_of_numeral hnumeral hstop hpoint hcs]
    exact closeNumber_eq_badNumber hd hds hmax
  | @openString body hbody =>
    obtain ⟨rfl, rfl⟩ := List.cons.inj h
    obtain rfl : rest = [] := hmax
    show firstString (body ++ []) = _
    rw [List.append_nil]
    exact firstString_eq_openString hbody

/-- **No text has two cuttings.** -/
theorem IsCutting.eq_cut {cs : List Char} {ps : List Piece} (h : IsCutting cs ps) :
    ps = cut cs := by
  induction ps generalizing cs with
  | nil =>
    obtain rfl : [] = cs := h.flatMap_chars
    rw [cut]
  | cons p ps ih =>
    -- the first piece is determined, and by induction the others are
    obtain ⟨rest, rfl, hp, hmax, hrest⟩ := isCutting_cons.1 h
    cases hchars : p.chars with
    | nil => exact absurd hchars hp.chars_ne_nil
    | cons c cs =>
      have hfirst : first c (cs ++ rest) = (p, rest) :=
        first_eq hp hmax (by rw [hchars]; rfl)
      show p :: ps = cut (c :: (cs ++ rest))
      rw [cut, hfirst, ← ih hrest]

end Piece

end LoxLang
