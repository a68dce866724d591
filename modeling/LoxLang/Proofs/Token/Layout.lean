/-
  LoxLang.Proofs.Token.Layout
  ───────────────────────────
  **Tokens do not depend on their layout.**  The lexemes of a source may be written out
  again with any separators in between: white space, and behind it further white space
  and comments.  Scanning the new text gives the same tokens, each on the line where it
  now stands (`scan_layout`).

  A lexeme is a piece that white space always ends, so that it is cut as the same piece
  wherever white space, or nothing at all, stands behind it.
-/
import LoxLang.Proofs.Token.Seam

namespace LoxLang

/-! ## §1. Separators and layouts. -/

/-- White space and comments, each comment with the newline that ends it. -/
inductive IsFiller : List Char → Prop where
  | nil : IsFiller []
  | blank {c : Char} {cs : List Char} (hc : Text.isBlank c = true) (h : IsFiller cs) :
      IsFiller (c :: cs)
  | comment {body cs : List Char} (hbody : '\n' ∉ body) (h : IsFiller cs) :
      IsFiller ('/' :: '/' :: (body ++ '\n' :: cs))

/-- What may stand between two tokens: a white-space character, then any filler. -/
inductive IsSeparator : List Char → Prop where
  | mk {c : Char} {cs : List Char} (hc : Text.isBlank c = true) (h : IsFiller cs) :
      IsSeparator (c :: cs)

/-- Behind `lead`, the lexeme of every token with the text that is to follow it. -/
def layout (lead : List Char) : List (Token × List Char) → List Char
  | [] => lead
  | (t, gap) :: row => lead ++ (t.lexeme.toList ++ layout gap row)

/-- There is a separator behind every token but the last, and one or none at either
end. -/
structure Spaced (lead : List Char) (row : List (Token × List Char)) : Prop where
  lead : lead = [] ∨ IsSeparator lead
  between : ∀ x ∈ row.dropLast, IsSeparator x.2
  last : ∀ x ∈ row.getLast?, x.2 = [] ∨ IsSeparator x.2

/-- The tokens of a row on the lines that they have in its layout, which starts on
`line`: there are as many newlines in front of a token as in the layout of the tokens
before it. -/
def relocated (line : Int) (lead : List Char) (row : List (Token × List Char)) : List Token :=
  (row.inits.zip row).map fun (before, t, _) =>
    { t with line := line + (layout lead before).count '\n' }

theorem IsSeparator.isFiller {cs : List Char} (h : IsSeparator cs) : IsFiller cs := by
  cases h with
  | mk hc h => exact .blank hc h

theorem Spaced.isFiller {lead : List Char} {row : List (Token × List Char)}
    (h : Spaced lead row) : IsFiller lead := by
  rcases h.lead with rfl | hlead
  · exact .nil
  · exact hlead.isFiller

/-- Behind its first token a row is spaced too, with the gap in front. -/
theorem Spaced.tail {lead gap : List Char} {t : Token} {row : List (Token × List Char)}
    (h : Spaced lead ((t, gap) :: row)) :
    Spaced gap row ∧ (row ≠ [] → IsSeparator gap) := by
  have hgap : row ≠ [] → IsSeparator gap := by
    intro hne
    refine h.between (t, gap) ?_
    rw [List.dropLast_cons_of_ne_nil hne]
    exact List.mem_cons_self
  refine ⟨⟨?_, ?_, ?_⟩, hgap⟩
  · by_cases hrow : row = []
    · subst hrow
      exact h.last (t, gap) rfl
    · exact Or.inr (hgap hrow)
  · intro x hx
    have hne : row ≠ [] := by
      rintro rfl
      cases hx
    refine h.between x ?_
    rw [List.dropLast_cons_of_ne_nil hne]
    exact List.mem_cons_of_mem _ hx
  · intro x hx
    refine h.last x ?_
    rw [List.getLast?_cons, Option.mem_def.1 hx]
    rfl

/-! ## §2. Lines of a layout. -/

theorem relocated_cons (line : Int) (lead gap : List Char) (t : Token)
    (row : List (Token × List Char)) :
    relocated line lead ((t, gap) :: row)
      = { t with line := line + lead.count '\n' }
        :: relocated (line + lead.count '\n' + t.lexeme.toList.count '\n') gap row := by
  unfold relocated
  rw [List.inits_cons, List.zip_cons_cons, List.map_cons, List.zip_map_left, List.map_map]
  congr 1
  refine List.map_congr_left ?_
  rintro ⟨before, u, gap'⟩ -
  -- the first token and what stands around it are in front of all others
  have hcount : (layout lead ((t, gap) :: before)).count '\n'
      = lead.count '\n' + (t.lexeme.toList.count '\n' + (layout gap before).count '\n') := by
    rw [layout, List.count_append, List.count_append]
  show ({ u with line := line + ((layout lead ((t, gap) :: before)).count '\n' : Nat) } : Token)
    = { u with line := line + lead.count '\n' + t.lexeme.toList.count '\n'
        + (layout gap before).count '\n' }
  rw [hcount]
  congr 1
  omega

/-! ## §3. Cutting a layout. -/

namespace Piece

/-- `t` is the token of a well-formed piece, wherever it stands. -/
def IsOfPiece (t : Token) : Prop :=
  ∃ p : Piece, p.WellFormed ∧ p.isToken = true ∧ p.kind? = some t.kind
    ∧ t.lexeme = String.ofList p.chars

theorem isFault_eq_false {p : Piece} (h : p.isToken = true) : p.isFault = false := by
  cases p <;> first | rfl | cases h

theorem isOfPiece_of_mem_tokens {line : Int} {ps : List Piece} (hps : ∀ p ∈ ps, p.WellFormed)
    {t : Token} (ht : t ∈ tokens line ps) : IsOfPiece t := by
  induction ps generalizing line with
  | nil => cases ht
  | cons p ps ih =>
    rw [tokens_cons] at ht
    rcases List.mem_append.1 ht with ht | ht
    · have htoken : p.token? line = some t := Option.mem_toList.1 ht
      have hsome : p.isToken = true := by
        rw [isToken_eq_isSome line, htoken]
        rfl
      unfold token? at htoken
      obtain ⟨kind, hkind, rfl⟩ := Option.map_eq_some_iff.1 htoken
      exact ⟨p, hps p List.mem_cons_self, hsome, hkind, rfl⟩
    · exact ih (fun q hq => hps q (List.mem_cons_of_mem p hq)) ht

/-- **White space ends every token.** -/
theorem maximal_of_blank {p : Piece} (hp : p.isToken = true) {rest : List Char}
    (hrest : ∀ c ∈ rest.head?, Text.isBlank c = true) : p.Maximal rest := by
  have hword : ∀ c ∈ rest.head?, isWordChar c = false :=
    fun c hc => isWordChar_of_isBlank (hrest c hc)
  have hother : ∀ {d : Char}, Text.isBlank d = false → rest.head? ≠ some d := by
    intro d hd hhead
    rw [hrest d hhead] at hd
    cases hd
  cases p with
  | symbol s => exact ⟨fun _ => hother (by decide), fun _ => hother (by decide)⟩
  | word cs => exact hword
  | number whole fraction =>
    refine ⟨hword, ?_⟩
    intro _ d ds hpoint
    exact absurd (by rw [hpoint]; rfl) (hother (d := '.') (by decide))
  | string body => trivial
  | _ => cases hp

/-- A filler is cut into white space and comments, whatever stands behind it. -/
theorem exists_isCutting_filler {cs : List Char} (h : IsFiller cs) {rest : List Char}
    {qs : List Piece} (hrest : IsCutting rest qs) :
    ∃ ps, IsCutting (cs ++ rest) (ps ++ qs) ∧ ps.flatMap chars = cs
      ∧ ∀ p ∈ ps, p.isToken = false ∧ p.isFault = false := by
  induction h with
  | nil => exact ⟨[], hrest, rfl, nofun⟩
  | @blank c cs hc _ ih =>
    obtain ⟨ps, hps, hchars, hplain⟩ := ih
    refine ⟨.blank c :: ps, ?_, ?_, ?_⟩
    · exact isCutting_cons.2 ⟨cs ++ rest, rfl, .blank hc, trivial, hps⟩
    · rw [List.flatMap_cons, hchars]
      rfl
    · intro p hp
      rcases List.mem_cons.1 hp with rfl | hp
      · exact ⟨rfl, rfl⟩
      · exact hplain p hp
  | @comment body cs hbody _ ih =>
    obtain ⟨ps, hps, hchars, hplain⟩ := ih
    refine ⟨.comment body :: .blank '\n' :: ps, ?_, ?_, ?_⟩
    · -- the newline ends the comment, and is a piece of its own
      have hnewline : IsCutting ('\n' :: (cs ++ rest)) (.blank '\n' :: (ps ++ qs)) :=
        isCutting_cons.2 ⟨cs ++ rest, rfl, .blank (by decide), trivial, hps⟩
      refine isCutting_cons.2 ⟨'\n' :: (cs ++ rest), ?_, .comment hbody, ?_, hnewline⟩
      · simp [chars]
      · intro c hc
        cases hc
        rfl
    · rw [List.flatMap_cons, List.flatMap_cons, hchars]
      simp [chars]
    · intro p hp
      rcases List.mem_cons.1 hp with rfl | hp
      · exact ⟨rfl, rfl⟩
      · rcases List.mem_cons.1 hp with rfl | hp
        · exact ⟨rfl, rfl⟩
        · exact hplain p hp

/-- The text behind a token starts with white space, or there is none. -/
theorem head?_layout_isBlank {gap : List Char} {row : List (Token × List Char)}
    (h : Spaced gap row) (hgap : row ≠ [] → IsSeparator gap) :
    ∀ c ∈ (layout gap row).head?, Text.isBlank c = true := by
  have hhead : IsSeparator gap → ∀ cs, ∀ c ∈ (gap ++ cs).head?, Text.isBlank c = true := by
    intro hsep cs c hc
    cases hsep with
    | mk hblank _ =>
      cases hc
      exact hblank
  cases row with
  | nil =>
    rcases h.lead with rfl | hsep
    · exact nofun
    · have hall := hhead hsep []
      rw [List.append_nil] at hall
      exact hall
  | cons x row => exact hhead (hgap (List.cons_ne_nil x row)) _

/-- **A layout is cut into its lexemes and fillers.**  By induction on the row: the gap
behind a token is the lead of the tokens that follow. -/
theorem exists_isCutting_layout {row : List (Token × List Char)}
    (hrow : ∀ x ∈ row, IsOfPiece x.1) : ∀ {lead : List Char}, Spaced lead row →
      ∃ ps, IsCutting (layout lead row) ps ∧ (∀ p ∈ ps, p.isFault = false)
        ∧ ∀ line, tokens line ps = relocated line lead row := by
  induction row with
  | nil =>
    intro lead hspaced
    obtain ⟨ps, hps, -, hplain⟩ := exists_isCutting_filler hspaced.isFiller isCutting_nil
    rw [List.append_nil, List.append_nil] at hps
    refine ⟨ps, hps, fun p hp => (hplain p hp).2, ?_⟩
    intro line
    exact tokens_eq_nil (fun p hp => (hplain p hp).1) line
  | cons x row ih =>
    intro lead hspaced
    obtain ⟨t, gap⟩ := x
    obtain ⟨htail, hgap⟩ := hspaced.tail
    obtain ⟨qs, hqs, hclean, htokens⟩ := ih (fun x hx => hrow x (List.mem_cons_of_mem _ hx)) htail
    obtain ⟨p, hp, hptoken, hkind, hlexeme⟩ := hrow (t, gap) List.mem_cons_self
    have hchars : t.lexeme.toList = p.chars := by
      rw [hlexeme, String.toList_ofList]
    -- the lexeme is cut as the piece it comes from, for white space ends it
    have hfirst : IsCutting (t.lexeme.toList ++ layout gap row) (p :: qs) := by
      rw [hchars]
      exact isCutting_cons.2
        ⟨_, rfl, hp, maximal_of_blank hptoken (head?_layout_isBlank htail hgap), hqs⟩
    obtain ⟨ps, hps, hlead, hplain⟩ := exists_isCutting_filler hspaced.isFiller hfirst
    refine ⟨ps ++ p :: qs, hps, ?_, ?_⟩
    · intro q hq
      rcases List.mem_append.1 hq with hq | hq
      · exact (hplain q hq).2
      · rcases List.mem_cons.1 hq with rfl | hq
        · exact isFault_eq_false hptoken
        · exact hclean q hq
    · intro line
      have htoken : p.token? (line + lead.count '\n')
          = some { t with line := line + lead.count '\n' } := by
        unfold token?
        rw [hkind, hlexeme]
        rfl
      rw [tokens_append, tokens_eq_nil (fun q hq => (hplain q hq).1), lineAfter_eq hlead,
        tokens_cons, htoken, htokens, relocated_cons, newlines, hchars]
      rfl

end Piece

open Piece

/-! ## §4. Scanning a layout. -/

/-- **The tokens of a source do not depend on its layout.**  Written out with other
separators, they are scanned as the same tokens, each on the start line plus the newlines
in front of it, and the text ends on the line behind all its newlines. -/
theorem scan_layout {source : String} {line : Int} {stream : Token.Stream}
    (hscan : scan source line = .ok stream) {lead : List Char} {row : List (Token × List Char)}
    (hrow : row.map Prod.fst = stream.tokens) (hspaced : Spaced lead row) (start : Int) :
    scan (String.ofList (layout lead row)) start
      = .ok ⟨relocated start lead row, start + (layout lead row).count '\n'⟩ := by
  obtain ⟨ps, hps, -, rfl⟩ := exists_isCutting_of_scan hscan
  have hpieces : ∀ x ∈ row, IsOfPiece x.1 := by
    intro x hx
    have hmem : x.1 ∈ tokens line ps := by
      rw [← show row.map Prod.fst = tokens line ps from hrow]
      exact List.mem_map_of_mem hx
    exact isOfPiece_of_mem_tokens hps.wellFormed hmem
  obtain ⟨qs, hqs, hclean, htokens⟩ := exists_isCutting_layout hpieces hspaced
  have hcutting : IsCutting (String.ofList (layout lead row)).toList qs := by
    rw [String.toList_ofList]
    exact hqs
  rw [scan_of_isCutting hcutting hclean start, htokens, String.toList_ofList]

/-- A slash next to a string with slashes and a newline in it, spread over five lines. -/
theorem scan_layout_slashes :
    scan "or/\"//\n\"" 1 = .ok ⟨[⟨.keyword .orKw, "or", 1⟩, ⟨.symbol .slash, "/", 1⟩,
        ⟨.string "//\n", "\"//\n\"", 1⟩], 2⟩
      ∧ scan "or //c\n/\n\t\"//\n\"\n" 7 = .ok ⟨[⟨.keyword .orKw, "or", 7⟩,
        ⟨.symbol .slash, "/", 8⟩, ⟨.string "//\n", "\"//\n\"", 9⟩], 11⟩ := by
  have hscan : scan "or/\"//\n\"" 1 = .ok ⟨[⟨.keyword .orKw, "or", 1⟩, ⟨.symbol .slash, "/", 1⟩,
      ⟨.string "//\n", "\"//\n\"", 1⟩], 2⟩ := by
    with_unfolding_all rfl
  refine ⟨hscan, ?_⟩
  have hcomment : IsSeparator [' ', '/', '/', 'c', '\n'] :=
    .mk (by decide) (.comment (show '\n' ∉ ['c'] by decide) .nil)
  have hindent : IsSeparator ['\n', '\t'] := .mk (by decide) (.blank (by decide) .nil)
  have hnewline : IsSeparator ['\n'] := .mk (by decide) .nil
  have hspaced : Spaced [] [(⟨.keyword .orKw, "or", 1⟩, [' ', '/', '/', 'c', '\n']),
      (⟨.symbol .slash, "/", 1⟩, ['\n', '\t']),
      (⟨.string "//\n", "\"//\n\"", 1⟩, ['\n'])] := by
    refine ⟨Or.inl rfl, ?_, ?_⟩
    · intro x hx
      rcases List.mem_pair.1 hx with rfl | rfl
      · exact hcomment
      · exact hindent
    · intro x hx
      cases hx
      exact Or.inr hnewline
  exact scan_layout hscan rfl hspaced 7

end LoxLang
