/-
  LoxLang.Proofs.Token.Scanning
  ─────────────────────────────
  **What scanning gives.**  A text has one cutting (`Proofs.Token.Cutting`), and
  scanning reads its result off that cutting: the tokens are the token pieces in
  their order, each on the start line plus the newlines before it; or, if some
  piece is a fault, there is one fault for each such piece, placed in the same way.

  What a piece stands for is said by `Spells` and `Complains`, piece by piece, and
  not by the functions that scanning itself applies to a piece.
-/
import LoxLang.Proofs.Token.Cutting
import Mathlib.Data.List.Forall2
import Mathlib.Data.List.Infix

namespace LoxLang

/-! ## §1. The keyword table. -/

/-- Every keyword is found in the table. -/
theorem Keyword.ofWord?_lexeme (k : Keyword) : Keyword.ofWord? k.lexeme = some k := by
  cases k <;> decide

/-- A word is a keyword exactly if it is spelled like one. -/
theorem Keyword.ofWord?_eq_none_iff (word : String) :
    Keyword.ofWord? word = none ↔ ∀ k : Keyword, k.lexeme ≠ word := by
  constructor
  · intro h k hk
    rw [← hk, Keyword.ofWord?_lexeme] at h
    simp at h
  · intro h
    unfold Keyword.ofWord?
    rw [List.find?_eq_none]
    intro k _
    simpa using h k

/-- A word in the table is the keyword that it is found as. -/
theorem Keyword.lexeme_of_ofWord? {word : String} {k : Keyword}
    (h : Keyword.ofWord? word = some k) : k.lexeme = word := by
  simpa using List.find?_some h

namespace Piece

/-! ## §2. What a piece stands for. -/

/-- Is the piece a token? -/
def isToken : Piece → Bool
  | .symbol _ | .word _ | .number .. | .string _ => true
  | _ => false

/-- Is the piece a fault? -/
def isFault : Piece → Bool
  | .unexpected _ | .badNumber _ | .openString _ => true
  | _ => false

/-- The kind of token that a piece is: a word is a keyword if it is spelled like one,
a string is what stands between its quotes, and a number is the double that its
digits denote. -/
inductive Spells : Piece → Token.Kind → Prop where
  | symbol (s : Symbol) : Spells (.symbol s) (.symbol s)
  | keyword (k : Keyword) : Spells (.word k.lexeme.toList) (.keyword k)
  | identifier {cs : List Char} (h : ∀ k : Keyword, k.lexeme.toList ≠ cs) :
      Spells (.word cs) .identifier
  | number (whole : List Char) (fraction : Option (List Char)) :
      Spells (.number whole fraction)
        (.number (Decimal.ofDigits whole (fraction.getD [])).toFloat)
  | string (body : List Char) : Spells (.string body) (.string (String.ofList body))

/-- What is said about a piece that is a fault. -/
inductive Complains : Piece → String → Prop where
  | unexpected (c : Char) :
      Complains (.unexpected c) ("Unexpected character '" ++ c.toString ++ "'")
  | badNumber (cs : List Char) :
      Complains (.badNumber cs) ("Invalid number '" ++ String.ofList cs ++ "'")
  | openString (body : List Char) : Complains (.openString body) "Unterminated string"

/-- Every piece together with the pieces before it. -/
def located (ps : List Piece) : List (List Piece × Piece) :=
  ps.inits.zip ps

/-- The line that a text reaches that starts on `line` and consists of these pieces. -/
def lineAfter (line : Int) (before : List Piece) : Int :=
  line + (before.flatMap chars).count '\n'

/-- `t` is the token of a piece among the pieces of a text that starts on `line`. -/
structure IsTokenOf (line : Int) (piece : List Piece × Piece) (t : Token) : Prop where
  spells : Spells piece.2 t.kind
  lexeme : t.lexeme = String.ofList piece.2.chars
  line_eq : t.line = lineAfter line piece.1

/-- `f` is the fault of a piece among the pieces of a text that starts on `line`. -/
structure IsFaultOf (line : Int) (piece : List Piece × Piece) (f : LexicalFault) : Prop where
  line_eq : f.line = lineAfter line piece.1
  message : ∃ complaint, Complains piece.2 complaint
    ∧ f.message = "Line " ++ toString f.line ++ ": " ++ complaint

/-! ## §3. Single pieces. -/

/-- A piece is a token in its own right, on whatever line it stands. -/
theorem isToken_eq_isSome (line : Int) (p : Piece) : p.isToken = (p.token? line).isSome := by
  unfold token?
  rw [Option.isSome_map]
  cases p with
  | word cs =>
    simp only [isToken, kind?]
    split <;> rfl
  | _ => rfl

theorem isFault_eq_isSome (line : Int) (p : Piece) : p.isFault = (p.fault? line).isSome := by
  cases p <;> rfl

/-- Words that are no keywords are names, and every other kind has its own spelling. -/
theorem spells_of_kind? {p : Piece} {kind : Token.Kind} (h : p.kind? = some kind) :
    Spells p kind := by
  cases p with
  | symbol s =>
    cases h
    exact .symbol s
  | word cs =>
    -- a word is looked up in the table of keywords
    simp only [kind?] at h
    split at h
    · next k hk =>
      cases h
      have hcs : cs = k.lexeme.toList := by
        rw [Keyword.lexeme_of_ofWord? hk, String.toList_ofList]
      rw [hcs]
      exact .keyword k
    · next hnone =>
      cases h
      refine .identifier ?_
      intro k hk
      refine (Keyword.ofWord?_eq_none_iff _).1 hnone k ?_
      rw [← hk, String.ofList_toList]
  | number whole fraction =>
    cases h
    exact .number whole fraction
  | string body =>
    cases h
    exact .string body
  | _ => cases h

/-- A token is on the line that the pieces in front of it lead to. -/
theorem isTokenOf_of_token? {line : Int} {before : List Piece} {p : Piece} {t : Token}
    (h : p.token? (lineAfter line before) = some t) : IsTokenOf line (before, p) t := by
  unfold token? at h
  obtain ⟨kind, hkind, rfl⟩ := Option.map_eq_some_iff.1 h
  exact ⟨spells_of_kind? hkind, rfl, rfl⟩

/-- A fault is on the line that the pieces in front of it lead to. -/
theorem isFaultOf_of_fault? {line : Int} {before : List Piece} {p : Piece} {f : LexicalFault}
    (h : p.fault? (lineAfter line before) = some f) : IsFaultOf line (before, p) f := by
  unfold fault? at h
  obtain ⟨cause, hcause, rfl⟩ := Option.map_eq_some_iff.1 h
  refine ⟨rfl, cause.message, ?_, rfl⟩
  cases p with
  | unexpected c =>
    cases hcause
    exact .unexpected c
  | badNumber cs =>
    cases hcause
    exact .badNumber cs
  | openString body =>
    cases hcause
    exact .openString body
  | _ => cases hcause

/-! ## §4. All pieces of a text. -/

theorem located_cons (p : Piece) (ps : List Piece) :
    located (p :: ps) = ([], p) :: (located ps).map fun x => (p :: x.1, x.2) := by
  simp [located, List.zip_map_left, Prod.map]

/-- Lines are counted from the front. -/
theorem lineAfter_cons (line : Int) (p : Piece) (before : List Piece) :
    lineAfter line (p :: before) = lineAfter (line + p.newlines) before := by
  simp only [lineAfter, newlines, List.flatMap_cons, List.count_append]
  omega

/-- Pieces are placed on the start line plus the newlines before them. -/
theorem place_eq_map_located (line : Int) (ps : List Piece) :
    place line ps = (located ps).map fun x => (lineAfter line x.1, x.2) := by
  induction ps generalizing line with
  | nil => rfl
  | cons p ps ih =>
    -- one more piece in front moves all others by its newlines
    have hhead : lineAfter line [] = line := by
      simp [lineAfter]
    rw [place, ih, located_cons, List.map_cons, List.map_map, hhead]
    congr 1
    refine List.map_congr_left ?_
    intro x _
    show (lineAfter (line + p.newlines) x.1, x.2) = (lineAfter line (p :: x.1), x.2)
    rw [lineAfter_cons]

/-- Members that a partial function keeps, side by side with what it makes of them. -/
theorem forall₂_filter_filterMap {α β : Type} {R : α → β → Prop} {f : α → Option β}
    {keep : α → Bool} (hkeep : ∀ a, keep a = (f a).isSome)
    (hR : ∀ a b, f a = some b → R a b) (xs : List α) :
    List.Forall₂ R (xs.filter keep) (xs.filterMap f) := by
  induction xs with
  | nil => exact .nil
  | cons a xs ih =>
    have ha := hkeep a
    cases hf : f a with
    | none =>
      rw [hf] at ha
      rw [List.filter_cons_of_neg (by simp [ha]), List.filterMap_cons_none hf]
      exact ih
    | some b =>
      rw [hf] at ha
      rw [List.filter_cons_of_pos (by simp [ha]), List.filterMap_cons_some hf]
      exact .cons (hR a b hf) ih

/-- Tokens come from the pieces that are tokens, in order and each from its own. -/
theorem tokens_of_place (line : Int) (ps : List Piece) :
    List.Forall₂ (IsTokenOf line) ((located ps).filter (·.2.isToken))
      ((place line ps).filterMap fun (l, p) => p.token? l) := by
  rw [place_eq_map_located, List.filterMap_map]
  refine forall₂_filter_filterMap ?_ ?_ (located ps)
  · intro x
    exact isToken_eq_isSome (lineAfter line x.1) x.2
  · intro x t h
    exact isTokenOf_of_token? h

/-- Faults come from the pieces that are faults, in order and each from its own. -/
theorem faults_of_place (line : Int) (ps : List Piece) :
    List.Forall₂ (IsFaultOf line) ((located ps).filter (·.2.isFault))
      ((place line ps).filterMap fun (l, p) => p.fault? l) := by
  rw [place_eq_map_located, List.filterMap_map]
  refine forall₂_filter_filterMap ?_ ?_ (located ps)
  · intro x
    exact isFault_eq_isSome (lineAfter line x.1) x.2
  · intro x f h
    exact isFaultOf_of_fault? h

/-- The pieces of a text, as they stand behind what comes before them. -/
theorem map_snd_located (ps : List Piece) : (located ps).map Prod.snd = ps := by
  unfold located
  refine List.map_snd_zip ?_
  simp

/-- No piece is a fault exactly if the row of faults is empty. -/
theorem filter_isFault_located_eq_nil_iff (ps : List Piece) :
    (located ps).filter (·.2.isFault) = [] ↔ ∀ p ∈ ps, p.isFault = false := by
  rw [List.filter_eq_nil_iff]
  constructor
  · intro h p hp
    rw [← map_snd_located ps] at hp
    obtain ⟨x, hx, rfl⟩ := List.mem_map.1 hp
    simpa using h x hx
  · intro h x hx
    have hmem : x.2 ∈ (located ps).map Prod.snd := List.mem_map_of_mem hx
    rw [map_snd_located] at hmem
    simpa using h x.2 hmem

/-! ## §5. Scanning. -/

/-- Without a fault there are tokens, and the end of input is behind all newlines. -/
theorem scan_eq_ok {source : String} {line : Int}
    (h : ∀ p ∈ cut source.toList, p.isFault = false) :
    scan source line
      = .ok ⟨(place line (cut source.toList)).filterMap fun (l, p) => p.token? l,
          line + source.toList.count '\n'⟩ := by
  have hfaults := faults_of_place line (cut source.toList)
  rw [(filter_isFault_located_eq_nil_iff _).2 h, List.forall₂_nil_left_iff] at hfaults
  unfold scan
  dsimp only
  rw [hfaults]

/-- With a fault there are only faults. -/
theorem scan_eq_error {source : String} {line : Int}
    (h : ∃ p ∈ cut source.toList, p.isFault = true) :
    scan source line
      = .error ((place line (cut source.toList)).filterMap fun (l, p) => p.fault? l) := by
  have hfaults := faults_of_place line (cut source.toList)
  unfold scan
  dsimp only
  split
  · next hnil =>
    -- without faults, no piece would be one
    rw [hnil, List.forall₂_nil_right_iff, filter_isFault_located_eq_nil_iff] at hfaults
    obtain ⟨p, hp, hfault⟩ := h
    rw [hfaults p hp] at hfault
    cases hfault
  · rfl

/-- **What scanning gives.**  Every text has one and only one cutting, no piece of
which is empty.  If no piece is a fault, scanning gives the token pieces in order and
ends on the line behind all newlines; otherwise it gives the faults in order. -/
theorem scan_reads_the_cutting (source : String) (line : Int) :
    ∃ ps, IsCutting source.toList ps
      ∧ (∀ qs, IsCutting source.toList qs → qs = ps)
      ∧ (∀ p ∈ ps, p.chars ≠ [])
      ∧ ((∀ p ∈ ps, p.isFault = false) →
          ∃ tokens, scan source line = .ok ⟨tokens, line + source.toList.count '\n'⟩
            ∧ List.Forall₂ (IsTokenOf line) ((located ps).filter (·.2.isToken)) tokens)
      ∧ ((∃ p ∈ ps, p.isFault = true) →
          ∃ faults, scan source line = .error faults
            ∧ List.Forall₂ (IsFaultOf line) ((located ps).filter (·.2.isFault)) faults) := by
  have hcut := cut_isCutting source.toList
  refine ⟨cut source.toList, hcut, ?_, ?_, ?_, ?_⟩
  · intro qs hqs
    exact hqs.eq_cut
  · intro p hp
    exact (hcut.wellFormed p hp).chars_ne_nil
  · intro h
    exact ⟨_, scan_eq_ok h, tokens_of_place line _⟩
  · intro h
    exact ⟨_, scan_eq_error h, faults_of_place line _⟩

end Piece

end LoxLang
