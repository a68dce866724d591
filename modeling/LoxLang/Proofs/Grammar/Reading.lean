/-
  LoxLang.Proofs.Grammar.Reading
  ──────────────────────────────
  **Reasoning about readers.**  Two judgements, one for each direction between a
  reader and a grammar:

  `Reads r ts a rest`  — started on `ts`, the reader gives `a`, leaves `rest` and
                         notes no fault, whatever else its state holds
  `Sound r L`          — whenever the reader gives a result and has noted no fault,
                         `L` relates the tokens used, the result and the rest

  Both have a rule for every way in which readers are put together.  A reader never
  forgets a fault (part of `Sound`), so that a reading which ends without faults went
  without faults all the way.
-/
import LoxLang.Grammar.Reading
import LoxLang.Proofs.Grammar.Derivation

namespace LoxLang

namespace Reader

variable {α β : Type}

/-! ## §1. Readings that succeed. -/

/-- Started on `ts`, the reader gives `a` and leaves `rest`. -/
def Reads (r : Reader α) (ts : List Token) (a : α) (rest : List Token) : Prop :=
  ∀ endLine faults, r ⟨⟨ts, endLine⟩, faults⟩ = (.ok a, ⟨⟨rest, endLine⟩, faults⟩)

/-- One reader goes on where the other stopped. -/
theorem Reads.bind {r : Reader α} {f : α → Reader β} {ts mid rest : List Token} {a : α}
    {b : β} (h : Reads r ts a mid) (hf : Reads (f a) mid b rest) :
    Reads (r >>= f) ts b rest := by
  intro endLine faults
  rw [Attempt.bind_ok (h endLine faults)]
  exact hf endLine faults

theorem Reads.pure (a : α) (ts : List Token) : Reads (pure a) ts a ts := by
  intro endLine faults
  rfl

/-- What is read off the state itself may be anything that goes with the tokens. -/
theorem Reads.get_bind {f : Reading → Reader β} {ts rest : List Token} {b : β}
    (h : ∀ endLine faults, Reads (f ⟨⟨ts, endLine⟩, faults⟩) ts b rest) :
    Reads (get >>= f) ts b rest := by
  intro endLine faults
  exact h endLine faults endLine faults

theorem reads_rest (ts : List Token) : Reads rest ts ts ts := by
  intro endLine faults
  rfl

theorem reads_peek (ts : List Token) : Reads peek ts (ts.head?.map Token.kind) ts := by
  intro endLine faults
  rfl

theorem reads_skip (t : Token) (ts : List Token) : Reads skip (t :: ts) () ts := by
  intro endLine faults
  rfl

/-- A token of which something can be made is taken. -/
theorem reads_take?_some {f : Token → Option α} {t : Token} {a : α} (h : f t = some a)
    (ts : List Token) : Reads (take? f) (t :: ts) (some a) ts := by
  unfold take?
  refine (reads_rest _).bind ?_
  simp only [List.head?_cons, Option.bind_some, h]
  exact (reads_skip t ts).bind (.pure _ _)

/-- Any other token is left where it is. -/
theorem reads_take?_none {f : Token → Option α} {ts : List Token}
    (h : ∀ t ∈ ts.head?, f t = none) : Reads (take? f) ts none ts := by
  have hbind : ts.head?.bind f = none := by
    cases ts with
    | nil => rfl
    | cons t ts => exact h t rfl
  unfold take?
  refine (reads_rest _).bind ?_
  rw [hbind]
  exact .pure _ _

theorem reads_accept_true {kind : Token.Kind} {t : Token} (h : t.kind = kind)
    (ts : List Token) : Reads (accept kind) (t :: ts) true ts := by
  unfold accept
  exact (reads_take?_some (by rw [if_pos h]) ts).bind (.pure _ _)

theorem reads_accept_false {kind : Token.Kind} {ts : List Token}
    (h : ∀ t ∈ ts.head?, t.kind ≠ kind) : Reads (accept kind) ts false ts := by
  unfold accept
  refine (reads_take?_none ?_).bind (.pure _ _)
  intro t ht
  rw [if_neg (h t ht)]

theorem reads_require {kind : Token.Kind} {t : Token} (h : t.kind = kind)
    (cause : SyntaxCause) (ts : List Token) : Reads (require kind cause) (t :: ts) t ts := by
  unfold require
  exact (reads_take?_some (by rw [if_pos h]) ts).bind (.pure _ _)

/-- A row of turns, each of which consumes something, up to one that declines. -/
inductive Turns (step : Reader (Option α)) : List Token → List α → List Token → Prop where
  | done {rest : List Token} (h : Reads step rest none rest) : Turns step rest [] rest
  | more {ts mid rest : List Token} {a : α} {as : List α} (h : Reads step ts (some a) mid)
      (hlt : mid.length < ts.length) (hmore : Turns step mid as rest) :
      Turns step ts (a :: as) rest

/-- As many tokens as there are at the start bound the number of turns. -/
theorem Turns.reads_manyWithin {step : Reader (Option α)} {ts rest : List Token} {as : List α}
    (h : Turns step ts as rest) :
    ∀ budget : List Token, ts.length ≤ budget.length →
      Reads (manyWithin step budget) ts as rest := by
  -- every turn consumes something, so that the budget lasts as long as the tokens
  induction h with
  | done h =>
    intro budget _
    cases budget with
    | nil => exact .pure _ _
    | cons b budget =>
      unfold manyWithin
      exact h.bind (.pure _ _)
  | more h hlt _ ih =>
    intro budget hbudget
    cases budget with
    | nil =>
      simp only [List.length_nil] at hbudget
      omega
    | cons b budget =>
      simp only [List.length_cons] at hbudget
      unfold manyWithin
      refine h.bind ?_
      exact (ih budget (by omega)).bind (.pure _ _)

/-- A repetition starts with as much of a budget as there are tokens. -/
theorem Turns.reads_many {step : Reader (Option α)} {ts rest : List Token} {as : List α}
    (h : Turns step ts as rest) : Reads (many step) ts as rest := by
  unfold many
  exact (reads_rest ts).bind (h.reads_manyWithin ts (Nat.le_refl _))

/-- Items with commas in between are read one by one, if each can be read in front of
a comma and the last in front of `rest`. -/
theorem reads_commaList {item : Reader α} {items : List (List Token × α)} {us rest : List Token}
    (hitems : ∀ x ∈ items, ∀ rest', rest' = rest ∨ (∃ c ∈ rest'.head?, c.kind = .symbol .comma) →
      Reads item (x.1 ++ rest') x.2 rest')
    (hrest : ∀ t ∈ rest.head?, t.kind ≠ .symbol .comma) (hus : Joined items us) :
    Reads (commaList item) (us ++ rest) (items.map Prod.snd) rest := by
  -- the items behind the first are the turns of the loop, each with its comma
  suffices h : ∃ first others mid, items.map Prod.snd = first :: others
      ∧ Reads item (us ++ rest) first mid ∧ mid.length ≤ (us ++ rest).length
      ∧ Turns (do if ← accept (.symbol .comma) then return some (← item) else return none)
          mid others rest by
    obtain ⟨first, others, mid, hmap, hfirst, -, hothers⟩ := h
    rw [hmap]
    unfold commaList
    exact hfirst.bind (hothers.reads_many.bind (.pure _ _))
  induction hus with
  | one x =>
    refine ⟨x.2, [], rest, rfl, hitems x List.mem_cons_self rest (Or.inl rfl), by simp, .done ?_⟩
    exact (reads_accept_false hrest).bind (.pure _ _)
  | @cons x comma items us hcomma _ ih =>
    obtain ⟨first, others, mid, hmap, hfirst, hlen, hothers⟩ :=
      ih (fun y hy => hitems y (List.mem_cons_of_mem x hy))
    refine ⟨x.2, first :: others, comma :: (us ++ rest), ?_, ?_, ?_, .more ?_ ?_ hothers⟩
    · rw [List.map_cons, hmap]
    · -- the item stands in front of its comma, which starts the next turn
      rw [List.append_assoc]
      exact hitems x List.mem_cons_self _ (Or.inr ⟨comma, rfl, hcomma⟩)
    · simp only [List.length_append, List.length_cons]
      omega
    · exact (reads_accept_true hcomma _).bind (hfirst.bind (.pure _ _))
    · simp only [List.length_append, List.length_cons] at hlen ⊢
      omega

/-- A reader that does not fail needs no recovery. -/
theorem reads_recover {r : Reader α} {ts rest : List Token} {a : α} (h : Reads r ts a rest) :
    Reads (recover r) ts (some a) rest := by
  intro endLine faults
  unfold recover
  rw [h endLine faults]

/-! ## §2. What readers give. -/

/-- Whenever the reader gives a result without noting a fault, `L` relates the tokens
used, the result and the tokens left; and no fault noted before is ever lost. -/
structure Sound (r : Reader α) (L : List Token → α → List Token → Prop) : Prop where
  faults_of_ok : ∀ {s s' a}, r s = (.ok a, s') → s.faults <+: s'.faults
  faults_of_error : ∀ {s s' e}, r s = (.error e, s') → s.faults <+: s'.faults
  used : ∀ {s s' a}, r s = (.ok a, s') → s'.faults = s.faults →
    ∃ used, s.input.tokens = used ++ s'.input.tokens ∧ L used a s'.input.tokens

/-- One reader after the other uses first what the one and then what the other uses. -/
def Then (L : List Token → α → List Token → Prop) (M : α → List Token → β → List Token → Prop)
    (us : List Token) (b : β) (rest : List Token) : Prop :=
  ∃ us₁ us₂ a, us = us₁ ++ us₂ ∧ L us₁ a (us₂ ++ rest) ∧ M a us₂ b rest

/-- A relation may be weakened. -/
theorem Sound.mono {r : Reader α} {L M : List Token → α → List Token → Prop} (h : Sound r L)
    (hLM : ∀ us a rest, L us a rest → M us a rest) : Sound r M := by
  refine ⟨h.faults_of_ok, h.faults_of_error, ?_⟩
  intro s s' a hr hfaults
  obtain ⟨used, htokens, hL⟩ := h.used hr hfaults
  exact ⟨used, htokens, hLM _ _ _ hL⟩

/-- What two readers in a row use is put together (`Then`). -/
theorem Sound.bind {r : Reader α} {f : α → Reader β} {L : List Token → α → List Token → Prop}
    {M : α → List Token → β → List Token → Prop} (h : Sound r L) (hf : ∀ a, Sound (f a) (M a)) :
    Sound (r >>= f) (Then L M) := by
  refine ⟨?_, ?_, ?_⟩
  · intro s s' b hr
    rcases hrs : r s with ⟨_ | a, s₁⟩
    · rw [Attempt.bind_error hrs] at hr
      cases hr
    · rw [Attempt.bind_ok hrs] at hr
      exact (h.faults_of_ok hrs).trans ((hf a).faults_of_ok hr)
  · intro s s' e hr
    rcases hrs : r s with ⟨e' | a, s₁⟩
    · rw [Attempt.bind_error hrs] at hr
      cases hr
      exact h.faults_of_error hrs
    · rw [Attempt.bind_ok hrs] at hr
      exact (h.faults_of_ok hrs).trans ((hf a).faults_of_error hr)
  · intro s s' b hr hfaults
    rcases hrs : r s with ⟨_ | a, s₁⟩
    · rw [Attempt.bind_error hrs] at hr
      cases hr
    · rw [Attempt.bind_ok hrs] at hr
      -- no fault in the end, so none half-way
      have hmid : s₁.faults = s.faults := by
        have hle := ((hf a).faults_of_ok hr).length_le
        rw [hfaults] at hle
        exact ((h.faults_of_ok hrs).eq_of_length_le hle).symm
      obtain ⟨us₁, htokens₁, hL⟩ := h.used hrs hmid
      obtain ⟨us₂, htokens₂, hM⟩ := (hf a).used hr (hfaults.trans hmid.symm)
      refine ⟨us₁ ++ us₂, ?_, us₁, us₂, a, rfl, ?_, hM⟩
      · rw [htokens₁, htokens₂, List.append_assoc]
      · rw [← htokens₂]
        exact hL

/-- A reader that leaves the noted faults alone and consumes as `L` says. -/
theorem Sound.of_apply {r : Reader α} {L : List Token → α → List Token → Prop}
    (h : ∀ s, (r s).2.faults = s.faults
      ∧ ∃ used, s.input.tokens = used ++ (r s).2.input.tokens
        ∧ ∀ a, (r s).1 = .ok a → L used a (r s).2.input.tokens) : Sound r L := by
  refine ⟨?_, ?_, ?_⟩
  · intro s s' a hr
    have hfaults := (h s).1
    rw [hr] at hfaults
    exact hfaults ▸ List.prefix_rfl
  · intro s s' e hr
    have hfaults := (h s).1
    rw [hr] at hfaults
    exact hfaults ▸ List.prefix_rfl
  · intro s s' a hr _
    obtain ⟨used, htokens, hL⟩ := (h s).2
    rw [hr] at htokens hL
    exact ⟨used, htokens, hL a rfl⟩

/-- A reader that changes nothing uses no tokens. -/
theorem Sound.of_still {r : Reader α} {L : List Token → α → List Token → Prop}
    (hstill : ∀ s, (r s).2 = s) (hL : ∀ s a, (r s).1 = .ok a → L [] a s.input.tokens) :
    Sound r L := by
  refine .of_apply ?_
  intro s
  rw [hstill s]
  exact ⟨rfl, [], rfl, hL s⟩

theorem Sound.pure (a : α) : Sound (pure a) (fun us b _ => us = [] ∧ b = a) := by
  refine .of_still (fun _ => rfl) ?_
  intro s b hb
  cases hb
  exact ⟨rfl, rfl⟩

/-- A reader that fails gives nothing to relate. -/
theorem Sound.throw (f : SyntaxFault) : Sound (throw f : Reader α) (fun _ _ _ => False) :=
  .of_still (fun _ => rfl) nofun

theorem sound_get : Sound get (fun us s rest => us = [] ∧ s.input.tokens = rest) := by
  refine .of_still (fun _ => rfl) ?_
  intro s b hb
  cases hb
  exact ⟨rfl, rfl⟩

theorem sound_fail (cause : SyntaxCause) : Sound (fail cause : Reader α) (fun _ _ _ => False) :=
  .of_still (fun _ => rfl) nofun

theorem sound_rest : Sound Reader.rest (fun us ts rest => us = [] ∧ ts = rest) := by
  refine .of_still (fun _ => rfl) ?_
  intro s ts hts
  cases hts
  exact ⟨rfl, rfl⟩

theorem sound_peek :
    Sound peek (fun us kind rest => us = [] ∧ kind = rest.head?.map Token.kind) := by
  refine .of_still (fun _ => rfl) ?_
  intro s kind hkind
  cases hkind
  exact ⟨rfl, rfl⟩

/-- Skipping uses one token, or none at the end of input. -/
theorem sound_skip :
    Sound skip (fun us _ rest => (us = [] ∧ rest = []) ∨ ∃ t, us = [t]) := by
  refine .of_apply ?_
  rintro ⟨⟨ts, endLine⟩, faults⟩
  cases ts with
  | nil => exact ⟨rfl, [], rfl, fun _ _ => Or.inl ⟨rfl, rfl⟩⟩
  | cons t ts => exact ⟨rfl, [t], rfl, fun _ _ => Or.inr ⟨t, rfl⟩⟩

/-- What is taken is the first token; if nothing is, the next one is not of the kind. -/
theorem sound_take? (f : Token → Option α) :
    Sound (take? f) (fun us o rest =>
      (∃ t a, us = [t] ∧ f t = some a ∧ o = some a)
        ∨ (us = [] ∧ o = none ∧ ∀ t ∈ rest.head?, f t = none)) := by
  refine .of_apply ?_
  rintro ⟨⟨ts, endLine⟩, faults⟩
  have hdecline : (∀ t ∈ ts.head?, f t = none) →
      take? f ⟨⟨ts, endLine⟩, faults⟩ = (.ok none, ⟨⟨ts, endLine⟩, faults⟩) :=
    fun h => reads_take?_none h endLine faults
  -- either the next token is of use, or the reader declines
  by_cases hnone : ∀ t ∈ ts.head?, f t = none
  · rw [hdecline hnone]
    refine ⟨rfl, [], rfl, ?_⟩
    intro o ho
    cases ho
    exact Or.inr ⟨rfl, rfl, hnone⟩
  · cases ts with
    | nil => exact absurd (by simp) hnone
    | cons t ts =>
      cases hf : f t with
      | none => exact absurd (by simpa using hf) hnone
      | some a =>
        rw [reads_take?_some hf ts endLine faults]
        refine ⟨rfl, [t], rfl, ?_⟩
        intro o ho
        cases ho
        exact Or.inl ⟨t, a, rfl, hf, rfl⟩

/-- Go on with what `f` makes of the next token, or without it. -/
theorem Sound.take?_bind {f : Token → Option α} {g : Option α → Reader β}
    {L : α → List Token → β → List Token → Prop} {M : List Token → β → List Token → Prop}
    (hsome : ∀ a, Sound (g (some a)) (L a)) (hnone : Sound (g none) M) :
    Sound (take? f >>= g) (fun us b rest =>
      (∃ t vs a, us = t :: vs ∧ f t = some a ∧ L a vs b rest)
        ∨ ((∀ t ∈ (us ++ rest).head?, f t = none) ∧ M us b rest)) := by
  refine ((sound_take? f).bind (M := fun o us b rest =>
    (∀ a, o = some a → L a us b rest) ∧ (o = none → M us b rest)) ?_).mono ?_
  · intro o
    cases o with
    -- what follows depends on whether there was a result
    | none => exact hnone.mono (fun _ _ _ h => ⟨fun _ ha => (nomatch ha), fun _ => h⟩)
    | some a =>
      refine (hsome a).mono ?_
      intro us b rest h
      refine ⟨?_, (nomatch ·)⟩
      intro a' ha'
      cases ha'
      exact h
  · rintro us b rest ⟨us₁, us₂, o, rfl, ⟨t, a, rfl, ht, rfl⟩ | ⟨rfl, rfl, hhead⟩, hL, hM⟩
    · exact Or.inl ⟨t, us₂, a, rfl, ht, hL a rfl⟩
    · exact Or.inr ⟨hhead, hM rfl⟩

/-- Go on behind a token of this kind, or without it. -/
theorem Sound.accept_bind {kind : Token.Kind} {g : Bool → Reader β}
    {L M : List Token → β → List Token → Prop} (htrue : Sound (g true) L)
    (hfalse : Sound (g false) M) :
    Sound (accept kind >>= g) (fun us b rest =>
      (∃ t vs, us = t :: vs ∧ t.kind = kind ∧ L vs b rest)
        ∨ ((∀ t ∈ (us ++ rest).head?, t.kind ≠ kind) ∧ M us b rest)) := by
  unfold accept
  rw [bind_assoc]
  refine (Sound.take?_bind (L := fun _ => L) (M := M) ?_ ?_).mono ?_
  · intro t
    exact htrue
  · exact hfalse
  · rintro us b rest (⟨t, vs, a, rfl, ht, hL⟩ | ⟨hhead, hM⟩)
    · refine Or.inl ⟨t, vs, rfl, ?_, hL⟩
      by_cases hkind : t.kind = kind
      · exact hkind
      · rw [if_neg hkind] at ht
        cases ht
    · refine Or.inr ⟨?_, hM⟩
      intro t ht hkind
      have h := hhead t ht
      rw [if_pos hkind] at h
      cases h

/-- Go on behind a token of this kind, which must be there. -/
theorem Sound.require_bind {kind : Token.Kind} {cause : SyntaxCause} {g : Token → Reader β}
    {L : Token → List Token → β → List Token → Prop} (h : ∀ t, Sound (g t) (L t)) :
    Sound (require kind cause >>= g) (fun us b rest =>
      ∃ t vs, us = t :: vs ∧ t.kind = kind ∧ L t vs b rest) := by
  unfold require
  rw [bind_assoc]
  refine (Sound.take?_bind (L := L) (M := fun _ _ _ => False) ?_ ?_).mono ?_
  · intro t
    exact h t
  · -- without the token the reader fails, and nothing is to be shown
    exact ((sound_fail cause).bind (M := fun _ _ _ _ => True) fun t => (h t).mono
      (fun _ _ _ _ => trivial)).mono (fun us b rest ⟨_, _, _, _, hfalse, _⟩ => hfalse)
  · rintro us b rest (⟨t, vs, a, rfl, ht, hL⟩ | ⟨-, hfalse⟩)
    · by_cases hkind : t.kind = kind
      · rw [if_pos hkind] at ht
        cases ht
        exact ⟨t, vs, rfl, hkind, hL⟩
      · rw [if_neg hkind] at ht
        cases ht
    · exact hfalse.elim

/-- What is required is given, or there was no result. -/
theorem sound_require (kind : Token.Kind) (cause : SyntaxCause) :
    Sound (require kind cause) (fun us t _ => us = [t] ∧ t.kind = kind) := by
  rw [← bind_pure (require kind cause)]
  refine (Sound.require_bind fun t => Sound.pure t).mono ?_
  intro us t rest h
  obtain ⟨t', _, rfl, hkind, rfl, rfl⟩ := h
  exact ⟨rfl, hkind⟩

/-- Go on according to the kind of the next token. -/
theorem Sound.peek_bind {g : Option Token.Kind → Reader β}
    {L : Option Token.Kind → List Token → β → List Token → Prop}
    (h : ∀ kind, Sound (g kind) (L kind)) :
    Sound (peek >>= g) (fun us b rest => L ((us ++ rest).head?.map Token.kind) us b rest) := by
  refine (sound_peek.bind h).mono ?_
  rintro us b rest ⟨_, us₂, kind, rfl, ⟨rfl, rfl⟩, hL⟩
  exact hL

/-- Go on behind the next token. -/
theorem Sound.skip_bind {g : Unit → Reader β} {L : List Token → β → List Token → Prop}
    (h : Sound (g ()) L) :
    Sound (skip >>= g) (fun us b rest =>
      ∀ t ∈ (us ++ rest).head?, ∃ vs, us = t :: vs ∧ L vs b rest) := by
  refine (sound_skip.bind fun _ => h).mono ?_
  rintro us b rest ⟨us₁, us₂, _, rfl, ⟨rfl, hnil⟩ | ⟨t, rfl⟩, hL⟩ t' ht'
  · rw [List.nil_append, hnil] at ht'
    cases ht'
  · cases ht'
    exact ⟨us₂, rfl, hL⟩

/-- Give what is made of the result. -/
theorem Sound.bind_pure {r : Reader α} {f : α → β} {L : List Token → α → List Token → Prop}
    (h : Sound r L) :
    Sound (r >>= fun a => Pure.pure (f a)) (fun us b rest => ∃ a, b = f a ∧ L us a rest) := by
  refine (h.bind fun a => Sound.pure (f a)).mono ?_
  rintro us b rest ⟨us₁, _, a, rfl, hL, rfl, rfl⟩
  rw [List.append_nil]
  exact ⟨a, rfl, hL⟩

/-- A row of token rows, each related by `L` to its result. -/
inductive Repeated (L : List Token → α → List Token → Prop) :
    List Token → List α → List Token → Prop where
  | nil (rest : List Token) : Repeated L [] [] rest
  | cons {us vs rest : List Token} {a : α} {as : List α} (h : L us a (vs ++ rest))
      (hmore : Repeated L vs as rest) : Repeated L (us ++ vs) (a :: as) rest

/-- The loop ends where a turn declines, or else has had as many turns as it may. -/
theorem sound_manyWithin {step : Reader (Option α)} {L : List Token → α → List Token → Prop}
    {D : List Token → Prop} (h : Sound step (fun us o rest =>
      (us = [] ∧ o = none ∧ D rest) ∨ ∃ a, o = some a ∧ L us a rest)) (budget : List Token) :
    Sound (manyWithin step budget) (fun us as rest =>
      Repeated L us as rest ∧ (D rest ∨ as.length = budget.length)) := by
  induction budget with
  | nil =>
    refine (Sound.pure _).mono ?_
    intro us as rest hnil
    obtain ⟨rfl, rfl⟩ := hnil
    exact ⟨.nil rest, Or.inr rfl⟩
  | cons b budget ih =>
    unfold manyWithin
    refine (h.bind (M := fun o us as rest => (o = none ∧ us = [] ∧ as = [])
      ∨ ∃ a as', o = some a ∧ as = a :: as'
        ∧ Repeated L us as' rest ∧ (D rest ∨ as'.length = budget.length)) ?_).mono ?_
    · intro o
      cases o with
      | none =>
        refine (Sound.pure _).mono ?_
        intro us as rest hnil
        exact Or.inl ⟨rfl, hnil⟩
      | some a =>
        refine ih.bind_pure.mono ?_
        intro us as rest hmore
        obtain ⟨as', rfl, hrep⟩ := hmore
        exact Or.inr ⟨a, as', rfl, rfl, hrep⟩
    · intro us as rest hrow
      obtain ⟨us₁, us₂, o, rfl, hstep, hmore⟩ := hrow
      -- the turn and what follows it agree on whether it declined
      rcases hmore with ⟨rfl, rfl, rfl⟩ | ⟨a, as', rfl, rfl, hrep, hend⟩
      · obtain ⟨rfl, -, hD⟩ | ⟨a, ha, -⟩ := hstep
        · exact ⟨.nil rest, Or.inl hD⟩
        · cases ha
      · obtain ⟨-, ha, -⟩ | ⟨a', ha, hL⟩ := hstep
        · cases ha
        · cases ha
          refine ⟨.cons hL hrep, hend.imp_right ?_⟩
          intro hlen
          rw [List.length_cons, List.length_cons, hlen]

/-- As many turns as there are tokens at the start, if none declines before. -/
theorem sound_many_until {step : Reader (Option α)} {L : List Token → α → List Token → Prop}
    {D : List Token → Prop} (h : Sound step (fun us o rest =>
      (us = [] ∧ o = none ∧ D rest) ∨ ∃ a, o = some a ∧ L us a rest)) :
    Sound (many step) (fun us as rest =>
      Repeated L us as rest ∧ (D rest ∨ as.length = (us ++ rest).length)) := by
  unfold many
  refine (sound_rest.bind fun budget => sound_manyWithin h budget).mono ?_
  intro us as rest hrow
  obtain ⟨_, us, budget, rfl, ⟨rfl, rfl⟩, hrep⟩ := hrow
  exact hrep

/-- What a repetition uses falls into what its turns use. -/
theorem sound_many {step : Reader (Option α)} {L : List Token → α → List Token → Prop}
    (h : Sound step (fun us o rest => (us = [] ∧ o = none) ∨ ∃ a, o = some a ∧ L us a rest)) :
    Sound (many step) (Repeated L) := by
  refine (sound_many_until (L := L) (D := fun _ => True) (h.mono ?_)).mono ?_
  · intro us o rest hstep
    rcases hstep with ⟨hus, ho⟩ | hsome
    · exact Or.inl ⟨hus, ho, trivial⟩
    · exact Or.inr hsome
  · intro us as rest hrow
    exact hrow.1

/-- An item, and further ones with a comma in front of each. -/
theorem joined_of_repeated {Item : List Token → α → Prop} {us vs rest : List Token} {first : α}
    {others : List α} (hfirst : Item us first)
    (h : Repeated (fun us a _ => ∃ comma vs, us = comma :: vs ∧ comma.kind = .symbol .comma
      ∧ Item vs a) vs others rest) :
    ∃ items : List (List Token × α), (∀ x ∈ items, Item x.1 x.2) ∧ Joined items (us ++ vs)
      ∧ first :: others = items.map Prod.snd := by
  induction h generalizing us first with
  | nil rest =>
    refine ⟨[(us, first)], ?_, ?_, rfl⟩
    · simpa using hfirst
    · rw [List.append_nil]
      exact .one (us, first)
  | @cons _ ws _ a as ha _ ih =>
    obtain ⟨comma, vs, rfl, hcomma, hitem⟩ := ha
    obtain ⟨items, hall, hjoined, hmap⟩ := ih hitem
    refine ⟨(us, first) :: items, ?_, .cons (us, first) hcomma hjoined, ?_⟩
    · intro x hx
      rcases List.mem_cons.1 hx with rfl | hx
      · exact hfirst
      · exact hall x hx
    · rw [List.map_cons, hmap]

/-- What a row with commas uses are its items with commas between them. -/
theorem sound_commaList {item : Reader α} {Item : List Token → α → Prop}
    (h : Sound item (fun us a _ => Item us a)) :
    Sound (commaList item) (fun us as _ =>
      ∃ items : List (List Token × α), (∀ x ∈ items, Item x.1 x.2) ∧ Joined items us
        ∧ as = items.map Prod.snd) := by
  -- a turn of the loop is a comma and an item
  have hstep : Sound
      (do if ← accept (.symbol .comma) then return some (← item) else return none)
      (fun us o _ => (us = [] ∧ o = none)
        ∨ ∃ a, o = some a ∧ ∃ comma vs, us = comma :: vs ∧ comma.kind = .symbol .comma
          ∧ Item vs a) := by
    refine (Sound.accept_bind h.bind_pure (Sound.pure none)).mono ?_
    rintro us o rest (⟨comma, vs, rfl, hcomma, a, rfl, ha⟩ | ⟨-, hnone⟩)
    · exact Or.inr ⟨a, rfl, comma, vs, rfl, hcomma, ha⟩
    · exact Or.inl hnone
  unfold commaList
  refine (h.bind fun first => (sound_many hstep).bind_pure).mono ?_
  rintro us as rest ⟨us₁, us₂, first, rfl, hfirst, others, rfl, hothers⟩
  exact joined_of_repeated hfirst hothers

/-- A reading that was recovered from has noted a fault, and so recovery gives what was read. -/
theorem sound_recover {r : Reader α} {L : List Token → α → List Token → Prop} (h : Sound r L) :
    Sound (recover r) (fun us o rest => ∃ a, o = some a ∧ L us a rest) := by
  refine ⟨?_, ?_, ?_⟩
  · intro s s' o hr
    unfold recover at hr
    rcases hrs : r s with ⟨e | a, s₁⟩
    · rw [hrs] at hr
      cases hr
      exact (h.faults_of_error hrs).trans (List.prefix_append _ _)
    · rw [hrs] at hr
      cases hr
      exact h.faults_of_ok hrs
  · intro s s' e hr
    unfold recover at hr
    rcases hrs : r s with ⟨e | a, s₁⟩
    · rw [hrs] at hr
      cases hr
    · rw [hrs] at hr
      cases hr
  · intro s s' o hr hfaults
    unfold recover at hr
    rcases hrs : r s with ⟨e | a, s₁⟩
    · -- a recovery notes a fault, which is not the case
      rw [hrs] at hr
      cases hr
      have hle := (h.faults_of_error hrs).length_le
      have hlen := congrArg List.length hfaults
      simp only [List.length_append, List.length_cons, List.length_nil] at hlen
      omega
    · rw [hrs] at hr
      cases hr
      obtain ⟨used, htokens, hL⟩ := h.used hrs hfaults
      exact ⟨used, htokens, a, rfl, hL⟩

end Reader

end LoxLang
