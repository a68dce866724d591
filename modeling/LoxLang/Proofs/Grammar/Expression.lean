/-
  LoxLang.Proofs.Grammar.Expression
  ─────────────────────────────────
  **Expressions are read as the grammar derives them.**  Each level of the reader is
  compared with the rank of the grammar that it reads, over any reader of nested
  expressions:

  `sound_…`     — what the level gives is derived from the tokens it used
  `complete_…`  — what is derived is given, if the next token could not go on with it

  The grammar nests operators to the left where the reader loops.  The bridge is in
  `Turns`: a derivation in front of further turns is a first operand in front of more
  of them.
-/
import LoxLang.Proofs.Grammar.Reading

namespace LoxLang

/-! ## §1. The tables of operators. -/

/-- The table of operators and the grammar's rules name the same ones. -/
theorem isOperator_iff (level : BinaryOp.Level) (kind : Token.Kind) (op : BinaryOp) :
    IsOperator level kind op ↔ BinaryOp.ofKind? kind = some op ∧ op.level = level := by
  constructor
  · intro h
    cases h <;> exact ⟨rfl, rfl⟩
  · rintro ⟨h, rfl⟩
    unfold BinaryOp.ofKind? at h
    split at h <;> cases h <;> constructor

/-- The table of signs and the grammar's rule name the same ones. -/
theorem isSign_iff (kind : Token.Kind) (op : UnaryOp) :
    IsSign kind op ↔ UnaryOp.ofKind? kind = some op := by
  constructor
  · intro h
    cases h <;> rfl
  · intro h
    unfold UnaryOp.ofKind? at h
    split at h <;> cases h <;> constructor

/-- A token that stands for an expression on its own is a primary phrase. -/
theorem phrase_of_ofToken? {t : Token} {e : Expr} (h : Expr.ofToken? t = some e) :
    Phrase .primary [t] e := by
  unfold Expr.ofToken? at h
  split at h
  · next hkind => cases h; exact .falseWord hkind
  · next hkind => cases h; exact .trueWord hkind
  · next hkind => cases h; exact .nilWord hkind
  · next hkind => cases h; exact .number hkind
  · next hkind => cases h; exact .string hkind
  · next hkind => cases h; exact .identifier hkind
  · cases h

/-! ## §2. What is given is derived. -/

/-- A lone variable is a lone identifier. -/
theorem phrase_var {rank : Rank} {ts : List Token} {ref : Ref} (h : Phrase rank ts (.var ref)) :
    ∃ t, ts = [t] ∧ t.kind = .identifier ∧ ref = ⟨t.lexeme, t.line, none⟩ := by
  -- the rules that change the rank keep the tree; every other rule builds another one
  generalize he : Expr.var ref = e at h
  induction h with
  | @identifier t ht =>
    cases he
    exact ⟨t, rfl, ht, rfl⟩
  | primary _ ih => exact ih he
  | operand _ ih => exact ih he
  | tighter _ ih => exact ih he
  | value _ ih => exact ih he
  | _ => cases he

namespace Reader

variable {nested : Reader Expr}

/-- A token on its own, or an expression in parentheses. -/
theorem sound_primary (h : Sound nested (fun us e _ => Phrase .assignment us e)) :
    Sound (primary nested) (fun us e _ => Phrase .primary us e) := by
  unfold primary
  refine (Sound.take?_bind (fun e => Sound.pure e)
    (Sound.accept_bind (h.bind fun inner => .require_bind fun _ => Sound.pure _)
      (sound_fail _))).mono ?_
  rintro us e rest (⟨t, vs, e', rfl, ht, rfl, rfl⟩ | ⟨-, hgroup | ⟨-, hfalse⟩⟩)
  · -- a token of its own, or an expression in parentheses
    exact phrase_of_ofToken? ht
  · obtain ⟨left, _, rfl, hleft, vs, _, inner, rfl, hinner, right, _, rfl, hright, rfl, rfl⟩ :=
      hgroup
    exact .group hleft hinner hright
  · exact hfalse.elim

/-- Arguments and the parenthesis that closes their list. -/
def IsArguments (us : List Token) (es : List Expr) : Prop :=
  ∃ (arguments : List (List Token × Expr)) (vs : List Token) (right : Token),
    (∀ x ∈ arguments, Phrase .assignment x.1 x.2) ∧ Listed arguments vs
      ∧ right.kind = .symbol .rightParen ∧ us = vs ++ [right] ∧ es = arguments.map Prod.snd

/-- A whole argument list, with the line of the parenthesis that opens it. -/
def IsCallSuffix (us : List Token) (call : Int × List Expr) : Prop :=
  ∃ (left : Token) (vs : List Token), left.kind = .symbol .leftParen ∧ us = left :: vs
    ∧ call.1 = left.line ∧ IsArguments vs call.2

/-- Arguments are phrases with commas between them, up to a parenthesis. -/
theorem sound_arguments (h : Sound nested (fun us e _ => Phrase .assignment us e)) :
    Sound (arguments nested) (fun us es _ => IsArguments us es) := by
  unfold arguments
  refine Sound.peek_bind (L := fun _ us es _ => IsArguments us es) ?_
  intro kind
  dsimp only
  -- a closing parenthesis at once means that there are no arguments
  split
  · refine ((Sound.pure []).bind fun es => .require_bind fun _ => Sound.pure es).mono ?_
    rintro us es rest ⟨_, _, _, rfl, ⟨rfl, rfl⟩, right, _, rfl, hright, rfl, rfl⟩
    exact ⟨[], [], right, by simp, Or.inl ⟨rfl, rfl⟩, hright, rfl, rfl⟩
  · refine ((sound_commaList h).bind fun es => .require_bind fun _ => Sound.pure es).mono ?_
    rintro us es rest
      ⟨vs, _, _, rfl, ⟨items, hitems, hjoined, rfl⟩, right, _, rfl, hright, rfl, rfl⟩
    exact ⟨items, vs, right, hitems, Or.inr hjoined, hright, rfl, rfl⟩

/-- Argument lists behind a callee are calls, the first of them innermost. -/
theorem phrase_call_of_repeated {us vs rest : List Token} {callee : Expr}
    {calls : List (Int × List Expr)} (hcallee : Phrase .call us callee)
    (h : Repeated (fun us call _ => IsCallSuffix us call) vs calls rest) :
    Phrase .call (us ++ vs)
      (calls.foldl (fun callee (line, es) => .call line callee es) callee) := by
  induction h generalizing us callee with
  | nil rest =>
    rw [List.append_nil]
    exact hcallee
  | @cons us' vs' rest call calls h _ ih =>
    obtain ⟨line, es⟩ := call
    -- the call so far is the callee of the next argument list
    obtain ⟨left, _, hleft, rfl, rfl, arguments, ws, right, hitems, hlisted, hright, rfl, rfl⟩ := h
    rw [← List.append_assoc, List.foldl_cons]
    exact ih (.call hcallee hleft hitems hlisted hright)

/-- A token of this kind, of which `f` makes something else. -/
theorem kind_eq_of_ite_eq_some {α : Type} {t : Token} {kind : Token.Kind} {f : Token → α} {a : α}
    (h : (if t.kind = kind then some (f t) else none) = some a) : t.kind = kind ∧ a = f t := by
  by_cases hkind : t.kind = kind
  · rw [if_pos hkind] at h
    cases h
    exact ⟨hkind, rfl⟩
  · rw [if_neg hkind] at h
    cases h

/-- A primary phrase, and then every call that follows it. -/
theorem sound_call (h : Sound nested (fun us e _ => Phrase .assignment us e)) :
    Sound (call nested) (fun us e _ => Phrase .call us e) := by
  unfold call
  refine ((sound_primary h).bind fun callee =>
    (sound_many (L := fun us call _ => IsCallSuffix us call) ?_).bind_pure).mono ?_
  · -- a turn of the loop is an argument list
    refine Sound.mono (Sound.take?_bind (fun line => (sound_arguments h).bind_pure)
      (Sound.pure none)) ?_
    rintro us o rest (⟨left, vs, line, rfl, hline, es, rfl, hes⟩ | ⟨-, hnone⟩)
    · obtain ⟨hleft, rfl⟩ := kind_eq_of_ite_eq_some hline
      exact Or.inr ⟨_, rfl, left, vs, hleft, rfl, rfl, hes⟩
    · exact Or.inl hnone
  · rintro us e rest ⟨us₁, us₂, callee, rfl, hcallee, calls, rfl, hcalls⟩
    exact phrase_call_of_repeated (.primary hcallee) hcalls

/-- An operator in front of an operand, with its line. -/
def IsSignToken (us : List Token) (sign : UnaryOp × Int) : Prop :=
  ∃ t : Token, us = [t] ∧ IsSign t.kind sign.1 ∧ sign.2 = t.line

/-- Signs are applied from the inside out, that is from the last one on. -/
theorem phrase_unary_of_repeated {us vs rest : List Token} {operand : Expr}
    {ops : List (UnaryOp × Int)} (hoperand : Phrase .call vs operand)
    (h : Repeated (fun us sign _ => IsSignToken us sign) us ops rest) :
    Phrase .unary (us ++ vs)
      (ops.foldr (fun (op, line) operand => .unary op line operand) operand) := by
  induction h with
  | nil rest => exact .operand hoperand
  | @cons us' vs' rest sign ops h _ ih =>
    obtain ⟨op, line⟩ := sign
    -- the sign belongs in front of all that follows
    obtain ⟨t, rfl, ht, rfl⟩ := h
    rw [List.append_assoc, List.foldr_cons]
    exact .sign ht ih

/-- A row of signs, and then a call. -/
theorem sound_unary (h : Sound nested (fun us e _ => Phrase .assignment us e)) :
    Sound (unary nested) (fun us e _ => Phrase .unary us e) := by
  have hstep : Sound unaryOp?
      (fun us o _ => (us = [] ∧ o = none) ∨ ∃ sign, o = some sign ∧ IsSignToken us sign) := by
    refine (sound_take? _).mono ?_
    rintro us o rest (⟨t, sign, rfl, ht, rfl⟩ | ⟨rfl, rfl, -⟩)
    · obtain ⟨op, hop, rfl⟩ := Option.map_eq_some_iff.1 ht
      exact Or.inr ⟨_, rfl, t, rfl, (isSign_iff _ _).2 hop, rfl⟩
    · exact Or.inl ⟨rfl, rfl⟩
  unfold unary
  refine ((sound_many hstep).bind fun ops => (sound_call h).bind_pure).mono ?_
  rintro us e rest ⟨us₁, us₂, ops, rfl, hops, operand, rfl, hoperand⟩
  exact phrase_unary_of_repeated hoperand hops

/-- An operator of a level with its right operand. -/
def IsRightSide (level : BinaryOp.Level) (us : List Token) (right : BinaryOp × Int × Expr) : Prop :=
  ∃ (t : Token) (vs : List Token), us = t :: vs ∧ IsOperator level t.kind right.1
    ∧ right.2.1 = t.line ∧ Phrase level.operand vs right.2.2

/-- Operands to the right are put together from the left, one at a time. -/
theorem phrase_binary_of_repeated {level : BinaryOp.Level} {us vs rest : List Token}
    {left : Expr} {others : List (BinaryOp × Int × Expr)} (hleft : Phrase (.binary level) us left)
    (h : Repeated (fun us right _ => IsRightSide level us right) vs others rest) :
    Phrase (.binary level) (us ++ vs)
      (others.foldl (fun left (op, line, right) => .binary op line left right) left) := by
  induction h generalizing us left with
  | nil rest =>
    rw [List.append_nil]
    exact hleft
  | @cons us' vs' rest other others h _ ih =>
    obtain ⟨op, line, right⟩ := other
    -- what stands to the left of the next operator is its left operand
    obtain ⟨t, ws, rfl, ht, rfl, hright⟩ := h
    rw [← List.append_assoc, List.foldl_cons]
    exact ih (.operate hleft ht hright)

/-- One level: an operand, and then operators of this level with their operands. -/
theorem sound_binaryAt (level : BinaryOp.Level) {operand : Reader Expr}
    (h : Sound operand (fun us e _ => Phrase level.operand us e)) :
    Sound (binaryAt level operand) (fun us e _ => Phrase (.binary level) us e) := by
  unfold binaryAt
  refine (h.bind fun first =>
    (sound_many (L := fun us right _ => IsRightSide level us right) ?_).bind_pure).mono ?_
  · -- a turn of the loop is an operator and its right side
    refine Sound.mono (Sound.take?_bind (fun sign => h.bind_pure) (Sound.pure none)) ?_
    rintro us o rest (⟨t, vs, sign, rfl, hsign, right, rfl, hright⟩ | ⟨-, hnone⟩)
    · obtain ⟨op, hop, rfl⟩ := Option.map_eq_some_iff.1 hsign
      obtain ⟨hop, hlevel⟩ := Option.filter_eq_some_iff.1 hop
      exact Or.inr ⟨_, rfl, t, vs, rfl,
        (isOperator_iff _ _ _).2 ⟨hop, of_decide_eq_true hlevel⟩, rfl, hright⟩
    · exact Or.inl hnone
  · rintro us e rest ⟨us₁, us₂, first, rfl, hfirst, others, rfl, hothers⟩
    exact phrase_binary_of_repeated (.tighter hfirst) hothers

/-- The levels stand on each other, down to signs. -/
theorem sound_binary (h : Sound nested (fun us e _ => Phrase .assignment us e)) :
    Sound (binary nested) (fun us e _ => Phrase (.binary .disjunction) us e) := by
  have hfactor := sound_binaryAt .factor (sound_unary h)
  have hterm := sound_binaryAt .term hfactor
  have hcomparison := sound_binaryAt .comparison hterm
  have hequality := sound_binaryAt .equality hcomparison
  have hconjunction := sound_binaryAt .conjunction hequality
  exact sound_binaryAt .disjunction hconjunction

/-- A variable in front of an equals sign is assigned to; anything else there is a fault. -/
theorem sound_assignment (h : Sound nested (fun us e _ => Phrase .assignment us e)) :
    Sound (assignment nested) (fun us e _ => Phrase .assignment us e) := by
  unfold assignment
  -- behind the left side, what follows completes it to an assignment or leaves it
  refine ((sound_binary h).bind (M := fun left us e _ => ∀ ts,
    Phrase (.binary .disjunction) ts left → Phrase .assignment (ts ++ us) e) ?_).mono ?_
  · intro left
    refine (sound_get.bind fun s => Sound.accept_bind
      (L := fun us e _ => ∃ target value, left = .var target ∧ Phrase .assignment us value
        ∧ e = .assign target value) ?_ (Sound.pure left)).mono ?_
    · refine (h.bind (M := fun value us e _ => ∃ target, us = [] ∧ left = .var target
        ∧ e = .assign target value) ?_).mono ?_
      · intro value
        -- only a variable can be a target; anything else is a fault
        cases left with
        | var target =>
          refine (Sound.pure _).mono ?_
          rintro us e rest ⟨rfl, rfl⟩
          exact ⟨target, rfl, rfl, rfl⟩
        | _ => exact (Sound.throw _).mono (fun _ _ _ hfalse => hfalse.elim)
      · rintro us e rest ⟨vs, _, value, rfl, hvalue, target, rfl, hleft, rfl⟩
        rw [List.append_nil]
        exact ⟨target, value, hleft, hvalue, rfl⟩
    · rintro us e rest ⟨_, us₂, s, rfl, ⟨rfl, -⟩, hassign | ⟨-, rfl, rfl⟩⟩ ts hts
      · obtain ⟨equal, vs, rfl, hequal, target, value, rfl, hvalue, rfl⟩ := hassign
        -- the target was read as an expression, of which only an identifier gives a variable
        obtain ⟨name, rfl, hname, rfl⟩ := phrase_var hts
        exact .assign hname hequal hvalue
      · rw [List.append_nil, List.append_nil]
        exact .value hts
  · rintro us e rest ⟨us₁, us₂, left, rfl, hleft, hrest⟩
    exact hrest us₁ hleft

/-- Within any budget, what is read as an expression is a phrase. -/
theorem sound_expressionWithin (budget : List Token) :
    Sound (expressionWithin budget) (fun us e _ => Phrase .assignment us e) := by
  induction budget with
  | nil => exact (sound_fail _).mono (fun _ _ _ h => h.elim)
  | cons t budget ih => exact sound_assignment ih

/-- **What is read as an expression is derived as one.** -/
theorem sound_expression : Sound expression (fun us e _ => Phrase .assignment us e) := by
  unfold expression
  refine (sound_rest.bind sound_expressionWithin).mono ?_
  intro us e rest h
  obtain ⟨_, us, budget, rfl, ⟨rfl, -⟩, he⟩ := h
  exact he

/-! ## §3. How expressions begin and end. -/

end Reader

/-- Can an expression of this rank begin with a token of this kind? -/
def Rank.startedBy (rank : Rank) : Token.Kind → Bool
  | .keyword .falseKw | .keyword .trueKw | .keyword .nilKw | .number _ | .string _
  | .identifier | .symbol .leftParen => true
  | .symbol .bang | .symbol .minus => rank ≠ .primary ∧ rank ≠ .call
  | _ => false

/-- A phrase has a first token, of a kind by which phrases of its rank start. -/
theorem Phrase.startedBy {rank : Rank} {ts : List Token} {e : Expr} (h : Phrase rank ts e) :
    ∃ t us, ts = t :: us ∧ rank.startedBy t.kind = true := by
  induction h with
  | @falseWord t ht => exact ⟨t, [], rfl, by rw [ht]; rfl⟩
  | @trueWord t ht => exact ⟨t, [], rfl, by rw [ht]; rfl⟩
  | @nilWord t ht => exact ⟨t, [], rfl, by rw [ht]; rfl⟩
  | @number t x ht => exact ⟨t, [], rfl, by rw [ht]; rfl⟩
  | @string t s ht => exact ⟨t, [], rfl, by rw [ht]; rfl⟩
  | @identifier t ht => exact ⟨t, [], rfl, by rw [ht]; rfl⟩
  | @group left right ts e hleft _ _ _ => exact ⟨left, ts ++ [right], rfl, by rw [hleft]; rfl⟩
  | primary _ ih => exact ih
  | @call left right ts us callee arguments _ _ _ _ _ ih _ =>
    obtain ⟨t, vs, rfl, ht⟩ := ih
    exact ⟨t, vs ++ left :: (us ++ [right]), rfl, ht⟩
  | operand _ ih =>
    -- more tokens can begin an operand than a call
    obtain ⟨t, vs, rfl, ht⟩ := ih
    refine ⟨t, vs, rfl, ?_⟩
    revert ht
    unfold Rank.startedBy
    split <;> simp
  | @sign t op ts e ht _ _ =>
    refine ⟨t, ts, rfl, ?_⟩
    generalize t.kind = kind at ht
    cases ht <;> rfl
  | @tighter level ts e _ ih => cases level <;> exact ih
  | @operate level op t ts us left right _ _ _ ih _ =>
    obtain ⟨t', vs, rfl, ht'⟩ := ih
    exact ⟨t', vs ++ t :: us, rfl, ht'⟩
  | value _ ih => exact ih
  | @assign name equal ts e hname _ _ _ => exact ⟨name, equal :: ts, rfl, by rw [hname]; rfl⟩

/-- How tightly a level binds. -/
def BinaryOp.Level.tightness : BinaryOp.Level → Nat
  | .disjunction => 0
  | .conjunction => 1
  | .equality => 2
  | .comparison => 3
  | .term => 4
  | .factor => 5

/-- Could a token of this kind, behind an expression of this rank, belong to it? -/
def Rank.continuedBy (rank : Rank) (kind : Token.Kind) : Bool :=
  match rank with
  | .primary => false
  | .call | .unary => kind = .symbol .leftParen
  | .binary level =>
      kind = .symbol .leftParen
        || (BinaryOp.ofKind? kind).any (level.tightness ≤ ·.level.tightness)
  | .assignment =>
      kind = .symbol .leftParen || kind = .symbol .equal || (BinaryOp.ofKind? kind).isSome

/-- Nothing of `rest` could belong to an expression of this rank in front of it. -/
def Stops (rank : Rank) (rest : List Token) : Prop :=
  ∀ t ∈ rest.head?, rank.continuedBy t.kind = false

/-- A phrase stops at a token by which it cannot go on. -/
theorem stops_cons {rank : Rank} {t : Token} (ts : List Token)
    (h : rank.continuedBy t.kind = false) : Stops rank (t :: ts) := by
  intro t' ht'
  cases ht'
  exact h

/-- What ends an assignment ends its operands, too. -/
theorem Stops.disjunction {rest : List Token} (h : Stops .assignment rest) :
    Stops (.binary .disjunction) rest := by
  intro t ht
  have hstop := h t ht
  simp only [Rank.continuedBy, Bool.or_eq_false_iff] at hstop ⊢
  refine ⟨hstop.1.1, ?_⟩
  cases hop : BinaryOp.ofKind? t.kind with
  | none => rfl
  | some op =>
    rw [hop] at hstop
    cases hstop.2

/-- What ends operands of a level ends those of the next one, which go on by less. -/
theorem Stops.operand {level : BinaryOp.Level} {rest : List Token}
    (h : Stops (.binary level) rest) : Stops level.operand rest := by
  intro t ht
  have hstop := h t ht
  simp only [Rank.continuedBy, Bool.or_eq_false_iff] at hstop
  cases hop : BinaryOp.ofKind? t.kind with
  | none => cases level <;> simp [BinaryOp.Level.operand, Rank.continuedBy, hop, hstop.1]
  | some op =>
    -- the operator is of a looser level, and then looser than the operand as well
    have hloose := hstop.2
    rw [hop] at hloose
    simp only [Option.any_some, decide_eq_false_iff_not] at hloose
    revert hloose
    cases level <;>
      simp only [BinaryOp.Level.operand, Rank.continuedBy, hop, hstop.1, Option.any_some,
        Bool.false_or, decide_eq_false_iff_not] <;>
      cases op.level <;> decide

/-- An item of a list ends at a comma, or at the token that ends the list. -/
theorem stops_item {t : Token} {rest rest' : List Token}
    (ht : Rank.assignment.continuedBy t.kind = false)
    (h : rest' = t :: rest ∨ ∃ c ∈ rest'.head?, c.kind = .symbol .comma) :
    Stops .assignment rest' := by
  rcases h with rfl | ⟨c, hc, hcomma⟩
  · exact stops_cons rest ht
  · intro c' hc'
    rw [Option.mem_unique hc' hc, hcomma]
    rfl

/-- An operator ends the operand in front of it. -/
theorem stops_of_isOperator {level : BinaryOp.Level} {op : BinaryOp} {t : Token}
    (h : IsOperator level t.kind op) (ts : List Token) : Stops level.operand (t :: ts) := by
  refine stops_cons ts ?_
  generalize t.kind = kind at h
  cases h <;> rfl

/-- Behind an expression of a level, no operator of the level is left. -/
theorem Stops.no_operator {level : BinaryOp.Level} {rest : List Token}
    (h : Stops (.binary level) rest) :
    ∀ t ∈ rest.head?, (BinaryOp.ofKind? t.kind).filter (·.level = level) = none := by
  intro t ht
  have hstop := h t ht
  simp only [Rank.continuedBy, Bool.or_eq_false_iff] at hstop
  rw [Option.filter_eq_none_iff]
  intro op hop hlevel
  -- an operator of this very level would go on with the expression
  rw [hop] at hstop
  simp only [Option.any_some, decide_eq_false_iff_not, decide_eq_true_eq] at hstop hlevel
  rw [hlevel] at hstop
  omega

/-- No item of a list is longer than the list. -/
theorem Joined.length_le {α : Type} {items : List (List Token × α)} {us : List Token}
    (h : Joined items us) : ∀ x ∈ items, x.1.length ≤ us.length := by
  induction h with
  | one x =>
    intro y hy
    cases List.mem_singleton.1 hy
    exact Nat.le_refl _
  | cons x hcomma _ ih =>
    intro y hy
    rw [List.length_append, List.length_cons]
    rcases List.mem_cons.1 hy with rfl | hy
    · omega
    · have hle := ih y hy
      omega

/-- A list begins as its first item does. -/
theorem Joined.startedBy {items : List (List Token × Expr)} {us : List Token}
    (h : Joined items us) (hitems : ∀ x ∈ items, Phrase .assignment x.1 x.2) :
    ∃ t vs, us = t :: vs ∧ Rank.assignment.startedBy t.kind = true := by
  cases h with
  | one x => exact (hitems x List.mem_cons_self).startedBy
  | @cons x comma items us hcomma _ =>
    obtain ⟨t, vs, hx, ht⟩ := (hitems x List.mem_cons_self).startedBy
    exact ⟨t, vs ++ comma :: us, by rw [hx]; rfl, ht⟩

/-! ## §4. What is derived is given. -/

namespace Reader

variable {nested : Reader Expr} {n : Nat}

/-- The reader gives every expression of this rank that has at most `n` tokens, if the
next token could not go on with it. -/
def Complete (r : Reader Expr) (rank : Rank) (n : Nat) : Prop :=
  ∀ ⦃ts : List Token⦄ ⦃e : Expr⦄ ⦃rest : List Token⦄, Phrase rank ts e → ts.length ≤ n →
    Stops rank rest → Reads r (ts ++ rest) e rest

/-- A primary phrase is read, and the phrase nested in it is shorter by a token at least. -/
theorem complete_primary (h : Complete nested .assignment n) :
    Complete (primary nested) .primary (n + 1) := by
  intro ts e rest hphrase hlen _
  have htoken : ∀ {t : Token}, Expr.ofToken? t = some e →
      Reads (primary nested) ([t] ++ rest) e rest := by
    intro t ht
    unfold primary
    exact (reads_take?_some ht rest).bind (.pure _ _)
  cases hphrase with
  | falseWord ht => exact htoken (by simp only [Expr.ofToken?, ht])
  | trueWord ht => exact htoken (by simp only [Expr.ofToken?, ht])
  | nilWord ht => exact htoken (by simp only [Expr.ofToken?, ht])
  | number ht => exact htoken (by simp only [Expr.ofToken?, ht])
  | string ht => exact htoken (by simp only [Expr.ofToken?, ht])
  | identifier ht => exact htoken (by simp only [Expr.ofToken?, ht])
  | @group left right us inner hleft hinner hright =>
    simp only [List.length_cons, List.length_append, List.length_nil] at hlen
    -- the inner expression is shorter by the two parentheses
    have hread : Reads nested (us ++ right :: rest) inner (right :: rest) :=
      h hinner (by omega) (stops_cons rest (by rw [hright]; rfl))
    rw [List.cons_append, List.append_assoc]
    unfold primary
    refine (reads_take?_none ?_).bind ((reads_accept_true hleft _).bind ?_)
    · intro t ht
      cases ht
      simp only [Expr.ofToken?, hleft]
    · exact hread.bind ((reads_require hright _ rest).bind (.pure _ _))

/-- Arguments are read up to their parenthesis. -/
theorem reads_arguments (h : Complete nested .assignment n) {us rest : List Token} {right : Token}
    {items : List (List Token × Expr)} (hitems : ∀ x ∈ items, Phrase .assignment x.1 x.2)
    (hus : Listed items us) (hlen : us.length ≤ n) (hright : right.kind = .symbol .rightParen) :
    Reads (arguments nested) (us ++ right :: rest) (items.map Prod.snd) rest := by
  unfold arguments
  refine (reads_peek _).bind ?_
  rcases hus with ⟨rfl, rfl⟩ | hus
  · have hpeek : (([] ++ right :: rest).head?).map Token.kind = some (.symbol .rightParen) := by
      simp [hright]
    dsimp only
    rw [if_pos hpeek]
    exact (Reads.pure _ _).bind ((reads_require hright _ rest).bind (.pure _ _))
  · -- an argument does not begin with a closing parenthesis
    obtain ⟨t, vs, rfl, ht⟩ := hus.startedBy hitems
    have hpeek : (t :: vs ++ right :: rest).head?.map Token.kind ≠ some (.symbol .rightParen) := by
      intro hkind
      rw [Option.some.inj hkind] at ht
      cases ht
    dsimp only
    rw [if_neg hpeek]
    refine (reads_commaList ?_ ?_ hus).bind ((reads_require hright _ rest).bind (.pure _ _))
    · intro x hx rest' hrest'
      refine h (hitems x hx) (Nat.le_trans (hus.length_le x hx) hlen) ?_
      exact stops_item (by rw [hright]; rfl) hrest'
    · intro t' ht'
      cases ht'
      rw [hright]
      decide

/-- The loop over argument lists in `call`. -/
def callSuffix? (nested : Reader Expr) : Reader (Option (Int × List Expr)) := do
  match ← callLine? with
  | some line => return some (line, ← arguments nested)
  | none => return none

/-- A call in front of further argument lists is its innermost callee in front of more. -/
theorem exists_callee (h : Complete nested .assignment n) {ts : List Token} {e : Expr}
    (hphrase : Phrase .call ts e) :
    ts.length ≤ n + 1 → ∀ {rest rest' : List Token} {calls : List (Int × List Expr)},
      Turns (callSuffix? nested) rest calls rest' →
      ∃ callee calls' mid, Reads (primary nested) (ts ++ rest) callee mid
        ∧ Turns (callSuffix? nested) mid calls' rest'
        ∧ calls'.foldl (fun callee (line, es) => Expr.call line callee es) callee
          = calls.foldl (fun callee (line, es) => Expr.call line callee es) e := by
  -- by induction on the call: its callee has one argument list less, and one turn more behind it
  generalize hrank : Rank.call = rank at hphrase
  induction hphrase with
  | @primary ts e hprimary =>
    intro hlen rest rest' calls hturns
    have hstops : Stops .primary rest := fun _ _ => rfl
    exact ⟨e, calls, rest, complete_primary h hprimary hlen hstops, hturns, rfl⟩
  | @call left right ts us callee arguments hcallee hleft hitems hus hright ih _ =>
    intro hlen rest rest' calls hturns
    simp only [List.length_append, List.length_cons, List.length_nil] at hlen
    -- the last argument list is one more turn
    have hsuffix : Reads (callSuffix? nested) (left :: (us ++ right :: rest))
        (some (left.line, arguments.map Prod.snd)) rest := by
      unfold callSuffix? callLine?
      refine (reads_take?_some (by rw [if_pos hleft]) _).bind ?_
      exact (reads_arguments h hitems hus (by omega) hright).bind (.pure _ _)
    have hshorter : rest.length < (left :: (us ++ right :: rest)).length := by
      rw [List.length_cons, List.length_append, List.length_cons]
      omega
    have hmore := Turns.more hsuffix hshorter hturns
    obtain ⟨callee', calls', mid, hread, hturns', hfold⟩ := ih rfl (by omega) hmore
    refine ⟨callee', calls', mid, ?_, hturns', hfold⟩
    simpa using hread
  | _ => cases hrank

/-- All calls are taken, since a call goes on at every parenthesis. -/
theorem complete_call (h : Complete nested .assignment n) :
    Complete (call nested) .call (n + 1) := by
  intro ts e rest hphrase hlen hstops
  -- behind the call no argument list follows
  have hdone : Turns (callSuffix? nested) rest [] rest := by
    refine .done ?_
    unfold callSuffix? callLine?
    refine (reads_take?_none ?_).bind (.pure _ _)
    intro t ht
    rw [if_neg (of_decide_eq_false (hstops t ht))]
  obtain ⟨callee, calls, mid, hread, hturns, hfold⟩ := exists_callee h hphrase hlen hdone
  rw [List.foldl_nil] at hfold
  rw [← hfold]
  unfold call
  exact hread.bind (hturns.reads_many.bind (.pure _ _))

/-- All signs are taken, since an operand begins with none. -/
theorem complete_unary (h : Complete nested .assignment n) :
    Complete (unary nested) .unary (n + 1) := by
  intro ts e rest hphrase hlen hstops
  suffices hsigns : ∃ ops mid operand, Turns unaryOp? (ts ++ rest) ops mid
      ∧ Reads (call nested) mid operand rest
      ∧ ops.foldr (fun (op, line) operand => Expr.unary op line operand) operand = e by
    obtain ⟨ops, mid, operand, hturns, hread, rfl⟩ := hsigns
    unfold unary
    exact hturns.reads_many.bind (hread.bind (.pure _ _))
  generalize hrank : Rank.unary = rank at hphrase
  induction hphrase with
  | @operand ts e hcall =>
    refine ⟨[], ts ++ rest, e, .done ?_, complete_call h hcall hlen hstops, rfl⟩
    -- a call does not begin with a sign
    obtain ⟨t, us, rfl, ht⟩ := hcall.startedBy
    refine reads_take?_none ?_
    intro t' ht'
    cases ht'
    cases hop : UnaryOp.ofKind? t.kind with
    | none => rfl
    | some op =>
      have hsign := (isSign_iff _ _).2 hop
      generalize t.kind = kind at ht hsign
      cases hsign <;> cases ht
  | @sign t op ts e ht _ ih =>
    simp only [List.length_cons] at hlen
    -- a sign is one more turn in front
    obtain ⟨ops, mid, operand, hturns, hread, hfold⟩ := ih (by omega) rfl
    refine ⟨(op, t.line) :: ops, mid, operand, .more ?_ ?_ hturns, hread, ?_⟩
    · exact reads_take?_some (by rw [(isSign_iff _ _).1 ht]; rfl) _
    · simp
    · rw [List.foldr_cons, hfold]
  | _ => cases hrank

/-- The loop over operators of a level in `binaryAt`. -/
def rightSide? (level : BinaryOp.Level) (operand : Reader Expr) :
    Reader (Option (BinaryOp × Int × Expr)) := do
  match ← binaryOp? level with
  | some (op, line) => return some (op, line, ← operand)
  | none => return none

/-- An expression of a level in front of further operators of the level is its first
operand in front of more. -/
theorem exists_first_operand {level : BinaryOp.Level} {operand : Reader Expr}
    (h : Complete operand level.operand n) {ts : List Token} {e : Expr}
    (hphrase : Phrase (.binary level) ts e) :
    ts.length ≤ n → ∀ {rest rest' : List Token} {others : List (BinaryOp × Int × Expr)},
      Stops level.operand rest → Turns (rightSide? level operand) rest others rest' →
      ∃ first others' mid, Reads operand (ts ++ rest) first mid
        ∧ Turns (rightSide? level operand) mid others' rest'
        ∧ others'.foldl (fun left (op, line, right) => Expr.binary op line left right) first
          = others.foldl (fun left (op, line, right) => Expr.binary op line left right) e := by
  -- by induction on the left operand, as for calls
  generalize hrank : Rank.binary level = rank at hphrase
  induction hphrase with
  | @tighter level ts e hoperand =>
    cases hrank
    intro hlen rest rest' others hstops hturns
    exact ⟨e, others, rest, h hoperand hlen hstops, hturns, rfl⟩
  | @operate level op t ts us left right _ ht hright ih _ =>
    cases hrank
    intro hlen rest rest' others hstops hturns
    simp only [List.length_append, List.length_cons] at hlen
    -- the last operator and its right operand are one more turn
    have hside : Reads (rightSide? level operand) (t :: (us ++ rest)) (some (op, t.line, right))
        rest := by
      have hop : ((BinaryOp.ofKind? t.kind).filter (·.level = level)).map (·, t.line)
          = some (op, t.line) := by
        obtain ⟨hop, hlevel⟩ := (isOperator_iff _ _ _).1 ht
        rw [hop, Option.filter_some, if_pos (decide_eq_true hlevel)]
        rfl
      unfold rightSide? binaryOp?
      exact (reads_take?_some hop _).bind ((h hright (by omega) hstops).bind (.pure _ _))
    have hshorter : rest.length < (t :: (us ++ rest)).length := by
      rw [List.length_cons, List.length_append]
      omega
    have hmore := Turns.more hside hshorter hturns
    obtain ⟨first, others', mid, hread, hturns', hfold⟩ :=
      ih rfl (by omega) (stops_of_isOperator ht _) hmore
    refine ⟨first, others', mid, ?_, hturns', hfold⟩
    simpa using hread
  | _ => cases hrank

/-- All operands of a level are taken, since each stops at the next operator. -/
theorem complete_binaryAt (level : BinaryOp.Level) {operand : Reader Expr}
    (h : Complete operand level.operand n) :
    Complete (binaryAt level operand) (.binary level) n := by
  intro ts e rest hphrase hlen hstops
  -- behind the expression no operator of the level follows
  have hdone : Turns (rightSide? level operand) rest [] rest := by
    refine .done ?_
    unfold rightSide? binaryOp?
    refine (reads_take?_none ?_).bind (.pure _ _)
    intro t ht
    rw [hstops.no_operator t ht]
    rfl
  obtain ⟨first, others, mid, hread, hturns, hfold⟩ :=
    exists_first_operand h hphrase hlen hstops.operand hdone
  rw [List.foldl_nil] at hfold
  rw [← hfold]
  unfold binaryAt
  exact hread.bind (hturns.reads_many.bind (.pure _ _))

/-- The levels are complete, one on top of the other. -/
theorem complete_binary (h : Complete nested .assignment n) :
    Complete (binary nested) (.binary .disjunction) (n + 1) := by
  have hfactor := complete_binaryAt .factor (complete_unary h)
  have hterm := complete_binaryAt .term hfactor
  have hcomparison := complete_binaryAt .comparison hterm
  have hequality := complete_binaryAt .equality hcomparison
  have hconjunction := complete_binaryAt .conjunction hequality
  exact complete_binaryAt .disjunction hconjunction

/-- A phrase is read as an assignment exactly if an equals sign follows its variable. -/
theorem complete_assignment (h : Complete nested .assignment n) :
    Complete (assignment nested) .assignment (n + 1) := by
  intro ts e rest hphrase hlen hstops
  unfold assignment
  cases hphrase with
  | value hvalue =>
    -- no equals sign follows, so that the left side is all there is
    refine (complete_binary h hvalue hlen hstops.disjunction).bind ?_
    refine Reads.get_bind fun _ _ => ?_
    refine (reads_accept_false ?_).bind (.pure _ _)
    intro t ht hequal
    have hstop := hstops t ht
    rw [hequal] at hstop
    cases hstop
  | @assign name equal us value hname hequal hvalue =>
    simp only [List.length_cons] at hlen
    -- the target alone is read as an expression of the loosest level
    have htarget : Phrase (.binary .disjunction) [name] (.var ⟨name.lexeme, name.line, none⟩) :=
      .tighter (.tighter (.tighter (.tighter (.tighter (.tighter
        (.operand (.primary (.identifier hname))))))))
    refine (complete_binary h htarget (by simp) (stops_cons (us ++ rest) ?_)).bind ?_
    · rw [hequal]
      rfl
    refine Reads.get_bind fun _ _ => ?_
    refine (reads_accept_true hequal _).bind ?_
    exact (h hvalue (by omega) hstops).bind (.pure _ _)

/-- A budget as long as a phrase is enough to read it. -/
theorem complete_expressionWithin (budget : List Token) :
    Complete (expressionWithin budget) .assignment budget.length := by
  induction budget with
  | nil =>
    intro ts e rest hphrase hlen _
    -- no expression is empty
    obtain ⟨t, us, rfl, -⟩ := hphrase.startedBy
    simp at hlen
  | cons t budget ih => exact complete_assignment ih

/-- **What is derived as an expression is read as one**, in front of a token that could
not go on with it. -/
theorem reads_expression {ts rest : List Token} {e : Expr} (h : Phrase .assignment ts e)
    (hstops : Stops .assignment rest) : Reads expression (ts ++ rest) e rest := by
  unfold expression
  refine (reads_rest _).bind ?_
  exact complete_expressionWithin _ h (by simp) hstops

end Reader

end LoxLang
