/-
  LoxLang.Proofs.Scope.Verdict
  ────────────────────────────
  **What the resolver refuses.**  The statements of a program are listed in the order of
  the text, each with whether it is inside of a function (`occurrences`).  Which of them
  are to be refused is said of each one alone (`Refused`); the resolver has to go through
  all of them, with a count of the functions around.

  Main results:
    * `resolve_eq_error_iff`  — the error is that of the first statement that is to be
                                refused,
    * `resolve_refuses_iff`   — there is one if and only if a return is in no function, or
                                the parameters of a function are not distinct,
    * `resolvers_are_reusable` — a resolver that has been used, with whatever result, is as
                                good as new.
-/
import LoxLang.Proofs.Scope.TopLevel

namespace LoxLang

/-! ## §1. Statements in the order of the text. -/

/-- A statement in its place: inside of a function, or outside of all. -/
structure Occurrence where
  stmt : Stmt
  inFunction : Bool

mutual

/-- A statement in front of all that is inside of it, in the order of the text. -/
def Stmt.occurrences (inFunction : Bool) : Stmt → List Occurrence
  | .ifThen c t => ⟨.ifThen c t, inFunction⟩ :: t.occurrences inFunction
  | .ifElse c t u =>
      ⟨.ifElse c t u, inFunction⟩ :: (t.occurrences inFunction ++ u.occurrences inFunction)
  | .block body => ⟨.block body, inFunction⟩ :: Stmt.occurrencesAll inFunction body
  | .whileLoop c t => ⟨.whileLoop c t, inFunction⟩ :: t.occurrences inFunction
  | .funDecl name line params body =>
      ⟨.funDecl name line params body, inFunction⟩ :: Stmt.occurrencesAll true body
  | s => [⟨s, inFunction⟩]

/-- The same for several statements, one after the other. -/
def Stmt.occurrencesAll (inFunction : Bool) : List Stmt → List Occurrence
  | [] => []
  | s :: body => s.occurrences inFunction ++ Stmt.occurrencesAll inFunction body

end

/-- The statement is to be refused where it stands, with this error. -/
inductive Occurrence.Refused : Occurrence → ResolveError → Prop
  /-- A return that is in no function. -/
  | topLevelReturn {line : Int} {value : Expr} :
      Refused ⟨.ret line value, false⟩ ⟨.topLevelReturn, line⟩
  /-- A parameter that repeats one of those before it, which are distinct. -/
  | repeatedParameter {name parameter : String} {line : Int} {before after : List String}
      {body : List Stmt} {inFunction : Bool} (distinct : before.Nodup)
      (again : parameter ∈ before) :
      Refused ⟨.funDecl name line (before ++ parameter :: after) body, inFunction⟩
        ⟨.repeatedParameter parameter name, line⟩

/-! ## §2. Repeated parameters. -/

/-- The first repeated parameter: those in front of it are distinct and new, and it is not. -/
theorem firstRepeated?_eq_some_iff {p : String} : ∀ {params seen : List String},
    firstRepeated? seen params = some p ↔ ∃ before after, params = before ++ p :: after
      ∧ before.Nodup ∧ (∀ q ∈ before, q ∉ seen) ∧ (p ∈ seen ∨ p ∈ before) := by
  intro params
  induction params with
  | nil =>
    intro seen
    simp [firstRepeated?]
  | cons q params ih =>
    intro seen
    unfold firstRepeated?
    by_cases hq : q ∈ seen
    · rw [if_pos hq]
      constructor
      · rintro ⟨⟩
        exact ⟨[], params, rfl, .nil, nofun, .inl hq⟩
      · rintro ⟨before, after, hparams, -, hnew, -⟩
        cases before with
        | nil => rw [(List.cons.inj hparams).1]
        | cons b before =>
          obtain ⟨rfl, -⟩ := List.cons.inj hparams
          exact absurd hq (hnew q List.mem_cons_self)
    · rw [if_neg hq, ih]
      constructor
      · rintro ⟨before, after, rfl, hnodup, hnew, hagain⟩
        refine ⟨q :: before, after, rfl, ?_, ?_, ?_⟩
        · exact List.nodup_cons.2 ⟨fun hmem => hnew q hmem List.mem_cons_self, hnodup⟩
        · intro b hb
          rcases List.mem_cons.1 hb with rfl | hb
          · exact hq
          · exact fun hseen => hnew b hb (List.mem_cons_of_mem q hseen)
        · grind
      · rintro ⟨before, after, hparams, hnodup, hnew, hagain⟩
        cases before with
        | nil =>
          -- then `q` itself would have been seen
          obtain ⟨rfl, -⟩ := List.cons.inj hparams
          exact absurd (hagain.resolve_right List.not_mem_nil) hq
        | cons b before =>
          obtain ⟨rfl, rfl⟩ := List.cons.inj hparams
          obtain ⟨hfresh, hnodup⟩ := List.nodup_cons.1 hnodup
          refine ⟨before, after, rfl, hnodup, ?_, ?_⟩
          · grind
          · grind

/-- Distinct parameters, and no others, have none that is repeated. -/
theorem firstRepeated?_eq_none_iff : ∀ {params seen : List String},
    firstRepeated? seen params = none ↔ params.Nodup ∧ ∀ p ∈ params, p ∉ seen := by
  intro params
  induction params with
  | nil =>
    intro seen
    simp [firstRepeated?]
  | cons q params ih =>
    intro seen
    unfold firstRepeated?
    by_cases hq : q ∈ seen
    · simp [hq]
    · rw [if_neg hq, ih, List.nodup_cons, List.forall_mem_cons]
      constructor
      · rintro ⟨hnodup, hnew⟩
        refine ⟨⟨fun hmem => hnew q hmem List.mem_cons_self, hnodup⟩, hq, ?_⟩
        exact fun p hp hseen => hnew p hp (List.mem_cons_of_mem q hseen)
      · rintro ⟨⟨hfresh, hnodup⟩, -, hnew⟩
        refine ⟨hnodup, fun p hp hseen => ?_⟩
        rcases List.mem_cons.1 hseen with rfl | hseen
        · exact hfresh hp
        · exact hnew p hp hseen

/-! ## §3. What the resolver says. -/

/-- The error for which a statement is refused where it stands. -/
def Occurrence.refusal? (o : Occurrence) : Option ResolveError :=
  match o.stmt with
  | .ret line _ => if o.inFunction then none else some ⟨.topLevelReturn, line⟩
  | .funDecl name line params _ =>
      (firstRepeated? [] params).map fun p => ⟨.repeatedParameter p name, line⟩
  | _ => none

/-- What the resolver checks at a node is what it is to be refused for. -/
theorem Occurrence.refusal?_eq_some_iff {o : Occurrence} {e : ResolveError} :
    o.refusal? = some e ↔ o.Refused e := by
  constructor
  · intro h
    obtain ⟨s, inFunction⟩ := o
    cases s with
    | ret line value =>
      cases inFunction with
      | true => cases h
      | false =>
        cases h
        exact .topLevelReturn
    | funDecl name line params body =>
      obtain ⟨p, hp, rfl⟩ := Option.map_eq_some_iff.1 h
      obtain ⟨before, after, rfl, hnodup, -, hagain⟩ := firstRepeated?_eq_some_iff.1 hp
      exact .repeatedParameter hnodup (hagain.resolve_left List.not_mem_nil)
    | _ => cases h
  · intro h
    cases h with
    | topLevelReturn => rfl
    | @repeatedParameter name p line before after body inFunction hnodup hagain =>
      have hfirst : firstRepeated? [] (before ++ p :: after) = some p :=
        firstRepeated?_eq_some_iff.2 ⟨before, after, rfl, hnodup, nofun, .inr hagain⟩
      exact Option.map_eq_some_iff.2 ⟨p, hfirst, rfl⟩

/-- The error of an attempt that was refused. -/
def refusalOf {α : Type} : Except ResolveError α → Option ResolveError
  | .ok _ => none
  | .error e => some e

namespace Resolve

variable {α β : Type} {inFunction : Bool} {first second : Option ResolveError}

/-- Inside of a function or outside of all, the attempt is refused with this error, or it
succeeds if there is none; and it leaves the resolver as deep in functions as it was. -/
def Judges (inFunction : Bool) (refusal : Option ResolveError) (x : Resolve α) : Prop :=
  ∀ r : Resolver, inFunction = decide (r.functionDepth ≠ 0) →
    refusalOf (x r).1 = refusal ∧ (x r).2.functionDepth = r.functionDepth

theorem Judges.pure (a : α) : Judges inFunction none (pure a : Resolve α) :=
  fun _ _ => ⟨rfl, rfl⟩

/-- A refusal is the first one, since nothing is judged behind it. -/
theorem Judges.throw (e : ResolveError) : Judges inFunction (some e) (throw e : Resolve α) :=
  fun _ _ => ⟨rfl, rfl⟩

/-- What comes first is refused first. -/
theorem Judges.bind {x : Resolve α} {f : α → Resolve β} (h : Judges inFunction first x)
    (hf : ∀ a, Judges inFunction second (f a)) : Judges inFunction (first.or second) (x >>= f) := by
  intro r hr
  obtain ⟨hfirst, hdepth⟩ := h r hr
  rcases hx : x r with ⟨e | a, r'⟩
  · rw [hx] at hfirst hdepth
    rw [Attempt.bind_error hx, ← hfirst]
    exact ⟨rfl, hdepth⟩
  · rw [hx] at hfirst hdepth
    rw [Attempt.bind_ok hx, ← hfirst]
    have hr' : inFunction = decide (r'.functionDepth ≠ 0) := by
      rw [show r'.functionDepth = r.functionDepth from hdepth]
      exact hr
    obtain ⟨hsecond, hdepth'⟩ := hf a r' hr'
    exact ⟨hsecond, hdepth'.trans hdepth⟩

/-- Nothing is refused in what is done with the result. -/
theorem Judges.map {x : Resolve α} (h : Judges inFunction first x) (f : α → β) :
    Judges inFunction first (x >>= fun a => Pure.pure (f a)) := by
  have hbind := h.bind fun a => Judges.pure (f a)
  rw [Option.or_none] at hbind
  exact hbind

/-- What is done may depend on the resolver. -/
theorem Judges.get_bind {f : Resolver → Resolve β}
    (hf : ∀ r, inFunction = decide (r.functionDepth ≠ 0) → Judges inFunction first (f r)) :
    Judges inFunction first (get >>= f) :=
  fun r hr => hf r hr r hr

/-- Expressions are never refused. -/
theorem judges_expr (e : Expr) : Judges inFunction none (expr e) :=
  fun _ _ => ⟨rfl, rfl⟩

theorem judges_exprs (es : List Expr) : Judges inFunction none (exprs es) :=
  fun _ _ => ⟨rfl, rfl⟩

theorem judges_declare (name : String) : Judges inFunction none (declare name) :=
  fun r _ => ⟨rfl, (unwinds_declare name r).1⟩

/-- A block is judged as its body. -/
theorem judges_inBlock {x : Resolve α} (hx : Unwinds x) (h : Judges inFunction first x) :
    Judges inFunction first (inBlock x) := by
  intro r hr
  rw [← functionDepth_enterBlock r] at hr
  obtain ⟨hfirst, -⟩ := h r.enterBlock hr
  rw [inBlock_apply hx]
  exact ⟨hfirst, rfl⟩

/-- Whatever is around a function, its body is inside of one. -/
theorem judges_inFunction {x : Resolve α} (hx : Unwinds x) (h : Judges true first x)
    (name : String) (params : List String) :
    Judges inFunction first (Resolve.inFunction name params x) := by
  intro r _
  have hinside : true = decide ((r.enterFunction name params).functionDepth ≠ 0) := by
    rw [decide_eq_true]
    exact Nat.succ_ne_zero _
  obtain ⟨hfirst, -⟩ := h (r.enterFunction name params) hinside
  exact ⟨hfirst, congrArg Resolver.functionDepth (inFunction_state hx name params r)⟩

end Resolve

open Resolve

mutual

/-- **A statement is refused for the first reason that there is in it.** -/
theorem judges_resolve : ∀ (s : Stmt) (inFunction : Bool),
    Judges inFunction ((s.occurrences inFunction).findSome? Occurrence.refusal?) s.resolve
  | .expr e, _ => by
    unfold Stmt.resolve
    exact (judges_expr e).map _
  | .print es, _ => by
    unfold Stmt.resolve
    exact (judges_exprs es).map _
  | .ifThen c t, inFunction => by
    unfold Stmt.resolve
    exact (judges_expr c).bind fun _ => (judges_resolve t inFunction).map _
  | .ifElse c t u, inFunction => by
    unfold Stmt.resolve
    show Judges inFunction (List.findSome? Occurrence.refusal?
      (t.occurrences inFunction ++ u.occurrences inFunction)) _
    rw [List.findSome?_append]
    exact (judges_expr c).bind fun _ => (judges_resolve t inFunction).bind fun _ =>
      (judges_resolve u inFunction).map _
  | .block body, inFunction => by
    unfold Stmt.resolve
    exact (judges_inBlock (unwinds_resolveAll body) (judges_resolveAll body inFunction)).map _
  | .varDecl name line initial, _ => by
    unfold Stmt.resolve
    exact (judges_expr initial).bind fun _ => (judges_declare name).map _
  | .whileLoop c t, inFunction => by
    unfold Stmt.resolve
    exact (judges_expr c).bind fun _ => (judges_resolve t inFunction).map _
  | .funDecl name line params body, inFunction => by
    unfold Stmt.resolve
    unfold Stmt.occurrences
    rw [List.findSome?_cons]
    unfold Occurrence.refusal?
    dsimp only
    -- the parameters are looked at before the body
    cases firstRepeated? [] params with
    | some p => exact .throw _
    | none =>
      have hbody : Judges inFunction _ (Resolve.inFunction name params (Stmt.resolveAll body)) :=
        judges_inFunction (unwinds_resolveAll body) (judges_resolveAll body true) name params
      have hrest : ∀ body', Judges inFunction none (do
          declare name
          return Stmt.funDecl name line params body') := fun _ => (judges_declare name).map _
      have h := hbody.bind hrest
      rw [Option.or_none] at h
      exact h
  | .ret line value, inFunction => by
    unfold Stmt.resolve
    refine .get_bind fun r hr => ?_
    by_cases hdepth : r.functionDepth = 0
    · rw [if_pos hdepth, hr, hdepth]
      exact .throw _
    · rw [if_neg hdepth, hr, decide_eq_true hdepth]
      exact (judges_expr value).map _

/-- A row is refused for the first offence in the order of the text. -/
theorem judges_resolveAll : ∀ (body : List Stmt) (inFunction : Bool),
    Judges inFunction ((Stmt.occurrencesAll inFunction body).findSome? Occurrence.refusal?)
      (Stmt.resolveAll body)
  | [], _ => by
    unfold Stmt.resolveAll
    exact .pure _
  | s :: body, inFunction => by
    unfold Stmt.resolveAll Stmt.occurrencesAll
    rw [List.findSome?_append]
    exact (judges_resolve s inFunction).bind fun _ => (judges_resolveAll body inFunction).map _

end

/-! ## §4. Programs. -/

theorem refusalOf_eq_some_iff {α : Type} {x : Except ResolveError α} {e : ResolveError} :
    refusalOf x = some e ↔ x = .error e := by
  cases x with
  | ok a => simp [refusalOf]
  | error e' => simp [refusalOf]

/-- **The error is that of the first statement to be refused**, in the order of the text. -/
theorem resolve_eq_error_iff {body : List Stmt} {e : ResolveError} :
    (Resolver.initial.resolve body).1 = .error e
      ↔ ∃ before o after, Stmt.occurrencesAll false body = before ++ o :: after ∧ o.Refused e
        ∧ ∀ o' ∈ before, ∀ e', ¬ o'.Refused e' := by
  obtain ⟨hverdict, -⟩ := judges_resolveAll body false .initial rfl
  rw [← refusalOf_eq_some_iff, show refusalOf (Resolver.initial.resolve body).1 = _ from hverdict,
    List.findSome?_eq_some_iff]
  simp only [Occurrence.refusal?_eq_some_iff, Option.eq_none_iff_forall_ne_some, ne_eq]

/-- Which statements are refused where they stand. -/
theorem Occurrence.exists_refused_iff {o : Occurrence} : (∃ e, o.Refused e)
    ↔ (∃ line value, o = ⟨.ret line value, false⟩)
      ∨ ∃ name line params body inFunction,
        o = ⟨.funDecl name line params body, inFunction⟩ ∧ ¬ params.Nodup := by
  constructor
  · rintro ⟨e, ⟨⟩ | ⟨hnodup, hagain⟩⟩
    · exact .inl ⟨_, _, rfl⟩
    · refine .inr ⟨_, _, _, _, _, rfl, fun hall => ?_⟩
      exact (List.nodup_append.1 hall).2.2 _ hagain _ List.mem_cons_self rfl
  · rintro (⟨line, value, rfl⟩ | ⟨name, line, params, body, inFunction, rfl, hrepeated⟩)
    · exact ⟨_, .topLevelReturn⟩
    · -- parameters that are not distinct have a first one that is repeated
      cases hfirst : firstRepeated? [] params with
      | none => exact absurd (firstRepeated?_eq_none_iff.1 hfirst).1 hrepeated
      | some p =>
        obtain ⟨before, after, rfl, hnodup, -, hagain⟩ := firstRepeated?_eq_some_iff.1 hfirst
        exact ⟨_, .repeatedParameter hnodup (hagain.resolve_left List.not_mem_nil)⟩

/-- **A program is refused if and only if** a return is in no function, or the parameters of
a function are not distinct. -/
theorem resolve_refuses_iff {body : List Stmt} :
    (∃ e, (Resolver.initial.resolve body).1 = .error e)
      ↔ (∃ line value, ⟨.ret line value, false⟩ ∈ Stmt.occurrencesAll false body)
        ∨ ∃ name line params inner inFunction,
          ⟨.funDecl name line params inner, inFunction⟩ ∈ Stmt.occurrencesAll false body
            ∧ ¬ params.Nodup := by
  have hany : (∃ e, (Resolver.initial.resolve body).1 = .error e)
      ↔ ∃ o ∈ Stmt.occurrencesAll false body, ∃ e, o.Refused e := by
    obtain ⟨hverdict, -⟩ := judges_resolveAll body false .initial rfl
    simp only [← refusalOf_eq_some_iff, ← Occurrence.refusal?_eq_some_iff,
      ← Option.isSome_iff_exists]
    rw [show refusalOf (Resolver.initial.resolve body).1 = _ from hverdict,
      List.findSome?_isSome_iff]
  rw [hany]
  simp only [Occurrence.exists_refused_iff]
  constructor
  · rintro ⟨o, ho, ⟨line, value, rfl⟩ | ⟨name, line, params, inner, inFunction, rfl, hrepeated⟩⟩
    · exact .inl ⟨line, value, ho⟩
    · exact .inr ⟨name, line, params, inner, inFunction, ho, hrepeated⟩
  · rintro (⟨line, value, ho⟩ | ⟨name, line, params, inner, inFunction, ho, hrepeated⟩)
    · exact ⟨_, ho, .inl ⟨line, value, rfl⟩⟩
    · exact ⟨_, ho, .inr ⟨name, line, params, inner, inFunction, rfl, hrepeated⟩⟩

/-! ## §5. A resolver that is used again. -/

/-- The programs are given to one resolver in turn, whatever becomes of each; each call has
its result, and leaves the resolver that the next one finds. -/
def Resolver.calls (r : Resolver) (bodies : List (List Stmt)) :
    List (Except ResolveError (List Stmt) × Resolver) :=
  (inTurn (fun r body => (Resolver.resolve r body, (Resolver.resolve r body).2)) r bodies).1

/-- A fresh resolver is fresh again after every body, whatever was said of it. -/
theorem Resolver.calls_initial (bodies : List (List Stmt)) :
    initial.calls bodies = bodies.map fun body => ((initial.resolve body).1, initial) := by
  induction bodies with
  | nil => rfl
  | cons body bodies ih =>
    have hback : initial.resolve body = ((initial.resolve body).1, initial) :=
      Prod.ext rfl (resolve_initial body)
    have hcons : initial.calls (body :: bodies)
        = initial.resolve body :: (initial.resolve body).2.calls bodies := rfl
    rw [hcons, resolve_initial, ih, List.map_cons, ← hback]

/-- **A resolver can be used again after anything.**  Whatever programs it is given in turn,
and however deep inside of blocks and functions some of them are refused, behind each of them
nothing encloses the code any more, and the result, with every slot or with its error, is that
of a fresh resolver.  It is so because a block and a function give back the resolver that they
were entered with, wherever they stand and whatever is refused inside. -/
theorem resolvers_are_reusable (bodies : List (List Stmt)) :
    (∀ call ∈ Resolver.initial.calls bodies,
        call.2.templates = [] ∧ call.2.functionDepth = 0)
      ∧ (Resolver.initial.calls bodies).map Prod.fst
        = bodies.map (fun body => (Resolver.initial.resolve body).1)
      ∧ ∀ (r : Resolver) (inner : List Stmt),
          (inBlock (Stmt.resolveAll inner) r).2 = r
            ∧ ∀ name params, (inFunction name params (Stmt.resolveAll inner) r).2 = r := by
  rw [Resolver.calls_initial]
  refine ⟨?_, ?_, ?_⟩
  · intro call hcall
    obtain ⟨body, -, rfl⟩ := List.mem_map.1 hcall
    exact ⟨rfl, rfl⟩
  · rw [List.map_map]
    rfl
  · intro r inner
    have hinner := unwinds_resolveAll inner
    exact ⟨inBlock_state hinner r, fun name params => inFunction_state hinner name params r⟩

-- a return behind a function, inside of a block, and then a block with a variable
example : (Resolver.initial.calls
    [[.block [.funDecl "f" 1 [] [], .ret 2 (.literal .nil)]],
      [.block [.varDecl "a" 1 (.literal .nil), .print [.var ⟨"a", 1, none⟩]]]]).map Prod.fst
    = [.error ⟨.topLevelReturn, 2⟩,
      .ok [.block [.varDecl "a" 1 (.literal .nil), .print [.var ⟨"a", 1, some 0⟩]]]] := rfl

end LoxLang
