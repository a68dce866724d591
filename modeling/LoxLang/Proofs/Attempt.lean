/-
  LoxLang.Proofs.Attempt
  ──────────────────────
  **One attempt follows another.**  `Follows V E P x y Q` compares two attempts on
  states of their own.  Started on states related by `P`:

    • if `x` gives a result, `y` gives one too, and `Q` relates results and states,
    • if `x` stops with a reason of `V`, nothing is asked of `y`,
    • if `x` stops with another reason, `y` stops with the same reason, and `E`
      relates the states.

  There is a rule for each way of putting attempts together, so that two
  interpreters are compared case by case and never unfolded as a whole.
-/
import LoxLang.Attempt
import Mathlib.Data.List.Forall2

namespace LoxLang

namespace Attempt

variable {ε σ τ α β α' β' : Type}

/-- An attempt whose result is known leaves some state. -/
theorem exists_eq_ok {x : Attempt ε σ α} {s : σ} {a : α} (h : (x s).1 = .ok a) :
    ∃ s', x s = (.ok a, s') :=
  ⟨(x s).2, Prod.ext h rfl⟩

/-- Whatever `x` does, `y` does the like. -/
def Follows (V : ε → Prop) (E : ε → σ → τ → Prop) (P : σ → τ → Prop) (x : Attempt ε σ α)
    (y : Attempt ε τ β) (Q : α → β → σ → τ → Prop) : Prop :=
  ∀ s t, P s t →
    match x s with
    | (.ok a, s') => ∃ b t', y t = (.ok b, t') ∧ Q a b s' t'
    | (.error e, s') => V e ∨ ∃ t', y t = (.error e, t') ∧ E e s' t'

variable {V : ε → Prop} {E : ε → σ → τ → Prop} {P P' : σ → τ → Prop}
variable {x : Attempt ε σ α} {y : Attempt ε τ β} {Q Q' : α → β → σ → τ → Prop}

/-! ## §1. Single steps. -/

/-- Attempts that always give a result. -/
theorem Follows.of_ok (h : ∀ s t, P s t → ∃ a s' b t', x s = (.ok a, s') ∧ y t = (.ok b, t')
    ∧ Q a b s' t') : Follows V E P x y Q := by
  intro s t hP
  obtain ⟨a, s', b, t', hx, hy, hQ⟩ := h s t hP
  rw [hx]
  exact ⟨b, t', hy, hQ⟩

theorem Follows.pure {a : α} {b : β} (h : ∀ s t, P s t → Q a b s t) :
    Follows V E P (pure a) (pure b) Q := by
  refine .of_ok ?_
  intro s t hP
  exact ⟨a, s, b, t, rfl, rfl, h s t hP⟩

theorem Follows.throw {e : ε} (h : ∀ s t, P s t → E e s t) :
    Follows V E P (throw e : Attempt ε σ α) (throw e : Attempt ε τ β) Q := by
  intro s t hP
  exact Or.inr ⟨t, rfl, h s t hP⟩

theorem Follows.modify {f : σ → σ} {g : τ → τ} {Q : Unit → Unit → σ → τ → Prop}
    (h : ∀ s t, P s t → Q () () (f s) (g t)) : Follows V E P (modify f) (modify g) Q := by
  refine .of_ok ?_
  intro s t hP
  exact ⟨(), f s, (), g t, rfl, rfl, h s t hP⟩

/-! ## §2. Composition. -/

/-- The rule of consequence: a stronger demand in front, a weaker promise behind. -/
theorem Follows.mono (h : Follows V E P x y Q) (hP : ∀ s t, P' s t → P s t)
    (hQ : ∀ a b s t, Q a b s t → Q' a b s t) : Follows V E P' x y Q' := by
  intro s t hs
  have hrun := h s t (hP s t hs)
  rcases hx : x s with ⟨e | a, s'⟩
  · rw [hx] at hrun
    exact hrun
  · rw [hx] at hrun
    obtain ⟨b, t', hy, hab⟩ := hrun
    exact ⟨b, t', hy, hQ a b s' t' hab⟩

theorem Follows.post (h : Follows V E P x y Q) (hQ : ∀ a b s t, Q a b s t → Q' a b s t) :
    Follows V E P x y Q' :=
  h.mono (fun _ _ hP => hP) hQ

theorem Follows.pre (h : Follows V E P x y Q) (hP : ∀ s t, P' s t → P s t) :
    Follows V E P' x y Q :=
  h.mono hP (fun _ _ _ _ hQ => hQ)

/-- What is known of `x` alone holds of it here too. -/
theorem Follows.and_left {F : σ → Prop} (h : Follows V E P x y Q)
    (hF : ∀ s t, P s t → F (x s).2) :
    Follows V E P x y (fun a b s t => Q a b s t ∧ F s) := by
  intro s t hP
  have hrun := h s t hP
  have hstate := hF s t hP
  rcases hx : x s with ⟨e | a, s'⟩
  · rw [hx] at hrun
    exact hrun
  · rw [hx] at hrun hstate
    obtain ⟨b, t', hy, hQ⟩ := hrun
    exact ⟨b, t', hy, hQ, hstate⟩

/-- What is asked of the states may come with a fact about nothing else. -/
theorem Follows.assuming {p : Prop} (h : p → Follows V E P x y Q) :
    Follows V E (fun s t => p ∧ P s t) x y Q := by
  intro s t hs
  exact h hs.1 s t hs.2

/-- The rule of sequence: what the first attempts promise is what the second ones need. -/
theorem Follows.bind {f : α → Attempt ε σ α'} {g : β → Attempt ε τ β'}
    {R : α' → β' → σ → τ → Prop} (h : Follows V E P x y Q)
    (hf : ∀ a b, Follows V E (Q a b) (f a) (g b) R) :
    Follows V E P (x >>= f) (y >>= g) R := by
  intro s t hP
  have hrun := h s t hP
  rcases hx : x s with ⟨e | a, s'⟩
  · -- if `x` stops, the rest does not run on either side
    rw [hx] at hrun
    rw [bind_error hx]
    rcases hrun with hV | ⟨t', hy, hE⟩
    · exact Or.inl hV
    · exact Or.inr ⟨t', bind_error hy g, hE⟩
  · -- otherwise both go on, from states that `Q` relates
    rw [hx] at hrun
    obtain ⟨b, t', hy, hQ⟩ := hrun
    rw [bind_ok hx, bind_ok hy]
    exact hf a b s' t' hQ

/-- Read the states, and go on with what was read. -/
theorem Follows.get_bind {f : σ → Attempt ε σ α'} {g : τ → Attempt ε τ β'}
    {R : α' → β' → σ → τ → Prop}
    (h : ∀ s t, P s t → Follows V E (fun s' t' => s' = s ∧ t' = t) (f s) (g t) R) :
    Follows V E P (get >>= f) (get >>= g) R := by
  intro s t hP
  exact h s t hP s t ⟨rfl, rfl⟩

/-- Read the state of `x` alone. -/
theorem Follows.get_bind_left {f : σ → Attempt ε σ α'} {R : α' → β → σ → τ → Prop}
    (h : ∀ s t, P s t → Follows V E (fun s' t' => s' = s ∧ t' = t) (f s) y R) :
    Follows V E P (get >>= f) y R := by
  intro s t hP
  exact h s t hP s t ⟨rfl, rfl⟩

/-- A step of `x` alone, which changes nothing if it does not stop for good. -/
theorem Follows.guard_bind {guard : Attempt ε σ Unit} (h : ∀ s t, P s t →
      (guard s = (.ok (), s) ∧ P' s t) ∨ ∃ e s', guard s = (.error e, s') ∧ V e)
    (hx : Follows V E P' x y Q) : Follows V E P (guard >>= fun _ => x) y Q := by
  intro s t hP
  rcases h s t hP with ⟨hguard, hP'⟩ | ⟨e, s', hguard, hV⟩
  · rw [bind_ok hguard]
    exact hx s t hP'
  · rw [bind_error hguard]
    exact Or.inl hV

/-- One value after the other, over lists whose elements belong together. -/
theorem Follows.each {ι κ : Type} {L : ι → κ → Prop} {W : α → β → Prop} {is : List ι}
    {ks : List κ} {f : ι → Attempt ε σ α} {g : κ → Attempt ε τ β} (hL : List.Forall₂ L is ks)
    (h : ∀ i k, L i k → Follows V E P (f i) (g k) (fun a b s t => W a b ∧ P s t)) :
    Follows V E P (each f is) (each g ks) (fun as bs s t => List.Forall₂ W as bs ∧ P s t) := by
  induction hL with
  | nil => exact .pure fun s t hP => ⟨.nil, hP⟩
  | @cons i k is ks hik _ ih =>
    refine (h i k hik).bind ?_
    intro a b
    refine .assuming fun hab => ?_
    refine ih.bind ?_
    intro as bs
    refine .assuming fun habs => ?_
    exact .pure fun s t hP => ⟨.cons hab habs, hP⟩

/-- The same for a list and itself. -/
theorem Follows.each_same {ι : Type} {W : α → β → Prop} {f : ι → Attempt ε σ α}
    {g : ι → Attempt ε τ β}
    (h : ∀ i, Follows V E P (f i) (g i) (fun a b s t => W a b ∧ P s t)) (is : List ι) :
    Follows V E P (Attempt.each f is) (Attempt.each g is)
      (fun as bs s t => List.Forall₂ W as bs ∧ P s t) := by
  refine .each (List.forall₂_same.2 fun i _ => rfl) ?_
  intro i k hik
  rw [← hik]
  exact h i

end Attempt

end LoxLang
