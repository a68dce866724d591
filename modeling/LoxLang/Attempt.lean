/-
  LoxLang.Attempt
  ───────────────
  **Attempts.**  An attempt works on a state and either gives a result or stops with
  a reason; the state it reached survives both.  Reading tokens, resolving scopes
  and running a program are attempts.

  The lemmas say what each operation of the monad does to the state.
-/

namespace LoxLang

/-- A computation on a state that may stop half-way. -/
abbrev Attempt (ε σ : Type) := ExceptT ε (StateM σ)

namespace Attempt

variable {ε σ α β : Type}

@[simp] theorem pure_apply (a : α) (s : σ) : (pure a : Attempt ε σ α) s = (.ok a, s) := rfl

@[simp] theorem throw_apply (e : ε) (s : σ) : (throw e : Attempt ε σ α) s = (.error e, s) := rfl

@[simp] theorem get_apply (s : σ) : (get : Attempt ε σ σ) s = (.ok s, s) := rfl

@[simp] theorem modify_apply (f : σ → σ) (s : σ) :
    (modify f : Attempt ε σ Unit) s = (.ok (), f s) := rfl

/-- What follows runs on the state that the first attempt reached, unless that
stopped. -/
theorem bind_apply (x : Attempt ε σ α) (f : α → Attempt ε σ β) (s : σ) :
    (x >>= f) s = match x s with
      | (.ok a, s) => f a s
      | (.error e, s) => (.error e, s) := by
  show (match x s with | (r, s) => ExceptT.bindCont f r s) = _
  rcases x s with ⟨_ | _, _⟩ <;> rfl

theorem bind_ok {x : Attempt ε σ α} {s t : σ} {a : α} (h : x s = (.ok a, t))
    (f : α → Attempt ε σ β) : (x >>= f) s = f a t := by
  rw [bind_apply, h]

theorem bind_error {x : Attempt ε σ α} {s t : σ} {e : ε} (h : x s = (.error e, t))
    (f : α → Attempt ε σ β) : (x >>= f) s = (.error e, t) := by
  rw [bind_apply, h]

/-- A result was given only if both attempts gave one. -/
theorem bind_eq_ok_iff {x : Attempt ε σ α} {f : α → Attempt ε σ β} {s u : σ} {b : β} :
    (x >>= f) s = (.ok b, u) ↔ ∃ a t, x s = (.ok a, t) ∧ f a t = (.ok b, u) := by
  constructor
  · intro h
    rcases hx : x s with ⟨e | a, t⟩
    · rw [bind_error hx] at h
      cases h
    · rw [bind_ok hx] at h
      exact ⟨a, t, rfl, h⟩
  · intro h
    obtain ⟨a, t, hx, hf⟩ := h
    rw [bind_ok hx, hf]

/-- Compute one value after the other. -/
def each (step : α → Attempt ε σ β) : List α → Attempt ε σ (List β)
  | [] => return []
  | a :: rest => do
      let b ← step a
      let bs ← each step rest
      return b :: bs

end Attempt

end LoxLang
