/-
  LoxLang.Proofs.Carried
  ──────────────────────
  **Attempts that commute with a renaming.**  Let states, results and reasons to stop be
  renamed by functions.  An attempt `y` carries `x` over if, started on the renamed state,
  it does what `x` does, renamed:

      state  ──── x ────▶  result, state
        │                       │
      rename                 rename
        ▼                       ▼
      state  ──── y ────▶  result, state

  Unlike `Follows`, which lets two attempts differ in their states, this is an equation:
  all of what `y` does is told by `x`.  There is a rule for each way of putting attempts
  together.
-/
import LoxLang.Attempt

namespace LoxLang

namespace Attempt

variable {ε ε' σ σ' α α' β β' : Type}

/-- What an attempt came to, with its reason to stop, its state and its result renamed. -/
def renamed (onError : ε → ε') (onState : σ → σ') (onResult : α → β) :
    Except ε α × σ → Except ε' β × σ'
  | (.ok a, s) => (.ok (onResult a), onState s)
  | (.error e, s) => (.error (onError e), onState s)

/-- Renaming first and then running `y` is running `x` first and then renaming. -/
def Carries (onError : ε → ε') (onState : σ → σ') (onResult : α → β) (x : Attempt ε σ α)
    (y : Attempt ε' σ' β) : Prop :=
  ∀ s, y (onState s) = renamed onError onState onResult (x s)

variable {onError : ε → ε'} {onState : σ → σ'} {r : α → β} {r' : α' → β'}
variable {x : Attempt ε σ α} {y : Attempt ε' σ' β}

/-- The result and the state of a renamed outcome. -/
theorem renamed_eq (onError : ε → ε') (onState : σ → σ') (onResult : α → β)
    (outcome : Except ε α × σ) :
    renamed onError onState onResult outcome
      = ((outcome.1.map onResult).mapError onError, onState outcome.2) := by
  obtain ⟨e | a, s⟩ := outcome
  · rfl
  · rfl

/-- A result is carried over to its renaming. -/
theorem Carries.pure {a : α} {b : β} (h : r a = b) :
    Carries onError onState r (pure a) (pure b) := by
  intro s
  show (Except.ok b, onState s) = (.ok (r a), onState s)
  rw [h]

/-- A reason to stop is carried over to its renaming. -/
theorem Carries.throw {e : ε} {e' : ε'} (h : onError e = e') :
    Carries onError onState r (throw e : Attempt ε σ α) (throw e' : Attempt ε' σ' β) := by
  intro s
  show (Except.error e', onState s) = (.error (onError e), onState s)
  rw [h]

theorem Carries.get : Carries onError onState onState get get :=
  fun _ => rfl

/-- An update is carried over if it commutes with the renaming of states. -/
theorem Carries.modify {f : σ → σ} {g : σ' → σ'} (h : ∀ s, g (onState s) = onState (f s)) :
    Carries onError onState id (modify f) (modify g) := by
  intro s
  show (Except.ok (), g (onState s)) = (.ok (), onState (f s))
  rw [h s]

/-- The second attempts need to correspond at renamed results only. -/
theorem Carries.bind {f : α → Attempt ε σ α'} {g : β → Attempt ε' σ' β'}
    (h : Carries onError onState r x y)
    (hf : ∀ a, Carries onError onState r' (f a) (g (r a))) :
    Carries onError onState r' (x >>= f) (y >>= g) := by
  intro s
  have hy := h s
  rcases hx : x s with ⟨e | a, s'⟩
  · -- if `x` stops, so does `y`, and for the renamed reason
    rw [hx] at hy
    rw [bind_error hx, bind_error hy]
    rfl
  · rw [hx] at hy
    rw [bind_ok hx, bind_ok hy]
    exact hf a s'

/-- One value after the other, over a list and its renaming. -/
theorem Carries.each {ι κ : Type} {onItem : ι → κ} {f : ι → Attempt ε σ α}
    {g : κ → Attempt ε' σ' β}
    (h : ∀ i, Carries onError onState r (f i) (g (onItem i))) (is : List ι) :
    Carries onError onState (List.map r) (each f is) (each g (is.map onItem)) := by
  induction is with
  | nil => exact .pure rfl
  | cons i is ih => exact (h i).bind fun a => ih.bind fun as => .pure rfl

end Attempt

end LoxLang
