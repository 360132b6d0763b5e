import ExtentEngine.Step

/-!
# Steps side by side

Two runs are alike if they have equal results and end in related states.  What is put together
from steps that are alike is alike.

**Results.**
* `Alike.bind`, `Alike.attempt`, `alike_forEach`: how steps that are alike are put together.
* `Matches.bind`: the same for attempts, the results of which are related and need not be equal.
-/

namespace ExtentEngine

variable {σ τ α β γ δ : Type} {R : σ → τ → Prop}

/-- Two runs with equal results that end in related states. -/
structure Alike (R : σ → τ → Prop) (one : Attempt α × σ) (other : Attempt α × τ) : Prop where
  result : one.1 = other.1
  state : R one.2 other.2

namespace Alike

theorem bind {step : Step σ α} {step' : Step τ α} {next : α → Step σ β} {next' : α → Step τ β}
    {s : σ} {t : τ} (hstep : Alike R (step.run s) (step'.run t))
    (hnext : ∀ a s t, R s t → Alike R ((next a).run s) ((next' a).run t)) :
    Alike R ((step >>= next).run s) ((step' >>= next').run t) := by
  rcases hs : step.run s with ⟨result, s'⟩
  rcases ht : step'.run t with ⟨result', t'⟩
  rw [hs, ht] at hstep
  obtain ⟨hresult, hstate⟩ := hstep
  cases hresult
  rw [Step.run_bind, Step.run_bind, hs, ht]
  cases result with
  | error fault => exact ⟨rfl, hstate⟩
  | ok a => exact hnext a s' t' hstate

theorem attempt {step : Step σ α} {step' : Step τ α} {s : σ} {t : τ}
    (h : Alike R (step.run s) (step'.run t)) :
    Alike R (step.attempt.run s) (step'.attempt.run t) :=
  ⟨congrArg Except.ok h.result, h.state⟩

theorem map {step : Step σ α} {step' : Step τ α} {s : σ} {t : τ} (f : α → β)
    (h : Alike R (step.run s) (step'.run t)) :
    Alike R ((f <$> step).run s) ((f <$> step').run t) :=
  h.bind fun _ _ _ hst => ⟨rfl, hst⟩

end Alike

/-- What is done for each item in turn is alike if it is alike for every item. -/
theorem alike_forEach {step : β → Step σ Unit} {step' : β → Step τ Unit}
    (hstep : ∀ item s t, R s t → Alike R ((step item).run s) ((step' item).run t))
    (items : List β) {s : σ} {t : τ} (hst : R s t) :
    Alike R ((Step.forEach step items).run s) ((Step.forEach step' items).run t) := by
  induction items generalizing s t with
  | nil => exact ⟨rfl, hst⟩
  | cons item items ih => exact (hstep item s t hst).bind fun _ _ _ hst' => ih hst'

/-- Two attempts that fail in the same way or deliver related results. -/
inductive Matches (R : α → β → Prop) : Attempt α → Attempt β → Prop
  | ok {a : α} {b : β} (h : R a b) : Matches R (.ok a) (.ok b)
  | error (fault : Fault) : Matches R (.error fault) (.error fault)

theorem Matches.refl (attempt : Attempt α) : Matches Eq attempt attempt := by
  cases attempt with
  | error fault => exact .error fault
  | ok a => exact .ok rfl

theorem Matches.bind {R : α → β → Prop} {S : γ → δ → Prop} {one : Attempt α} {other : Attempt β}
    {next : α → Attempt γ} {next' : β → Attempt δ} (h : Matches R one other)
    (hnext : ∀ a b, R a b → Matches S (next a) (next' b)) :
    Matches S (one >>= next) (other >>= next') := by
  cases h with
  | error fault => exact .error fault
  | ok hab => exact hnext _ _ hab

end ExtentEngine
