import ExtentEngine.Fault

/-!
# Steps on a state

A step may fail, and it leaves a state behind either way: what a failed operation did before
it failed stays done.  Steps follow one another until the first one that fails.

**Results.**
* `run_bind`: what a sequence of two steps does.
-/

namespace ExtentEngine

/-- An operation on a state of type `σ` with a result of type `α`. -/
def Step (σ α : Type) : Type := σ → Attempt α × σ

namespace Step

variable {σ α β : Type}

/-- Runs a step from a state. -/
def run (step : Step σ α) (s : σ) : Attempt α × σ := step s

instance : Monad (Step σ) where
  pure a := fun s => (.ok a, s)
  bind step next := fun s =>
    match step s with
    | (.ok a, t) => next a t
    | (.error fault, t) => (.error fault, t)

/-- The state as it is. -/
def get : Step σ σ := fun s => (.ok s, s)

/-- Puts another state in place of the state. -/
def set (s : σ) : Step σ Unit := fun _ => (.ok (), s)

/-- Changes the state. -/
def modify (f : σ → σ) : Step σ Unit := fun s => (.ok (), f s)

/-- Fails and leaves the state as it is. -/
def fail (fault : Fault) : Step σ α := fun s => (.error fault, s)

/-- An attempt that leaves the state as it is. -/
def ofAttempt (attempt : Attempt α) : Step σ α := fun s => (attempt, s)

/-- The result of a step, a failure included. -/
def attempt (step : Step σ α) : Step σ (Attempt α) := fun s =>
  let (result, s) := step s
  (.ok result, s)

instance : MonadLift Attempt (Step σ) := ⟨ofAttempt⟩

instance : MonadStateOf σ (Step σ) where
  get := get
  set := set
  modifyGet f := fun s => let (a, t) := f s; (.ok a, t)

/-- Does a step for each item in turn. -/
def forEach (step : β → Step σ Unit) : List β → Step σ Unit
  | [] => pure ()
  | item :: items => do
    step item
    forEach step items

@[simp] theorem run_pure (a : α) (s : σ) : run (pure a) s = (.ok a, s) := rfl

@[simp] theorem run_bind (step : Step σ α) (next : α → Step σ β) (s : σ) :
    run (step >>= next) s =
      match run step s with
      | (.ok a, t) => run (next a) t
      | (.error fault, t) => (.error fault, t) := rfl

@[simp] theorem run_get (s : σ) : run get s = (.ok s, s) := rfl

@[simp] theorem run_set (s t : σ) : run (set t) s = (.ok (), t) := rfl

@[simp] theorem run_modify (f : σ → σ) (s : σ) : run (modify f) s = (.ok (), f s) := rfl

@[simp] theorem run_fail (fault : Fault) (s : σ) :
    run (fail fault : Step σ α) s = (.error fault, s) := rfl

@[simp] theorem run_ofAttempt (attempt : Attempt α) (s : σ) :
    run (ofAttempt attempt) s = (attempt, s) := rfl

@[simp] theorem run_attempt (step : Step σ α) (s : σ) :
    run step.attempt s = (.ok (run step s).1, (run step s).2) := rfl

end Step
end ExtentEngine
