import ExtentEngine.Dataset.Emission
import ExtentEngine.Proofs.Attempt

/-!
# Faults of arity

Some faults say that two things that belong together have different arities: a record and the
schema that it is checked against, a record and the dataset that it is put into, or the two keys of
a join.  An operation is free of them if it does not end in one, whatever else it may end in.

Attempts, steps and emissions that follow one another are free of such faults if each of them is.
For a step this is proved together with an invariant of the state, and for an emission together
with a property of the records that it emits.

**Results.**
* `Step.Keeps.bind`, `Emission.Yields.bind`: what holds of the parts of a sequence holds of it.
* `Emission.Yields.forEach`, `Emission.Yields.foldlM`: so it does of a loop and its rounds.
-/

namespace ExtentEngine

/-- Whether a fault says that two arities differ. -/
def Fault.isArity : Fault → Bool
  | .schemaArity _ _ => true
  | .datasetArity _ _ => true
  | .keyArities _ _ => true
  | _ => false

variable {α β σ : Type}

/-- Whether an attempt does not end in a fault of arity. -/
abbrev Attempt.ArityFree (attempt : Attempt α) : Prop :=
  attempt.EndsIn fun fault => fault.isArity = false

/-- Whether a step from a state does not end in a fault of arity and leaves an invariant true,
also if it fails. -/
structure Step.Keeps (inv : σ → Prop) (step : Step σ α) (s : σ) : Prop where
  state : inv (step.run s).2
  result : (step.run s).1.ArityFree

namespace Step.Keeps

variable {inv : σ → Prop} {s : σ}

theorem of_attempt {attempt : Attempt α} (hs : inv s) (h : attempt.ArityFree) :
    (Step.ofAttempt attempt).Keeps inv s :=
  ⟨hs, h⟩

theorem pure (hs : inv s) (a : α) : Step.Keeps inv (Pure.pure a) s := ⟨hs, .ok a⟩

theorem bind {step : Step σ α} {next : α → Step σ β} (h : step.Keeps inv s)
    (hnext : ∀ a t, step.run s = (.ok a, t) → inv t → (next a).Keeps inv t) :
    Step.Keeps inv (step >>= next) s := by
  obtain ⟨hstate, hresult⟩ := h
  rcases hrun : step.run s with ⟨result, t⟩
  rw [hrun] at hstate hresult
  cases result with
  | error fault =>
      constructor
      · rw [Step.run_bind, hrun]
        exact hstate
      · rw [Step.run_bind, hrun]
        exact .error (hresult fault rfl)
  | ok a =>
      obtain ⟨hstate', hresult'⟩ := hnext a t hrun hstate
      constructor
      · rw [Step.run_bind, hrun]
        exact hstate'
      · rw [Step.run_bind, hrun]
        exact hresult'

/-- A step that looks at the state first. -/
theorem get_bind {next : σ → Step σ β} (h : (next s).Keeps inv s) :
    Step.Keeps inv (Step.get >>= next) s :=
  ⟨h.state, h.result⟩

theorem forEach {step : β → Step σ Unit} {items : List β}
    (h : ∀ item ∈ items, ∀ t, inv t → (step item).Keeps inv t) (hs : inv s) :
    (Step.forEach step items).Keeps inv s := by
  induction items generalizing s with
  | nil => exact .pure hs ()
  | cons item items ih =>
      obtain ⟨hitem, hitems⟩ := List.forall_mem_cons.1 h
      exact (hitem s hs).bind fun _ _ _ ht => ih hitems ht

end Step.Keeps

/-- Whether an emission does not end in a fault of arity and emits records of a kind, also if it
fails. -/
structure Emission.Yields (kind : Record → Prop) (m : Emission α) : Prop where
  rows : ∀ row ∈ m.rows, kind row
  result : m.result.ArityFree

namespace Emission.Yields

variable {kind : Record → Prop}

theorem pure (a : α) : Emission.Yields kind (Pure.pure a) :=
  ⟨List.forall_mem_nil _, .ok a⟩

theorem of_attempt {attempt : Attempt α} (h : attempt.ArityFree) :
    (Emission.ofAttempt attempt).Yields kind :=
  ⟨List.forall_mem_nil _, h⟩

theorem bind {m : Emission α} {next : α → Emission β} (h : m.Yields kind)
    (hnext : ∀ a, m.result = .ok a → (next a).Yields kind) :
    Emission.Yields kind (m >>= next) := by
  obtain ⟨rows, result⟩ := m
  cases result with
  | error fault => exact ⟨h.rows, .error (h.result fault rfl)⟩
  | ok a =>
      have hlast := hnext a rfl
      exact ⟨List.forall_mem_append.2 ⟨h.rows, hlast.rows⟩, hlast.result⟩

theorem ite {m : Emission Unit} (h : m.Yields kind) (c : Bool) :
    Emission.Yields kind (if c then m else Pure.pure ()) := by
  cases c with
  | false => exact .pure ()
  | true => exact h

theorem forEach {action : β → Emission Unit} {items : List β}
    (h : ∀ item ∈ items, (action item).Yields kind) :
    (Emission.forEach action items).Yields kind := by
  induction items with
  | nil => exact .pure ()
  | cons item items ih =>
      obtain ⟨hitem, hitems⟩ := List.forall_mem_cons.1 h
      exact hitem.bind fun _ _ => ih hitems

theorem foldlM {step : α → β → Emission α} {items : List β}
    (h : ∀ item ∈ items, ∀ a, (step a item).Yields kind) (a : α) :
    Emission.Yields kind (items.foldlM step a) := by
  induction items generalizing a with
  | nil => exact .pure a
  | cons item items ih =>
      obtain ⟨hitem, hitems⟩ := List.forall_mem_cons.1 h
      rw [List.foldlM_cons]
      exact (hitem a).bind fun b _ => ih hitems b

end Emission.Yields

end ExtentEngine
