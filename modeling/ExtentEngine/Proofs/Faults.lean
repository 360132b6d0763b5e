import ExtentEngine.Dataset.Emission
import ExtentEngine.Proofs.Attempt

/-!
# The faults that steps and emissions end in

A kind of faults may be all that a computation ends in, if it fails.  Steps and emissions that
follow one another end in faults of a kind only if each of them does.  Which fault an emission ends
in may depend on what the one before it came to, so for emissions this is proved together with a
property of their results.

**Results.**
* `Step.EndsIn.bind`, `Emission.EndsIn.bind`: sequences that end in faults of a kind only.
* `Emission.EndsIn.forEach`, `Emission.EndsIn.foldlM`: loops that do.
-/

namespace ExtentEngine

variable {α β σ : Type} {kind kind' : Fault → Prop}

/-- Whether a step fails in a fault of a kind only, whatever the state is. -/
def Step.EndsIn (kind : Fault → Prop) (step : Step σ α) : Prop :=
  ∀ s, (step.run s).1.EndsIn kind

namespace Step.EndsIn

theorem of_attempt {attempt : Attempt α} (h : attempt.EndsIn kind) :
    Step.EndsIn kind (Step.ofAttempt attempt : Step σ α) :=
  fun _ => h

theorem pure (a : α) : Step.EndsIn kind (Pure.pure a : Step σ α) := fun _ => .ok a

theorem modify (f : σ → σ) : (Step.modify f).EndsIn kind := fun _ => .ok ()

theorem fail {fault : Fault} (h : kind fault) : (Step.fail fault : Step σ α).EndsIn kind :=
  fun _ => .error h

theorem mono {step : Step σ α} (h : step.EndsIn kind) (hkind : ∀ fault, kind fault → kind' fault) :
    step.EndsIn kind' :=
  fun s => (h s).mono hkind

theorem bind {step : Step σ α} {next : α → Step σ β} (h : step.EndsIn kind)
    (hnext : ∀ a, (next a).EndsIn kind) : Step.EndsIn kind (step >>= next) := by
  intro s
  have hstep := h s
  rw [Step.run_bind]
  rcases hrun : step.run s with ⟨result, t⟩
  rw [hrun] at hstep
  cases result with
  | error fault => exact .error (hstep fault rfl)
  | ok a => exact hnext a t

/-- A step that looks at the state first. -/
theorem get_bind {next : σ → Step σ β} (h : ∀ s, (next s).EndsIn kind) :
    Step.EndsIn kind (Step.get >>= next) :=
  fun s => h s s

theorem forEach {step : β → Step σ Unit} (h : ∀ item, (step item).EndsIn kind) (items : List β) :
    (Step.forEach step items).EndsIn kind := by
  induction items with
  | nil => exact pure ()
  | cons item items ih => exact (h item).bind fun _ => ih

end Step.EndsIn

/-- Whether an emission fails in a fault of a kind only, and what it comes to, if it comes to its
end, has a property. -/
structure Emission.EndsIn (kind : Fault → Prop) (post : α → Prop) (m : Emission α) : Prop where
  fault : m.result.EndsIn kind
  result : ∀ a, m.result = .ok a → post a

namespace Emission.EndsIn

variable {post : α → Prop} {post' : β → Prop}

theorem pure {a : α} (h : post a) : Emission.EndsIn kind post (Pure.pure a) where
  fault := .ok a
  result := by
    rintro _ ⟨⟩
    exact h

theorem of_attempt {attempt : Attempt α} (h : attempt.EndsIn kind) :
    (Emission.ofAttempt attempt).EndsIn kind fun _ => True :=
  ⟨h, fun _ _ => trivial⟩

theorem bind {m : Emission α} {next : α → Emission β} (h : m.EndsIn kind post)
    (hnext : ∀ a, post a → (next a).EndsIn kind post') :
    Emission.EndsIn kind post' (m >>= next) := by
  obtain ⟨rows, result⟩ := m
  cases result with
  | error fault =>
      constructor
      · exact .error (h.fault fault rfl)
      · rintro _ ⟨⟩
  | ok a =>
      obtain ⟨hfault, hresult⟩ := hnext a (h.result a rfl)
      exact ⟨hfault, hresult⟩

/-- A value that is made of the result adds no faults. -/
theorem fault_bind_pure {m : Emission α} (h : m.EndsIn kind post) (f : α → β) :
    (m >>= fun a => Pure.pure (f a)).result.EndsIn kind := by
  have hmap : Emission.EndsIn kind (fun _ => True) (m >>= fun a => Pure.pure (f a)) :=
    bind h fun _ _ => pure trivial
  exact hmap.fault

/-- What follows matters for the results with the property only. -/
theorem bind_congr {m : Emission α} {next next' : α → Emission β} (h : m.EndsIn kind post)
    (hnext : ∀ a, post a → next a = next' a) : m >>= next = m >>= next' := by
  obtain ⟨rows, result⟩ := m
  cases result with
  | error fault => rfl
  | ok a =>
      have hlast := hnext a (h.result a rfl)
      show (⟨rows ++ (next a).rows, (next a).result⟩ : Emission β) = _
      rw [hlast]
      rfl

theorem ite {m : Emission Unit} {post : Unit → Prop} {c : Bool}
    (h : c = true → m.EndsIn kind post) (hpost : post ()) :
    Emission.EndsIn kind post (if c then m else Pure.pure ()) := by
  cases c with
  | false => exact pure hpost
  | true => exact h rfl

theorem forEach {action : β → Emission Unit} {items : List β}
    (h : ∀ item ∈ items, (action item).EndsIn kind fun _ => True) :
    (Emission.forEach action items).EndsIn kind fun _ => True := by
  induction items with
  | nil => exact pure trivial
  | cons item items ih =>
      obtain ⟨hitem, hitems⟩ := List.forall_mem_cons.1 h
      exact hitem.bind fun _ _ => ih hitems

/-- A property that every round hands on. -/
theorem foldlM {step : α → β → Emission α} {items : List β}
    (h : ∀ item ∈ items, ∀ a, post a → (step a item).EndsIn kind post) {a : α} (ha : post a) :
    (items.foldlM step a).EndsIn kind post := by
  induction items generalizing a with
  | nil => exact pure ha
  | cons item items ih =>
      obtain ⟨hitem, hitems⟩ := List.forall_mem_cons.1 h
      rw [List.foldlM_cons]
      exact (hitem a ha).bind fun b hb => ih hitems hb

end Emission.EndsIn
end ExtentEngine
