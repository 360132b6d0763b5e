import ExtentEngine.Dataset.Emission

/-!
# Emissions that succeed

**Results.**
* `bind_emitted`: what an emission that succeeds emits comes first.
* `forEach_emitted`: a loop emits what its rounds emit.
* `ite_bind`: an emission that is made on a condition comes before what follows.
-/

namespace ExtentEngine
namespace Emission

variable {α β : Type}

instance : LawfulMonad Emission :=
  LawfulMonad.mk' Emission
    (by
      rintro α ⟨rows, result⟩
      cases result with
      | error fault => rfl
      | ok a => exact congrArg (fun rows => Emission.mk rows (.ok a)) (List.append_nil rows))
    (fun _ _ => rfl)
    (by
      rintro α β γ ⟨rows, result⟩ next last
      cases result with
      | error fault => rfl
      | ok a =>
          rcases hnext : next a with ⟨rows', result'⟩
          cases result' with
          | error fault => simp only [bind, hnext]
          | ok b => simp only [bind, hnext, List.append_assoc])

theorem bind_emitted (rows : List Record) (a : α) (next : α → Emission β) :
    (⟨rows, .ok a⟩ : Emission α) >>= next = ⟨rows ++ (next a).rows, (next a).result⟩ := rfl

theorem bind_ofAttempt_ok (a : α) (next : α → Emission β) :
    ofAttempt (.ok a) >>= next = next a := rfl

/-- A loop whose rounds succeed emits what they emit. -/
theorem forEach_emitted {action : β → Emission Unit} {rows : β → List Record} {items : List β}
    (h : ∀ item ∈ items, action item = ⟨rows item, .ok ()⟩) :
    forEach action items = ⟨items.flatMap rows, .ok ()⟩ := by
  induction items with
  | nil => rfl
  | cons item items ih =>
      obtain ⟨hitem, hitems⟩ := List.forall_mem_cons.1 h
      rw [forEach, hitem, bind_emitted, ih hitems, List.flatMap_cons]

theorem forEach_append (action : β → Emission Unit) (items more : List β) :
    forEach action (items ++ more) = forEach action items >>= fun _ => forEach action more := by
  induction items with
  | nil => rfl
  | cons item items ih =>
      rw [List.cons_append, forEach, ih, forEach]
      exact (bind_assoc _ _ _).symm

/-- What follows an emission that depends on a condition. -/
theorem ite_bind (p : Prop) [Decidable p] (m : Emission Unit) (next : Emission β) :
    (if p then do m; next else next) = (do (if p then m else pure ()); next) := by
  split <;> rfl

end Emission
end ExtentEngine
