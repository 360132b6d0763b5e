import ExtentEngine.Dataset.Emission

/-!
# When emissions succeed

`SucceedsIff m p a` says of an emission under which condition it succeeds, and with which
result.  The condition for a sequence is the conjunction of the conditions for its parts, and
for a later part the earlier conditions may be assumed.

**Results.**
* `SucceedsIff.bind`: the condition for a sequence of two emissions.
* `SucceedsIff.forEach`: the condition for a loop.
-/

namespace ExtentEngine
namespace Emission

variable {α β : Type} {p q : Prop} {a : α} {b : β} {m : Emission α}

/-- Whether an emission succeeds just if a condition holds, and with the given result. -/
def SucceedsIff (m : Emission α) (p : Prop) (a : α) : Prop := ∀ b, m.result = .ok b ↔ p ∧ b = a

namespace SucceedsIff

theorem pure (a : α) : SucceedsIff (Pure.pure a) True a := by
  intro b
  rw [result_pure, true_and, Except.ok.injEq, eq_comm]

theorem of_attempt {attempt : Attempt α} (h : ∀ b, attempt = .ok b ↔ p ∧ b = a) :
    (ofAttempt attempt).SucceedsIff p a := h

theorem of_ok {attempt : Attempt α} (h : attempt = .ok a) :
    (ofAttempt attempt).SucceedsIff True a := by
  intro b
  rw [ofAttempt, h, true_and, Except.ok.injEq, eq_comm]

/-- A later emission may rely on the success of an earlier one. -/
theorem bind {next : α → Emission β} (hm : m.SucceedsIff p a)
    (hnext : p → (next a).SucceedsIff q b) : (m >>= next).SucceedsIff (p ∧ q) b := by
  intro c
  rw [result_bind]
  cases hresult : m.result with
  | error fault =>
      refine iff_of_false (by simp) fun h => ?_
      rw [(hm a).2 ⟨h.1.1, rfl⟩] at hresult
      cases hresult
  | ok a' =>
      obtain ⟨hp, rfl⟩ := (hm a').1 hresult
      rw [and_assoc, and_iff_right hp]
      exact hnext hp c

theorem congr (h : m.SucceedsIff p a) (hpq : p ↔ q) : m.SucceedsIff q a :=
  fun b => (h b).trans (and_congr_left' hpq)

theorem exists_ok (h : m.SucceedsIff p a) : (∃ b, m.result = .ok b) ↔ p := by
  constructor
  · rintro ⟨b, hb⟩
    exact ((h b).1 hb).1
  · exact fun hp => ⟨a, (h a).2 ⟨hp, rfl⟩⟩

theorem ite {m : Emission Unit} {c : Bool} (h : c = true → m.SucceedsIff p ()) :
    (if c then m else Pure.pure ()).SucceedsIff (c = true → p) () := by
  cases c with
  | false => exact (SucceedsIff.pure ()).congr (iff_of_true trivial Bool.false_ne_true.elim)
  | true => exact (h rfl).congr ⟨fun hp _ => hp, fun hp => hp rfl⟩

/-- A loop succeeds if all its rounds do. -/
theorem forEach {action : β → Emission Unit} {p : β → Prop} {items : List β}
    (h : ∀ item ∈ items, (action item).SucceedsIff (p item) ()) :
    (Emission.forEach action items).SucceedsIff (∀ item ∈ items, p item) () := by
  induction items with
  | nil => exact (SucceedsIff.pure ()).congr (iff_of_true trivial (List.forall_mem_nil _))
  | cons item items ih =>
      obtain ⟨hitem, hitems⟩ := List.forall_mem_cons.1 h
      exact (hitem.bind fun _ => ih hitems).congr List.forall_mem_cons.symm

end SucceedsIff
end Emission
end ExtentEngine
