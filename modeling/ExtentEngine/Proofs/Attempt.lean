import ExtentEngine.Fault
import Mathlib.Data.List.Forall2

/-!
# Attempts that succeed, and the faults of those that do not

**Results.**
* `bind_eq_ok` and `map_eq_ok`: a sequence of attempts succeeds if all its parts do.
* `mapM_eq_ok` and `exists_mapM`: an attempt for each item succeeds if it does so for all of
  them.
* `EndsIn.bind` and `EndsIn.mapM`: a sequence of attempts fails as one of its parts does.
-/

namespace ExtentEngine
namespace Attempt

variable {α β : Type}

theorem bind_eq_ok {attempt : Attempt α} {next : α → Attempt β} {b : β} :
    attempt >>= next = .ok b ↔ ∃ a, attempt = .ok a ∧ next a = .ok b := by
  cases attempt with
  | error fault => exact iff_of_false nofun (fun ⟨_, h, _⟩ => nomatch h)
  | ok a =>
      constructor
      · exact fun h => ⟨a, rfl, h⟩
      · rintro ⟨_, ⟨⟩, h⟩
        exact h

theorem map_eq_ok {attempt : Attempt α} {f : α → β} {b : β} :
    attempt.map f = .ok b ↔ ∃ a, attempt = .ok a ∧ f a = b := by
  cases attempt with
  | error fault => exact iff_of_false nofun (fun ⟨_, h, _⟩ => nomatch h)
  | ok a =>
      constructor
      · rintro ⟨⟩
        exact ⟨a, rfl, rfl⟩
      · rintro ⟨_, ⟨⟩, rfl⟩
        rfl

theorem mapM_eq_ok {f : α → Attempt β} {as : List α} {bs : List β} :
    as.mapM f = .ok bs ↔ List.Forall₂ (fun a b => f a = .ok b) as bs := by
  induction as generalizing bs with
  | nil =>
      rw [List.mapM_nil, List.forall₂_nil_left_iff]
      exact ⟨fun h => by cases h; rfl, fun h => by rw [h]; rfl⟩
  | cons a as ih =>
      rw [List.mapM_cons, bind_eq_ok, List.forall₂_cons_left_iff]
      constructor
      · rintro ⟨b, hb, hnext⟩
        obtain ⟨rest, hrest, hbs⟩ := bind_eq_ok.1 hnext
        cases hbs
        exact ⟨b, rest, hb, ih.1 hrest, rfl⟩
      · rintro ⟨b, rest, hb, hrest, rfl⟩
        exact ⟨b, hb, bind_eq_ok.2 ⟨rest, ih.2 hrest, rfl⟩⟩

theorem exists_mapM {f : α → Attempt β} {as : List α} (h : ∀ a ∈ as, ∃ b, f a = .ok b) :
    ∃ bs, as.mapM f = .ok bs := by
  induction as with
  | nil => exact ⟨[], rfl⟩
  | cons a as ih =>
      obtain ⟨⟨b, hb⟩, has⟩ := List.forall_mem_cons.1 h
      obtain ⟨bs, hbs⟩ := ih has
      exact ⟨b :: bs, mapM_eq_ok.2 (.cons hb (mapM_eq_ok.1 hbs))⟩

/-- Whether an attempt fails in a fault of a kind only. -/
def EndsIn (kind : Fault → Prop) (attempt : Attempt α) : Prop :=
  ∀ fault, attempt = .error fault → kind fault

namespace EndsIn

variable {kind kind' : Fault → Prop}

theorem ok (a : α) : EndsIn kind (.ok a) := by
  rintro _ ⟨⟩

theorem error {fault : Fault} (h : kind fault) : EndsIn kind (.error fault : Attempt α) := by
  rintro _ ⟨⟩
  exact h

theorem mono {attempt : Attempt α} (h : attempt.EndsIn kind)
    (hkind : ∀ fault, kind fault → kind' fault) : attempt.EndsIn kind' :=
  fun fault hfault => hkind fault (h fault hfault)

/-- An attempt does not fail in a fault of another kind. -/
theorem ne_error {attempt : Attempt α} (h : attempt.EndsIn kind) {fault : Fault}
    (hfault : ¬kind fault) : attempt ≠ .error fault :=
  fun herror => hfault (h fault herror)

theorem bind {attempt : Attempt α} {next : α → Attempt β} (h : attempt.EndsIn kind)
    (hnext : ∀ a, (next a).EndsIn kind) : EndsIn kind (attempt >>= next) := by
  cases attempt with
  | error fault => exact error (h fault rfl)
  | ok a => exact hnext a

theorem map {attempt : Attempt α} (h : attempt.EndsIn kind) (f : α → β) :
    EndsIn kind (attempt.map f) := by
  cases attempt with
  | error fault => exact error (h fault rfl)
  | ok a => exact ok (f a)

theorem mapM {f : α → Attempt β} (h : ∀ a, (f a).EndsIn kind) (as : List α) :
    EndsIn kind (as.mapM f) := by
  induction as with
  | nil => exact ok []
  | cons a as ih =>
      rw [List.mapM_cons]
      exact (h a).bind fun b => ih.bind fun bs => ok (b :: bs)

end EndsIn
end Attempt
end ExtentEngine
