import Mathlib.Data.List.Forall2

/-!
# Lists side by side

Facts about lists whose items correspond to each other.
-/

namespace ExtentEngine

variable {α β γ : Type}

theorem exists_of_mem_right {R : α → β → Prop} {as : List α} {bs : List β}
    (h : List.Forall₂ R as bs) {b : β} (hb : b ∈ bs) : ∃ a ∈ as, R a b := by
  induction h with
  | nil => cases hb
  | cons hab _ ih =>
      rcases List.mem_cons.1 hb with rfl | hb
      · exact ⟨_, List.mem_cons_self, hab⟩
      · obtain ⟨a, ha, hr⟩ := ih hb
        exact ⟨a, List.mem_cons_of_mem _ ha, hr⟩

theorem exists_of_mem_left {R : α → β → Prop} {as : List α} {bs : List β}
    (h : List.Forall₂ R as bs) {a : α} (ha : a ∈ as) : ∃ b ∈ bs, R a b :=
  exists_of_mem_right h.flip ha

/-- What stands opposite to an entry of a list. -/
theorem exists_opposite {R : α → β → Prop} {before behind : List α} {a : α} {bs : List β}
    (h : List.Forall₂ R (before ++ a :: behind) bs) :
    ∃ before' b behind', bs = before' ++ b :: behind' ∧
      List.Forall₂ R before before' ∧ R a b ∧ List.Forall₂ R behind behind' := by
  induction before generalizing bs with
  | nil =>
      cases h with
      | cons hentry hbehind => exact ⟨[], _, _, rfl, .nil, hentry, hbehind⟩
  | cons _ before ih =>
      cases h with
      | cons hfirst hrest =>
          obtain ⟨before', b, behind', rfl, hbefore, hentry, hbehind⟩ := ih hrest
          exact ⟨_ :: before', b, behind', rfl, .cons hfirst hbefore, hentry, hbehind⟩

theorem forall₂_trans {R : α → β → Prop} {S : β → γ → Prop} {T : α → γ → Prop} {as : List α}
    {bs : List β} {cs : List γ} (hab : List.Forall₂ R as bs) (hbc : List.Forall₂ S bs cs)
    (h : ∀ a ∈ as, ∀ b ∈ bs, ∀ c ∈ cs, R a b → S b c → T a c) : List.Forall₂ T as cs := by
  induction hab generalizing cs with
  | nil =>
      cases hbc
      exact .nil
  | cons hr _ ih =>
      cases hbc with
      | cons hs hbc =>
          refine .cons (h _ List.mem_cons_self _ List.mem_cons_self _ List.mem_cons_self hr hs) ?_
          exact ih hbc fun a ha b hb c hc => h a (List.mem_cons_of_mem _ ha) b
            (List.mem_cons_of_mem _ hb) c (List.mem_cons_of_mem _ hc)

/-- Corresponding items are kept or left out together. -/
theorem forall₂_filter {R : α → β → Prop} {p : α → Bool} {q : β → Bool} {as : List α} {bs : List β}
    (h : List.Forall₂ R as bs) (hpq : ∀ a b, R a b → p a = q b) :
    List.Forall₂ R (as.filter p) (bs.filter q) := by
  induction h with
  | nil => exact .nil
  | @cons a b as bs hab _ ih =>
      have hsame := hpq a b hab
      cases hp : p a with
      | false =>
          rw [List.filter_cons_of_neg (by rw [hp]; exact Bool.false_ne_true),
            List.filter_cons_of_neg (by rw [← hsame, hp]; exact Bool.false_ne_true)]
          exact ih
      | true =>
          rw [List.filter_cons_of_pos hp, List.filter_cons_of_pos (hsame ▸ hp)]
          exact .cons hab ih

/-- Corresponding items with the same image. -/
theorem map_eq_map_of_forall₂ {R : α → β → Prop} {f : α → γ} {g : β → γ} {as : List α}
    {bs : List β} (h : List.Forall₂ R as bs) (hfg : ∀ a b, R a b → f a = g b) :
    as.map f = bs.map g := by
  rw [← List.forall₂_eq_eq_eq, List.forall₂_map_left_iff, List.forall₂_map_right_iff]
  exact h.imp hfg

/-- What can be decided for each item. -/
theorem forall_mem_of_all {p : α → Prop} [DecidablePred p] {as : List α}
    (h : (as.all fun a => decide (p a)) = true) : ∀ a ∈ as, p a :=
  fun a ha => of_decide_eq_true (List.all_eq_true.1 h a ha)

/-- Items that contribute nothing may be left out. -/
theorem flatMap_filter_of_nil {p : α → Bool} {f : α → List β} {as : List α}
    (h : ∀ a ∈ as, p a = false → f a = []) : (as.filter p).flatMap f = as.flatMap f := by
  induction as with
  | nil => rfl
  | cons a as ih =>
      obtain ⟨ha, has⟩ := List.forall_mem_cons.1 h
      rw [List.flatMap_cons, ← ih has]
      cases hp : p a with
      | false => rw [List.filter_cons_of_neg (by rw [hp]; exact Bool.false_ne_true), ha hp]; rfl
      | true => rw [List.filter_cons_of_pos hp, List.flatMap_cons]

end ExtentEngine
