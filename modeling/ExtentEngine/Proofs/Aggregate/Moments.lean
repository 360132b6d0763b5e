import ExtentEngine.Aggregate.Moments
import ExtentEngine.Proofs.Aggregate.Assembly
import Mathlib.Algebra.BigOperators.Group.List.Basic
import Mathlib.Algebra.Order.BigOperators.Group.List
import Mathlib.Algebra.Order.Field.Rat
import Mathlib.Tactic.FieldSimp
import Mathlib.Tactic.Ring

/-!
# Moments of rational samples

Over rational numbers the running moments are those of the definition: means are arithmetic means,
and the sums of squares and of products are those of the deviations from the means of all samples.
They depend on the samples alone, not on how these are divided among states, nor on the order in
which states are merged.

**Method.**  A sum of products of deviations is the sum of the products less the product of the sums
over the count (`coMomentOf_eq`).  In that form one more sample, and the samples of another state,
are identities between fractions.

**Results.**
* `Variance.fold_eq_ofAll`, `Covariance.fold_eq_ofAll`, `Slope.fold_eq_ofAll`: the state of some
  samples, however it is put together.
* `Slope.slope_ofAll`: the slope, and when there is one.
* `momentsExact`: all of this for counts of any size, and for those of 64 bits.
-/

namespace ExtentEngine

/-! ## Sums of products of deviations -/

section Sums

variable {β : Type} {f g : β → ℚ} {items others : List β}

/-- The arithmetic mean; that of no items is zero. -/
def meanOf (f : β → ℚ) (items : List β) : ℚ := (items.map f).sum / items.length

/-- The sum of the products of the deviations from the means. -/
def coMomentOf (f g : β → ℚ) (items : List β) : ℚ :=
  (items.map fun item => (f item - meanOf f items) * (g item - meanOf g items)).sum

theorem meanOf_nil (f : β → ℚ) : meanOf f [] = 0 := zero_div _

theorem coMomentOf_nil (f g : β → ℚ) : coMomentOf f g [] = 0 := rfl

theorem meanOf_perm (f : β → ℚ) (hperm : items.Perm others) : meanOf f items = meanOf f others := by
  rw [meanOf, meanOf, (hperm.map f).sum_eq, hperm.length_eq]

theorem coMomentOf_perm (f g : β → ℚ) (hperm : items.Perm others) :
    coMomentOf f g items = coMomentOf f g others := by
  rw [coMomentOf, coMomentOf, meanOf_perm f hperm, meanOf_perm g hperm]
  exact (hperm.map _).sum_eq

theorem cast_length_ne_zero (h : items ≠ []) : (items.length : ℚ) ≠ 0 :=
  Nat.cast_ne_zero.2 (List.length_pos_of_ne_nil h).ne'

theorem sum_deviations (f g : β → ℚ) (a b : ℚ) (items : List β) :
    (items.map fun item => (f item - a) * (g item - b)).sum =
      (items.map fun item => f item * g item).sum - a * (items.map g).sum -
        b * (items.map f).sum + items.length * (a * b) := by
  induction items with
  | nil => simp
  | cons item items ih =>
      simp only [List.map_cons, List.sum_cons, List.length_cons, ih, Nat.cast_add, Nat.cast_one]
      ring

/-- The sum of the products less the product of the sums over the count. -/
theorem coMomentOf_eq (f g : β → ℚ) (items : List β) :
    coMomentOf f g items = (items.map fun item => f item * g item).sum -
      (items.map f).sum * (items.map g).sum / items.length := by
  rw [coMomentOf, sum_deviations, meanOf, meanOf]
  by_cases hempty : items = []
  · simp [hempty]
  · have hlength := cast_length_ne_zero hempty
    field_simp
    ring

theorem meanOf_append (f : β → ℚ) (items others : List β) :
    meanOf f (items ++ others) =
      ((items.map f).sum + (others.map f).sum) / (items.length + others.length) := by
  rw [meanOf, List.map_append, List.sum_append, List.length_append, Nat.cast_add]

theorem coMomentOf_append (f g : β → ℚ) (items others : List β) :
    coMomentOf f g (items ++ others) =
      (items.map fun item => f item * g item).sum + (others.map fun item => f item * g item).sum -
        ((items.map f).sum + (others.map f).sum) * ((items.map g).sum + (others.map g).sum) /
          (items.length + others.length) := by
  rw [coMomentOf_eq]
  simp only [List.map_append, List.sum_append, List.length_append, Nat.cast_add]

/-- A further item moves the mean by its share of the deviation. -/
theorem meanOf_step (f : β → ℚ) (items : List β) (item : β) :
    meanOf f (items ++ [item]) =
      meanOf f items + (f item - meanOf f items) / ((items.length : ℚ) + 1) := by
  have hsucc : (items.length : ℚ) + 1 ≠ 0 := Nat.cast_add_one_ne_zero _
  rw [meanOf_append]
  by_cases hempty : items = []
  · simp [hempty, meanOf_nil]
  · have hlength := cast_length_ne_zero hempty
    simp only [meanOf, List.map_singleton, List.sum_singleton, List.length_singleton, Nat.cast_one]
    field_simp
    ring

/-- The old deviation of the one and the new deviation of the other coordinate are multiplied. -/
theorem coMomentOf_step (f g : β → ℚ) (items : List β) (item : β) :
    coMomentOf f g (items ++ [item]) =
      coMomentOf f g items +
        (f item - meanOf f items) * (g item - meanOf g (items ++ [item])) := by
  have hsucc : (items.length : ℚ) + 1 ≠ 0 := Nat.cast_add_one_ne_zero _
  rw [coMomentOf_append, coMomentOf_eq, meanOf_append]
  by_cases hempty : items = []
  · simp [hempty, meanOf_nil]
  · have hlength := cast_length_ne_zero hempty
    simp only [meanOf, List.map_singleton, List.sum_singleton, List.length_singleton, Nat.cast_one]
    field_simp
    ring

/-- Means are merged with the counts for weights. -/
theorem meanOf_merge (f : β → ℚ) (hitems : items ≠ []) (hothers : others ≠ []) :
    meanOf f (items ++ others) =
      (items.length * meanOf f items + others.length * meanOf f others) /
        (items.length + others.length) := by
  have hlength := cast_length_ne_zero hitems
  have hlength' := cast_length_ne_zero hothers
  rw [meanOf_append, meanOf, meanOf, mul_div_cancel₀ _ hlength, mul_div_cancel₀ _ hlength']

theorem coMomentOf_merge (f g : β → ℚ) (hitems : items ≠ []) (hothers : others ≠ []) :
    coMomentOf f g (items ++ others) =
      coMomentOf f g items + coMomentOf f g others +
        (meanOf f items - meanOf f others) * (meanOf g items - meanOf g others) * items.length *
          others.length / (items.length + others.length) := by
  have hlength := cast_length_ne_zero hitems
  have hlength' := cast_length_ne_zero hothers
  have hsum : (items.length : ℚ) + others.length ≠ 0 := by
    rw [← Nat.cast_add, ← List.length_append]
    exact cast_length_ne_zero (List.append_ne_nil_of_left_ne_nil hitems others)
  rw [coMomentOf_append, coMomentOf_eq, coMomentOf_eq]
  simp only [meanOf]
  field_simp
  ring

/-- The mean of equal items is any of them. -/
theorem meanOf_eq_of_forall (h : ∀ item ∈ items, ∀ other ∈ items, f item = f other) :
    ∀ item ∈ items, f item = meanOf f items := by
  intro item hitem
  have hmap : items.map f = items.map fun _ => f item :=
    List.map_congr_left fun other hother => h other hother item hitem
  rw [meanOf, hmap, List.map_const', List.sum_replicate, nsmul_eq_mul,
    mul_div_cancel_left₀ _ (cast_length_ne_zero (List.ne_nil_of_mem hitem))]

/-- Nothing deviates if and only if all items are equal. -/
theorem coMomentOf_self_eq_zero_iff :
    coMomentOf f f items = 0 ↔ ∀ item ∈ items, ∀ other ∈ items, f item = f other := by
  constructor
  · intro hzero
    have hmean : ∀ item ∈ items, f item = meanOf f items := by
      intro item hitem
      refine sub_eq_zero.1 (mul_self_eq_zero.1 ?_)
      refine List.all_zero_of_le_zero_le_of_sum_eq_zero ?_ hzero (List.mem_map_of_mem hitem)
      exact List.forall_mem_map.2 fun other _ => mul_self_nonneg _
    exact fun item hitem other hother => (hmean item hitem).trans (hmean other hother).symm
  · intro hequal
    refine List.sum_eq_zero (List.forall_mem_map.2 fun item hitem => ?_)
    rw [← meanOf_eq_of_forall hequal item hitem, sub_self, zero_mul]

end Sums

/-! ## Counts -/

/-- Counts that are exact for all feasible numbers of samples. -/
class Tally (κ : Type) [Add κ] [OfNat κ 0] [OfNat κ 1] extends Countable κ ℚ where
  /-- The count of a number of samples. -/
  ofNat : ℕ → κ
  /-- Whether a number of samples can be counted. -/
  Feasible : ℕ → Prop
  feasible_of_le : ∀ {n m : ℕ}, n ≤ m → Feasible m → Feasible n
  ofNat_zero : ofNat 0 = 0
  ofNat_one : ofNat 1 = 1
  ofNat_add : ∀ n m : ℕ, ofNat (n + m) = ofNat n + ofNat m
  ofCount_ofNat : ∀ {n : ℕ}, Feasible n → ofCount (ofNat n) = n
  isZero_iff : ∀ {q : ℚ}, isZero q = true ↔ q = 0

/-- All samples can be counted with integers. -/
instance : Tally ℤ where
  ofCount n := n
  isZero q := decide (q = 0)
  ofNat n := n
  Feasible _ := True
  feasible_of_le _ h := h
  ofNat_zero := rfl
  ofNat_one := rfl
  ofNat_add := Int.natCast_add
  ofCount_ofNat _ := Int.cast_natCast _
  isZero_iff := decide_eq_true_iff

/-- Fewer than `2 ^ 63` samples can be counted with 64 bits. -/
instance : Tally Int64 where
  ofCount n := n.toInt
  isZero q := decide (q = 0)
  ofNat := Int64.ofNat
  Feasible n := n < 2 ^ 63
  feasible_of_le := Nat.lt_of_le_of_lt
  ofNat_zero := rfl
  ofNat_one := rfl
  ofNat_add := Int64.ofNat_add
  ofCount_ofNat h := by rw [Int64.toInt_ofNat_of_lt h, Int.cast_natCast]
  isZero_iff := decide_eq_true_iff

namespace Tally

variable {κ : Type} [Add κ] [OfNat κ 0] [OfNat κ 1] [Tally κ] {n : ℕ}

theorem ofNat_eq_zero_iff (h : Feasible κ n) : (ofNat n : κ) = 0 ↔ n = 0 := by
  constructor
  · intro hzero
    have hcast : (n : ℚ) = (0 : ℕ) := by
      rw [← ofCount_ofNat h, hzero, ← ofNat_zero, ofCount_ofNat (feasible_of_le (Nat.zero_le n) h)]
    exact Nat.cast_injective hcast
  · rintro rfl
    exact ofNat_zero

theorem ofCount_succ (h : Feasible κ (n + 1)) :
    (Countable.ofCount ((ofNat n : κ) + 1) : ℚ) = n + 1 := by
  rw [← ofNat_one, ← ofNat_add, ofCount_ofNat h, Nat.cast_add, Nat.cast_one]

end Tally

/-! ## States -/

section States

variable {κ : Type} [Add κ] [OfNat κ 0] [OfNat κ 1] [Tally κ]
variable {β : Type} {f g : β → ℚ} {items others : List β} {item : β}

open Tally

namespace Variance

/-- The moments of one coordinate of some items. -/
def ofAll (κ : Type) [Add κ] [OfNat κ 0] [OfNat κ 1] [Tally κ] (f : β → ℚ) (items : List β) :
    Variance κ ℚ :=
  ⟨ofNat items.length, meanOf f items, coMomentOf f f items⟩

theorem ofAll_perm (hperm : items.Perm others) : ofAll κ f items = ofAll κ f others := by
  rw [ofAll, ofAll, hperm.length_eq, meanOf_perm f hperm, coMomentOf_perm f f hperm]

theorem ofAll_nil (f : β → ℚ) : ofAll κ f [] = empty := by
  rw [ofAll, List.length_nil, ofNat_zero, meanOf_nil, coMomentOf_nil]
  rfl

theorem count_ofAll (h : Feasible κ items.length) : (ofAll κ f items).count = 0 ↔ items = [] := by
  rw [ofAll, ofNat_eq_zero_iff h, List.length_eq_zero_iff]

theorem update_ofAll (h : Feasible κ (items.length + 1)) :
    (ofAll κ f items).update (f item) = ofAll κ f (items ++ [item]) := by
  rw [update, ofAll, ofAll, List.length_append, List.length_singleton, ofNat_add, ofNat_one,
    coMomentOf_step, meanOf_step, ofCount_succ h]

variable [DecidableEq κ] in
theorem merge_ofAll (h : Feasible κ (items.length + others.length)) :
    (ofAll κ f items).merge (ofAll κ f others) = ofAll κ f (items ++ others) := by
  have hitems : Feasible κ items.length := feasible_of_le (Nat.le_add_right _ _) h
  have hothers : Feasible κ others.length := feasible_of_le (Nat.le_add_left _ _) h
  rw [merge]
  split
  · next hcount => rw [(count_ofAll hothers).1 hcount, List.append_nil]
  · next hothers' =>
      split
      · next hcount => rw [(count_ofAll hitems).1 hcount, List.nil_append]
      · next hitems' =>
          have hne := mt (count_ofAll hitems).2 hitems'
          have hne' := mt (count_ofAll hothers).2 hothers'
          simp only [ofAll, List.length_append, ofNat_add, ofCount_ofNat hitems,
            ofCount_ofNat hothers, meanOf_merge f hne hne', coMomentOf_merge f f hne hne']

variable [DecidableEq κ] in
/-- However samples are divided and merged, the state is that of all of them. -/
theorem fold_eq_ofAll (f : β → ℚ) (assembly : Assembly β)
    (h : Feasible κ assembly.rows.length) :
    assembly.fold empty (fun v item => update v (f item)) merge = ofAll κ f assembly.rows :=
  assembly.fold_eq feasible_of_le (ofAll_nil f).symm (fun _ _ => update_ofAll)
    (fun _ _ => merge_ofAll) h

end Variance

namespace Covariance

/-- The moments of two coordinates of some items. -/
def ofAll (κ : Type) [Add κ] [OfNat κ 0] [OfNat κ 1] [Tally κ] (f g : β → ℚ) (items : List β) :
    Covariance κ ℚ :=
  ⟨ofNat items.length, meanOf f items, meanOf g items, coMomentOf f g items⟩

theorem ofAll_perm (hperm : items.Perm others) : ofAll κ f g items = ofAll κ f g others := by
  rw [ofAll, ofAll, hperm.length_eq, meanOf_perm f hperm, meanOf_perm g hperm,
    coMomentOf_perm f g hperm]

theorem ofAll_nil (f g : β → ℚ) : ofAll κ f g [] = empty := by
  rw [ofAll, List.length_nil, ofNat_zero, meanOf_nil, meanOf_nil, coMomentOf_nil]
  rfl

theorem count_ofAll (h : Feasible κ items.length) :
    (ofAll κ f g items).count = 0 ↔ items = [] := by
  rw [ofAll, ofNat_eq_zero_iff h, List.length_eq_zero_iff]

theorem update_ofAll (h : Feasible κ (items.length + 1)) :
    (ofAll κ f g items).update (g item) (f item) = ofAll κ f g (items ++ [item]) := by
  rw [update, ofAll, ofAll, List.length_append, List.length_singleton, ofNat_add, ofNat_one,
    coMomentOf_step, meanOf_step, meanOf_step, ofCount_succ h]

variable [DecidableEq κ] in
theorem merge_ofAll (h : Feasible κ (items.length + others.length)) :
    (ofAll κ f g items).merge (ofAll κ f g others) = ofAll κ f g (items ++ others) := by
  have hitems : Feasible κ items.length := feasible_of_le (Nat.le_add_right _ _) h
  have hothers : Feasible κ others.length := feasible_of_le (Nat.le_add_left _ _) h
  rw [merge]
  split
  · next hcount => rw [(count_ofAll hothers).1 hcount, List.append_nil]
  · next hothers' =>
      split
      · next hcount => rw [(count_ofAll hitems).1 hcount, List.nil_append]
      · next hitems' =>
          have hne := mt (count_ofAll hitems).2 hitems'
          have hne' := mt (count_ofAll hothers).2 hothers'
          simp only [ofAll, List.length_append, ← ofNat_add, ofCount_ofNat h, ofCount_ofNat hitems,
            ofCount_ofNat hothers, meanOf_merge f hne hne', meanOf_merge g hne hne',
            coMomentOf_merge f g hne hne', Nat.cast_add, mk.injEq, true_and]
          refine ⟨?_, ?_, ?_⟩ <;> ring

variable [DecidableEq κ] in
/-- However samples are divided and merged, the state is that of all of them. -/
theorem fold_eq_ofAll (f g : β → ℚ) (assembly : Assembly β)
    (h : Feasible κ assembly.rows.length) :
    assembly.fold empty (fun c item => update c (g item) (f item)) merge =
      ofAll κ f g assembly.rows :=
  assembly.fold_eq feasible_of_le (ofAll_nil f g).symm (fun _ _ => update_ofAll)
    (fun _ _ => merge_ofAll) h

end Covariance

namespace Slope

/-- The moments of a line through some points, with the first coordinate `f`. -/
def ofAll (κ : Type) [Add κ] [OfNat κ 0] [OfNat κ 1] [Tally κ] (f g : β → ℚ) (items : List β) :
    Slope κ ℚ :=
  ⟨.ofAll κ f g items, .ofAll κ f items⟩

theorem ofAll_perm (hperm : items.Perm others) : ofAll κ f g items = ofAll κ f g others := by
  rw [ofAll, ofAll, Covariance.ofAll_perm hperm, Variance.ofAll_perm hperm]

variable [DecidableEq κ]

/-- However points are divided and merged, the state is that of all of them. -/
theorem fold_eq_ofAll (f g : β → ℚ) (assembly : Assembly β)
    (h : Feasible κ assembly.rows.length) :
    assembly.fold empty (fun s item => update s (g item) (f item)) merge =
      ofAll κ f g assembly.rows := by
  refine assembly.fold_eq feasible_of_le ?_ (fun rows row hrow => ?_) (fun rows rows' hrows => ?_) h
  · rw [ofAll, Covariance.ofAll_nil, Variance.ofAll_nil]
    rfl
  · rw [ofAll, ofAll, update, Covariance.update_ofAll hrow, Variance.update_ofAll hrow]
  · rw [ofAll, ofAll, ofAll, merge, Covariance.merge_ofAll hrows, Variance.merge_ofAll hrows]

theorem population_covariance (h : Feasible κ items.length) (hne : items ≠ []) :
    (Covariance.ofAll κ f g items).population = some (coMomentOf f g items / items.length) := by
  rw [Covariance.population, perCount, if_neg (mt (Covariance.count_ofAll h).1 hne)]
  rw [Covariance.ofAll, ofCount_ofNat h]

theorem population_variance (h : Feasible κ items.length) (hne : items ≠ []) :
    (Variance.ofAll κ f items).population = some (coMomentOf f f items / items.length) := by
  rw [Variance.population, perCount, if_neg (mt (Variance.count_ofAll h).1 hne)]
  rw [Variance.ofAll, ofCount_ofNat h]

/-- The slope is the quotient of the sums of products and of squares of deviations.  There is none
if nothing deviates from the first coordinate. -/
theorem slope_ofAll (h : Feasible κ items.length) :
    (ofAll κ f g items).slope =
      if coMomentOf f f items = 0 then none
      else some (coMomentOf f g items / coMomentOf f f items) := by
  by_cases hempty : items = []
  · subst hempty
    rw [if_pos (coMomentOf_nil f f), slope, ofAll, Covariance.population, perCount,
      if_pos ((Covariance.count_ofAll h).2 rfl)]
  · have hlength := cast_length_ne_zero hempty
    rw [slope, ofAll, population_covariance h hempty, population_variance h hempty]
    simp only [isZero_iff, div_eq_zero_iff, hlength, or_false, div_div_div_cancel_right₀ hlength]

end Slope

end States

/-! ## Exactness -/

section Exactness

variable (κ : Type) [Add κ] [OfNat κ 0] [OfNat κ 1] [DecidableEq κ]

/-- The state of samples that are taken in turn. -/
def Variance.ofSamples [Countable κ ℚ] (samples : List ℚ) : Variance κ ℚ :=
  samples.foldl update empty

/-- The state of points that are taken in turn, with the second coordinate first. -/
def Covariance.ofPoints [Countable κ ℚ] (points : List (ℚ × ℚ)) : Covariance κ ℚ :=
  points.foldl (fun c point => c.update point.1 point.2) empty

/-- The state of a line through points that are taken in turn, with the second coordinate first. -/
def Slope.ofPoints [Countable κ ℚ] (points : List (ℚ × ℚ)) : Slope κ ℚ :=
  points.foldl (fun s point => s.update point.1 point.2) empty

/-- Points have the moments of the definition, with the second coordinate first.  However they are
divided and merged, the state is that of all of them. -/
structure MomentsExact [Countable κ ℚ] (ofNat : ℕ → κ) (points : List (ℚ × ℚ)) : Prop where
  variance : Variance.ofSamples κ (points.map Prod.snd) =
    ⟨ofNat points.length, meanOf Prod.snd points, coMomentOf Prod.snd Prod.snd points⟩
  covariance : Covariance.ofPoints κ points =
    ⟨ofNat points.length, meanOf Prod.snd points, meanOf Prod.fst points,
      coMomentOf Prod.snd Prod.fst points⟩
  merged_variance : ∀ assembly : Assembly ℚ, assembly.rows.Perm (points.map Prod.snd) →
    assembly.fold .empty Variance.update Variance.merge =
      Variance.ofSamples κ (points.map Prod.snd)
  merged_covariance : ∀ assembly : Assembly (ℚ × ℚ), assembly.rows.Perm points →
    assembly.fold .empty (fun c point => c.update point.1 point.2) Covariance.merge =
      Covariance.ofPoints κ points
  merged_slope : ∀ assembly : Assembly (ℚ × ℚ), assembly.rows.Perm points →
    assembly.fold .empty (fun s point => s.update point.1 point.2) Slope.merge =
      Slope.ofPoints κ points
  slope_eq_none : (Slope.ofPoints κ points).slope = none ↔
    points = [] ∨ ∀ point ∈ points, ∀ other ∈ points, point.2 = other.2
  slope_eq_some : ∀ slope, (Slope.ofPoints κ points).slope = some slope →
    slope = coMomentOf Prod.snd Prod.fst points / coMomentOf Prod.snd Prod.snd points

variable {κ} [Tally κ] {points : List (ℚ × ℚ)}

open Tally

theorem meanOf_map {β γ : Type} (f : γ → ℚ) (h : β → γ) (items : List β) :
    meanOf f (items.map h) = meanOf (f ∘ h) items := by
  rw [meanOf, meanOf, List.map_map, List.length_map]

theorem coMomentOf_map {β γ : Type} (f g : γ → ℚ) (h : β → γ) (items : List β) :
    coMomentOf f g (items.map h) = coMomentOf (f ∘ h) (g ∘ h) items := by
  rw [coMomentOf, coMomentOf, meanOf_map, meanOf_map, List.map_map]
  rfl

theorem Variance.fold_samples {samples : List ℚ} (h : Feasible κ samples.length)
    (assembly : Assembly ℚ) (hperm : assembly.rows.Perm samples) :
    assembly.fold empty update merge = ofAll κ id samples := by
  rw [← ofAll_perm hperm]
  exact fold_eq_ofAll id assembly (hperm.length_eq ▸ h)

theorem Covariance.fold_points (h : Feasible κ points.length)
    (assembly : Assembly (ℚ × ℚ)) (hperm : assembly.rows.Perm points) :
    assembly.fold empty (fun c point => c.update point.1 point.2) merge =
      ofAll κ Prod.snd Prod.fst points := by
  rw [← ofAll_perm hperm]
  exact fold_eq_ofAll Prod.snd Prod.fst assembly (hperm.length_eq ▸ h)

theorem Slope.fold_points (h : Feasible κ points.length)
    (assembly : Assembly (ℚ × ℚ)) (hperm : assembly.rows.Perm points) :
    assembly.fold empty (fun s point => s.update point.1 point.2) merge =
      ofAll κ Prod.snd Prod.fst points := by
  rw [← ofAll_perm hperm]
  exact fold_eq_ofAll Prod.snd Prod.fst assembly (hperm.length_eq ▸ h)

theorem momentsExact_of_feasible (h : Feasible κ points.length) :
    MomentsExact κ ofNat points := by
  have hinTurn := Assembly.rows_inTurn points
  have hsamples : Feasible κ (points.map Prod.snd).length := by rwa [List.length_map]
  have hvariance : Variance.ofSamples κ (points.map Prod.snd) =
      .ofAll κ id (points.map Prod.snd) := by
    rw [Variance.ofSamples, ← Assembly.fold_inTurn _ _ Variance.merge]
    exact Variance.fold_samples hsamples _ (.of_eq (Assembly.rows_inTurn _))
  have hcovariance : Covariance.ofPoints κ points = .ofAll κ Prod.snd Prod.fst points := by
    rw [Covariance.ofPoints, ← Assembly.fold_inTurn _ _ Covariance.merge]
    exact Covariance.fold_points h _ (.of_eq hinTurn)
  have hslope : Slope.ofPoints κ points = .ofAll κ Prod.snd Prod.fst points := by
    rw [Slope.ofPoints, ← Assembly.fold_inTurn _ _ Slope.merge]
    exact Slope.fold_points h _ (.of_eq hinTurn)
  constructor
  · rw [hvariance, Variance.ofAll, List.length_map, meanOf_map, coMomentOf_map]
    rfl
  · exact hcovariance
  · exact fun assembly hperm => (Variance.fold_samples hsamples assembly hperm).trans hvariance.symm
  · exact fun assembly hperm => (Covariance.fold_points h assembly hperm).trans hcovariance.symm
  · exact fun assembly hperm => (Slope.fold_points h assembly hperm).trans hslope.symm
  · have hempty : points = [] → ∀ point ∈ points, ∀ other ∈ points, point.2 = other.2 := by
      rintro rfl
      exact nofun
    rw [hslope, Slope.slope_ofAll h, or_iff_right_of_imp hempty, ← coMomentOf_self_eq_zero_iff]
    split
    · next hzero => exact iff_of_true rfl hzero
    · next hne => exact iff_of_false nofun hne
  · intro slope hsome
    rw [hslope, Slope.slope_ofAll h] at hsome
    split at hsome
    · cases hsome
    · exact (Option.some.inj hsome).symm

/-- The running moments are exact: with integers for counts for all points, and with counts of 64
bits for fewer than `2 ^ 63` of them. -/
theorem momentsExact (points : List (ℚ × ℚ)) :
    MomentsExact ℤ Nat.cast points ∧
      (points.length < 2 ^ 63 → MomentsExact Int64 Int64.ofNat points) :=
  ⟨momentsExact_of_feasible trivial, fun h => momentsExact_of_feasible h⟩

/-- Three points off one line, merged from the last one to the first one, and two points above each
other. -/
theorem momentsExact_three_points :
    ((Assembly.merge (.add .fresh (8, 3)) (.add (.add .fresh (3, 2)) (1, 1))).fold .empty
      (fun s point => s.update point.1 point.2) Slope.merge : Slope Int64 ℚ).slope = some (7 / 2) ∧
      (Slope.ofPoints Int64 [(1, 2), (5, 2)]).slope = none := by
  have hthree := (momentsExact [(1, 1), (3, 2), (8, 3)]).2 (by decide)
  have htwo := (momentsExact [(1, 2), (5, 2)]).2 (by decide)
  have hperm : (Assembly.merge (.add .fresh (8, 3)) (.add (.add .fresh (3, 2)) (1, 1))).rows.Perm
      [((1 : ℚ), (1 : ℚ)), (3, 2), (8, 3)] :=
    List.reverse_perm [((1 : ℚ), (1 : ℚ)), (3, 2), (8, 3)]
  constructor
  · rw [hthree.merged_slope _ hperm]
    cases hslope : (Slope.ofPoints Int64 [(1, 1), (3, 2), (8, 3)]).slope with
    | none => simp [hthree.slope_eq_none] at hslope
    | some slope =>
        rw [hthree.slope_eq_some slope hslope]
        norm_num [coMomentOf, meanOf]
  · rw [htwo.slope_eq_none]
    simp

end Exactness
end ExtentEngine
