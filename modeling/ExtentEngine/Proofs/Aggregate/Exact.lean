import ExtentEngine.Aggregate.Function
import ExtentEngine.Proofs.Aggregate.Extremum
import ExtentEngine.Proofs.Attempt
import Mathlib.Algebra.BigOperators.Group.List.Basic

/-!
# Exact aggregates

Counts, extrema and sums of integers are exact: their values depend on the rows alone, not
on how the rows were divided among accumulators, nor on the order in which these were merged.

**Results.**
* `Summarizes.update`: an accumulator takes a further row.
* `Summarizes.merge`: merged accumulators summarize the rows of both.
* `Summarizes.finish`: the value in the end is the one over all rows.
-/

namespace ExtentEngine

namespace Scalar

/-- The integer that a scalar holds, or zero. -/
def whole : Scalar → Int
  | int n => n.toInt
  | _ => 0

theorem whole_bounds (value : Scalar) : -2 ^ 63 ≤ value.whole ∧ value.whole ≤ 2 ^ 63 := by
  cases value with
  | int n =>
      have hlow := n.le_toInt
      have hhigh := n.toInt_lt
      simp only [whole]
      omega
  | _ => simp [whole]

end Scalar

/-- The exact sum of the integers among some values. -/
def wholeSum (values : List Scalar) : Int := (values.map Scalar.whole).sum

theorem wholeSum_append (values others : List Scalar) :
    wholeSum (values ++ others) = wholeSum values + wholeSum others := by
  rw [wholeSum, List.map_append, List.sum_append]
  rfl

theorem wholeSum_bounds (values : List Scalar) :
    -(values.length * 2 ^ 63) ≤ wholeSum values ∧ wholeSum values ≤ values.length * 2 ^ 63 := by
  induction values with
  | nil => exact ⟨Int.le_refl _, Int.le_refl _⟩
  | cons value values ih =>
      have hvalue := value.whole_bounds
      have hsum : wholeSum (value :: values) = value.whole + wholeSum values := rfl
      rw [hsum, List.length_cons]
      omega

/-- The running sum of some integers; there is none if there are no values. -/
def IsTotal (values : List Scalar) : Option Total → Prop
  | none => values = []
  | some total => values ≠ [] ∧ ∃ n, total = .int n ∧ n.val = wholeSum values

namespace IsTotal

variable {values others : List Scalar} {total : Option Total} {more : Total}

theorem singleton (n : Int64) : IsTotal [.int n] (some (.int (.ofInt64 n))) :=
  ⟨nofun, _, rfl, (Int.add_zero _).symm⟩

/-- Sums of fewer than `2 ^ 63` integers can be added. -/
theorem append (h : IsTotal values total) (h' : IsTotal others (some more))
    (hlength : values.length + others.length < 2 ^ 63) :
    ∃ sum, Accumulator.addTotal total more = (.ok (), .sum sum) ∧
      IsTotal (values ++ others) sum := by
  obtain ⟨hne, n, rfl, hn⟩ := h'
  cases total with
  | none =>
      rw [show values = [] from h]
      exact ⟨_, rfl, hne, n, rfl, hn⟩
  | some total =>
      obtain ⟨hne', m, rfl, hm⟩ := h
      have hsum := wholeSum_bounds values
      have hsum' := wholeSum_bounds others
      have hrange : -2 ^ 127 ≤ m.val + n.val ∧ m.val + n.val < 2 ^ 127 := by
        rw [hm, hn]
        omega
      refine ⟨some (.int ⟨m.val + n.val, hrange.1, hrange.2⟩), ?_, ?_, _, rfl, ?_⟩
      · rw [Accumulator.addTotal, Total.add, Int128.ofInt?, dif_pos hrange]
      · exact fun hnil => hne' (List.append_eq_nil_iff.1 hnil).1
      · rw [wholeSum_append, ← hm, ← hn]

theorem perm (h : IsTotal values total) (hperm : values.Perm others) : IsTotal others total := by
  cases total with
  | none =>
      rw [show values = [] from h] at hperm
      exact hperm.symm.eq_nil
  | some total =>
      obtain ⟨hne, n, htotal, hn⟩ := h
      refine ⟨fun hnil => hne ?_, n, htotal, hn.trans (hperm.map Scalar.whole).sum_eq⟩
      rw [hnil] at hperm
      exact hperm.eq_nil

end IsTotal

namespace Aggregate

/-- Whether the value of the aggregate depends on the rows alone. -/
def isExact (aggregate : Aggregate) : Bool :=
  match aggregate.function with
  | .count => true
  | .sum => true
  | .min => true
  | .max => true
  | _ => false

/-- The input of a row, if there is one and it is not null. -/
def input? (aggregate : Aggregate) (record : Record) : Option Scalar :=
  match aggregate.evaluateInputs (.ofLeft record) with
  | .ok (value :: _) => if value.isNull then none else some value
  | _ => none

/-- The inputs of some rows that are not null. -/
def values (aggregate : Aggregate) (rows : List Record) : List Scalar :=
  rows.filterMap aggregate.input?

/-- The number of rows that the aggregate counts: all of them, or those with an input. -/
def counted (aggregate : Aggregate) (rows : List Record) : Nat :=
  if aggregate.inputs.isEmpty then rows.length else (aggregate.values rows).length

/-- The value of an exact aggregate over some rows. -/
def valueOver (aggregate : Aggregate) (rows : List Record) : Scalar :=
  match aggregate.function with
  | .count => .int (Int64.ofNat (aggregate.counted rows))
  | .sum =>
    if (aggregate.values rows).isEmpty then .null
    else if -2 ^ 63 ≤ wholeSum (aggregate.values rows) ∧ wholeSum (aggregate.values rows) < 2 ^ 63
    then .int (Int64.ofInt (wholeSum (aggregate.values rows)))
    else .float (Binary64.ofInt (wholeSum (aggregate.values rows)))
  | .min => (extremum .lt (aggregate.values rows)).getD .null
  | .max => (extremum .gt (aggregate.values rows)).getD .null
  | _ => .null

/-- An accumulator that has taken some rows. -/
def Summarizes (aggregate : Aggregate) (rows : List Record) (state : Accumulator) : Prop :=
  match aggregate.function with
  | .count => state =
    .count (Int64.ofNat (aggregate.counted rows)) (aggregate.inputs.length != 0)
  | .sum => ∃ total, state = .sum total ∧ IsTotal (aggregate.values rows) total
  | .min => ∃ best, state = .least best ∧ IsExtremum .lt (aggregate.values rows) best
  | .max => ∃ best, state = .greatest best ∧ IsExtremum .gt (aggregate.values rows) best
  | _ => False

/-- A sum gets no float from a row. -/
def FloatFree (aggregate : Aggregate) (record : Record) : Prop :=
  aggregate.function = .sum → ∀ inputs, aggregate.evaluateInputs (.ofLeft record) = .ok inputs →
    ∀ x, Scalar.float x ∉ inputs

/-- The inputs of a row can be evaluated, and those of a sum are integers or nulls. -/
def Admits (aggregate : Aggregate) (record : Record) : Prop :=
  ∃ inputs, aggregate.evaluateInputs (.ofLeft record) = .ok inputs ∧
    (aggregate.function = .sum → ∀ value ∈ inputs, value = .null ∨ ∃ n, value = .int n)

variable {aggregate : Aggregate} {rows rows' : List Record} {record : Record}
  {state other : Accumulator} {inputs : List Scalar}

theorem values_append (aggregate : Aggregate) (rows rows' : List Record) :
    aggregate.values (rows ++ rows') = aggregate.values rows ++ aggregate.values rows' :=
  List.filterMap_append

theorem length_values_le (aggregate : Aggregate) (rows : List Record) :
    (aggregate.values rows).length ≤ rows.length :=
  List.length_filterMap_le _ _

theorem counted_append (aggregate : Aggregate) (rows rows' : List Record) :
    aggregate.counted (rows ++ rows') = aggregate.counted rows + aggregate.counted rows' := by
  rw [counted, counted, counted]
  split
  · exact List.length_append
  · rw [values_append, List.length_append]

theorem length_inputs (h : aggregate.evaluateInputs (.ofLeft record) = .ok inputs) :
    inputs.length = aggregate.inputs.length :=
  (Attempt.mapM_eq_ok.1 h).length_eq.symm

theorem exists_input (h : aggregate.evaluateInputs (.ofLeft record) = .ok inputs)
    (hone : aggregate.inputs.length = 1) :
    ∃ value, inputs = [value] ∧
      aggregate.values [record] = if value.isNull then [] else [value] := by
  obtain ⟨value, rfl⟩ := List.length_eq_one_iff.1 ((length_inputs h).trans hone)
  refine ⟨value, rfl, ?_⟩
  rw [values, List.filterMap_cons, input?, h]
  simp only
  cases value.isNull <;> rfl

theorem inputs_bounds (aggregate : Aggregate) :
    aggregate.function.leastInputs ≤ aggregate.inputs.length ∧
      aggregate.inputs.length ≤ aggregate.function.mostInputs := by
  obtain ⟨hleast, hmost⟩ := Bool.and_eq_true_iff.1 aggregate.accepted
  exact ⟨of_decide_eq_true hleast, of_decide_eq_true hmost⟩

theorem summarizes_start (hexact : aggregate.isExact = true) :
    aggregate.Summarizes [] aggregate.start := by
  rw [isExact] at hexact
  rw [Summarizes, start]
  cases hfunction : aggregate.function <;> rw [hfunction] at hexact <;> try cases hexact
  · have hcounted : aggregate.counted [] = 0 := by
      rw [counted]
      split <;> rfl
    rw [hcounted]
    rfl
  · exact ⟨none, rfl, rfl⟩
  · exact ⟨none, rfl, rfl⟩
  · exact ⟨none, rfl, rfl⟩

namespace Summarizes

theorem perm (h : aggregate.Summarizes rows state) (hperm : rows.Perm rows') :
    aggregate.Summarizes rows' state := by
  have hvalues : (aggregate.values rows).Perm (aggregate.values rows') := hperm.filterMap _
  rw [Summarizes] at h ⊢
  cases hfunction : aggregate.function <;> rw [hfunction] at h <;> try exact h.elim
  · have hcounted : aggregate.counted rows = aggregate.counted rows' := by
      rw [counted, counted, hperm.length_eq, hvalues.length_eq]
    rw [← hcounted]
    exact h
  · obtain ⟨total, hstate, htotal⟩ := h
    exact ⟨total, hstate, htotal.perm hvalues⟩
  · obtain ⟨best, hstate, hbest⟩ := h
    exact ⟨best, hstate, hbest.perm hvalues⟩
  · obtain ⟨best, hstate, hbest⟩ := h
    exact ⟨best, hstate, hbest.perm hvalues⟩

theorem inputs_eq_nil_or_length (h : aggregate.Summarizes rows state) :
    (aggregate.function = .count ∧ aggregate.inputs = []) ∨ aggregate.inputs.length = 1 := by
  have hbounds := aggregate.inputs_bounds
  rw [Summarizes] at h
  cases hfunction : aggregate.function <;> rw [hfunction] at h hbounds <;> try exact h.elim
  · rcases Nat.eq_zero_or_pos aggregate.inputs.length with hzero | hpos
    · exact Or.inl ⟨rfl, List.eq_nil_of_length_eq_zero hzero⟩
    · exact Or.inr (Nat.le_antisymm hbounds.2 hpos)
  all_goals exact Or.inr (Nat.le_antisymm hbounds.2 hbounds.1)

/-- A row that is counted whatever its inputs are. -/
theorem update_count (hcount : aggregate.function = .count) (hempty : aggregate.inputs = [])
    (h : aggregate.Summarizes rows state) :
    ∃ updated, (Accumulator.update inputs).run state = (.ok (), updated) ∧
      aggregate.Summarizes (rows ++ [record]) updated := by
  simp only [Summarizes, hcount] at h ⊢
  have hskips : (aggregate.inputs.length != 0) = false := by rw [hempty]; rfl
  have hcounted : aggregate.counted [record] = 1 := by
    rw [counted, hempty]
    rfl
  rw [h, hskips, counted_append, hcounted, Int64.ofNat_add]
  exact ⟨_, rfl, rfl⟩

/-- An input that is null is passed over. -/
theorem update_null {value : Scalar} (hone : aggregate.inputs.length = 1)
    (hnull : value.isNull = true) (hvalues : aggregate.values [record] = [])
    (h : aggregate.Summarizes rows state) :
    (Accumulator.update [value]).run state = (.ok (), state) ∧
      aggregate.Summarizes (rows ++ [record]) state := by
  have hsame : aggregate.values (rows ++ [record]) = aggregate.values rows := by
    rw [values_append, hvalues, List.append_nil]
  have hsomewhere : aggregate.inputs.isEmpty = false :=
    List.isEmpty_eq_false_iff.2 (List.ne_nil_of_length_pos (hone ▸ Nat.one_pos))
  have hcounted : aggregate.counted (rows ++ [record]) = aggregate.counted rows := by
    rw [counted, counted, hsame, hsomewhere]
    rfl
  have hskips : (aggregate.inputs.length != 0) = true := by rw [hone]; rfl
  simp only [Summarizes, hsame, hcounted] at h ⊢
  refine ⟨?_, h⟩
  cases hfunction : aggregate.function <;> rw [hfunction] at h <;> try exact h.elim
  · rw [h, hskips]
    simp [Step.run, Accumulator.update, hnull]
  · obtain ⟨total, rfl, -⟩ := h
    simp [Step.run, Accumulator.update, hnull]
  · obtain ⟨best, rfl, -⟩ := h
    simp [Step.run, Accumulator.update, hnull]
  · obtain ⟨best, rfl, -⟩ := h
    simp [Step.run, Accumulator.update, hnull]

/-- An input that is not null is taken. -/
theorem update_present {value : Scalar} (hone : aggregate.inputs.length = 1)
    (hnull : value.isNull = false) (hvalues : aggregate.values [record] = [value])
    (hsummable : aggregate.function = .sum → ∃ n, value = .int n)
    (hlength : rows.length + 1 < 2 ^ 63) (h : aggregate.Summarizes rows state) :
    ∃ updated, (Accumulator.update [value]).run state = (.ok (), updated) ∧
      aggregate.Summarizes (rows ++ [record]) updated := by
  have hsomewhere : aggregate.inputs.isEmpty = false :=
    List.isEmpty_eq_false_iff.2 (List.ne_nil_of_length_pos (hone ▸ Nat.one_pos))
  have hcounted : aggregate.counted [record] = 1 := by
    rw [counted, hvalues, hsomewhere]
    rfl
  have hskips : (aggregate.inputs.length != 0) = true := by rw [hone]; rfl
  simp only [Summarizes, values_append, hvalues, counted_append, hcounted] at h ⊢
  cases hfunction : aggregate.function <;> rw [hfunction] at h <;> try exact h.elim
  · rw [h, hskips, Int64.ofNat_add]
    exact ⟨_, by simp [Step.run, Accumulator.update, hnull, Accumulator.updatePresent], rfl⟩
  · obtain ⟨total, rfl, htotal⟩ := h
    obtain ⟨n, rfl⟩ := hsummable hfunction
    have hle := aggregate.length_values_le rows
    obtain ⟨sum, hadd, hsum⟩ := htotal.append (.singleton n) (by
      rw [List.length_singleton]
      omega)
    refine ⟨.sum sum, ?_, sum, rfl, hsum⟩
    rw [← hadd]
    simp [Step.run, Accumulator.update, hnull, Accumulator.updatePresent]
    rfl
  · obtain ⟨best, rfl, hbest⟩ := h
    have horder : Ordering.lt ≠ .eq := nofun
    refine ⟨_, ?_, _, rfl, hbest.append horder (.singleton horder value)⟩
    simp [Step.run, Accumulator.update, hnull, Accumulator.updatePresent]
    rfl
  · obtain ⟨best, rfl, hbest⟩ := h
    have horder : Ordering.gt ≠ .eq := nofun
    refine ⟨_, ?_, _, rfl, hbest.append horder (.singleton horder value)⟩
    simp [Step.run, Accumulator.update, hnull, Accumulator.updatePresent]
    rfl

/-- An accumulator takes a further row. -/
theorem update (h : aggregate.Summarizes rows state)
    (hinputs : aggregate.evaluateInputs (.ofLeft record) = .ok inputs)
    (hsummable : aggregate.function = .sum →
      ∀ value ∈ inputs, value = .null ∨ ∃ n, value = .int n)
    (hlength : rows.length + 1 < 2 ^ 63) :
    ∃ updated, (Accumulator.update inputs).run state = (.ok (), updated) ∧
      aggregate.Summarizes (rows ++ [record]) updated := by
  rcases h.inputs_eq_nil_or_length with ⟨hcount, hempty⟩ | hone
  · exact h.update_count hcount hempty
  · obtain ⟨value, rfl, hvalues⟩ := exists_input hinputs hone
    cases hnull : value.isNull with
    | true =>
        rw [hnull, if_pos rfl] at hvalues
        obtain ⟨hupdate, hsummarizes⟩ := h.update_null hone hnull hvalues
        exact ⟨state, hupdate, hsummarizes⟩
    | false =>
        rw [hnull, if_neg Bool.false_ne_true] at hvalues
        refine h.update_present hone hnull hvalues (fun hsum => ?_) hlength
        rcases hsummable hsum value (List.mem_singleton.2 rfl) with rfl | hint
        · cases hnull
        · exact hint

/-- A sum takes integers and nulls only, if it gets no floats. -/
theorem summable_of_update (h : aggregate.Summarizes rows state)
    (hinputs : aggregate.evaluateInputs (.ofLeft record) = .ok inputs)
    (hfloat : aggregate.FloatFree record) (hsum : aggregate.function = .sum)
    (hok : ((Accumulator.update inputs).run state).1 = .ok ()) :
    ∀ value ∈ inputs, value = .null ∨ ∃ n, value = .int n := by
  have hone : aggregate.inputs.length = 1 := by
    have hbounds := aggregate.inputs_bounds
    rw [hsum] at hbounds
    exact Nat.le_antisymm hbounds.2 hbounds.1
  obtain ⟨value, rfl, -⟩ := exists_input hinputs hone
  rw [Summarizes, hsum] at h
  obtain ⟨total, rfl, -⟩ := h
  intro other hother
  rw [List.mem_singleton.1 hother]
  cases value with
  | null => exact Or.inl rfl
  | int n => exact Or.inr ⟨n, rfl⟩
  | float x => exact absurd List.mem_cons_self (hfloat hsum _ hinputs x)
  | bool b => cases hok
  | text t => cases hok

/-- Merged accumulators summarize the rows of both. -/
theorem merge (h : aggregate.Summarizes rows state) (h' : aggregate.Summarizes rows' other)
    (hlength : rows.length + rows'.length < 2 ^ 63) :
    ∃ merged, (Accumulator.merge other).run state = (.ok (), merged) ∧
      aggregate.Summarizes (rows ++ rows') merged := by
  rw [Summarizes] at h h'
  simp only [Summarizes]
  cases hfunction : aggregate.function <;> rw [hfunction] at h h' <;> try exact h.elim
  · subst h h'
    refine ⟨_, rfl, ?_⟩
    rw [counted_append, Int64.ofNat_add]
  · obtain ⟨total, rfl, htotal⟩ := h
    obtain ⟨more, rfl, hmore⟩ := h'
    rw [values_append]
    cases more with
    | none =>
        rw [show aggregate.values rows' = [] from hmore, List.append_nil]
        exact ⟨_, rfl, total, rfl, htotal⟩
    | some more =>
        have hle := aggregate.length_values_le rows
        have hle' := aggregate.length_values_le rows'
        obtain ⟨sum, hadd, hsum⟩ := htotal.append hmore (by omega)
        exact ⟨.sum sum, hadd, sum, rfl, hsum⟩
  · obtain ⟨best, rfl, hbest⟩ := h
    obtain ⟨better, rfl, hbetter⟩ := h'
    rw [values_append]
    exact ⟨_, rfl, _, rfl, hbest.append nofun hbetter⟩
  · obtain ⟨best, rfl, hbest⟩ := h
    obtain ⟨better, rfl, hbetter⟩ := h'
    rw [values_append]
    exact ⟨_, rfl, _, rfl, hbest.append nofun hbetter⟩

/-- The value in the end is the one over all rows. -/
theorem finish (h : aggregate.Summarizes rows state) :
    state.finish = aggregate.valueOver rows := by
  rw [Summarizes] at h
  rw [valueOver]
  cases hfunction : aggregate.function <;> rw [hfunction] at h <;> try exact h.elim
  · rw [h]
    rfl
  · obtain ⟨total, rfl, htotal⟩ := h
    cases total with
    | none =>
        rw [show aggregate.values rows = [] from htotal]
        rfl
    | some total =>
        obtain ⟨hne, n, rfl, hn⟩ := htotal
        simp only [List.isEmpty_iff, hne, if_false, ← hn]
        rfl
  · obtain ⟨best, rfl, hbest⟩ := h
    have hextremum : extremum .lt (aggregate.values rows) = best := hbest.extremum_eq nofun
    simp only [hextremum]
    rfl
  · obtain ⟨best, rfl, hbest⟩ := h
    have hextremum : extremum .gt (aggregate.values rows) = best := hbest.extremum_eq nofun
    simp only [hextremum]
    rfl

end Summarizes
end Aggregate
end ExtentEngine
