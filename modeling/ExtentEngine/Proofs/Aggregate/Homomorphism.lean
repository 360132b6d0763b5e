import ExtentEngine.Proofs.Aggregate.Assembly
import ExtentEngine.Proofs.Aggregate.Exact
import ExtentEngine.Proofs.Expr.Projection

/-!
# Merging exact aggregates

The accumulator of an exact aggregate function depends on the inputs of the rows alone: not on the
order in which the rows are taken, nor on how they are divided among accumulators, nor on how these
are merged.  So merging is the counterpart of appending the rows, and it has the accumulator of no
rows for its neutral element.

**Method.**  Inputs are rows themselves, and an aggregate over all of their columns is given them
back, so what `Aggregate.Summarizes` says of rows it says of inputs.

**Results.**
* `Summarizes.eq_of_perm`: rows in any order have one accumulator.
* `exists_build`: every way of putting an accumulator together succeeds.
* `exists_unique_build`: all of them come to one accumulator.
* `merging_exact`: merging is appending, and the value in the end is the exact one.
-/

namespace ExtentEngine

theorem IsTotal.unique {values : List Scalar} {total other : Option Total}
    (h : IsTotal values total) (h' : IsTotal values other) : total = other := by
  cases total with
  | none =>
      cases other with
      | none => rfl
      | some other => exact absurd h h'.1
  | some total =>
      obtain ⟨hne, n, rfl, hn⟩ := h
      cases other with
      | none => exact absurd h' hne
      | some other =>
          obtain ⟨-, m, rfl, hm⟩ := h'
          cases n
          cases m
          cases hn.trans hm.symm
          rfl

theorem IsExtremum.unique {order : Ordering} {values : List Scalar} {best other : Option Scalar}
    (horder : order ≠ .eq) (h : IsExtremum order values best)
    (h' : IsExtremum order values other) : best = other :=
  (h.extremum_eq horder).symm.trans (h'.extremum_eq horder)

/-- Rows in any order have one accumulator. -/
theorem Aggregate.Summarizes.eq_of_perm {aggregate : Aggregate} {rows rows' : List Record}
    {state other : Accumulator} (h : aggregate.Summarizes rows state)
    (h' : aggregate.Summarizes rows' other) (hperm : rows.Perm rows') : state = other := by
  have hsame := h.perm hperm
  rw [Summarizes] at h' hsame
  cases hfunction : aggregate.function <;> rw [hfunction] at h' hsame <;> try exact h'.elim
  · exact hsame.trans h'.symm
  · obtain ⟨total, rfl, htotal⟩ := hsame
    obtain ⟨more, rfl, hmore⟩ := h'
    rw [htotal.unique hmore]
  · obtain ⟨best, rfl, hbest⟩ := hsame
    obtain ⟨more, rfl, hmore⟩ := h'
    have horder : Ordering.lt ≠ .eq := by decide
    rw [hbest.unique horder hmore]
  · obtain ⟨best, rfl, hbest⟩ := hsame
    obtain ⟨more, rfl, hmore⟩ := h'
    have horder : Ordering.gt ≠ .eq := by decide
    rw [hbest.unique horder hmore]

/-- Puts an accumulator together from one of no rows, unless something fails. -/
def Accumulator.build (start : Accumulator) (assembly : Assembly (List Scalar)) :
    Attempt Accumulator :=
  assembly.fold (.ok start) (fun attempt inputs => attempt >>= (update inputs).exec)
    fun attempt attempt' => do
      let state ← attempt
      let other ← attempt'
      (merge other).exec state

theorem Accumulator.build_merge {start state other : Accumulator}
    {first second : Assembly (List Scalar)} (h : start.build first = .ok state)
    (h' : start.build second = .ok other) :
    start.build (.merge first second) = (merge other).exec state := by
  rw [build] at h h'
  rw [build, Assembly.fold, h, h']
  rfl

theorem Accumulator.build_fresh (start : Accumulator) : start.build .fresh = .ok start := rfl

namespace AggregateFunction

/-- Whether the value of the function depends on the inputs alone. -/
def isExact : AggregateFunction → Bool
  | count => true
  | sum => true
  | min => true
  | max => true
  | _ => false

/-- The inputs of a row: one value for each input, and integers or nulls for a sum. -/
structure Takes (function : AggregateFunction) (arity : Nat) (inputs : List Scalar) : Prop where
  length : inputs.length = arity
  summable : function = .sum → ∀ value ∈ inputs, value = .null ∨ ∃ n, value = .int n

/-- The first inputs that are not null. -/
def present (rows : List (List Scalar)) : List Scalar :=
  rows.filterMap fun inputs => inputs.head?.filter fun value => !value.isNull

/-- The number of rows that a count counts. -/
def counted (arity : Nat) (rows : List (List Scalar)) : Nat :=
  if arity = 0 then rows.length else (present rows).length

/-- The exact value over some rows. -/
def Delivers (function : AggregateFunction) (arity : Nat) (rows : List (List Scalar))
    (value : Scalar) : Prop :=
  match function with
  | count => ∃ n : Int64, value = .int n ∧ n.toInt = counted arity rows
  | sum =>
    if present rows = [] then value = .null
    else if -2 ^ 63 ≤ wholeSum (present rows) ∧ wholeSum (present rows) < 2 ^ 63
    then ∃ n : Int64, value = .int n ∧ n.toInt = wholeSum (present rows)
    else value = .float (Binary64.ofInt (wholeSum (present rows)))
  | min => ∃ best, value = best.getD .null ∧ IsExtremum .lt (present rows) best
  | max => ∃ best, value = best.getD .null ∧ IsExtremum .gt (present rows) best
  | _ => False

/-- A function applied to all columns of a row. -/
def onColumns (function : AggregateFunction) (arity : Nat)
    (haccepts : function.accepts arity = true) : Aggregate :=
  ⟨function, Projection.identity arity, by
    rwa [Projection.identity, List.length_map, List.length_range]⟩

/-- The accumulator of rows that are taken in turn. -/
def taking (function : AggregateFunction) (arity : Nat) (rows : List (List Scalar)) :
    Attempt Accumulator :=
  (Step.forEach Accumulator.update rows).exec (function.start arity)

variable {function : AggregateFunction} {arity : Nat} {haccepts : function.accepts arity = true}
  {xs ys : List (List Scalar)} {inputs : List Scalar} {rows : List (List Scalar)}
  {state : Accumulator}

theorem isExact_onColumns : (function.onColumns arity haccepts).isExact = function.isExact := by
  rw [Aggregate.isExact, onColumns]
  cases function <;> rfl

theorem length_onColumns : (function.onColumns arity haccepts).inputs.length = arity :=
  (List.length_map _).trans List.length_range

theorem start_onColumns : (function.onColumns arity haccepts).start = function.start arity := by
  rw [Aggregate.start, length_onColumns]
  rfl

/-- Inputs are given back. -/
theorem evaluateInputs_onColumns (h : inputs.length = arity) :
    (function.onColumns arity haccepts).evaluateInputs (.ofLeft inputs) = .ok inputs := by
  subst h
  exact Projection.evaluate_identity inputs

/-- An exact function has one input, or none if it is a count. -/
theorem le_one_of_accepts (hexact : function.isExact = true)
    (haccepts : function.accepts arity = true) : arity ≤ 1 := by
  have hmost : arity ≤ function.mostInputs :=
    of_decide_eq_true (Bool.and_eq_true_iff.1 haccepts).2
  cases function <;> first | exact hmost | cases hexact

theorem input?_onColumns (h : inputs.length = arity) :
    (function.onColumns arity haccepts).input? inputs =
      inputs.head?.filter fun value => !value.isNull := by
  rw [Aggregate.input?, evaluateInputs_onColumns h]
  cases inputs with
  | nil => rfl
  | cons value rest =>
      simp only [List.head?_cons, Option.filter_some]
      cases value.isNull <;> rfl

theorem values_onColumns (h : ∀ inputs ∈ rows, inputs.length = arity) :
    (function.onColumns arity haccepts).values rows = present rows :=
  List.filterMap_congr fun inputs hinputs => input?_onColumns (h inputs hinputs)

theorem counted_onColumns (h : ∀ inputs ∈ rows, inputs.length = arity) :
    (function.onColumns arity haccepts).counted rows = counted arity rows := by
  have hempty : (function.onColumns arity haccepts).inputs.isEmpty = true ↔ arity = 0 := by
    rw [List.isEmpty_iff, ← List.length_eq_zero_iff, length_onColumns]
  simp only [Aggregate.counted, counted, values_onColumns h, hempty]

theorem length_counted_le (arity : Nat) (rows : List (List Scalar)) :
    counted arity rows ≤ rows.length := by
  rw [counted]
  split
  · exact Nat.le_refl _
  · exact List.length_filterMap_le _ _

/-- Rows with a null in each leave nothing to compute with. -/
theorem present_eq_nil (harity : arity ≤ 1) (hlength : ∀ inputs ∈ rows, inputs.length = arity)
    (hnull : ∀ inputs ∈ rows, .null ∈ inputs) : present rows = [] := by
  refine List.filterMap_eq_nil_iff.2 fun inputs hinputs => ?_
  have hone : inputs.length ≤ 1 := (hlength inputs hinputs).trans_le harity
  match inputs, hone, hnull inputs hinputs with
  | [value], _, hmem =>
      rw [← List.mem_singleton.1 hmem]
      rfl

theorem counted_eq_zero (harity : arity ≤ 1) (hlength : ∀ inputs ∈ rows, inputs.length = arity)
    (hnull : ∀ inputs ∈ rows, .null ∈ inputs) : counted arity rows = 0 := by
  rw [counted, present_eq_nil harity hlength hnull]
  split
  · next hzero =>
      refine List.length_eq_zero_iff.2 (List.eq_nil_iff_forall_not_mem.2 fun inputs hinputs => ?_)
      have hnil := List.eq_nil_of_length_eq_zero ((hlength inputs hinputs).trans hzero)
      exact List.not_mem_nil (hnil ▸ hnull inputs hinputs)
  · rfl

/-- Every way of putting the accumulator of some rows together succeeds. -/
theorem exists_build (hexact : function.isExact = true) (haccepts : function.accepts arity = true)
    (assembly : Assembly (List Scalar))
    (htakes : ∀ inputs ∈ assembly.rows, Takes function arity inputs)
    (hlength : assembly.rows.length < 2 ^ 63) :
    ∃ state, (function.start arity).build assembly = .ok state ∧
      (function.onColumns arity haccepts).Summarizes assembly.rows state := by
  induction assembly with
  | fresh =>
      have hstart : (function.onColumns arity haccepts).start = function.start arity :=
        start_onColumns
      refine ⟨_, rfl, ?_⟩
      rw [← hstart]
      exact Aggregate.summarizes_start (isExact_onColumns.trans hexact)
  | add before inputs ih =>
      rw [Assembly.rows, List.length_append, List.length_singleton] at hlength
      obtain ⟨htakes, htake⟩ := List.forall_mem_append.1 htakes
      obtain ⟨hinputs, hsummable⟩ := htake inputs List.mem_cons_self
      obtain ⟨state, hstate, hsummarizes⟩ := ih htakes (by omega)
      obtain ⟨updated, hupdate, hupdated⟩ :=
        hsummarizes.update (evaluateInputs_onColumns hinputs) hsummable hlength
      refine ⟨updated, ?_, hupdated⟩
      exact Attempt.bind_eq_ok.2 ⟨state, hstate, Step.exec_eq_ok.2 hupdate⟩
  | merge first second ih ih' =>
      rw [Assembly.rows, List.length_append] at hlength
      obtain ⟨htakes, htakes'⟩ := List.forall_mem_append.1 htakes
      obtain ⟨state, hstate, hsummarizes⟩ := ih htakes (by omega)
      obtain ⟨other, hother, hsummarizes'⟩ := ih' htakes' (by omega)
      obtain ⟨merged, hmerge, hmerged⟩ := hsummarizes.merge hsummarizes' hlength
      refine ⟨merged, ?_, hmerged⟩
      refine Attempt.bind_eq_ok.2 ⟨state, hstate, ?_⟩
      exact Attempt.bind_eq_ok.2 ⟨other, hother, Step.exec_eq_ok.2 hmerge⟩

/-- However some rows are put together, there is one accumulator of them. -/
theorem exists_unique_build (hexact : function.isExact = true)
    (haccepts : function.accepts arity = true)
    (htakes : ∀ inputs ∈ rows, Takes function arity inputs) (hlength : rows.length < 2 ^ 63) :
    ∃ state, (function.onColumns arity haccepts).Summarizes rows state ∧
      ∀ assembly : Assembly (List Scalar), assembly.rows.Perm rows →
        (function.start arity).build assembly = .ok state := by
  have hbuild : ∀ assembly : Assembly (List Scalar), assembly.rows.Perm rows →
      ∃ state, (function.start arity).build assembly = .ok state ∧
        (function.onColumns arity haccepts).Summarizes assembly.rows state := by
    intro assembly hperm
    refine exists_build hexact haccepts assembly (fun inputs hinputs => ?_)
      (hperm.length_eq.trans_lt hlength)
    exact htakes inputs (hperm.mem_iff.1 hinputs)
  have hrows := Assembly.rows_inTurn rows
  obtain ⟨state, -, hstate⟩ := hbuild (.inTurn rows) (.of_eq hrows)
  rw [hrows] at hstate
  refine ⟨state, hstate, fun assembly hperm => ?_⟩
  obtain ⟨other, hother, hsummarizes⟩ := hbuild assembly hperm
  rw [hother, hsummarizes.eq_of_perm hstate hperm]

theorem taking_eq_build (function : AggregateFunction) (arity : Nat) (rows : List (List Scalar)) :
    taking function arity rows = (function.start arity).build (.inTurn rows) := by
  rw [taking, Step.exec_forEach, Accumulator.build, Assembly.fold_inTurn]

/-- The value of an accumulator in the end is the exact one over its rows. -/
theorem delivers_finish (hinputs : ∀ inputs ∈ rows, inputs.length = arity)
    (hlength : rows.length < 2 ^ 63)
    (h : (function.onColumns arity haccepts).Summarizes rows state) :
    Delivers function arity rows state.finish := by
  have hfinish := h.finish
  rw [Aggregate.valueOver, values_onColumns hinputs, counted_onColumns hinputs] at hfinish
  rw [Aggregate.Summarizes, values_onColumns hinputs] at h
  cases function with
  | count =>
      have hle := length_counted_le arity rows
      exact ⟨_, hfinish, Int64.toInt_ofNat_of_lt (by omega)⟩
  | sum =>
      rw [hfinish, Delivers]
      simp only [onColumns, List.isEmpty_iff]
      split
      · rfl
      · split
        · next hrange => exact ⟨_, rfl, Int64.toInt_ofInt_of_le hrange.1 hrange.2⟩
        · rfl
  | min =>
      obtain ⟨best, rfl, hbest⟩ := h
      exact ⟨best, rfl, hbest⟩
  | max =>
      obtain ⟨best, rfl, hbest⟩ := h
      exact ⟨best, rfl, hbest⟩
  | _ => exact h.elim

/-- Nulls alone come to a null, or are not counted. -/
theorem Delivers.eq_of_nulls {value : Scalar} (h : Delivers function arity rows value)
    (harity : arity ≤ 1) (hlength : ∀ inputs ∈ rows, inputs.length = arity)
    (hnull : ∀ inputs ∈ rows, .null ∈ inputs) :
    value = if function = .count then .int 0 else .null := by
  have hpresent := present_eq_nil harity hlength hnull
  cases function with
  | count =>
      obtain ⟨n, rfl, hn⟩ := h
      rw [counted_eq_zero harity hlength hnull] at hn
      rw [if_pos rfl, ← Int64.toInt_inj.1 (hn.trans Int64.toInt_zero.symm)]
  | sum =>
      rw [Delivers, if_pos hpresent] at h
      exact h
  | min =>
      obtain ⟨best, rfl, hbest⟩ := h
      rw [hpresent] at hbest
      cases best with
      | none => rfl
      | some best => exact absurd hbest.1 List.not_mem_nil
  | max =>
      obtain ⟨best, rfl, hbest⟩ := h
      rw [hpresent] at hbest
      cases best with
      | none => rfl
      | some best => exact absurd hbest.1 List.not_mem_nil
  | _ => exact h.elim

/-- Merging the accumulators of two lists of rows comes to taking the rows of both: in either
order, and however the rows are put together.  The accumulator of no rows is neutral, and the value
in the end is the exact one. -/
theorem merging_exact (hexact : function.isExact = true) (haccepts : function.accepts arity = true)
    (htakes : ∀ inputs ∈ xs ++ ys, Takes function arity inputs)
    (hlength : xs.length + ys.length < 2 ^ 63) :
    ∃ state other both,
      taking function arity xs = .ok state ∧
      taking function arity ys = .ok other ∧
      taking function arity (xs ++ ys) = .ok both ∧
      taking function arity (ys ++ xs) = .ok both ∧
      (Accumulator.merge other).exec state = .ok both ∧
      (Accumulator.merge (function.start arity)).exec state = .ok state ∧
      (Accumulator.merge state).exec (function.start arity) = .ok state ∧
      (∀ assembly : Assembly (List Scalar), assembly.rows.Perm (xs ++ ys) →
        (function.start arity).build assembly = .ok both) ∧
      Delivers function arity (xs ++ ys) both.finish ∧
      ((∀ inputs ∈ xs ++ ys, .null ∈ inputs) →
        both.finish = if function = .count then .int 0 else .null) := by
  have hinputs : ∀ inputs ∈ xs ++ ys, inputs.length = arity :=
    fun inputs hmem => (htakes inputs hmem).length
  have hlength' : (xs ++ ys).length < 2 ^ 63 := by rwa [List.length_append]
  obtain ⟨htakesx, htakesy⟩ := List.forall_mem_append.1 htakes
  obtain ⟨state, -, hstate⟩ := exists_unique_build hexact haccepts htakesx (by omega)
  obtain ⟨other, -, hother⟩ := exists_unique_build hexact haccepts htakesy (by omega)
  obtain ⟨both, hsummarizes, hboth⟩ := exists_unique_build hexact haccepts htakes hlength'
  have hdelivers := delivers_finish hinputs hlength' hsummarizes
  have hx := hstate (.inTurn xs) (.of_eq (Assembly.rows_inTurn xs))
  have hy := hother (.inTurn ys) (.of_eq (Assembly.rows_inTurn ys))
  simp only [taking_eq_build]
  refine ⟨state, other, both, hx, hy, hboth _ (.of_eq (Assembly.rows_inTurn _)),
    hboth _ ?_, ?_, ?_, ?_, hboth, hdelivers, fun hnull => ?_⟩
  · rw [Assembly.rows_inTurn]
    exact List.perm_append_comm
  · rw [← Accumulator.build_merge hx hy]
    refine hboth _ (.of_eq ?_)
    rw [Assembly.rows, Assembly.rows_inTurn, Assembly.rows_inTurn]
  · rw [← Accumulator.build_merge hx (Accumulator.build_fresh _)]
    refine hstate (.merge (.inTurn xs) .fresh) (.of_eq ?_)
    rw [Assembly.rows, Assembly.rows_inTurn, Assembly.rows, List.append_nil]
  · rw [← Accumulator.build_merge (Accumulator.build_fresh _) hx]
    refine hstate (.merge .fresh (.inTurn xs)) (.of_eq ?_)
    rw [Assembly.rows, Assembly.rows_inTurn, Assembly.rows, List.nil_append]
  · exact hdelivers.eq_of_nulls (le_one_of_accepts hexact haccepts) hinputs hnull

/-- The first two integers have a sum of more than 64 bits, and the third one takes it back. -/
theorem merging_exact_opposites : ∃ state other both,
    taking sum 1 [[.int Int64.maxValue], [.int 1]] = .ok state ∧
      taking sum 1 [[.int (-1)], [.null]] = .ok other ∧
      (Accumulator.merge other).exec state = .ok both ∧ both.finish = .int Int64.maxValue := by
  have htakes : ∀ inputs ∈ [[.int Int64.maxValue], [.int 1]] ++ [[.int (-1)], [.null]],
      Takes sum 1 inputs := by
    have hint : ∀ n, Takes sum 1 [.int n] :=
      fun n => ⟨rfl, fun _ => List.forall_mem_singleton.2 (Or.inr ⟨n, rfl⟩)⟩
    simp only [List.cons_append, List.nil_append, List.forall_mem_cons]
    exact ⟨hint _, hint _, hint _, ⟨rfl, fun _ => List.forall_mem_singleton.2 (Or.inl rfl)⟩, nofun⟩
  obtain ⟨state, other, both, hstate, hother, -, -, hboth, -, -, -, hdelivers, -⟩ :=
    merging_exact rfl rfl htakes (by decide)
  have hsum : wholeSum (present ([[.int Int64.maxValue], [.int 1]] ++ [[.int (-1)], [.null]])) =
      2 ^ 63 - 1 := rfl
  have hpresent : present ([[.int Int64.maxValue], [.int 1]] ++ [[.int (-1)], [.null]]) ≠ [] :=
    nofun
  rw [Delivers, if_neg hpresent, hsum, if_pos (by decide)] at hdelivers
  obtain ⟨n, hfinish, hn⟩ := hdelivers
  refine ⟨state, other, both, hstate, hother, hboth, ?_⟩
  rw [hfinish, Int64.toInt_inj.1 (hn.trans Int64.toInt_maxValue.symm)]

end AggregateFunction
end ExtentEngine
