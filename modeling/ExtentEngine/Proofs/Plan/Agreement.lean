import ExtentEngine.Proofs.Plan.Partitioned

/-!
# One table or a table per partition

It makes no difference to what a plan delivers into how many partitions its input is split
and how many groups are kept in memory.

**Results.**
* `executePartitioned_agrees`: executing a plan with partitions succeeds if executing it
  without them does, and then both deliver the same.
-/

namespace ExtentEngine

open SpillingTable

namespace AggregationPlan

variable {plan : AggregationPlan} {disk : Disk} {input : Dataset} {extents : List Extent}
  {partitions maxGroups maxGroups' : Nat} {namer namer' : Namer}

/-- Executing a plan with any number of partitions and any capacity of the tables succeeds if
executing it with one table of any capacity does, and both deliver the same counts and the
same records in some order.  The workers run in the order of their partitions. -/
theorem executePartitioned_agrees
    (hexact : ∀ aggregate ∈ plan.grouping.aggregates, aggregate.isExact = true)
    (hinput : input.Readable disk extents)
    (hfloat : ∀ record ∈ extents.flatten, plan.grouping.FloatFree record)
    (hlength : extents.flatten.length < 2 ^ 63) (hpartitions : 0 < partitions)
    (hpos : 0 < maxGroups) (hpos' : 0 < maxGroups')
    (hfiles : FilesWork (plan.execute maxGroups namer input disk).1.result)
    (hfiles' : FilesWork
      (plan.executePartitioned partitions maxGroups' namer' input disk).1.result) :
    ((∃ counts, (plan.executePartitioned partitions maxGroups' namer' input disk).1.result =
        .ok counts) ↔
      ∃ counts, (plan.execute maxGroups namer input disk).1.result = .ok counts) ∧
    ∀ counts counts',
      (plan.executePartitioned partitions maxGroups' namer' input disk).1.result = .ok counts →
      (plan.execute maxGroups namer input disk).1.result = .ok counts' →
      counts = counts' ∧
        (plan.executePartitioned partitions maxGroups' namer' input disk).1.rows.Perm
          (plan.execute maxGroups namer input disk).1.rows := by
  have hmost : extents.flatten.length ≤ Grouping.mostRows := Nat.le_sub_one_of_lt hlength
  have hserial : plan.Conforms input.schema extents.flatten
      (plan.execute maxGroups namer input disk).1 :=
    conforms_execute hexact hinput hfloat hmost hpos hfiles
  have hpartitioned : plan.Conforms input.schema extents.flatten
      (plan.executePartitioned partitions maxGroups' namer' input disk).1 :=
    conforms_executePartitioned hexact hinput hfloat hmost hpartitions hpos' hfiles'
  constructor
  · exact hpartitioned.ok_iff.trans hserial.ok_iff.symm
  · intro counts counts' hok hok'
    exact hpartitioned.agree hserial hok hok'

/-- Rows with a small key are counted and a column of them is added up, by their keys. -/
def smallPlan : AggregationPlan where
  grouping := Family.Reaches.smallGrouping
  filter := some ⟨.compare .lt (.leftColumn 0) (.literal (.int 3))⟩
  projection := none

/-- Two extents, one of which has a row with a key that is not small. -/
def smallInput : Dataset where
  schema := [⟨"key", .int64, false⟩, ⟨"value", .int64, false⟩]
  limit := 2
  limit_pos := Nat.two_pos
  slots :=
    [.memory [[.int 1, .int 10], [.int 2, .int 20]], .memory [[.int 1, .int 5], [.int 3, .int 7]]]
  namer := none
  sortedBy := none

/-- The records of `smallInput`. -/
def smallInputExtents : List Extent :=
  [[[.int 1, .int 10], [.int 2, .int 20]], [[.int 1, .int 5], [.int 3, .int 7]]]

theorem readable_smallInput : smallInput.Readable .empty smallInputExtents := ⟨rfl, nofun⟩

theorem floatFree_smallInput :
    ∀ record ∈ smallInputExtents.flatten, smallPlan.grouping.FloatFree record := by
  simp only [smallInputExtents, List.flatten_cons, List.flatten_nil, List.cons_append,
    List.nil_append, List.append_nil, List.forall_mem_cons]
  exact ⟨Family.Reaches.floatFree_small, Family.Reaches.floatFree_small,
    Family.Reaches.floatFree_small, Family.Reaches.floatFree_small, nofun⟩

theorem executePartitioned_agrees_small :
    (smallPlan.executePartitioned 2 1 (.inDirectory "/tmp") smallInput .empty).1.result =
        .ok ⟨3, 2⟩ ∧
      (smallPlan.executePartitioned 2 1 (.inDirectory "/tmp") smallInput .empty).1.rows.Perm
        (smallPlan.execute 8 (.inDirectory "/tmp") smallInput .empty).1.rows := by
  have hserial : (smallPlan.execute 8 (.inDirectory "/tmp") smallInput .empty).1.result =
      .ok ⟨3, 2⟩ := by
    decide +kernel
  have hresult : (smallPlan.executePartitioned 2 1 (.inDirectory "/tmp") smallInput
      .empty).1.result = .ok ⟨3, 2⟩ := by
    decide +kernel
  have hagrees := @executePartitioned_agrees smallPlan .empty smallInput _ 2 8 1
    (.inDirectory "/tmp") (.inDirectory "/tmp") (by decide) readable_smallInput
    floatFree_smallInput (by decide) Nat.two_pos (by decide) Nat.one_pos
    (hserial ▸ filesWork_ok _) (hresult ▸ filesWork_ok _)
  exact ⟨hresult, (hagrees.2 _ _ hresult hserial).2⟩

end AggregationPlan
end ExtentEngine
