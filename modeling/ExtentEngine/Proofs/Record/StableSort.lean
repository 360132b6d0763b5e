import ExtentEngine.Proofs.Record.Order

/-!
# Stable sorting

Records are sorted by a key stably: those that tie on the key keep their order.  There is only
one such order of a list of records, so nothing that depends on the order of sorted records
depends on how they were sorted.

**Results.**
* `isStableSort_iff`: `sortOn` gives the stable sort, and nothing else is one.
-/

namespace ExtentEngine
namespace Record

/-- Whether two records tie when they are sorted by the key. -/
def ties (key : Key) (a b : Record) : Bool := compareOn a key b key == .eq

/-- The records in the order of the key, those that tie as they were before. -/
structure IsStableSort (key : Key) (records sorted : List Record) : Prop where
  perm : sorted.Perm records
  ordered : sorted.Pairwise fun a b => compareOn a key b key ≠ .gt
  stable : ∀ record, sorted.filter (ties key record) = records.filter (ties key record)

variable {key : Key} {a b c : Record} {records first last : List Record}

/-- Records tie if they have the same key values. -/
theorem ties_iff : ties key a b = true ↔ a.keyValues key = b.keyValues key := by
  rw [ties, beq_iff_eq, compareOn_eq_iff]

theorem ties_self (key : Key) (a : Record) : ties key a a = true := ties_iff.2 rfl

theorem leOn_eq_true_iff : leOn key a b = true ↔ compareOn a key b key ≠ .gt := bne_iff_ne

theorem leOn_of_ties (h : ties key a b = true) : leOn key a b = true := by
  rw [leOn_eq_true_iff, beq_iff_eq.1 h]
  nofun

theorem ties_of_leOn (hab : leOn key a b = true) (hba : leOn key b a = true) :
    ties key a b = true := by
  rw [leOn_iff] at hab hba
  rw [ties_iff, ← compare_eq_iff]
  exact Std.OrientedCmp.isLE_antisymm hab hba

/-- Sorting leaves records that tie in their order. -/
theorem filter_sortOn (key : Key) (record : Record) (records : List Record) :
    (sortOn key records).filter (ties key record) = records.filter (ties key record) := by
  have hties : (records.filter (ties key record)).Pairwise fun a b => leOn key a b = true := by
    refine List.pairwise_of_forall_mem_list fun a ha b hb => leOn_of_ties (ties_iff.2 ?_)
    rw [← ties_iff.1 (List.mem_filter.1 ha).2, ← ties_iff.1 (List.mem_filter.1 hb).2]
  have hsublist : (records.filter (ties key record)).Sublist (sortOn key records) :=
    List.sublist_mergeSort (leOn_trans key) (leOn_total key) hties List.filter_sublist
  have hfiltered := hsublist.filter (ties key record)
  simp only [List.filter_filter, Bool.and_self] at hfiltered
  exact (hfiltered.eq_of_length ((sortOn_perm key records).filter _).length_eq.symm).symm

theorem isStableSort_sortOn (key : Key) (records : List Record) :
    IsStableSort key records (sortOn key records) where
  perm := sortOn_perm key records
  ordered := (pairwise_sortOn key records).imp fun h => leOn_eq_true_iff.1 h
  stable record := filter_sortOn key record records

/-- The first of records in order may stand before any other of them. -/
theorem leOn_of_mem (hpairwise : (a :: records).Pairwise fun a b => leOn key a b = true)
    (h : b ∈ a :: records) : leOn key a b = true := by
  rcases List.mem_cons.1 h with rfl | hmem
  · exact leOn_of_ties (ties_self key b)
  · exact List.rel_of_pairwise_cons hpairwise hmem

theorem mem_iff_of_filter_ties
    (h : ∀ record, first.filter (ties key record) = last.filter (ties key record)) :
    a ∈ first ↔ a ∈ last := by
  have hclass := congrArg (a ∈ ·) (h a)
  simpa only [List.mem_filter, ties_self, and_true, eq_iff_iff] using hclass

/-- Records in order are determined by what the records that tie are, in their order. -/
theorem eq_of_filter_ties (hfirst : first.Pairwise fun a b => leOn key a b = true)
    (hlast : last.Pairwise fun a b => leOn key a b = true)
    (h : ∀ record, first.filter (ties key record) = last.filter (ties key record)) :
    first = last := by
  induction first generalizing last with
  | nil => exact (List.eq_nil_iff_forall_not_mem.2 fun record hrecord =>
      List.not_mem_nil ((mem_iff_of_filter_ties h).2 hrecord)).symm
  | cons a first ih =>
      cases last with
      | nil => exact absurd ((mem_iff_of_filter_ties h).1 List.mem_cons_self) List.not_mem_nil
      | cons b last =>
          -- Both lists start with a least record, so these tie, and each is the first to do so.
          have hties : ties key a b = true :=
            ties_of_leOn (leOn_of_mem hfirst ((mem_iff_of_filter_ties h).2 List.mem_cons_self))
              (leOn_of_mem hlast ((mem_iff_of_filter_ties h).1 List.mem_cons_self))
          have hheads := h a
          rw [List.filter_cons_of_pos (ties_self key a), List.filter_cons_of_pos hties] at hheads
          cases (List.cons.inj hheads).1
          have htails : ∀ record,
              first.filter (ties key record) = last.filter (ties key record) := fun record => by
            have hrecord := h record
            rw [List.filter_cons, List.filter_cons] at hrecord
            split at hrecord
            · exact (List.cons.inj hrecord).2
            · exact hrecord
          rw [ih hfirst.of_cons hlast.of_cons htails]

/-- The stable sort of records is the one that `sortOn` gives. -/
theorem isStableSort_iff : IsStableSort key records first ↔ first = sortOn key records := by
  constructor
  · intro h
    refine eq_of_filter_ties (h.ordered.imp leOn_eq_true_iff.2) (pairwise_sortOn key records)
      fun record => ?_
    rw [h.stable record, filter_sortOn]
  · rintro rfl
    exact isStableSort_sortOn key records

end Record
end ExtentEngine
