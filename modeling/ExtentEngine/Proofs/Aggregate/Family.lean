import ExtentEngine.Proofs.Aggregate.SpillingRows

/-!
# Families of spilling tables

Tables with one grouping, each with its own capacity, share a disk.  Rows are added to them,
they are closed, consolidated and rendered, and one is merged into another.  In the end a
table emits one record per key of the rows that were added to it or to tables that were
merged into it; when groups were spilled, in which order tables were merged, and what was
consolidated or rendered before makes no difference.

**Results.**
* `Reaches.sound`: no matter how a table was reached, it represents its rows.
* `Reaches.render_emits`: what a table emits depends on its rows alone.
-/

namespace ExtentEngine

open SpillingTable

namespace Family

/-- A table with the rows that were added to it or to tables that were merged into it. -/
abbrev Member := SpillingTable × List Record

/-- The tables, in any order, and the disk that operations reach in which no file operation
fails and every row is added. -/
inductive Reaches (grouping : Grouping) : List Member → Disk → Prop
  | start (disk : Disk) : Reaches grouping [] disk
  | create {members : List Member} {disk : Disk} {maxGroups : Nat} {namer : Namer}
      {table : SpillingTable} (h : Reaches grouping members disk)
      (hnew : SpillingTable.new grouping maxGroups namer = .ok table) :
      Reaches grouping ((table, []) :: members) disk
  | insert {members : List Member} {disk after : Disk} {table table' : SpillingTable}
      {rows : List Record} {record : Record} (h : Reaches grouping ((table, rows) :: members) disk)
      (hfloat : grouping.FloatFree record)
      (hrun : (SpillingTable.insert record).run (table, disk) = (.ok (), table', after)) :
      Reaches grouping ((table', rows ++ [record]) :: members) after
  | close {members : List Member} {disk after : Disk} {table table' : SpillingTable}
      {rows : List Record} {result : Attempt Unit}
      (h : Reaches grouping ((table, rows) :: members) disk)
      (hrun : SpillingTable.close.run (table, disk) = (result, table', after))
      (hfiles : FilesWork result) : Reaches grouping ((table', rows) :: members) after
  | consolidate {members : List Member} {disk after : Disk} {table table' : SpillingTable}
      {rows : List Record} {result : Attempt Unit}
      (h : Reaches grouping ((table, rows) :: members) disk)
      (hrun : SpillingTable.consolidate.run (table, disk) = (result, table', after))
      (hfiles : FilesWork result) : Reaches grouping ((table', rows) :: members) after
  | render {members : List Member} {disk after : Disk} {table table' : SpillingTable}
      {rows : List Record} {projection : Projection} {emission : Emission Nat}
      (h : Reaches grouping ((table, rows) :: members) disk)
      (hrun : SpillingTable.render projection (table, disk) = (emission, table', after))
      (hfiles : FilesWork emission.result) : Reaches grouping ((table', rows) :: members) after
  | merge {members : List Member} {disk after : Disk} {table table' other : SpillingTable}
      {rows rows' : List Record} {result : Attempt Unit}
      (h : Reaches grouping ((table, rows) :: (other, rows') :: members) disk)
      (hrun : (SpillingTable.merge other).run (table, disk) = (result, table', after))
      (hfiles : FilesWork result) : Reaches grouping ((table', rows ++ rows') :: members) after
  | reorder {members members' : List Member} {disk : Disk} (h : Reaches grouping members disk)
      (hperm : members.Perm members') : Reaches grouping members' disk

/-- The number of rows that were added to all tables together. -/
def rowCount (members : List Member) : Nat := (members.map fun member => member.2.length).sum

/-- Tables that represent their rows and have no files in common. -/
structure Sound (grouping : Grouping) (members : List Member) (disk : Disk) : Prop where
  grouping : ∀ member ∈ members, member.1.grouping = grouping
  represents : ∀ member ∈ members, member.1.Represents disk member.2
  apart : members.Pairwise fun a b => (namesOf a.1.spills).Disjoint (namesOf b.1.spills)

variable {grouping : Grouping} {members members' : List Member} {disk after : Disk}
  {table table' other : SpillingTable} {rows rows' : List Record} {record : Record}

@[simp]
theorem rowCount_cons (table : SpillingTable) (rows : List Record) (members : List Member) :
    rowCount ((table, rows) :: members) = rows.length + rowCount members := rfl

namespace Sound

/-- An operation that owns none of the files of the tables adds a table. -/
theorem cons {names : List FileName} (h : Sound grouping members disk)
    (hapart : ∀ member ∈ members, names.Disjoint (namesOf member.1.spills))
    (hhands : HandsOn names disk (namesOf table.spills) after)
    (hgrouping : table.grouping = grouping)
    (hrows : table.Represents after rows) : Sound grouping ((table, rows) :: members) after where
  grouping := List.forall_mem_cons.2 ⟨hgrouping, h.grouping⟩
  represents := by
    refine List.forall_mem_cons.2 ⟨hrows, fun member hmember => ?_⟩
    refine (h.represents member hmember).frame hhands.frame fun name hname hmem => ?_
    exact hapart member hmember hmem hname
  apart := by
    refine List.pairwise_cons.2 ⟨fun member hmember => ?_, h.apart⟩
    exact hhands.disjoint (h.represents member hmember).allocated (hapart member hmember)

theorem tail (h : Sound grouping ((table, rows) :: members) disk) : Sound grouping members disk :=
  ⟨(List.forall_mem_cons.1 h.grouping).2, (List.forall_mem_cons.1 h.represents).2, h.apart.tail⟩

/-- Operations that change no files leave the tables as they are. -/
theorem frame (h : Sound grouping members disk) (hframe : Disk.Frame (fun _ => False) disk after) :
    Sound grouping members after :=
  ⟨h.grouping, fun member hmember => (h.represents member hmember).frame hframe fun _ _ => id,
    h.apart⟩

/-- An operation of a table leaves the others as they are. -/
theorem step (h : Sound grouping ((table, rows) :: members) disk)
    (hrows : table'.Represents after rows') (hsettings : SameSettings table table')
    (hhands : HandsOn (namesOf table.spills) disk (namesOf table'.spills) after) :
    Sound grouping ((table', rows') :: members) after :=
  h.tail.cons (List.pairwise_cons.1 h.apart).1 hhands
    (hsettings.grouping.trans (h.grouping _ List.mem_cons_self)) hrows

theorem head (h : Sound grouping ((table, rows) :: members) disk) : table.Represents disk rows :=
  h.represents _ List.mem_cons_self

theorem perm (h : Sound grouping members disk) (hperm : members.Perm members') :
    Sound grouping members' disk where
  grouping member hmember := h.grouping member (hperm.mem_iff.2 hmember)
  represents member hmember := h.represents member (hperm.mem_iff.2 hmember)
  apart := (hperm.pairwise_iff fun hab => List.Disjoint.symm hab).1 h.apart

theorem isExact (hexact : ∀ aggregate ∈ grouping.aggregates, aggregate.isExact = true)
    (h : Sound grouping ((table, rows) :: members) disk) : table.IsExact := by
  rw [IsExact, h.grouping _ List.mem_cons_self]
  exact hexact

/-- A row that is added to a table is admitted. -/
theorem admits (hexact : ∀ aggregate ∈ grouping.aggregates, aggregate.isExact = true)
    (h : Sound grouping ((table, rows) :: members) disk) (hfloat : grouping.FloatFree record)
    (hok : ((SpillingTable.insert record).run (table, disk)).1 = .ok ()) :
    grouping.Admits record := by
  have hgrouping : table.grouping = grouping := h.grouping _ List.mem_cons_self
  rw [← hgrouping] at hfloat ⊢
  exact admits_of_insert h.head (h.isExact hexact) hfloat hok

theorem insert (hexact : ∀ aggregate ∈ grouping.aggregates, aggregate.isExact = true)
    (h : Sound grouping ((table, rows) :: members) disk) (hadmits : grouping.Admits record)
    (hlength : rows.length + 1 ≤ Grouping.mostRows)
    (hfiles : FilesWork ((SpillingTable.insert record).run (table, disk)).1) :
    ∃ table' after, (SpillingTable.insert record).run (table, disk) = (.ok (), table', after) ∧
      Sound grouping ((table', rows ++ [record]) :: members) after := by
  have hgrouping : table.grouping = grouping := h.grouping _ List.mem_cons_self
  rw [← hgrouping] at hadmits
  obtain ⟨table', after, hrun, hrows, hsettings, hhands⟩ :=
    exists_insert h.head (h.isExact hexact) hadmits hlength hfiles
  exact ⟨table', after, hrun, h.step hrows hsettings hhands⟩

theorem close (h : Sound grouping ((table, rows) :: members) disk)
    (hfiles : FilesWork (SpillingTable.close.run (table, disk)).1) :
    ∃ table' after, SpillingTable.close.run (table, disk) = (.ok (), table', after) ∧
      Sound grouping ((table', rows) :: members) after := by
  obtain ⟨table', after, hrun, hrows, hsettings, hhands⟩ := h.head.close hfiles
  exact ⟨table', after, hrun, h.step hrows hsettings hhands⟩

theorem consolidate (h : Sound grouping ((table, rows) :: members) disk)
    (hlength : rows.length ≤ Grouping.mostRows)
    (hfiles : FilesWork (SpillingTable.consolidate.run (table, disk)).1) :
    ∃ table' after, SpillingTable.consolidate.run (table, disk) = (.ok (), table', after) ∧
      Sound grouping ((table', rows) :: members) after := by
  obtain ⟨table', after, hrun, hrows, hsettings, hhands⟩ := h.head.consolidate hlength hfiles
  exact ⟨table', after, hrun, h.step hrows hsettings hhands⟩

theorem render {projection : Projection} (h : Sound grouping ((table, rows) :: members) disk)
    (hlength : rows.length ≤ Grouping.mostRows)
    (hfiles : FilesWork (SpillingTable.render projection (table, disk)).1.result) :
    ∃ table' after groups,
      SpillingTable.render projection (table, disk) =
        (emitGroups projection groups, table', after) ∧
      (Groups.finish groups).Perm (grouping.recordsOver rows) ∧
      Sound grouping ((table', rows) :: members) after := by
  obtain ⟨table', after, groups, hrun, hgroups, hrows, hsettings, hhands⟩ :=
    exists_render h.head hlength hfiles
  rw [h.grouping _ List.mem_cons_self] at hgroups
  exact ⟨table', after, groups, hrun, hgroups, h.step hrows hsettings hhands⟩

theorem merge (h : Sound grouping ((table, rows) :: (other, rows') :: members) disk)
    (hlength : rows.length + rows'.length ≤ Grouping.mostRows)
    (hfiles : FilesWork ((SpillingTable.merge other).run (table, disk)).1) :
    ∃ table' after, (SpillingTable.merge other).run (table, disk) = (.ok (), table', after) ∧
      Sound grouping ((table', rows ++ rows') :: members) after := by
  have hgrouping : table.grouping = grouping := h.grouping _ List.mem_cons_self
  obtain ⟨hapart, hothers⟩ := List.pairwise_cons.1 h.apart
  obtain ⟨table', after, hrun, hrows, hsettings, hhands⟩ :=
    exists_merge h.head h.tail.head
      (hgrouping.trans (h.tail.grouping _ List.mem_cons_self).symm)
      (hapart _ List.mem_cons_self) hlength hfiles
  refine ⟨table', after, hrun, h.tail.tail.cons (fun member hmember => ?_) hhands
    (hsettings.grouping.trans hgrouping) hrows⟩
  exact List.disjoint_append_left.2 ⟨hapart _ (List.mem_cons_of_mem _ hmember),
    (List.pairwise_cons.1 hothers).1 member hmember⟩

theorem create {maxGroups : Nat} {namer : Namer} (h : Sound grouping members disk)
    (hnew : SpillingTable.new grouping maxGroups namer = .ok table) :
    Sound grouping ((table, []) :: members) disk := by
  have hrows := represents_new hnew disk
  rw [new] at hnew
  split at hnew
  · cases hnew
  · cases hnew
    exact h.cons (fun _ _ => List.disjoint_nil_left _) (.refl [] disk) rfl hrows

end Sound

namespace Reaches

/-- No matter how a table was reached, it represents its rows. -/
theorem sound (hexact : ∀ aggregate ∈ grouping.aggregates, aggregate.isExact = true)
    (h : Reaches grouping members disk) (hcount : rowCount members ≤ Grouping.mostRows) :
    Sound grouping members disk := by
  induction h with
  | start disk => exact ⟨nofun, nofun, .nil⟩
  | create h hnew ih =>
      rw [rowCount_cons, List.length_nil, Nat.zero_add] at hcount
      exact (ih hcount).create hnew
  | @insert members disk after table table' rows record h hfloat hrun ih =>
      rw [rowCount_cons, List.length_append, List.length_singleton] at hcount
      have hsound := ih (by
        rw [rowCount_cons]
        omega)
      obtain ⟨table', after', hrun', hsound'⟩ := hsound.insert hexact
        (hsound.admits hexact hfloat (congrArg Prod.fst hrun)) (by omega) (by
          rw [hrun]
          exact filesWork_ok ())
      cases hrun.symm.trans hrun'
      exact hsound'
  | close h hrun hfiles ih =>
      obtain ⟨table', after', hrun', hsound⟩ := (ih hcount).close (by
        rw [hrun]
        exact hfiles)
      cases hrun.symm.trans hrun'
      exact hsound
  | consolidate h hrun hfiles ih =>
      have hsound := ih hcount
      rw [rowCount_cons] at hcount
      obtain ⟨table', after', hrun', hsound'⟩ := hsound.consolidate (by omega) (by
        rw [hrun]
        exact hfiles)
      cases hrun.symm.trans hrun'
      exact hsound'
  | render h hrun hfiles ih =>
      have hsound := ih hcount
      rw [rowCount_cons] at hcount
      obtain ⟨table', after', groups, hrun', -, hsound'⟩ := hsound.render (by omega) (by
        rw [hrun]
        exact hfiles)
      cases hrun.symm.trans hrun'
      exact hsound'
  | merge h hrun hfiles ih =>
      rw [rowCount_cons, List.length_append] at hcount
      have hsound := ih (by
        rw [rowCount_cons, rowCount_cons]
        omega)
      obtain ⟨table', after', hrun', hsound'⟩ := hsound.merge (by omega) (by
        rw [hrun]
        exact hfiles)
      cases hrun.symm.trans hrun'
      exact hsound'
  | @reorder members members' disk h hperm ih =>
      refine (ih ?_).perm hperm
      rw [rowCount, (hperm.map _).sum_eq]
      exact hcount

/-- What a table emits depends on its rows alone: one record per key of the rows, with the
value of each aggregate over all rows of the key. -/
theorem render_emits (hexact : ∀ aggregate ∈ grouping.aggregates, aggregate.isExact = true)
    (h : Reaches grouping members disk) (hcount : rowCount members < 2 ^ 63)
    (hmember : (table, rows) ∈ members)
    (hfiles : FilesWork
      (SpillingTable.render (.identity grouping.outputArity) (table, disk)).1.result) :
    (SpillingTable.render (.identity grouping.outputArity) (table, disk)).1.result =
        .ok (grouping.recordsOver rows).length ∧
      (SpillingTable.render (.identity grouping.outputArity) (table, disk)).1.rows.Perm
        (grouping.recordsOver rows) := by
  have hsound := h.sound hexact (Nat.le_sub_one_of_lt hcount)
  have hlength : rows.length ≤ Grouping.mostRows := by
    refine Nat.le_trans ?_ (Nat.le_sub_one_of_lt hcount)
    exact List.single_le_sum (fun _ _ => Nat.zero_le _) _ (List.mem_map_of_mem hmember)
  obtain ⟨s', after, groups, hrun, hgroups, -⟩ :=
    exists_render (hsound.represents _ hmember) hlength hfiles
  rw [hsound.grouping _ hmember] at hgroups
  have hemitted : emitGroups (.identity grouping.outputArity) groups =
      ⟨Groups.finish groups, .ok groups.length⟩ := by
    refine emitGroups_emitted (List.forall₂_map_right_iff.2 (List.forall₂_same.2 ?_))
    intro group hgroup
    have hrecord : group.finish ∈ grouping.recordsOver rows :=
      hgroups.mem_iff.1 (List.mem_map_of_mem hgroup)
    rw [← Grouping.length_of_recordsOver hrecord]
    exact Projection.evaluate_identity _
  rw [hrun, hemitted]
  refine ⟨?_, hgroups⟩
  rw [← hgroups.length_eq, Groups.finish, List.length_map]

/-- Rows are counted and a column of them is added up, by another column. -/
def smallGrouping : Grouping := ⟨[0], [.countRows, ⟨.sum, [.leftColumn 1], rfl⟩]⟩

/-- A table with room for one group. -/
def smallTable : SpillingTable := ⟨.new smallGrouping 1, .inDirectory "/tmp", [], 0, 0, false⟩

/-- A row of one key, then one of another key, for which the first group is spilled. -/
def smallFirst : SpillingTable × Disk :=
  ((SpillingTable.insert [.int 2, .int 20]).run
    ((SpillingTable.insert [.int 1, .int 10]).run (smallTable, .empty)).2).2

/-- A row of the first key in another table. -/
def smallSecond : SpillingTable × Disk :=
  ((SpillingTable.insert [.int 1, .int 5]).run (smallTable, smallFirst.2)).2

/-- One table after it has taken over the other one. -/
def smallMerged : SpillingTable × Disk :=
  ((SpillingTable.merge smallSecond.1).run (smallFirst.1, smallSecond.2)).2

theorem floatFree_small {n m : Int64} : smallGrouping.FloatFree [.int n, .int m] := by
  intro aggregate haggregate hsum inputs hinputs x hx
  rcases List.mem_cons.1 haggregate with rfl | haggregate
  · cases hsum
  · rw [List.mem_singleton.1 haggregate] at hinputs
    cases hinputs
    cases List.mem_singleton.1 hx

theorem render_emits_small :
    (SpillingTable.render (.identity 3) smallMerged).1.rows.Perm
      [[.int 1, .int 2, .int 15], [.int 2, .int 1, .int 20]] := by
  have hnew : SpillingTable.new smallGrouping 1 (.inDirectory "/tmp") = .ok smallTable := rfl
  have hrow : ((SpillingTable.insert [.int 1, .int 10]).run (smallTable, .empty)).1 = .ok () := by
    decide +kernel
  have hspill : ((SpillingTable.insert [.int 2, .int 20]).run
      ((SpillingTable.insert [.int 1, .int 10]).run (smallTable, .empty)).2).1 = .ok () := by
    decide +kernel
  have hfirst : Reaches smallGrouping [(smallFirst.1, [[.int 1, .int 10], [.int 2, .int 20]])]
      smallFirst.2 :=
    (((start .empty).create hnew).insert floatFree_small (Prod.ext hrow rfl)).insert
      floatFree_small (Prod.ext hspill rfl)
  have hother : ((SpillingTable.insert [.int 1, .int 5]).run (smallTable, smallFirst.2)).1 =
      .ok () := by
    decide +kernel
  have hsecond : Reaches smallGrouping [(smallSecond.1, [[.int 1, .int 5]]),
      (smallFirst.1, [[.int 1, .int 10], [.int 2, .int 20]])] smallSecond.2 :=
    (hfirst.create hnew).insert floatFree_small (Prod.ext hother rfl)
  have hmerge : ((SpillingTable.merge smallSecond.1).run (smallFirst.1, smallSecond.2)).1 =
      .ok () := by
    decide +kernel
  have hmerged : Reaches smallGrouping [(smallMerged.1,
      [[.int 1, .int 10], [.int 2, .int 20], [.int 1, .int 5]])] smallMerged.2 :=
    (hsecond.reorder (.swap _ _ _)).merge (Prod.ext hmerge rfl) (filesWork_ok ())
  have hresult : (SpillingTable.render (.identity 3) smallMerged).1.result = .ok 2 := by
    decide +kernel
  have hemits := hmerged.render_emits (by decide) (by decide) List.mem_cons_self (by
    intro fault hfault
    cases hresult.symm.trans hfault)
  have hrecords :
      smallGrouping.recordsOver [[.int 1, .int 10], [.int 2, .int 20], [.int 1, .int 5]] =
      [[.int 2, .int 1, .int 20], [.int 1, .int 2, .int 15]] := by
    decide +kernel
  exact hemits.2.trans (.trans (.of_eq hrecords) (.swap _ _ _))

end Reaches
end Family
end ExtentEngine
