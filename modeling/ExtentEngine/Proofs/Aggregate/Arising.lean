import ExtentEngine.Proofs.Aggregate.Family
import ExtentEngine.Proofs.Aggregate.Intact

/-!
# Families of spilling tables after failures

Tables with one grouping, each with its own capacity, share a disk with other owners of files.
Their operations may fail, by the inputs of a row or by the overflow of a total, and their users go
on afterwards.  Whatever was done, the tables keep to their capacities, their files hold what they
record, and their groups are those of the grouping, so no two groups of a key ever fail to be
merged for being of different kinds.

**Results.**
* `Arises.all`: what every operation keeps of every table.
* `Arises.intact`: the representation of a table, no matter how it was reached.
-/

namespace ExtentEngine

open SpillingTable Groups

/-- A failure to merge accumulators of different kinds or numbers. -/
def Fault.isMismatch : Fault → Bool
  | .statesMismatched _ _ => true
  | .stateCounts _ _ => true
  | _ => false

/-- An attempt in which no accumulators were of different kinds or numbers. -/
def Matched {α : Type} (result : Attempt α) : Prop :=
  ∀ fault, result = .error fault → fault.isMismatch = false

theorem FailsByOverflow.matched {α : Type} {magnitude : Nat} {result : Attempt α}
    (h : FailsByOverflow magnitude result) : Matched result := by
  intro fault hfault
  rw [(h fault hfault).1]
  rfl

theorem matched_of_isFileFailure {α : Type} {result : Attempt α} {fault : Fault}
    (h : result = .error fault) (hfile : fault.isFileFailure = true) : Matched result := by
  intro other hother
  cases h.symm.trans hother
  cases fault <;> first | rfl | cases hfile

namespace Family

/-- A table with the most groups that it may hold in memory, and how many rows were offered to it
or to tables that were merged into it. -/
structure Account where
  table : SpillingTable
  maxGroups : Nat
  offered : Nat

/-- The tables, in any order, and the disk that operations reach in which no file operation fails.
An operation may fail otherwise, and others follow; rows that cannot be added are offered only to
tables of which a condition holds. -/
inductive Arises (grouping : Grouping) (tolerant : SpillingTable → Prop) :
    List Account → Disk → Prop
  | start (disk : Disk) : Arises grouping tolerant [] disk
  | create {accounts : List Account} {disk : Disk} {maxGroups : Nat} {namer : Namer}
      {table : SpillingTable} (h : Arises grouping tolerant accounts disk)
      (hnew : SpillingTable.new grouping maxGroups namer = .ok table) :
      Arises grouping tolerant (⟨table, maxGroups, 0⟩ :: accounts) disk
  | insert {accounts : List Account} {disk after : Disk} {table table' : SpillingTable}
      {maxGroups offered : Nat} {record : Record} {result : Attempt Unit}
      (h : Arises grouping tolerant (⟨table, maxGroups, offered⟩ :: accounts) disk)
      (hrun : (SpillingTable.insert record).run (table, disk) = (result, table', after))
      (hfiles : FilesWork result) (htolerant : result ≠ .ok () → tolerant table) :
      Arises grouping tolerant (⟨table', maxGroups, offered + 1⟩ :: accounts) after
  | close {accounts : List Account} {disk after : Disk} {table table' : SpillingTable}
      {maxGroups offered : Nat} {result : Attempt Unit}
      (h : Arises grouping tolerant (⟨table, maxGroups, offered⟩ :: accounts) disk)
      (hrun : SpillingTable.close.run (table, disk) = (result, table', after))
      (hfiles : FilesWork result) :
      Arises grouping tolerant (⟨table', maxGroups, offered⟩ :: accounts) after
  | consolidate {accounts : List Account} {disk after : Disk} {table table' : SpillingTable}
      {maxGroups offered : Nat} {result : Attempt Unit}
      (h : Arises grouping tolerant (⟨table, maxGroups, offered⟩ :: accounts) disk)
      (hrun : SpillingTable.consolidate.run (table, disk) = (result, table', after))
      (hfiles : FilesWork result) :
      Arises grouping tolerant (⟨table', maxGroups, offered⟩ :: accounts) after
  | render {accounts : List Account} {disk after : Disk} {table table' : SpillingTable}
      {maxGroups offered : Nat} {projection : Projection} {emission : Emission Nat}
      (h : Arises grouping tolerant (⟨table, maxGroups, offered⟩ :: accounts) disk)
      (hrun : SpillingTable.render projection (table, disk) = (emission, table', after))
      (hfiles : FilesWork emission.result) :
      Arises grouping tolerant (⟨table', maxGroups, offered⟩ :: accounts) after
  | merge {accounts : List Account} {disk after : Disk} {table table' other : SpillingTable}
      {maxGroups maxGroups' offered offered' : Nat} {result : Attempt Unit}
      (h : Arises grouping tolerant
        (⟨table, maxGroups, offered⟩ :: ⟨other, maxGroups', offered'⟩ :: accounts) disk)
      (hrun : (SpillingTable.merge other).run (table, disk) = (result, table', after))
      (hfiles : FilesWork result) :
      Arises grouping tolerant (⟨table', maxGroups, offered + offered'⟩ :: accounts) after
  | others {accounts : List Account} {disk after : Disk}
      (h : Arises grouping tolerant accounts disk)
      (hframe : Disk.Frame
        (fun name => ∀ account ∈ accounts, name ∉ namesOf account.table.spills) disk after) :
      Arises grouping tolerant accounts after
  | reorder {accounts accounts' : List Account} {disk : Disk}
      (h : Arises grouping tolerant accounts disk) (hperm : accounts.Perm accounts') :
      Arises grouping tolerant accounts' disk

/-- How many rows may be offered at most so that no total of them overflows. -/
def mostOffered : Nat := 2 ^ 64 - 1

/-- What every operation keeps of a table, and what those keep beside that in which rows that
cannot be added leave marks of consolidation valid. -/
structure Keeps (grouping : Grouping) (cautious : Prop) (disk : Disk) (account : Account)
    (contents : List (List Group)) : Prop where
  grouping : account.table.table.grouping = grouping
  capacity : account.table.table.capacity = account.maxGroups
  stores : account.table.Stores disk contents
  weight : account.offered ≤ mostOffered →
    weight (groupsWith account.table contents) ≤ account.offered * 2 ^ 63
  filled : account.offered ≤ mostOffered → [] ∉ contents
  settled : cautious → Settled account.table contents

/-- The tables as owners of their files. -/
def holding (grouping : Grouping) (cautious : Prop) : Holding Account where
  names account := namesOf account.table.spills
  holds disk account := ∃ contents, Keeps grouping cautious disk account contents
  allocated := by
    rintro disk account ⟨contents, hkeeps⟩
    exact hkeeps.stores.files.allocated
  frame := by
    rintro own disk after account ⟨contents, hkeeps⟩ hframe hown
    exact ⟨contents, { hkeeps with stores := hkeeps.stores.frame hframe hown }⟩

/-- A table that is marked as consolidated only if it has no files and room for another group. A row
that cannot be added to it does not make the mark wrong. -/
def Tolerates (s : SpillingTable) : Prop :=
  s.consolidated = true → s.isSpilled = false ∧ s.table.isFull = false

variable {grouping : Grouping} {tolerant : SpillingTable → Prop} {cautious : Prop}
  {accounts : List Account} {disk after : Disk} {account : Account} {table table' : SpillingTable}
  {maxGroups offered : Nat} {contents contents' : List (List Group)}

/-- Totals of not too many rows are too small to overflow. -/
theorem not_fails {α : Type} {result : Attempt α} {weight offered : Nat}
    (hfails : FailsByOverflow weight result) (hweight : weight ≤ offered * 2 ^ 63)
    (hoffered : offered ≤ mostOffered) : ∃ a, result = .ok a := by
  cases result with
  | ok a => exact ⟨a, rfl⟩
  | error fault =>
      obtain ⟨-, hle⟩ := hfails fault rfl
      have hbound : offered * 2 ^ 63 ≤ mostOffered * 2 ^ 63 := Nat.mul_le_mul_right _ hoffered
      rw [mostOffered] at hbound
      omega

namespace Keeps

theorem create {namer : Namer} (hnew : SpillingTable.new grouping maxGroups namer = .ok table)
    (disk : Disk) : Keeps grouping cautious disk ⟨table, maxGroups, 0⟩ [] := by
  obtain ⟨hstores, htable, hspills, hunmarked⟩ := stores_new hnew disk
  refine ⟨?_, ?_, hstores, fun _ => ?_, fun _ => nofun, fun _ htrue => ?_⟩
  · rw [htable]
    rfl
  · rw [htable]
    rfl
  · rw [groupsWith, htable]
    exact Nat.zero_le _
  · rw [hunmarked] at htrue
    cases htrue

theorem insert (h : Keeps grouping cautious disk ⟨table, maxGroups, offered⟩ contents)
    (record : Record) (hfiles : FilesWork ((SpillingTable.insert record).run (table, disk)).1)
    (htolerates : cautious → ((SpillingTable.insert record).run (table, disk)).1 ≠ .ok () →
      Tolerates table) :
    ∃ result table' after contents',
      (SpillingTable.insert record).run (table, disk) = (result, table', after) ∧
      Keeps grouping cautious after ⟨table', maxGroups, offered + 1⟩ contents' ∧
      HandsOn (namesOf table.spills) disk (namesOf table'.spills) after := by
  obtain ⟨result, table', after, contents', hrun, hmoves, hweight, hfilled, hmarked, hspills⟩ :=
    h.stores.insert record hfiles
  rw [hrun] at htolerates
  refine ⟨result, table', after, contents', hrun, ⟨hmoves.settings.grouping.trans h.grouping,
    hmoves.settings.capacity.trans h.capacity, hmoves.stores, fun hoffered => ?_,
    fun hoffered => hfilled (h.filled (Nat.le_of_succ_le hoffered)), fun hcautious htrue hne => ?_⟩,
    hmoves.hands⟩
  · have hbefore := h.weight (Nat.le_of_succ_le hoffered)
    rw [Nat.succ_mul]
    exact Nat.le_trans hweight (Nat.add_le_add_right hbefore _)
  · obtain ⟨hconsolidated, hfailed⟩ := hmarked htrue
    obtain ⟨hunspilled, hroom⟩ := htolerates hcautious hfailed hconsolidated
    rw [hspills hroom, isSpilled_eq_false.1 hunspilled] at hne
    exact absurd rfl hne

theorem close (h : Keeps grouping cautious disk ⟨table, maxGroups, offered⟩ contents)
    (hfiles : FilesWork (SpillingTable.close.run (table, disk)).1) :
    ∃ result table' after contents',
      SpillingTable.close.run (table, disk) = (result, table', after) ∧
      Keeps grouping cautious after ⟨table', maxGroups, offered⟩ contents' ∧
      HandsOn (namesOf table.spills) disk (namesOf table'.spills) after := by
  obtain ⟨table', after, contents', hrun, hmoves, -, hgroups, hfilled, -, hsettled⟩ :=
    h.stores.close hfiles
  refine ⟨.ok (), table', after, contents', hrun, ⟨hmoves.settings.grouping.trans h.grouping,
    hmoves.settings.capacity.trans h.capacity, hmoves.stores, fun hoffered => ?_,
    fun hoffered => hfilled (h.filled hoffered), fun hcautious => hsettled (h.settled hcautious)⟩,
    hmoves.hands⟩
  rw [hgroups]
  exact h.weight hoffered

/-- A consolidated table keeps what it kept before; totals of not too many rows do not overflow. -/
theorem consolidated {result : Attempt Unit}
    (h : Keeps grouping cautious disk ⟨table, maxGroups, offered⟩ contents)
    (hmoves : Moves disk table after table' contents')
    (hconsolidates : Consolidates table contents result table' contents') :
    Keeps grouping cautious after ⟨table', maxGroups, offered⟩ contents' := by
  have hok : offered ≤ mostOffered → result = .ok () := fun hoffered =>
    (not_fails hconsolidates.fails (h.weight hoffered) hoffered).elim fun _ hok => hok
  refine ⟨hmoves.settings.grouping.trans h.grouping, hmoves.settings.capacity.trans h.capacity,
    hmoves.stores, fun hoffered => ?_, fun hoffered => ?_,
    fun hcautious => hconsolidates.settled (h.settled hcautious)⟩
  · exact Nat.le_trans (hconsolidates.weight (hok hoffered)) (h.weight hoffered)
  · exact hconsolidates.filled (hok hoffered) (h.filled hoffered)

theorem merge {other : SpillingTable} {maxGroups' offered' : Nat}
    (h : Keeps grouping cautious disk ⟨table, maxGroups, offered⟩ contents)
    (h' : Keeps grouping cautious disk ⟨other, maxGroups', offered'⟩ contents')
    (hdisjoint : (namesOf table.spills).Disjoint (namesOf other.spills))
    (hfiles : FilesWork ((SpillingTable.merge other).run (table, disk)).1) :
    ∃ result table' after contents'',
      (SpillingTable.merge other).run (table, disk) = (result, table', after) ∧
      FailsByOverflow (Groups.weight (groupsWith table contents) +
        Groups.weight (groupsWith other contents')) result ∧
      Keeps grouping cautious after ⟨table', maxGroups, offered + offered'⟩ contents'' ∧
      HandsOn (namesOf table.spills ++ namesOf other.spills) disk (namesOf table'.spills)
        after := by
  have hgrouping : table.grouping = other.grouping := h.grouping.trans h'.grouping.symm
  obtain ⟨result, table', after, contents'', hrun, hstores, hsettings, hhands, hunmarked, hfails,
    hweight, hfilled⟩ := h.stores.merge h'.stores hgrouping hdisjoint hfiles
  refine ⟨result, table', after, contents'', hrun, hfails, ⟨hsettings.grouping.trans h.grouping,
    hsettings.capacity.trans h.capacity, hstores, fun hoffered => ?_, fun hoffered => ?_,
    fun _ htrue => ?_⟩, hhands⟩
  · have hfirst := h.weight (Nat.le_trans (Nat.le_add_right _ _) hoffered)
    have hsecond := h'.weight (Nat.le_trans (Nat.le_add_left _ _) hoffered)
    rw [Nat.add_mul]
    exact Nat.le_trans hweight (Nat.add_le_add hfirst hsecond)
  · exact hfilled (h.filled (Nat.le_trans (Nat.le_add_right _ _) hoffered))
      (h'.filled (Nat.le_trans (Nat.le_add_left _ _) hoffered))
  · rw [hunmarked] at htrue
    cases htrue

end Keeps

/-- Whatever operations were done, each table keeps what it should. -/
theorem Arises.all (h : Arises grouping tolerant accounts disk) :
    (holding grouping (∀ s, tolerant s → Tolerates s)).All accounts disk := by
  induction h with
  | start disk => exact .nil disk
  | @create accounts disk maxGroups namer table _ hnew ih =>
      obtain ⟨-, -, hspills, -⟩ := stores_new hnew disk
      have hhands : HandsOn [] disk (namesOf table.spills) disk := by
        rw [hspills]
        exact .refl _ _
      exact ih.cons (fun _ _ => List.disjoint_nil_left _) hhands ⟨[], .create hnew disk⟩
  | insert _ hrun hfiles htolerant ih =>
      obtain ⟨contents, hkeeps⟩ := ih.head
      obtain ⟨result, table', after, contents', hrun', hkeeps', hhands⟩ := hkeeps.insert _
        (by rw [hrun]; exact hfiles) fun hcautious hfailed => hcautious _ (htolerant (by
          rw [hrun] at hfailed
          exact hfailed))
      cases hrun.symm.trans hrun'
      exact ih.step hhands ⟨contents', hkeeps'⟩
  | close _ hrun hfiles ih =>
      obtain ⟨contents, hkeeps⟩ := ih.head
      obtain ⟨result, table', after, contents', hrun', hkeeps', hhands⟩ := hkeeps.close
        (by rw [hrun]; exact hfiles)
      cases hrun.symm.trans hrun'
      exact ih.step hhands ⟨contents', hkeeps'⟩
  | consolidate _ hrun hfiles ih =>
      obtain ⟨contents, hkeeps⟩ := ih.head
      obtain ⟨result, table', after, contents', hrun', hmoves, hconsolidates⟩ :=
        hkeeps.stores.consolidate (by rw [hrun]; exact hfiles)
      cases hrun.symm.trans hrun'
      exact ih.step hmoves.hands ⟨contents', hkeeps.consolidated hmoves hconsolidates⟩
  | @render _ _ _ _ _ _ _ projection _ _ hrun hfiles ih =>
      obtain ⟨contents, hkeeps⟩ := ih.head
      obtain ⟨result, table', after, contents', hrun', hmoves, hconsolidates, -⟩ :=
        hkeeps.stores.render projection (by rw [hrun]; exact hfiles)
      rw [hrun] at hrun'
      cases hrun'
      exact ih.step hmoves.hands ⟨contents', hkeeps.consolidated hmoves hconsolidates⟩
  | merge _ hrun hfiles ih =>
      obtain ⟨contents, hkeeps⟩ := ih.head
      obtain ⟨contents', hkeeps'⟩ := ih.tail.head
      obtain ⟨result, table', after, contents'', hrun', -, hmerged, hhands⟩ :=
        hkeeps.merge hkeeps' ih.disjoint (by rw [hrun]; exact hfiles)
      cases hrun.symm.trans hrun'
      exact ih.join hhands ⟨contents'', hmerged⟩
  | others _ hframe ih => exact ih.frame hframe
  | reorder _ hperm ih => exact ih.perm hperm

/-- A table that keeps to its capacity and to its grouping, in memory and in its files. -/
structure Intact (grouping : Grouping) (disk : Disk) (account : Account) : Prop where
  room : account.table.table.groups.length ≤ account.maxGroups
  sorted : Groups.Sorted account.table.table.groups
  conforms : ∀ group ∈ account.table.table.groups, group.Conforms grouping
  files : ∀ file ∈ account.table.spills, ∃ groups, file.read disk = .ok groups ∧
    file.size = groups.length ∧ Groups.Sorted groups ∧ ∀ group ∈ groups, group.Conforms grouping
  /-- Only the overflow of a total, for which it takes 2^64 rows, could leave a file without
  groups. -/
  filled : account.offered < 2 ^ 64 → ∀ file ∈ account.table.spills, 0 < file.size
  matched : Matched (SpillingTable.consolidate.run (account.table, disk)).1

theorem Keeps.isIntact (h : Keeps grouping cautious disk account contents) :
    Intact grouping disk account where
  room := h.capacity ▸ h.stores.room
  sorted := h.stores.sorted
  conforms := h.grouping ▸ h.stores.conforms
  files file hfile := by
    obtain ⟨groups, hgroups, hholds⟩ := exists_of_mem_left h.stores.files hfile
    refine ⟨groups, hholds.read, hholds.size, hholds.sorted, fun group hgroup => ?_⟩
    rw [← h.grouping]
    exact h.stores.stored group (List.mem_flatten_of_mem hgroups hgroup)
  filled hoffered file hfile := by
    obtain ⟨groups, hgroups, hholds⟩ := exists_of_mem_left h.stores.files hfile
    rw [hholds.size, List.length_pos_iff]
    rintro rfl
    exact h.filled (Nat.le_sub_one_of_lt hoffered) hgroups
  matched := by
    rcases filesWork_or (SpillingTable.consolidate.run (account.table, disk)).1 with
      hfiles | ⟨fault, hfault, hfile⟩
    · obtain ⟨result, table', after, contents', hrun, -, hconsolidates⟩ :=
        h.stores.consolidate hfiles
      rw [hrun]
      exact hconsolidates.fails.matched
    · exact matched_of_isFileFailure hfault hfile

/-- Every table, no matter how it was reached, keeps to its capacity and to its grouping, and no
accumulators are found to be of different kinds or numbers when tables are consolidated or
merged.  That no file is without groups is said of tables to which fewer than 2 ^ 64 rows were
offered, for more could make a total overflow while files are consolidated. -/
theorem Arises.intact (h : Arises grouping (fun _ => True) accounts disk) :
    (∀ account ∈ accounts, Intact grouping disk account) ∧
      ∀ account other rest, accounts.Perm (account :: other :: rest) →
        Matched ((SpillingTable.merge other.table).run (account.table, disk)).1 := by
  have hall := h.all
  refine ⟨fun account haccount => ?_, fun account other rest hperm => ?_⟩
  · obtain ⟨contents, hkeeps⟩ := hall.holds account haccount
    exact hkeeps.isIntact
  · have hboth := hall.perm hperm
    obtain ⟨contents, hkeeps⟩ := hboth.head
    obtain ⟨contents', hkeeps'⟩ := hboth.tail.head
    rcases filesWork_or ((SpillingTable.merge other.table).run (account.table, disk)).1 with
      hfiles | ⟨fault, hfault, hfile⟩
    · obtain ⟨result, table', after, contents'', hrun, hfails, -⟩ :=
        hkeeps.merge hkeeps' hboth.disjoint hfiles
      rw [hrun]
      exact hfails.matched
    · exact matched_of_isFileFailure hfault hfile

/-- A row is offered to a table, whose state is taken together with the disk. -/
theorem Arises.offer (state : SpillingTable × Disk)
    (h : Arises grouping tolerant (⟨state.1, maxGroups, offered⟩ :: accounts) state.2)
    (record : Record) {result : Attempt Unit}
    (hresult : ((SpillingTable.insert record).run state).1 = result) (hfiles : FilesWork result)
    (htolerant : result ≠ .ok () → tolerant state.1) :
    Arises grouping tolerant
      (⟨((SpillingTable.insert record).run state).2.1, maxGroups, offered + 1⟩ :: accounts)
      ((SpillingTable.insert record).run state).2.2 :=
  h.insert (Prod.ext hresult rfl) hfiles htolerant

/-- Rows of two keys, for which the first group is spilled. -/
theorem arises_small (tolerant : SpillingTable → Prop) :
    Arises Reaches.smallGrouping tolerant [⟨Reaches.smallFirst.1, 1, 2⟩] Reaches.smallFirst.2 := by
  have hnew : SpillingTable.new Reaches.smallGrouping 1 (.inDirectory "/tmp") =
      .ok Reaches.smallTable := rfl
  have hrow : ((SpillingTable.insert [.int 1, .int 10]).run (Reaches.smallTable, .empty)).1 =
      .ok () := by
    decide +kernel
  have hspill : ((SpillingTable.insert [.int 2, .int 20]).run
      ((SpillingTable.insert [.int 1, .int 10]).run (Reaches.smallTable, .empty)).2).1 =
        .ok () := by
    decide +kernel
  have hempty : Arises Reaches.smallGrouping tolerant [⟨Reaches.smallTable, 1, 0⟩] .empty :=
    (Arises.start .empty).create hnew
  have hfirst := Arises.offer (Reaches.smallTable, .empty) hempty [.int 1, .int 10] hrow
    (filesWork_ok ()) (absurd rfl)
  exact Arises.offer _ hfirst [.int 2, .int 20] hspill (filesWork_ok ()) (absurd rfl)

/-- A row of a third key that cannot be added up. -/
def smallRefused : SpillingTable × Disk :=
  ((SpillingTable.insert [.int 3, .text "x"]).run Reaches.smallFirst).2

theorem refused_small :
    ((SpillingTable.insert [.int 3, .text "x"]).run Reaches.smallFirst).1 =
      .error (.notSummable .utf8) := by
  decide +kernel

theorem filesWork_notSummable (type : DataType) :
    FilesWork (.error (.notSummable type) : Attempt Unit) := by
  intro fault hfault
  cases hfault
  rfl

theorem arises_refused {tolerant : SpillingTable → Prop} (h : tolerant Reaches.smallFirst.1) :
    Arises Reaches.smallGrouping tolerant [⟨smallRefused.1, 1, 3⟩] smallRefused.2 := by
  rw [smallRefused]
  exact Arises.offer Reaches.smallFirst (arises_small tolerant) [.int 3, .text "x"] refused_small
    (filesWork_notSummable _) fun _ => h

theorem intact_small :
    Intact Reaches.smallGrouping smallRefused.2 ⟨smallRefused.1, 1, 3⟩ ∧
      smallRefused.1.table.groups.length = 1 ∧ smallRefused.1.spills.length = 2 := by
  have hrefused : Arises Reaches.smallGrouping (fun _ => True) [⟨smallRefused.1, 1, 3⟩]
      smallRefused.2 :=
    arises_refused trivial
  exact ⟨hrefused.intact.1 _ List.mem_cons_self, by decide +kernel, by decide +kernel⟩

end Family
end ExtentEngine
