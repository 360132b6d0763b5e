import ExtentEngine.Proofs.Dataset.Outcomes
import ExtentEngine.Proofs.Join.Execute

/-!
# Datasets that claim to be sorted

Sorting and joining trust the key that a dataset claims to be sorted by without looking at its
records.  Datasets share a disk with others, callers use them in any order, and operations may
fail at any point; whatever happened, the records of a dataset are in the order that it claims.

**Results.**
* `Coexist.all`: what every operation on a dataset, and every join of two, keeps of all datasets.
* `Coexist.marker_holds`: the records of a dataset are in the order of the key that it claims to be
  sorted by.
* `Coexist.sortOn_eq`: so it is right to skip sorting by that key.
-/

namespace ExtentEngine
namespace Dataset

/-- The datasets, in any order, and the disk that operations reach, whether or not they succeed.

Where files cannot be written or removed, an operation stops: the files of extents that are given
up may stay, and an operation that puts records in place of others leaves what `clear` and some
calls of `push` leave.  A caller may also be stopped while extents are given up (`interrupted`).
Others may do anything to the disk, except that a name is fresh only once and that the file of an
extent is left alone or lost. -/
inductive Coexist : List Dataset → Disk → Prop
  | start (disk : Disk) : Coexist [] disk
  | new {datasets : List Dataset} {disk : Disk} {schema : Schema} {limit : Nat} {dataset : Dataset}
      (h : Coexist datasets disk) (hnew : Dataset.new schema limit = .ok dataset) :
      Coexist (dataset :: datasets) disk
  | onDisk {datasets : List Dataset} {disk after : Disk} {schema : Schema} {limit : Nat}
      {directory : String} {dataset : Dataset} (h : Coexist datasets disk)
      (hrun : (Dataset.onDisk schema limit directory).run disk = (.ok dataset, after)) :
      Coexist (dataset :: datasets) after
  | perform {datasets : List Dataset} {disk after : Disk} {dataset dataset' : Dataset}
      {action : Action} {answer : Attempt Answer} (h : Coexist (dataset :: datasets) disk)
      (hrun : (Dataset.perform action).run (dataset, disk) = (answer, dataset', after)) :
      Coexist (dataset' :: datasets) after
  | shuffle {datasets : List Dataset} {disk after : Disk} {dataset dataset' : Dataset}
      {order : List Record → List Record} {result : Attempt Unit}
      (h : Coexist (dataset :: datasets) disk)
      (hrun : (Dataset.rearrange order).run (dataset, disk) = (result, dataset', after)) :
      Coexist (dataset' :: datasets) after
  | join {datasets : List Dataset} {disk : Disk} {left right : Dataset} {inputs : JoinInputs}
      {spec : JoinSpec} {options : JoinOptions} {emission : Emission JoinStats}
      (h : Coexist (left :: right :: datasets) disk)
      (hrun : spec.execute options ⟨left, right, disk⟩ = (emission, inputs)) :
      Coexist (inputs.left :: inputs.right :: datasets) inputs.disk
  /-- A writer takes what a join emits, and is closed or dropped. -/
  | receive {datasets : List Dataset} {disk after : Disk} {dataset dataset' : Dataset}
      {emission : Emission JoinStats} {closes : Bool} {result : Attempt JoinStats}
      (h : Coexist (dataset :: datasets) disk)
      (hrun : (if closes then emission.appendTo else writing emission.into).run (dataset, disk) =
        (result, dataset', after)) :
      Coexist (dataset' :: datasets) after
  | interrupted {datasets : List Dataset} {disk : Disk} {dataset : Dataset} (count : Nat)
      (h : Coexist (dataset :: datasets) disk) :
      Coexist ({ dataset with slots := [] } :: datasets)
        (disk.removeAll (dataset.files.take count))
  | others {datasets : List Dataset} {disk after : Disk} (h : Coexist datasets disk)
      (hserial : disk.nextSerial ≤ after.nextSerial)
      (hfiles : ∀ dataset ∈ datasets, ∀ file ∈ dataset.files,
        after.read? file = disk.read? file ∨ after.read? file = none) :
      Coexist datasets after
  | reorder {datasets datasets' : List Dataset} {disk : Disk} (h : Coexist datasets disk)
      (hperm : datasets.Perm datasets') : Coexist datasets' disk

/-- Datasets as owners of their files. -/
def holding : Holding Dataset where
  names := files
  holds disk dataset := ∃ extents, dataset.Truthful disk extents
  allocated := by
    rintro disk dataset ⟨extents, h⟩
    exact h.allocated
  frame := by
    rintro own disk after dataset ⟨extents, h⟩ hframe hown
    exact ⟨extents, h.frame hframe hown⟩

variable {datasets : List Dataset} {disk after : Disk} {dataset dataset' : Dataset}

/-- An operation on one dataset leaves all of them truthful. -/
theorem all_of_leaves {extents : List Extent} (h : holding.All (dataset :: datasets) disk)
    (hleaves : Leaves (dataset, disk) (dataset', after) extents) :
    holding.All (dataset' :: datasets) after :=
  h.step hleaves.hands ⟨extents, hleaves.truthful⟩

/-- A new dataset has no files. -/
theorem all_of_new (h : holding.All datasets disk) (hslots : dataset.slots = [])
    (hframe : Disk.Frame (fun _ => False) disk after) :
    holding.All (dataset :: datasets) after := by
  have hhands : HandsOn [] disk dataset.files after := by
    rw [files, hslots]
    exact ⟨hframe.mono fun _ _ hfalse => hfalse.elim, List.forall_mem_nil _⟩
  exact h.cons (fun _ _ => List.disjoint_nil_left _) hhands ⟨[], .empty hslots after⟩

end Dataset

namespace JoinInputs

variable {datasets : List Dataset} {inputs : JoinInputs}

/-- The inputs of a join are truthful, as are other datasets, and all have files of their own. -/
def Amid (datasets : List Dataset) (inputs : JoinInputs) : Prop :=
  Dataset.holding.All (inputs.left :: inputs.right :: datasets) inputs.disk

theorem Amid.sortLeft (key : Key) (h : inputs.Amid datasets) :
    ((sortLeft key).run inputs).2.Amid datasets := by
  obtain ⟨extents, htruthful⟩ := h.head
  obtain ⟨extents', hleaves⟩ := Dataset.leaves_sort (s := (inputs.left, inputs.disk)) key htruthful
  exact Dataset.all_of_leaves h hleaves

theorem Amid.sortRight (key : Key) (h : inputs.Amid datasets) :
    ((sortRight key).run inputs).2.Amid datasets := by
  have hswap := h.perm (.swap _ _ _)
  obtain ⟨extents, htruthful⟩ := hswap.head
  obtain ⟨extents', hleaves⟩ := Dataset.leaves_sort (s := (inputs.right, inputs.disk)) key htruthful
  exact (Dataset.all_of_leaves hswap hleaves).perm (.swap _ _ _)

/-- Preparing two datasets for a join, also if only one of them could be sorted. -/
theorem Amid.prepare (spec : JoinSpec) (options : JoinOptions) (h : inputs.Amid datasets) :
    ((spec.prepare options).run inputs).2.Amid datasets := by
  cases hvalidate : spec.validate inputs.schemas with
  | error fault =>
      have hrun : (spec.prepare options).run inputs = (.error fault, inputs) := by
        rw [JoinSpec.prepare, Step.run_bind, Step.run_get]
        simp only
        rw [Step.run_bind, Step.run_ofAttempt, hvalidate]
      rw [hrun]
      exact h
  | ok _ =>
      by_cases hmerge : spec.algorithmFor options inputs = .sortMerge
      · rw [JoinSpec.run_prepare hvalidate, if_pos hmerge]
        have hleft := h.sortLeft spec.leftKey
        rw [Step.run_bind]
        rcases hrun : (JoinInputs.sortLeft spec.leftKey).run inputs with ⟨result, middle⟩
        rw [hrun] at hleft
        cases result with
        | error fault => exact hleft
        | ok _ =>
            have hright := hleft.sortRight spec.rightKey
            simp only [Step.run_bind]
            rcases hrun' : (JoinInputs.sortRight spec.rightKey).run middle with ⟨result, last⟩
            rw [hrun'] at hright
            cases result <;> exact hright
      · rw [JoinSpec.run_prepare hvalidate, if_neg hmerge]
        exact h

theorem Amid.execute (spec : JoinSpec) (options : JoinOptions) (h : inputs.Amid datasets) :
    (spec.execute options inputs).2.Amid datasets := by
  have hprepared := h.prepare spec options
  rw [JoinSpec.execute]
  rcases hrun : (spec.prepare options).run inputs with ⟨result, prepared⟩
  rw [hrun] at hprepared
  cases result <;> exact hprepared

end JoinInputs

namespace Dataset

variable {datasets : List Dataset} {disk : Disk} {dataset : Dataset}

/-- Whatever operations were done, all datasets are truthful and have files of their own. -/
theorem Coexist.all (h : Coexist datasets disk) : holding.All datasets disk := by
  induction h with
  | start disk => exact .nil disk
  | new _ hnew ih => exact all_of_new ih (slots_new hnew) (.refl _ _)
  | @onDisk _ disk _ schema limit directory _ _ hrun ih =>
      have hframe := frame_onDisk (fun _ => False) schema limit directory disk
      rw [hrun] at hframe
      obtain ⟨fresh, hnew, -, rfl⟩ := exists_new_of_onDisk hrun
      have hslots : fresh.slots = [] := slots_new hnew
      exact all_of_new ih hslots hframe
  | @perform _ disk _ dataset _ action _ _ hrun ih =>
      obtain ⟨extents, htruthful⟩ := ih.head
      obtain ⟨extents', hleaves⟩ := leaves_perform (s := (dataset, disk)) action htruthful
      rw [hrun] at hleaves
      exact all_of_leaves ih hleaves
  | @shuffle _ disk _ dataset _ order _ _ hrun ih =>
      obtain ⟨extents, htruthful⟩ := ih.head
      obtain ⟨extents', hleaves⟩ := leaves_rearrange (s := (dataset, disk)) order htruthful
      rw [hrun] at hleaves
      exact all_of_leaves ih hleaves
  | @join datasets disk left right inputs spec options _ _ hrun ih =>
      have hinputs : JoinInputs.Amid datasets ⟨left, right, disk⟩ := ih
      have hjoined := hinputs.execute spec options
      rw [hrun] at hjoined
      exact hjoined
  | @receive _ disk _ dataset _ emission closes _ _ hrun ih =>
      obtain ⟨extents, htruthful⟩ := ih.head
      have hleaves : ∃ extents', Leaves (dataset, disk)
          ((if closes then emission.appendTo else writing emission.into).run (dataset, disk)).2
          extents' := by
        cases closes with
        | true => exact leaves_writing (s := (dataset, disk)) emission.appending_closed htruthful
        | false => exact leaves_writing (s := (dataset, disk)) emission.appending_into htruthful
      rw [hrun] at hleaves
      obtain ⟨extents', hleaves⟩ := hleaves
      exact all_of_leaves ih hleaves
  | @interrupted _ disk dataset count _ ih =>
      exact all_of_leaves ih (leaves_removed dataset disk dataset.sortedBy (List.take_subset _ _))
  | @others datasets _ after _ hserial hfiles ih =>
      refine ⟨fun dataset hdataset => ?_, ih.apart⟩
      obtain ⟨extents, htruthful⟩ := ih.holds dataset hdataset
      exact ⟨extents, htruthful.disturb hserial (hfiles dataset hdataset)⟩
  | reorder _ hperm ih => exact ih.perm hperm

/-- Whatever operations were done, the records of a dataset are in the order of the key that it
claims to be sorted by, and they can be read unless a file was lost. -/
theorem Coexist.marker_holds (h : Coexist datasets disk) (hdataset : dataset ∈ datasets) :
    (∀ records key, dataset.records disk = .ok records → dataset.sortedBy = some key →
      records.Pairwise fun a b => Record.compareOn a key b key ≠ .gt) ∧
    ((∀ file ∈ dataset.files, disk.read? file ≠ none) →
      ∃ records, dataset.records disk = .ok records) := by
  obtain ⟨extents, htruthful⟩ := h.all.holds dataset hdataset
  refine ⟨fun records key hrecords hkey => ?_, fun hfiles => ⟨_, htruthful.records_eq hfiles⟩⟩
  rw [← htruthful.flatten_eq hrecords]
  exact (htruthful.sorted key hkey).imp fun hle => bne_iff_ne.1 hle

/-- Sorting a dataset by the key that it claims to be sorted by would change nothing. -/
theorem Coexist.sortOn_eq {records : List Record} {key : Key} (h : Coexist datasets disk)
    (hdataset : dataset ∈ datasets) (hkey : dataset.sortedBy = some key)
    (hrecords : dataset.records disk = .ok records) : Record.sortOn key records = records := by
  obtain ⟨extents, htruthful⟩ := h.all.holds dataset hdataset
  rw [← htruthful.flatten_eq hrecords]
  exact List.mergeSort_of_pairwise (htruthful.sorted key hkey)

/-- An action on a dataset that is taken together with the disk. -/
theorem Coexist.act (s : Dataset × Disk) (action : Action) (h : Coexist (s.1 :: datasets) s.2) :
    Coexist (((Dataset.perform action).run s).2.1 :: datasets)
      ((Dataset.perform action).run s).2.2 :=
  h.perform rfl

/-- A dataset on disk for records of one column. -/
def smallStored : Dataset :=
  ⟨[⟨"x", .int64, true⟩], 2, Nat.two_pos, [], some ((Namer.inDirectory "/tmp").withLabel "dataset"),
    none⟩

/-- The disk on which it was made. -/
def smallDisk : Disk := ((onDisk smallStored.schema 2 "/tmp").run .empty).2

/-- Three records were written to it. -/
def smallWritten : Dataset × Disk :=
  ((perform (.write [[.int 3], [.int 1], [.int 2]] true)).run (smallStored, smallDisk)).2

/-- The records were put in order. -/
def smallSorted : Dataset × Disk :=
  let (dataset, disk) := ((replace [[.int 1], [.int 2], [.int 3]]).run smallWritten).2
  ({ dataset with sortedBy := some [0] }, disk)

theorem sortOn_small :
    Record.sortOn [0] [[.int 3], [.int 1], [.int 2]] = [[.int 1], [.int 2], [.int 3]] := by
  have hperm : (Record.sortOn [0] [[.int 3], [.int 1], [.int 2]]).Perm
      [[.int 1], [.int 2], [.int 3]] :=
    (Record.sortOn_perm _ _).trans (by decide)
  have hantisymm : ∀ a ∈ [[Scalar.int 1], [.int 2], [.int 3]],
      ∀ b ∈ [[Scalar.int 1], [.int 2], [.int 3]],
        Record.leOn [0] a b = true → Record.leOn [0] b a = true → a = b := by
    decide
  exact hperm.eq_of_pairwise (fun a b ha hb => hantisymm a (hperm.mem_iff.1 ha) b hb)
    (Record.pairwise_sortOn _ _) (by decide)

theorem run_sort_small : (sort [0]).run smallWritten = (.ok (), smallSorted) := by
  have hrecords : smallWritten.1.records smallWritten.2 =
      .ok [[.int 3], [.int 1], [.int 2]] := by
    decide +kernel
  have hreplace : ((replace [[.int 1], [.int 2], [.int 3]]).run smallWritten).1 = .ok () := by
    decide +kernel
  rw [run_sort (by decide +kernel) (by decide +kernel) hrecords, sortOn_small, Step.run_bind,
    smallSorted]
  rcases hrun : (replace [[.int 1], [.int 2], [.int 3]]).run smallWritten with ⟨result, t⟩
  rw [hrun] at hreplace
  cases hreplace
  rfl

theorem Coexist.marker_holds_small :
    ∃ records, smallSorted.1.records smallSorted.2 = .ok records ∧ records.length = 3 ∧
      records.Pairwise fun a b => Record.compareOn a [0] b [0] ≠ .gt := by
  have hstored : (Dataset.onDisk smallStored.schema 2 "/tmp").run .empty =
      (.ok smallStored, smallDisk) := by
    decide +kernel
  have hwritten : Coexist [smallWritten.1] smallWritten.2 :=
    .act (smallStored, smallDisk) _ ((Coexist.start .empty).onDisk hstored)
  have hsort : ((Dataset.perform (.sort [0])).run smallWritten).2 = smallSorted := by
    change ((sort [0]).run smallWritten).2 = smallSorted
    rw [run_sort_small]
  have hsorted : Coexist [smallSorted.1] smallSorted.2 := hsort ▸ hwritten.act smallWritten _
  have hfiles : ∀ file ∈ smallSorted.1.files, smallSorted.2.read? file ≠ none := by decide +kernel
  have hread : smallSorted.1.records smallSorted.2 = .ok [[.int 1], [.int 2], [.int 3]] := by
    decide +kernel
  obtain ⟨hordered, hreadable⟩ := hsorted.marker_holds List.mem_cons_self
  obtain ⟨records, hrecords⟩ := hreadable hfiles
  have hlength : records.length = 3 := by
    cases hread.symm.trans hrecords
    rfl
  exact ⟨records, hrecords, hlength, hordered records [0] hrecords (by decide +kernel)⟩

end Dataset
end ExtentEngine
