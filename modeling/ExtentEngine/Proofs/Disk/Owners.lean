import ExtentEngine.Proofs.Disk.Frame
import Mathlib.Data.List.Lattice

/-!
# Owners of files

Several owners share a disk, each with files of its own.  An operation of one owner changes no
files but its own, and the files that it adds are new, so the owners never have files in common and
none of them is disturbed by the others.

**Results.**
* `Holding.All.step`: an operation of one owner leaves what the others hold.
* `Holding.All.join`: so does an operation by which one owner takes over the files of another one.
-/

namespace ExtentEngine

/-- What becomes of the files of an owner by an operation: no others are changed, and any
further ones are new. -/
structure HandsOn (names : List FileName) (disk : Disk) (names' : List FileName) (after : Disk) :
    Prop where
  frame : Disk.Frame (· ∈ names) disk after
  names : ∀ name ∈ names', name ∈ names ∨ ¬disk.Allocated name

namespace HandsOn

variable {names names' names'' others : List FileName} {disk middle after : Disk}

theorem refl (names : List FileName) (disk : Disk) : HandsOn names disk names disk :=
  ⟨.refl _ _, fun _ hname => Or.inl hname⟩

theorem trans (h : HandsOn names disk names' middle) (h' : HandsOn names' middle names'' after) :
    HandsOn names disk names'' after where
  frame := by
    refine ⟨Nat.le_trans h.frame.serial h'.frame.serial,
      h'.frame.obstacles.trans h.frame.obstacles,
      fun place hplace => h'.frame.directory place (h.frame.directory place hplace),
      fun name hname hnot => ?_, fun hcalm => h'.frame.calm (h.frame.calm hcalm)⟩
    have hnot' : name ∉ names' := fun hmem => (h.names name hmem).elim hnot fun hnew => hnew hname
    exact (h'.frame.read name (h.frame.allocated hname) hnot').trans (h.frame.read name hname hnot)
  names name hname := by
    rcases h'.names name hname with hname | hname
    · exact h.names name hname
    · exact Or.inr fun hallocated => hname (h.frame.allocated hallocated)

theorem mono (h : HandsOn names disk names' after) (hsub : names ⊆ others) :
    HandsOn others disk names' after where
  frame := h.frame.mono fun _ _ hname => hsub hname
  names name hname := (h.names name hname).imp_left fun hmem => hsub hmem

/-- Two owners' operations one after the other. -/
theorem append {last : Disk} {others' : List FileName} (h : HandsOn names disk names' after)
    (h' : HandsOn others after others' last) :
    HandsOn (names ++ others) disk (names' ++ others') last where
  frame := (h.frame.mono fun _ _ hname => List.mem_append_left _ hname).trans
    (h'.frame.mono fun _ _ hname => List.mem_append_right _ hname)
  names name hname := by
    rcases List.mem_append.1 hname with hname | hname
    · exact (h.names name hname).imp_left (List.mem_append_left _)
    · rcases h'.names name hname with hname | hnew
      · exact Or.inl (List.mem_append_right _ hname)
      · exact Or.inr fun hallocated => hnew (h.frame.allocated hallocated)

/-- Files that an owner did not have are not among those that it has then. -/
theorem disjoint (h : HandsOn names disk names' after)
    (hothers : ∀ name ∈ others, disk.Allocated name)
    (hdisjoint : names.Disjoint others) : names'.Disjoint others := by
  intro name hname hother
  rcases h.names name hname with hmem | hnew
  · exact hdisjoint hmem hother
  · exact hnew (hothers name hother)

end HandsOn

/-- What owners hold in files, which does not change by operations that own none of the files. -/
structure Holding (α : Type) where
  names : α → List FileName
  holds : Disk → α → Prop
  allocated : ∀ {disk : Disk} {owner : α}, holds disk owner →
    ∀ name ∈ names owner, disk.Allocated name
  frame : ∀ {own : FileName → Prop} {disk after : Disk} {owner : α}, holds disk owner →
    Disk.Frame own disk after → (∀ name ∈ names owner, ¬own name) → holds after owner

namespace Holding

variable {α : Type} {holding : Holding α} {owner other next : α} {owners owners' : List α}
  {disk after : Disk} {names : List FileName}

/-- Owners of which each holds what it should and no two have files in common. -/
structure All (holding : Holding α) (owners : List α) (disk : Disk) : Prop where
  holds : ∀ owner ∈ owners, holding.holds disk owner
  apart : owners.Pairwise fun a b => (holding.names a).Disjoint (holding.names b)

namespace All

theorem nil (disk : Disk) : holding.All [] disk := ⟨nofun, .nil⟩

theorem head (h : holding.All (owner :: owners) disk) : holding.holds disk owner :=
  h.holds owner List.mem_cons_self

theorem tail (h : holding.All (owner :: owners) disk) : holding.All owners disk :=
  ⟨(List.forall_mem_cons.1 h.holds).2, h.apart.tail⟩

theorem perm (h : holding.All owners disk) (hperm : owners.Perm owners') :
    holding.All owners' disk where
  holds owner howner := h.holds owner (hperm.mem_iff.2 howner)
  apart := (hperm.pairwise_iff fun hab => List.Disjoint.symm hab).1 h.apart

/-- Operations of others leave what the owners hold. -/
theorem frame (h : holding.All owners disk)
    (hframe : Disk.Frame (fun name => ∀ owner ∈ owners, name ∉ holding.names owner) disk after) :
    holding.All owners after where
  holds owner howner := holding.frame (h.holds owner howner) hframe fun _ hname hown =>
    hown owner howner hname
  apart := h.apart

/-- An operation that owns none of the files of the owners adds one. -/
theorem cons (h : holding.All owners disk)
    (hapart : ∀ owner ∈ owners, names.Disjoint (holding.names owner))
    (hhands : HandsOn names disk (holding.names next) after) (hnext : holding.holds after next) :
    holding.All (next :: owners) after where
  holds := by
    refine List.forall_mem_cons.2 ⟨hnext, fun owner howner => ?_⟩
    exact holding.frame (h.holds owner howner) hhands.frame fun _ hname hmem =>
      hapart owner howner hmem hname
  apart := by
    refine List.pairwise_cons.2 ⟨fun owner howner => ?_, h.apart⟩
    exact hhands.disjoint (holding.allocated (h.holds owner howner)) (hapart owner howner)

/-- An operation of one owner leaves what the others hold. -/
theorem step (h : holding.All (owner :: owners) disk)
    (hhands : HandsOn (holding.names owner) disk (holding.names next) after)
    (hnext : holding.holds after next) : holding.All (next :: owners) after :=
  h.tail.cons (List.pairwise_cons.1 h.apart).1 hhands hnext

/-- Two owners have no files in common. -/
theorem disjoint (h : holding.All (owner :: other :: owners) disk) :
    (holding.names owner).Disjoint (holding.names other) :=
  (List.pairwise_cons.1 h.apart).1 other List.mem_cons_self

/-- One owner takes over the files of another one. -/
theorem join (h : holding.All (owner :: other :: owners) disk)
    (hhands : HandsOn (holding.names owner ++ holding.names other) disk (holding.names next) after)
    (hnext : holding.holds after next) : holding.All (next :: owners) after := by
  obtain ⟨hfirst, hrest⟩ := List.pairwise_cons.1 h.apart
  refine h.tail.tail.cons (fun owner howner => ?_) hhands hnext
  exact List.disjoint_append_left.2
    ⟨hfirst owner (List.mem_cons_of_mem _ howner), (List.pairwise_cons.1 hrest).1 owner howner⟩

end All
end Holding
end ExtentEngine
