import ExtentEngine.Proofs.Aggregate.Codec
import ExtentEngine.Proofs.Disk.Frame

/-!
# Files of records and of groups are read back

Whatever the items of a file are, they are read back from it in their order.  Floats keep all
their bits, absent values stay apart from null ones, and no text breaks a line.

**Results.**
* `exists_roundTrip`: items that can be read back one by one can be read back from a file.
* `roundTrip_of_hasDirectory`: the items of a file of records or of groups are read back.
-/

namespace ExtentEngine
namespace Disk

/-- What becomes of a file when items are written to it and read again. -/
structure RoundTrip {α : Type} (toJson : α → Json) (ofJson? : Json → Option α) (file : FileName)
    (items : List α) (before after : Disk) : Prop where
  /-- Writing succeeds and tells how many items there are. -/
  written : (writeItems toJson file items).run before = (.ok items.length, after)
  readBack : after.readItems ofJson? file = .ok items
  /-- The lines of the file are the texts of the items. -/
  lines : (after.read? file).map Lines.split = some (items.map fun item => (toJson item).text)
  unbroken : ∀ item ∈ items, '\n' ∉ (toJson item).text ∧ '\r' ∉ (toJson item).text

variable {disk : Disk} {file : FileName}

/-- Items that can be read back one by one can be read back from a file. -/
theorem exists_roundTrip {α : Type} {toJson : α → Json} {ofJson? : Json → Option α}
    (hencodes : ∀ item, Json.Encodes toJson ofJson? item)
    (h : disk.hasDirectory file.directory = true) (hcalm : disk.Calm) (items : List α) :
    ∃ after, RoundTrip toJson ofJson? file items disk after := by
  have hwritten : ∀ item ∈ items, (toJson item).Written := fun item _ => (hencodes item).written
  have hread : (disk.put file (Lines.ofItems toJson items)).read? file =
      some (Lines.ofItems toJson items) := read?_put _ _ _
  refine ⟨disk.put file (Lines.ofItems toJson items), writeItems_of_calm toJson items h hcalm,
    readItems_of_read? hwritten (fun item _ => (hencodes item).readBack) hread, ?_, ?_⟩
  · rw [hread, Option.map_some, Lines.split_ofItems hwritten]
  · exact fun item hitem => Lines.notMem_text (hwritten item hitem)

/-- The items of a file of records or of groups are read back, if the directory is there and no
operation on a file goes wrong. -/
theorem roundTrip_of_hasDirectory (h : disk.hasDirectory file.directory = true)
    (hcalm : disk.Calm) (records : List Record) (groups : List Group) :
    (∃ after, RoundTrip Record.toJson Record.ofJson? file records disk after) ∧
      ∃ after, RoundTrip Group.toJson Group.ofJson? file groups disk after := by
  have hrecords := exists_roundTrip Record.encodes h hcalm records
  have hgroups := exists_roundTrip Group.encodes h hcalm groups
  exact ⟨hrecords, hgroups⟩

/-- A NaN with a payload, an infinity, a text full of escapes, and an extremum that is null
beside one that is absent. -/
theorem roundTrip_small :
    (∃ after, RoundTrip Record.toJson Record.ofJson? (.given "/" "extent")
        [[.float ⟨0xfff0000000000123⟩, .float ⟨0x8000000000000000⟩, .text "a\"\\\n\r\x00"], []]
        empty after) ∧
      ∃ after, RoundTrip Group.toJson Group.ofJson? (.given "/" "extent")
        [⟨[.null, .float ⟨0x7ff0000000000000⟩], [.least none, .least (some .null)]⟩]
        empty after :=
  roundTrip_of_hasDirectory (by decide) (by decide) _ _

end Disk
end ExtentEngine
