import ExtentEngine.Proofs.Disk.Lines
import ExtentEngine.Proofs.Scalar.Codec
import ExtentEngine.Record.Codec

/-!
# Records are read back

**Results.**
* `Record.encodes`: records are read back.
* `Record.readItems_of_read?`: the records of a file are those it was written for.
-/

namespace ExtentEngine

open Json (Encodes)

theorem written_cellsToJson (cells : List Scalar) : (cellsToJson cells).Written :=
  Json.written_array fun cell _ => cell.encodes.written

theorem cellsOfJson?_cellsToJson (cells : List Scalar) :
    cellsOfJson? (cellsToJson cells) = some cells :=
  Json.items?_array fun cell _ => cell.encodes.readBack

namespace Record

/-- Records are read back. -/
theorem encodes (record : Record) : Encodes toJson ofJson? record := by
  refine Json.encodes_record ["values"] [cellsToJson record] rfl (by decide) (by decide)
    (List.forall_mem_singleton.2 (written_cellsToJson record)) rfl fun hfields => ?_
  rw [ofJson?, hfields]
  exact cellsOfJson?_cellsToJson record

/-- The records of a file are those it was written for. -/
theorem readItems_of_read? {disk : Disk} {file : FileName} {records : List Record}
    (hread : disk.read? file = some (Lines.ofItems toJson records)) :
    disk.readItems ofJson? file = .ok records :=
  Disk.readItems_of_read? (fun record _ => record.encodes.written)
    (fun record _ => record.encodes.readBack) hread

end Record
end ExtentEngine
