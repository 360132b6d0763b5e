import ExtentEngine.Aggregate.Codec
import ExtentEngine.Proofs.Record.Codec

/-!
# Groups are read back

**Results.**
* `Accumulator.encodes`: accumulators are read back with all their parts.
* `Group.encodes`: groups are read back.
* `Group.readItems_of_read?`: the groups of a file are those it was written for.
* `Group.readItems_of_read?_take`: so are the first few of them if the file breaks off.
-/

namespace ExtentEngine

open Json (Encodes)

theorem Int128.encodes (n : Int128) : Encodes toJson ofJson? n := by
  refine ⟨Json.written_ofInt _, ?_⟩
  have hwhole : (Numeral.ofInt n.val).isWhole = true := rfl
  simp only [toJson, ofJson?, Json.ofInt, hwhole, if_true, Json.wholeValue_ofInt]
  exact ofInt?_eq_some_iff.2 rfl

theorem Total.encodes (total : Total) : Encodes toJson ofJson? total := by
  cases total with
  | int n =>
      refine ⟨Json.written_choose (by decide) n.encodes.written, ?_⟩
      rw [ofJson?, toJson, Json.choice?_choose (by decide)]
      show (Int128.ofJson? n.toJson).map int = _
      rw [n.encodes.readBack]
      rfl
  | float x =>
      refine ⟨Json.written_choose (by decide) x.encodes.written, ?_⟩
      rw [ofJson?, toJson, Json.choice?_choose (by decide)]
      show (Binary64.ofJson? x.toJson).map float = _
      rw [x.encodes.readBack]
      rfl

/-- A value that may be absent is read back, where a value that is there is not null. -/
theorem optionOfJson?_optionToJson {α : Type} {toJson : α → Json} {ofJson? : Json → Option α}
    (h : ∀ a, Encodes toJson ofJson? a) (hnull : ∀ a, toJson a ≠ .null) (value : Option α) :
    optionOfJson? ofJson? (some (optionToJson toJson value)) = some value := by
  cases value with
  | none => rfl
  | some a =>
      rw [optionToJson, optionOfJson?]
      · rw [(h a).readBack]
        rfl
      · exact hnull a

theorem written_optionToJson {α : Type} {toJson : α → Json} {ofJson? : Json → Option α}
    (h : ∀ a, Encodes toJson ofJson? a) (value : Option α) :
    (optionToJson toJson value).Written := by
  cases value with
  | none => exact .null
  | some a => exact (h a).written

theorem written_int64ToJson (n : Int64) : (int64ToJson n).Written := Json.written_ofInt _

theorem int64?_int64ToJson (n : Int64) : (int64ToJson n).int64? = some n := Json.int64?_ofInt n

theorem Variance.encodes (v : Variance Int64 Binary64) : Encodes toJson ofJson? v := by
  refine Json.encodes_record ["count", "mean", "m2"]
    [int64ToJson v.count, v.mean.toJson, v.m2.toJson] rfl (by decide) (by decide) ?_ rfl
    fun hfields => ?_
  · simp [written_int64ToJson, (Binary64.encodes _).written]
  · rw [ofJson?, hfields]
    simp [int64?_int64ToJson, (Binary64.encodes _).readBack]

theorem Covariance.encodes (c : Covariance Int64 Binary64) : Encodes toJson ofJson? c := by
  refine Json.encodes_record ["count", "meanx", "meany", "co_moment"]
    [int64ToJson c.count, c.meanX.toJson, c.meanY.toJson, c.coMoment.toJson] rfl (by decide)
    (by decide) ?_ rfl fun hfields => ?_
  · simp [written_int64ToJson, (Binary64.encodes _).written]
  · rw [ofJson?, hfields]
    simp [int64?_int64ToJson, (Binary64.encodes _).readBack]

theorem Slope.encodes (s : Slope Int64 Binary64) : Encodes toJson ofJson? s := by
  refine Json.encodes_record ["cov", "var"] [s.covariance.toJson, s.variance.toJson] rfl
    (by decide) (by decide) ?_ rfl fun hfields => ?_
  · simp [(Covariance.encodes _).written, (Variance.encodes _).written]
  · rw [ofJson?, hfields]
    simp [(Covariance.encodes _).readBack, (Variance.encodes _).readBack]

theorem VarianceKind.plain_name (kind : VarianceKind) : Json.Plain kind.name := by
  cases kind <;> decide

theorem VarianceKind.oneOf?_name (kind : VarianceKind) :
    (Json.chooseBare kind.name).oneOf? byName = some kind := by
  cases kind <;> rfl

theorem CovarianceKind.plain_name (kind : CovarianceKind) : Json.Plain kind.name := by
  cases kind <;> decide

theorem CovarianceKind.oneOf?_name (kind : CovarianceKind) :
    (Json.chooseBare kind.name).oneOf? byName = some kind := by
  cases kind <;> rfl

namespace Accumulator

/-- The contents of an alternative, which an accumulator is the choice of. -/
theorem encodes_of_contents {state : Accumulator} {name : String} {contents : Json}
    (contentsOfJson? : Json → Option Accumulator) (hplain : Json.Plain name)
    (hjson : state.toJson = .choose name contents)
    (hread : (Json.choose name contents).choice? = some (name.toList, some contents) →
      ofJson? state.toJson = contentsOfJson? contents)
    (h : Encodes (fun _ => contents) contentsOfJson? state) : Encodes toJson ofJson? state := by
  refine ⟨?_, ?_⟩
  · rw [hjson]
    exact Json.written_choose hplain h.written
  · rw [hread (Json.choice?_choose hplain contents), h.readBack]

theorem encodes_count (n : Int64) (skipsNulls : Bool) :
    Encodes toJson ofJson? (count n skipsNulls) := by
  refine encodes_of_contents countOfJson? (by decide) rfl
    (fun hchoice => by rw [ofJson?, toJson, hchoice]; rfl) ?_
  refine Json.encodes_record ["count", "skip_nulls"] [int64ToJson n, .bool skipsNulls] rfl
    (by decide) (by decide) ?_ rfl fun hfields => ?_
  · simp [written_int64ToJson, Json.Written.bool]
  · rw [countOfJson?, hfields]
    simp [int64?_int64ToJson, Json.bool?]

theorem encodes_sum (total : Option Total) : Encodes toJson ofJson? (sum total) := by
  have hnull : ∀ t : Total, t.toJson ≠ .null := fun t => by cases t <;> exact nofun
  refine encodes_of_contents sumOfJson? (by decide) rfl
    (fun hchoice => by rw [ofJson?, toJson, hchoice]; rfl) ?_
  refine Json.encodes_record ["sum"] [optionToJson Total.toJson total] rfl (by decide)
    (by decide) ?_ rfl fun hfields => ?_
  · simpa using written_optionToJson Total.encodes total
  · rw [sumOfJson?, hfields]
    simp [optionOfJson?_optionToJson Total.encodes hnull total]

theorem encodes_average (total : Binary64) (n : Int64) :
    Encodes toJson ofJson? (average total n) := by
  refine encodes_of_contents averageOfJson? (by decide) rfl
    (fun hchoice => by rw [ofJson?, toJson, hchoice]; rfl) ?_
  refine Json.encodes_record ["sum", "count"] [total.toJson, int64ToJson n] rfl (by decide)
    (by decide) ?_ rfl fun hfields => ?_
  · simp [written_int64ToJson, (Binary64.encodes _).written]
  · rw [averageOfJson?, hfields]
    simp [int64?_int64ToJson, (Binary64.encodes _).readBack]

theorem encodes_value (value : Option Scalar) :
    Encodes (fun value => Json.record [("value", optionToJson Scalar.toJson value)])
      valueOfJson? value := by
  have hnull : ∀ v : Scalar, v.toJson ≠ .null := fun v => by cases v <;> exact nofun
  refine Json.encodes_record ["value"] [optionToJson Scalar.toJson value] rfl (by decide)
    (by decide) ?_ rfl fun hfields => ?_
  · simpa using written_optionToJson Scalar.encodes value
  · rw [valueOfJson?, hfields]
    simp [optionOfJson?_optionToJson Scalar.encodes hnull value]

theorem encodes_least (value : Option Scalar) : Encodes toJson ofJson? (least value) := by
  refine encodes_of_contents (fun contents => (valueOfJson? contents).map least) (by decide) rfl
    (fun hchoice => by rw [ofJson?, toJson, hchoice]; rfl) ⟨(encodes_value value).written, ?_⟩
  rw [(encodes_value value).readBack]
  rfl

theorem encodes_greatest (value : Option Scalar) : Encodes toJson ofJson? (greatest value) := by
  refine encodes_of_contents (fun contents => (valueOfJson? contents).map greatest) (by decide) rfl
    (fun hchoice => by rw [ofJson?, toJson, hchoice]; rfl) ⟨(encodes_value value).written, ?_⟩
  rw [(encodes_value value).readBack]
  rfl

theorem encodes_variance (kind : VarianceKind) (moments : Variance Int64 Binary64) :
    Encodes toJson ofJson? (variance kind moments) := by
  refine encodes_of_contents varianceOfJson? (by decide) rfl
    (fun hchoice => by rw [ofJson?, toJson, hchoice]; rfl) ?_
  refine Json.encodes_record ["finalize", "state"] [.chooseBare kind.name, moments.toJson] rfl
    (by decide) (by decide) ?_ rfl fun hfields => ?_
  · simp [Json.written_chooseBare kind.plain_name, moments.encodes.written]
  · rw [varianceOfJson?, hfields]
    simp [kind.oneOf?_name, moments.encodes.readBack]

theorem encodes_covariance (kind : CovarianceKind) (moments : Covariance Int64 Binary64) :
    Encodes toJson ofJson? (covariance kind moments) := by
  refine encodes_of_contents covarianceOfJson? (by decide) rfl
    (fun hchoice => by rw [ofJson?, toJson, hchoice]; rfl) ?_
  refine Json.encodes_record ["finalize", "state"] [.chooseBare kind.name, moments.toJson] rfl
    (by decide) (by decide) ?_ rfl fun hfields => ?_
  · simp [Json.written_chooseBare kind.plain_name, moments.encodes.written]
  · rw [covarianceOfJson?, hfields]
    simp [kind.oneOf?_name, moments.encodes.readBack]

theorem encodes_slope (moments : Slope Int64 Binary64) :
    Encodes toJson ofJson? (slope moments) := by
  refine encodes_of_contents slopeOfJson? (by decide) rfl
    (fun hchoice => by rw [ofJson?, toJson, hchoice]; rfl) ?_
  refine Json.encodes_record ["state"] [moments.toJson] rfl (by decide) (by decide) ?_ rfl
    fun hfields => ?_
  · simpa using moments.encodes.written
  · rw [slopeOfJson?, hfields]
    simp [moments.encodes.readBack]

/-- Accumulators are read back with all their parts. -/
theorem encodes : ∀ state : Accumulator, Encodes toJson ofJson? state
  | count n skipsNulls => encodes_count n skipsNulls
  | sum total => encodes_sum total
  | average total n => encodes_average total n
  | least value => encodes_least value
  | greatest value => encodes_greatest value
  | variance kind moments => encodes_variance kind moments
  | covariance kind moments => encodes_covariance kind moments
  | slope moments => encodes_slope moments

end Accumulator

namespace Group

/-- Groups are read back. -/
theorem encodes (group : Group) : Encodes toJson ofJson? group := by
  have hstates : (Json.array (group.states.map Accumulator.toJson)).items? Accumulator.ofJson? =
      some group.states := Json.items?_array fun state _ => state.encodes.readBack
  refine Json.encodes_record ["key", "states"]
    [cellsToJson group.key, .array (group.states.map Accumulator.toJson)] rfl (by decide)
    (by decide) ?_ rfl fun hfields => ?_
  · have hwritten : (Json.array (group.states.map Accumulator.toJson)).Written :=
      Json.written_array fun state _ => state.encodes.written
    simp [written_cellsToJson, hwritten]
  · rw [ofJson?, hfields]
    simp [cellsOfJson?_cellsToJson, hstates]

/-- The groups of a file are those it was written for. -/
theorem readItems_of_read? {disk : Disk} {file : FileName} {groups : List Group}
    (hread : disk.read? file = some (Lines.ofItems toJson groups)) :
    disk.readItems ofJson? file = .ok groups :=
  Disk.readItems_of_read? (fun group _ => group.encodes.written)
    (fun group _ => group.encodes.readBack) hread

/-- Of a file that breaks off the first few groups are read, or it cannot be read. -/
theorem readItems_of_read?_take {disk : Disk} {file : FileName} {groups : List Group} {count : Nat}
    (hread : disk.read? file = some ((Lines.ofItems toJson groups).take count)) :
    disk.readItems ofJson? file = .error (.lineUnreadable file.path) ∨
      ∃ kept, disk.readItems ofJson? file = .ok (groups.take kept) :=
  Disk.readItems_of_read?_take (fun group _ => group.encodes.written) (fun _ _ => ⟨_, rfl⟩)
    (fun group _ => group.encodes.readBack) hread

end Group
end ExtentEngine
