import ExtentEngine.Proofs.Scalar.Order

/-!
# What collections may rely on

Sorting, merging and extrema rely on the order of scalars, and tables of keys rely on equality and
on the data that a hash is computed from.  All three agree: scalars are found equal just if they
are the same scalar, and just if the same data is hashed.

**Results.**
* `hashData_injective`: different scalars hash different data.
* `order_laws`: the order is total, and goes together with equality and hashing.
-/

namespace ExtentEngine

/-- The loop that lists bytes has listed those before its place. -/
theorem byteList_loop (bytes : ByteArray) (place : Nat) (listed : List UInt8) :
    ByteArray.toList.loop bytes place listed =
      listed.reverse ++ bytes.data.toList.drop place := by
  induction place, listed using ByteArray.toList.loop.induct bytes with
  | case1 place listed hmore ih =>
      have hlength : place < bytes.data.toList.length := hmore
      have hbyte : bytes.get! place = bytes.data.toList[place] :=
        getElem!_pos bytes.data place hmore
      rw [ByteArray.toList.loop, if_pos hmore, ih, hbyte, List.reverse_cons, List.append_assoc,
        List.drop_eq_getElem_cons hlength]
      rfl
  | case2 place listed hend =>
      have hlength : bytes.data.toList.length ≤ place := Nat.not_lt.1 hend
      rw [ByteArray.toList.loop, if_neg hend, List.drop_eq_nil_of_le hlength, List.append_nil]

/-- Texts with the same bytes are the same. -/
theorem toUTF8_injective {s t : String} (h : s.toUTF8.toList = t.toUTF8.toList) : s = t := by
  rw [ByteArray.toList, ByteArray.toList, byteList_loop, byteList_loop] at h
  exact String.toByteArray_inj.1 (ByteArray.ext (Array.toList_inj.1 h))

namespace Scalar

/-- Different scalars hash different data. -/
theorem hashData_injective {a b : Scalar} (h : a.hashData = b.hashData) : a = b := by
  cases a <;> cases b <;> simp only [hashData, List.cons_append, List.cons.injEq] at h
  case null.null => rfl
  case bool.bool b c => cases b <;> cases c <;> simp_all
  case int.int n m => exact congrArg int (congrArg Int64.ofUInt64 (UInt64.toNat_inj.1 h.2.1))
  case float.float x y => exact congrArg float (congrArg Binary64.mk (UInt64.toNat_inj.1 h.2.1))
  case text.text s t =>
    have hbytes := List.append_cancel_right h.2
    have hsame := List.map_injective_iff.2 (fun _ _ => UInt8.toNat_inj.1) hbytes
    rw [toUTF8_injective hsame]
  all_goals exact absurd h.1 (by decide)

/-- The order is total: turning two scalars around turns their order around, it is transitive in
every direction, also from integers through floats to integers, and it finds just those scalars
equal that are the same and, what is the same, hash the same data. -/
theorem order_laws (a b c : Scalar) :
    b.compare a = (a.compare b).swap ∧
    (∀ order, a.compare b = order → b.compare c = order → a.compare c = order) ∧
    (a.compare b ≠ .gt → b.compare c ≠ .gt → a.compare c ≠ .gt) ∧
    (a.compare b = .eq ↔ a = b) ∧
    (a.hashData = b.hashData ↔ a = b) := by
  have hequal : a.compare b = .eq ↔ a = b := Std.LawfulEqCmp.compare_eq_iff_eq
  refine ⟨Std.OrientedCmp.eq_swap, fun order hab hbc => ?_, fun hab hbc => ?_, hequal,
    hashData_injective, congrArg hashData⟩
  · cases order with
    | lt => exact Std.TransCmp.lt_trans hab hbc
    | eq => exact Std.TransCmp.eq_trans hab hbc
    | gt => exact Std.TransCmp.gt_trans hab hbc
  · exact Ordering.ne_gt_iff_isLE.2 (Std.TransCmp.isLE_trans (Ordering.ne_gt_iff_isLE.1 hab)
      (Ordering.ne_gt_iff_isLE.1 hbc))

/-- Two integers that round to one float, and that float. -/
theorem order_laws_rounding :
    (int 9007199254740992).compare (int 9007199254740993) = .lt ∧
    (int 9007199254740993).compare (float ⟨0x4340000000000000⟩) = .lt ∧
    (int 9007199254740992).compare (float ⟨0x4340000000000000⟩) = .lt := by
  have hints : (int 9007199254740992).compare (int 9007199254740993) = .lt := by decide
  have hmixed : (int 9007199254740993).compare (float ⟨0x4340000000000000⟩) = .lt := by
    decide +kernel
  exact ⟨hints, hmixed, (order_laws _ _ _).2.1 .lt hints hmixed⟩

end Scalar
end ExtentEngine
