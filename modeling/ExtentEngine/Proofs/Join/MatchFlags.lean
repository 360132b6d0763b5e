import ExtentEngine.Join.MatchFlags

/-!
# What a scan of flags delivers

A scan delivers the positions of the flags of its kind, from the first to the last.

**Results.**
* `toList_start`: all positions of a kind are delivered.
* `unmatched_append`: a range of flags that is there is scanned.
-/

namespace ExtentEngine

/-- The positions of the flags of a kind, the first flag being at `first`. -/
def positions (wanted : Bool) : Nat → List Bool → List Nat
  | _, [] => []
  | first, flag :: flags =>
    if flag = wanted then first :: positions wanted (first + 1) flags
    else positions wanted (first + 1) flags

namespace MatchScan

/-- Where a scan stands does not matter to what it finds in given flags. -/
theorem seek_congr {scan other : MatchScan} (hwanted : scan.wanted = other.wanted)
    (hleft : scan.left = other.left) (position : Nat) (flags : List Bool) :
    scan.seek position flags = other.seek position flags := by
  induction flags generalizing position with
  | nil => rw [seek, seek, hwanted, hleft]
  | cons flag flags ih => rw [seek, seek, ih, hwanted, hleft]

/-- A flag of the other kind in front changes nothing. -/
theorem take_cons_of_ne {wanted flag : Bool} (h : flag ≠ wanted) (flags : List Bool)
    (position left count : Nat) (hleft : left ≠ 0) :
    take (count + 1) ⟨flag :: flags, position, wanted, left⟩ =
      take (count + 1) ⟨flags, position + 1, wanted, left⟩ := by
  have hnext : next ⟨flag :: flags, position, wanted, left⟩ =
      next ⟨flags, position + 1, wanted, left⟩ := by
    rw [next, next, if_neg hleft, if_neg hleft, seek, if_neg h]
    exact @seek_congr ⟨flag :: flags, position, wanted, left⟩ ⟨flags, position + 1, wanted, left⟩
      rfl rfl (position + 1) flags
  rw [take, take, hnext]

/-- A flag of the kind in front is delivered first. -/
theorem take_cons_self (wanted : Bool) (flags : List Bool) (position count : Nat) :
    take (count + 1) ⟨wanted :: flags, position, wanted, count + 1⟩ =
      (take count ⟨flags, position + 1, wanted, count⟩).map fun (positions, scan) =>
        (position :: positions, scan) := by
  have hnext : next ⟨wanted :: flags, position, wanted, count + 1⟩ =
      (.ok (some position), ⟨flags, position + 1, wanted, count⟩) := by
    rw [next, if_neg (Nat.succ_ne_zero count), seek, if_pos rfl]
    rfl
  rw [take, hnext]

theorem positions_eq_nil {wanted : Bool} {flags : List Bool} (h : flags.count wanted = 0)
    (first : Nat) : positions wanted first flags = [] := by
  induction flags generalizing first with
  | nil => rfl
  | cons flag flags ih =>
      have hmem : wanted ∉ flag :: flags := List.count_eq_zero.1 h
      have hflag : flag ≠ wanted := fun heq => hmem (heq ▸ List.mem_cons_self)
      rw [positions, if_neg hflag]
      exact ih (List.count_eq_zero.2 fun hwanted => hmem (List.mem_cons_of_mem _ hwanted)) _

/-- As many positions as there are flags of the kind are delivered. -/
theorem exists_take (wanted : Bool) (flags : List Bool) (first : Nat) :
    ∃ scan, take (flags.count wanted) ⟨flags, first, wanted, flags.count wanted⟩ =
      .ok (positions wanted first flags, scan) := by
  induction flags generalizing first with
  | nil => exact ⟨_, rfl⟩
  | cons flag flags ih =>
      obtain ⟨scan, hscan⟩ := ih (first + 1)
      by_cases hflag : flag = wanted
      · subst hflag
        rw [List.count_cons_self, take_cons_self, hscan, positions, if_pos rfl]
        exact ⟨scan, rfl⟩
      · rw [List.count_cons_of_ne hflag, positions, if_neg hflag]
        cases hcount : flags.count wanted with
        | zero => exact ⟨_, by rw [positions_eq_nil hcount]; rfl⟩
        | succ count =>
            rw [hcount] at hscan
            rw [take_cons_of_ne hflag flags first (count + 1) count (Nat.succ_ne_zero count)]
            exact ⟨scan, hscan⟩

/-- All positions of a kind are delivered. -/
theorem toList_start (wanted : Bool) (flags : List Bool) :
    (start wanted flags).toList = .ok (positions wanted 0 flags) := by
  obtain ⟨scan, hscan⟩ := exists_take wanted flags 0
  rw [toList, start, hscan]
  rfl

end MatchScan

namespace MatchFlags

/-- A range of flags that is there. -/
theorem range_append (before flags after : List Bool) :
    range (before ++ flags ++ after) before.length (before.length + flags.length) = .ok flags := by
  have hlength : before.length ≤ before.length + flags.length ∧
      before.length + flags.length ≤ (before ++ flags ++ after).length := by
    simp only [List.length_append]
    omega
  rw [range, if_pos hlength, List.append_assoc, List.drop_left, Nat.add_sub_cancel_left,
    List.take_left]

/-- A range of flags that is there is scanned. -/
theorem unmatched_append (before flags after : List Bool) :
    unmatched (before ++ flags ++ after) before.length (before.length + flags.length) =
      .ok (.start false flags) := by
  rw [unmatched, range_append]
  rfl

end MatchFlags
end ExtentEngine
