import ExtentEngine.Proofs.Attempt
import ExtentEngine.Proofs.Join.MatchFlags
import Mathlib.Data.List.Induction
import Mathlib.Data.List.Nodup
import Mathlib.Logic.Function.Iterate

/-!
# Scans of flags with a history

Which flags are set depends on what was done to them: a flag is set if some action has set it and
no later one has given it up, be it by a reset or by a cut to so few rows that it was not among
them.  Flags that come back after a cut are not set.

A scan has no end but the count that it starts with.  It looks inside its range because the count
is that of the flags of its kind which it has not come by yet, and a step keeps it so.

**Results.**
* `MatchFlags.isMarked_actAll_iff`: a flag is set if its history says so.
* `MatchScan.Counts.next`: a step delivers the first position that is left, and counts down.
* `MatchFlags.scans_enumerate`: the scans of a range deliver the positions of the flags that are
  set, and of those that are not, each once and in order.
-/

namespace ExtentEngine

section Positions

variable {wanted : Bool} {flags : List Bool}

theorem positions_eq_map (wanted : Bool) (first : Nat) (flags : List Bool) :
    positions wanted first flags =
      ((flags.zipIdx first).filter fun item => item.1 = wanted).map (·.2) := by
  induction flags generalizing first with
  | nil => rfl
  | cons flag flags ih =>
      rw [positions, ih, List.zipIdx_cons, List.filter_cons]
      by_cases h : flag = wanted <;> simp [h]

theorem length_positions (wanted : Bool) (first : Nat) (flags : List Bool) :
    (positions wanted first flags).length = flags.count wanted := by
  induction flags generalizing first with
  | nil => rfl
  | cons flag flags ih =>
      rw [positions]
      split
      · next h => rw [h, List.length_cons, ih, List.count_cons_self]
      · next h => rw [ih, List.count_cons_of_ne h]

theorem pairwise_positions (wanted : Bool) (first : Nat) (flags : List Bool) :
    (positions wanted first flags).Pairwise (· < ·) := by
  have hall : ((flags.zipIdx first).map Prod.snd).Pairwise (· < ·) := by
    rw [List.zipIdx_map_snd]
    exact List.pairwise_lt_range' 1
  rw [positions_eq_map]
  exact hall.sublist (List.filter_sublist.map _)

theorem mem_positions_iff {i : Nat} : i ∈ positions wanted 0 flags ↔ flags[i]? = some wanted := by
  rw [positions_eq_map, List.mem_map]
  constructor
  · rintro ⟨⟨flag, i⟩, hitem, rfl⟩
    obtain ⟨hmem, hflag⟩ := List.mem_filter.1 hitem
    rw [← of_decide_eq_true hflag]
    exact List.mem_zipIdx_iff_getElem?.1 hmem
  · intro h
    have hmem : (wanted, i) ∈ flags.zipIdx := List.mem_zipIdx_iff_getElem?.2 h
    exact ⟨(wanted, i), List.mem_filter.2 ⟨hmem, decide_eq_true rfl⟩, rfl⟩

/-- Every position is that of a flag of one kind. -/
theorem positions_append_perm (flags : List Bool) :
    (positions true 0 flags ++ positions false 0 flags).Perm (List.range flags.length) := by
  have hfalse : positions false 0 flags =
      ((flags.zipIdx).filter fun item => !decide (item.1 = true)).map (·.2) := by
    rw [positions_eq_map]
    refine congrArg _ (List.filter_congr fun item _ => ?_)
    cases item.1 <;> rfl
  rw [hfalse, positions_eq_map, ← List.map_append, List.range_eq_range', ← List.zipIdx_map_snd]
  exact (List.filter_append_perm _ _).map _

end Positions

namespace MatchScan

variable {scan : MatchScan}

/-- The positions that a scan is still to deliver. -/
def rest (scan : MatchScan) : List Nat := positions scan.wanted scan.position scan.unread

/-- Whether a scan knows how many positions are still to come. -/
def Counts (scan : MatchScan) : Prop := scan.left = scan.rest.length

theorem counts_start (wanted : Bool) (flags : List Bool) : (start wanted flags).Counts :=
  (length_positions wanted 0 flags).symm

/-- A search finds the first position if there is one. -/
theorem seek_eq (scan : MatchScan) (position : Nat) (flags : List Bool)
    (h : positions scan.wanted position flags ≠ []) :
    (scan.seek position flags).1 = .ok (positions scan.wanted position flags).head? ∧
      (scan.seek position flags).2.rest = (positions scan.wanted position flags).tail ∧
      (scan.seek position flags).2.left = scan.left - 1 := by
  induction flags generalizing position with
  | nil => exact absurd rfl h
  | cons flag flags ih =>
      rw [positions] at h
      rw [seek, positions]
      split
      · exact ⟨rfl, rfl, rfl⟩
      · next hflag => exact ih (position + 1) (by rwa [if_neg hflag] at h)

/-- A step delivers the first position that is left, and counts down. -/
theorem Counts.next (h : scan.Counts) : scan.next.1 = .ok scan.rest.head? ∧
    scan.next.2.rest = scan.rest.tail ∧ scan.next.2.Counts := by
  rw [MatchScan.next]
  by_cases hleft : scan.left = 0
  · have hrest : scan.rest = [] := List.length_eq_zero_iff.1 (h.symm.trans hleft)
    rw [if_pos hleft, hrest]
    exact ⟨rfl, rfl, h⟩
  · rw [if_neg hleft]
    have hrest : scan.rest ≠ [] := fun hrest => hleft (h.trans (congrArg List.length hrest))
    obtain ⟨hresult, htail, hcount⟩ := scan.seek_eq scan.position scan.unread hrest
    refine ⟨hresult, htail, ?_⟩
    rw [Counts, hcount, htail, h]
    exact List.length_tail.symm

/-- The scan after a number of steps. -/
def after (scan : MatchScan) (steps : Nat) : MatchScan := (fun scan => scan.next.2)^[steps] scan

theorem Counts.after (h : scan.Counts) (steps : Nat) :
    (scan.after steps).rest = scan.rest.drop steps ∧ (scan.after steps).Counts := by
  induction steps with
  | zero => exact ⟨rfl, h⟩
  | succ steps ih =>
      obtain ⟨hrest, hcounts⟩ := ih
      obtain ⟨-, htail, hnext⟩ := hcounts.next
      rw [MatchScan.after, Function.iterate_succ_apply', ← MatchScan.after]
      exact ⟨htail.trans (by rw [hrest, List.tail_drop]), hnext⟩

theorem Counts.toList (h : scan.Counts) : scan.toList = .ok scan.rest := by
  obtain ⟨unread, position, wanted, left⟩ := scan
  have hleft : left = unread.count wanted := h.trans (length_positions wanted position unread)
  obtain ⟨scan, hscan⟩ := exists_take wanted unread position
  rw [MatchScan.toList, hleft, hscan]
  rfl

/-- Whether a scan delivers the given positions: one at each step, and none at every step behind
them, with the count of those to come right at any time. -/
def Delivers (scan : MatchScan) (items : List Nat) : Prop :=
  ∀ steps, (scan.after steps).next.1 = .ok items[steps]? ∧
    (scan.after steps).toList = .ok (items.drop steps) ∧
    (scan.after steps).left = (items.drop steps).length

theorem Counts.delivers (h : scan.Counts) : scan.Delivers scan.rest := by
  intro steps
  obtain ⟨hrest, hcounts⟩ := h.after steps
  refine ⟨?_, ?_, ?_⟩
  · rw [hcounts.next.1, hrest, List.head?_drop]
  · rw [hcounts.toList, hrest]
  · rw [← hrest]
    exact hcounts

end MatchScan

namespace MatchFlags

variable {flags flags' : MatchFlags} {row : Nat}

namespace Action

/-- The rows whose flags an action sets. -/
def marks : Action → List Nat
  | .resize _ => []
  | .reset => []
  | .mark row => [row]
  | .markAll rows => rows

/-- Whether an action leaves the flag of a row as it is if it is set. -/
def Keeps (row : Nat) : Action → Prop
  | .resize rows => row < rows
  | .reset => False
  | .mark _ => True
  | .markAll _ => True

end Action

/-- Whether the flag of a row was set and not given up since. -/
def MarkedBy (actions : List Action) (row : Nat) : Prop :=
  ∃ before action after, actions = before ++ action :: after ∧ row ∈ action.marks ∧
    ∀ later ∈ after, later.Keeps row

theorem not_markedBy_nil (row : Nat) : ¬MarkedBy [] row := by
  rintro ⟨before, action, after, h, -, -⟩
  exact List.append_ne_nil_of_right_ne_nil before (List.cons_ne_nil action after) h.symm

/-- What the last action does to the flag of a row. -/
theorem markedBy_concat_iff {actions : List Action} {action : Action} :
    MarkedBy (actions ++ [action]) row ↔
      row ∈ action.marks ∨ action.Keeps row ∧ MarkedBy actions row := by
  constructor
  · rintro ⟨before, found, after, h, hmarks, hkeeps⟩
    rcases List.eq_nil_or_concat' after with rfl | ⟨after, last, rfl⟩
    · obtain ⟨-, hlast⟩ := List.append_inj' h rfl
      rw [(List.cons.inj hlast).1]
      exact Or.inl hmarks
    · rw [← List.cons_append, ← List.append_assoc] at h
      obtain ⟨hactions, hlast⟩ := List.append_inj' h rfl
      obtain ⟨hafter, hkept⟩ := List.forall_mem_append.1 hkeeps
      rw [(List.cons.inj hlast).1]
      exact Or.inr ⟨hkept _ List.mem_cons_self, before, found, after, hactions, hmarks, hafter⟩
  · rintro (hmarks | ⟨hkept, before, found, after, rfl, hmarks, hkeeps⟩)
    · exact ⟨actions, action, [], rfl, hmarks, List.forall_mem_nil _⟩
    · refine ⟨before, found, after ++ [action], ?_, hmarks,
        List.forall_mem_append.2 ⟨hkeeps, List.forall_mem_singleton.2 hkept⟩⟩
      rw [List.append_assoc, List.cons_append]

theorem isMarked_resize_iff {rows : Nat} :
    (flags.resize rows).isMarked row = true ↔ row < rows ∧ flags.isMarked row = true := by
  rw [isMarked, isMarked, resize, List.getElem?_append, List.length_take]
  split
  · next hlt =>
      rw [List.getElem?_take_of_lt (by omega)]
      exact (and_iff_right (by omega)).symm
  · next hle =>
      -- Behind the flags that stay there are new ones, or none.
      have hnew : ((List.replicate (rows - flags.length) false)[row - min rows flags.length]?).getD
          false = false := by
        rw [List.getElem?_replicate]
        split <;> rfl
      rw [hnew]
      refine iff_of_false Bool.false_ne_true fun h => ?_
      rw [List.getElem?_eq_none (by omega)] at h
      exact Bool.false_ne_true h.2

theorem isMarked_mark_iff {marked : Nat} (h : flags.mark marked = .ok flags') :
    flags'.isMarked row = true ↔ row = marked ∨ flags.isMarked row = true := by
  rw [mark] at h
  split at h
  · next hlt =>
      cases h
      rw [isMarked, isMarked, List.getElem?_set]
      split
      · next heq => exact iff_of_true rfl (Or.inl heq.symm)
      · next hne => exact (or_iff_right (Ne.symm hne)).symm
  · cases h

theorem isMarked_markAll_iff {rows : List Nat} (h : flags.markAll rows = .ok flags') :
    flags'.isMarked row = true ↔ row ∈ rows ∨ flags.isMarked row = true := by
  rw [markAll] at h
  induction rows generalizing flags with
  | nil =>
      cases h
      exact (or_iff_right List.not_mem_nil).symm
  | cons marked rows ih =>
      rw [List.foldlM_cons] at h
      obtain ⟨between, hmark, hrest⟩ := Attempt.bind_eq_ok.1 h
      rw [ih hrest, isMarked_mark_iff hmark, List.mem_cons, ← or_assoc, or_comm (a := row ∈ rows)]

/-- An action sets flags, and leaves those set that it keeps. -/
theorem isMarked_act_iff {action : Action} (h : flags.act action = .ok flags') :
    flags'.isMarked row = true ↔
      row ∈ action.marks ∨ action.Keeps row ∧ flags.isMarked row = true := by
  cases action with
  | resize rows =>
      cases h
      exact isMarked_resize_iff.trans (or_iff_right List.not_mem_nil).symm
  | reset =>
      cases h
      exact iff_of_false Bool.false_ne_true (by rintro (h | ⟨h, -⟩) <;> cases h)
  | mark marked =>
      exact (isMarked_mark_iff h).trans
        (or_congr List.mem_singleton.symm (and_iff_right trivial).symm)
  | markAll rows =>
      exact (isMarked_markAll_iff h).trans (or_congr_right (and_iff_right trivial).symm)

/-- A flag is set if its history says so. -/
theorem isMarked_actAll_iff {actions : List Action} (h : actAll actions = .ok flags) :
    flags.isMarked row = true ↔ MarkedBy actions row := by
  induction actions using List.reverseRecOn generalizing flags with
  | nil =>
      cases h
      exact iff_of_false Bool.false_ne_true (not_markedBy_nil row)
  | append_singleton actions action ih =>
      rw [actAll, List.foldlM_append] at h
      obtain ⟨before, hbefore, hact⟩ := Attempt.bind_eq_ok.1 h
      rw [List.foldlM_cons] at hact
      obtain ⟨after, hact, hnil⟩ := Attempt.bind_eq_ok.1 hact
      cases hnil
      rw [isMarked_act_iff hact, ih hbefore, markedBy_concat_iff]

/-- The flags of a range that is there. -/
theorem exists_range {first last : Nat} (hfirst : first ≤ last) (hlast : last ≤ flags.length) :
    ∃ part : List Bool, flags.range first last = .ok part ∧ part.length = last - first ∧
      ∀ i wanted, part[i]? = some wanted ↔
        i < last - first ∧ flags.isMarked (first + i) = wanted := by
  refine ⟨(flags.drop first).take (last - first), if_pos ⟨hfirst, hlast⟩, ?_, fun i wanted => ?_⟩
  · rw [List.length_take, List.length_drop]
    omega
  · rw [List.getElem?_take]
    split
    · next hlt =>
        rw [List.getElem?_drop, isMarked, List.getElem?_eq_getElem (by omega), Option.some_inj]
        exact (and_iff_right hlt).symm
    · next hle => exact iff_of_false (Option.some_ne_none wanted).symm fun h => hle h.1

/-- After any actions on flags that found the flags which they set, a range that is there has a scan
for the flags that are set and one for those that are not.  They deliver the positions of these in
increasing order, counted from the start of the range, and no others: a flag is set if an action has
set it and none since has given it up, and each position of the range is delivered by one of the two
scans.  However many steps were made, the next one delivers the next position or, behind the last,
none, and the count is that of the positions to come. -/
theorem scans_enumerate {actions : List Action} {first last : Nat}
    (hactions : actAll actions = .ok flags) (hfirst : first ≤ last)
    (hlast : last ≤ flags.length) :
    ∃ scan scan' : MatchScan, ∃ marked unmarked : List Nat,
      flags.matched first last = .ok scan ∧ flags.unmatched first last = .ok scan' ∧
      scan.Delivers marked ∧ scan'.Delivers unmarked ∧
      marked.Pairwise (· < ·) ∧ unmarked.Pairwise (· < ·) ∧
      (∀ i, i ∈ marked ↔ i < last - first ∧ MarkedBy actions (first + i)) ∧
      (∀ i, i ∈ unmarked ↔ i < last - first ∧ ¬MarkedBy actions (first + i)) ∧
      (marked ++ unmarked).Perm (List.range (last - first)) := by
  obtain ⟨part, hrange, hlength, hflag⟩ := exists_range hfirst hlast
  have hmarked (i : Nat) : i ∈ positions true 0 part ↔
      i < last - first ∧ MarkedBy actions (first + i) := by
    rw [mem_positions_iff, hflag, isMarked_actAll_iff hactions]
  have hunmarked (i : Nat) : i ∈ positions false 0 part ↔
      i < last - first ∧ ¬MarkedBy actions (first + i) := by
    rw [mem_positions_iff, hflag, ← Bool.not_eq_true, isMarked_actAll_iff hactions]
  refine ⟨.start true part, .start false part, positions true 0 part, positions false 0 part,
    by rw [matched, hrange]; rfl, by rw [unmatched, hrange]; rfl,
    (MatchScan.counts_start true part).delivers, (MatchScan.counts_start false part).delivers,
    pairwise_positions true 0 part, pairwise_positions false 0 part, hmarked, hunmarked, ?_⟩
  rw [← hlength]
  exact positions_append_perm part

/-- The flag of row 3 was cut off and has come back, that of row 2 was set behind the cut. -/
theorem scans_enumerate_small :
    actAll [.resize 2, .mark 0, .reset, .resize 4, .markAll [1, 3], .resize 3, .resize 5, .mark 2] =
        .ok [false, true, true, false, false] ∧
      ∃ scan scan' : MatchScan,
        matched [false, true, true, false, false] 1 4 = .ok scan ∧
        unmatched [false, true, true, false, false] 1 4 = .ok scan' ∧
        scan.Delivers [0, 1] ∧ scan'.Delivers [2] := by
  have hactions : actAll [.resize 2, .mark 0, .reset, .resize 4, .markAll [1, 3], .resize 3,
      .resize 5, .mark 2] = .ok [false, true, true, false, false] := rfl
  obtain ⟨scan, scan', marked, unmarked, hscan, hscan', hmarked, hunmarked, -⟩ :=
    @scans_enumerate _ _ 1 4 hactions (by decide) (by decide)
  refine ⟨hactions, scan, scan', hscan, hscan', ?_, ?_⟩
  · cases hscan
    have hlist : Except.ok marked = .ok [0, 1] := (hmarked 0).2.1.symm
    exact Except.ok.inj hlist ▸ hmarked
  · cases hscan'
    have hlist : Except.ok unmarked = .ok [2] := (hunmarked 0).2.1.symm
    exact Except.ok.inj hlist ▸ hunmarked

end MatchFlags
end ExtentEngine
