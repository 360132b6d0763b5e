import ExtentEngine.Join.SortMerge
import ExtentEngine.Proofs.Join.InBounds
import ExtentEngine.Proofs.Join.Keyed
import ExtentEngine.Proofs.Record.Order
import Mathlib.Data.List.TakeWhile

/-!
# The parts of two sorted inputs

The sort-merge join takes its inputs apart from the front: a row that is dropped is a part by
itself, and so are the rows of a run.  How the inputs fall into parts is a matter of the keys alone,
and the join emits one part after the other.

What is dropped has no partner in the rest of the other input, since the inputs are sorted, and a
run and what follows it on the other side have different keys.  So the keys of rows match if and
only if the rows are in one run.

**Results.**
* `emitRun_eq_emit`: the rows of a run are joined by a nested loop.
* `run_eq_parts`: the sort-merge join emits the parts of its inputs.
* `flatMap_lefts_parts` and `flatMap_rights_parts`: every row is in one part.
* `keysMatch_of_mem_parts` and `apart_parts`: keys match within a part, and nowhere else.
-/

namespace ExtentEngine

theorem flatten_singletons (records : List Record) :
    (records.map fun record => [record]).flatten = records := by
  rw [← List.flatMap_def, List.flatMap_singleton']

/-- A row with one flag. -/
theorem emitUnmatched_single (emitRow : Record → Emission Unit) (marked : Bool) (record : Record) :
    emitUnmatched emitRow [marked] 0 [[record]] = if !marked then emitRow record else pure () := by
  cases marked with
  | true => rfl
  | false =>
      have hone : emitUnmatched emitRow [false] 0 [[record]] = (do
          let _ ← (do let _ ← emitRow record; pure ())
          pure ()) := rfl
      rw [hone, bind_pure_unit, bind_pure_unit]
      rfl

/-- Rows of two inputs that the sort-merge join deals with at once: a row that is dropped, or those
of a run. -/
structure JoinPart where
  lefts : List Record
  rights : List Record
deriving DecidableEq, Repr

/-- Joins the rows of a part by a nested loop, to which every left row is an extent. -/
def JoinPart.emit (out : JoinOutput) (condition : Predicate) (part : JoinPart) : Emission Unit :=
  NestedLoop.run out condition (.ofExtents (part.lefts.map fun left => [left]))
    (.ofExtents [part.rights])

variable {out : JoinOutput} {spec : JoinSpec}

/-- Whether no keys of rows of two parts match. -/
structure JoinPart.Apart (spec : JoinSpec) (part other : JoinPart) : Prop where
  left : ∀ l ∈ part.lefts, ∀ r ∈ other.rights, spec.keysMatch l r = false
  right : ∀ l ∈ other.lefts, ∀ r ∈ part.rights, spec.keysMatch l r = false

/-- A part that is apart from others is apart from all of them together. -/
theorem JoinPart.Apart.flatMap {part : JoinPart} {others : List JoinPart}
    (h : ∀ other ∈ others, part.Apart spec other) :
    part.Apart spec ⟨others.flatMap JoinPart.lefts, others.flatMap JoinPart.rights⟩ where
  left l hl r hr := by
    obtain ⟨other, hother, hr⟩ := List.mem_flatMap.1 hr
    exact (h other hother).left l hl r hr
  right l hl r hr := by
    obtain ⟨other, hother, hl⟩ := List.mem_flatMap.1 hl
    exact (h other hother).right l hl r hr

namespace SortMerge

theorem rowWithRun_eq_loop (out : JoinOutput) (condition : Predicate) (left : Record)
    (run : List Record) (runFlags : MatchFlags) :
    rowWithRun out condition left run runFlags =
      NestedLoop.extentWithAll out condition [left] 0 ⟨.cleared 1, runFlags⟩ [run] := by
  rw [NestedLoop.extentWithAll, NestedLoop.extentWithExtent, List.zipIdx_singleton,
    List.foldlM_cons]
  simp only [List.foldlM_nil, bind_pure, NestedLoop.extentWithAll, NestedLoop.rowWithExtent,
    Nat.zero_add]
  rfl

/-- A left row that stands alone has one flag, so it is emitted at once if the flag is not set. -/
theorem leftRun_eq_loop (out : JoinOutput) (condition : Predicate) {run : List Record}
    {runFlags : MatchFlags} (hflags : runFlags.length = run.length) (lefts : List Record) :
    leftRun out condition run runFlags lefts =
      NestedLoop.leftExtents out condition [run] runFlags (lefts.map fun left => [left]) := by
  induction lefts generalizing runFlags with
  | nil => rfl
  | cons left lefts ih =>
      have hfits : PairFlags.Fits [left].length run.length ⟨.cleared 1, runFlags⟩ := ⟨rfl, hflags⟩
      have hrun : 0 + [run].flatten.length ≤ run.length :=
        Nat.le_of_eq (by rw [Nat.zero_add, List.flatten_singleton])
      rw [leftRun, List.map_cons, NestedLoop.leftExtents, rowWithRun_eq_loop]
      refine (NestedLoop.ofValues_extentWithAll hfits hrun).bind_congr fun flags hflags => ?_
      obtain ⟨marked, hmarked⟩ := List.length_eq_one_iff.1 hflags.1
      rw [ih hflags.2, Emission.ite_bind, Emission.ite_bind, hmarked, emitUnmatched_single]
      congr 1
      rw [JoinOutput.leftUnmatched]
      cases marked <;> cases out.method.emitsLeftUnmatched <;> rfl

section Emit

variable (out : JoinOutput) (condition : Predicate)

theorem emitRun_eq_emit (lefts rights : List Record) :
    emitRun out condition lefts rights = JoinPart.emit out condition ⟨lefts, rights⟩ := by
  have hcleared : (MatchFlags.cleared rights.length).length = rights.length :=
    List.length_replicate
  rw [emitRun, JoinPart.emit, NestedLoop.run, leftRun_eq_loop out condition hcleared,
    JoinSide.recordCount_ofExtents, List.flatten_singleton]
  rfl

/-- A left row that is dropped meets no right row. -/
theorem leftUnmatched_eq_emit (left : Record) :
    out.leftUnmatched left = JoinPart.emit out condition ⟨[left], []⟩ := by
  have hloop : JoinPart.emit out condition ⟨[left], []⟩ = (do
      let _ ← (do
        if out.method.emitsLeftUnmatched then emitUnmatched out.leftUnmatched [false] 0 [[left]]
        pure [])
      if out.method.emitsRightUnmatched then emitUnmatched out.rightUnmatched [] 0 [[]]) := rfl
  have hnone : (if out.method.emitsRightUnmatched then emitUnmatched out.rightUnmatched [] 0 [[]]
      else pure ()) = pure () := by split <;> rfl
  rw [hloop, hnone, Emission.ite_bind, emitUnmatched_single, JoinOutput.leftUnmatched]
  simp only [Bool.not_false, if_true, bind_assoc, pure_bind, bind_pure_unit]
  split <;> rfl

/-- A right row that is dropped meets no left row. -/
theorem rightUnmatched_eq_emit (right : Record) :
    out.rightUnmatched right = JoinPart.emit out condition ⟨[], [right]⟩ := by
  have hloop : JoinPart.emit out condition ⟨[], [right]⟩ =
      if out.method.emitsRightUnmatched then
        emitUnmatched out.rightUnmatched [false] 0 [[right]]
      else pure () := rfl
  rw [hloop, emitUnmatched_single, JoinOutput.rightUnmatched]
  split <;> rfl

end Emit

/-- The parts of two inputs, from the front. -/
def parts (spec : JoinSpec) : List Record → List Record → List JoinPart
  | [], [] => []
  | left :: lefts, [] => ⟨[left], []⟩ :: parts spec lefts []
  | [], right :: rights => ⟨[], [right]⟩ :: parts spec [] rights
  | left :: lefts, right :: rights =>
    if left.hasNullKey spec.leftKey then ⟨[left], []⟩ :: parts spec lefts (right :: rights)
    else if right.hasNullKey spec.rightKey then ⟨[], [right]⟩ :: parts spec (left :: lefts) rights
    else
      match Record.compareOn left spec.leftKey right spec.rightKey with
      | .lt => ⟨[left], []⟩ :: parts spec lefts (right :: rights)
      | .gt => ⟨[], [right]⟩ :: parts spec (left :: lefts) rights
      | .eq =>
        ⟨left :: lefts.takeWhile (sameKey spec · right),
            right :: rights.takeWhile (sameKey spec left)⟩ ::
          parts spec (lefts.dropWhile (sameKey spec · right))
            (rights.dropWhile (sameKey spec left))
termination_by lefts rights => lefts.length + rights.length
decreasing_by
  all_goals simp only [List.length_cons]
  all_goals first
    | omega
    | have := (List.dropWhile_sublist (l := lefts) (sameKey spec · right)).length_le
      have := (List.dropWhile_sublist (l := rights) (sameKey spec left)).length_le
      omega

theorem sameKey_iff {left right : Record} :
    sameKey spec left right = true ↔
      left.keyValues spec.leftKey = right.keyValues spec.rightKey := by
  rw [sameKey, beq_iff_eq, Record.compareOn_eq_iff]

/-- The run of the right input begins with its first row. -/
theorem rowAt_buffer {left right : Record} (hsame : sameKey spec left right = true)
    (rights : List Record) :
    rowAt ((right :: rights).takeWhile (sameKey spec left)) 0 = .ok right := by
  rw [List.takeWhile_cons_of_pos hsame]
  rfl

/-- The sort-merge join emits the parts of its inputs. -/
theorem run_eq_parts (out : JoinOutput) (spec : JoinSpec) (lefts rights : List Record) :
    run out spec lefts rights =
      Emission.forEach (JoinPart.emit out spec.residual) (parts spec lefts rights) := by
  have hleft := leftUnmatched_eq_emit out spec.residual
  have hright := rightUnmatched_eq_emit out spec.residual
  fun_induction run out spec lefts rights with
  | case1 => rw [parts, Emission.forEach]
  | case2 left lefts ih => rw [parts, Emission.forEach, ih, hleft]
  | case3 right rights ih => rw [parts, Emission.forEach, ih, hright]
  | case4 left lefts right rights hnull ih =>
      rw [parts, if_pos hnull, Emission.forEach, ih, hleft]
  | case5 left lefts right rights hnull hnull' ih =>
      rw [parts, if_neg hnull, if_pos hnull', Emission.forEach, ih, hright]
  | case6 left lefts right rights hnull hnull' hlt ih =>
      rw [parts, if_neg hnull, if_neg hnull', hlt]
      simp only
      rw [Emission.forEach, ih, hleft]
  | case7 left lefts right rights hnull hnull' hgt ih =>
      rw [parts, if_neg hnull, if_neg hnull', hgt]
      simp only
      rw [Emission.forEach, ih, hright]
  | case8 left lefts right rights hnull hnull' heq buffer ih =>
      have hsame : sameKey spec left right = true := by
        rw [sameKey, heq]
        rfl
      have htaken : (left :: lefts).takeWhile (sameKey spec · right) =
          left :: lefts.takeWhile (sameKey spec · right) := List.takeWhile_cons_of_pos hsame
      have hdropped : (left :: lefts).dropWhile (sameKey spec · right) =
          lefts.dropWhile (sameKey spec · right) := List.dropWhile_cons_of_pos hsame
      have hrest := ih right
      rw [parts, if_neg hnull, if_neg hnull', heq]
      simp only [buffer]
      rw [hdropped, List.dropWhile_cons_of_pos hsame] at hrest
      rw [rowAt_buffer hsame, Emission.bind_ofAttempt_ok, Emission.forEach, htaken, hdropped,
        List.takeWhile_cons_of_pos hsame, List.dropWhile_cons_of_pos hsame, emitRun_eq_emit, hrest]

section Members

variable {lefts rights : List Record} {part : JoinPart}

/-- Every left row is in one part. -/
theorem flatMap_lefts_parts (spec : JoinSpec) (lefts rights : List Record) :
    (parts spec lefts rights).flatMap JoinPart.lefts = lefts := by
  fun_induction parts spec lefts rights with
  | case1 => rfl
  | case2 left lefts ih => rw [List.flatMap_cons, ih, List.singleton_append]
  | case3 right rights ih => rw [List.flatMap_cons, ih, List.nil_append]
  | case4 left lefts right rights hnull ih
  | case6 left lefts right rights hnull hnull' hlt ih =>
      rw [List.flatMap_cons, ih, List.singleton_append]
  | case5 left lefts right rights hnull hnull' ih
  | case7 left lefts right rights hnull hnull' hgt ih =>
      rw [List.flatMap_cons, ih, List.nil_append]
  | case8 left lefts right rights hnull hnull' heq ih =>
      rw [List.flatMap_cons, ih, List.cons_append, List.takeWhile_append_dropWhile]

/-- Every right row is in one part. -/
theorem flatMap_rights_parts (spec : JoinSpec) (lefts rights : List Record) :
    (parts spec lefts rights).flatMap JoinPart.rights = rights := by
  fun_induction parts spec lefts rights with
  | case1 => rfl
  | case2 left lefts ih => rw [List.flatMap_cons, ih, List.nil_append]
  | case3 right rights ih => rw [List.flatMap_cons, ih, List.singleton_append]
  | case4 left lefts right rights hnull ih
  | case6 left lefts right rights hnull hnull' hlt ih =>
      rw [List.flatMap_cons, ih, List.nil_append]
  | case5 left lefts right rights hnull hnull' ih
  | case7 left lefts right rights hnull hnull' hgt ih =>
      rw [List.flatMap_cons, ih, List.singleton_append]
  | case8 left lefts right rights hnull hnull' heq ih =>
      rw [List.flatMap_cons, ih, List.cons_append, List.takeWhile_append_dropWhile]

theorem lefts_subset_of_mem_parts (h : part ∈ parts spec lefts rights) : part.lefts ⊆ lefts := by
  intro record hrecord
  rw [← flatMap_lefts_parts spec lefts rights]
  exact List.mem_flatMap.2 ⟨part, h, hrecord⟩

theorem rights_subset_of_mem_parts (h : part ∈ parts spec lefts rights) :
    part.rights ⊆ rights := by
  intro record hrecord
  rw [← flatMap_rights_parts spec lefts rights]
  exact List.mem_flatMap.2 ⟨part, h, hrecord⟩

end Members

section Sorted

variable {key : Key} {records : List Record}

/-- The first record of a sorted list is the least. -/
theorem isLE_of_sorted {first : Record}
    (hsorted : (first :: records).Pairwise fun a b => Record.leOn key a b = true) {record : Record}
    (hrecord : record ∈ first :: records) :
    (Record.compare (first.keyValues key) (record.keyValues key)).isLE = true := by
  rcases List.mem_cons.1 hrecord with rfl | hmem
  · rw [Record.compare_eq_iff.2 rfl]
    rfl
  · exact Record.leOn_iff.1 (List.rel_of_pairwise_cons hsorted hmem)

/-- In a sorted list a key that has been left behind does not come again. -/
theorem ne_of_mem_dropWhile {values : List Scalar} {record : Record}
    (hsorted : records.Pairwise fun a b => Record.leOn key a b = true)
    (hle : ∀ r ∈ records, (Record.compare values (r.keyValues key)).isLE = true)
    {p : Record → Bool} (hp : ∀ r, p r = true ↔ r.keyValues key = values)
    (hrecord : record ∈ records.dropWhile p) : record.keyValues key ≠ values := by
  induction records with
  | nil => cases hrecord
  | cons first rest ih =>
      obtain ⟨hfirst, hrest⟩ := List.pairwise_cons.1 hsorted
      obtain ⟨hle', hles⟩ := List.forall_mem_cons.1 hle
      by_cases hpf : p first = true
      · rw [List.dropWhile_cons_of_pos hpf] at hrecord
        exact ih hrest hles hrecord
      · have hne : first.keyValues key ≠ values := fun h => hpf ((hp first).2 h)
        rw [List.dropWhile_cons_of_neg hpf] at hrecord
        rcases List.mem_cons.1 hrecord with rfl | hmem
        · exact hne
        · intro heq
          have hback := Record.leOn_iff.1 (hfirst record hmem)
          rw [heq] at hback
          exact hne (Record.compare_eq_iff.1 (Std.OrientedCmp.isLE_antisymm hback hle'))

end Sorted

/-- The key of a left row that is smaller than the next right one is not in the right input. -/
theorem ne_of_lt {left right : Record} {rights : List Record}
    (hlt : Record.compareOn left spec.leftKey right spec.rightKey = .lt)
    (hrights : (right :: rights).Pairwise fun a b => Record.leOn spec.rightKey a b = true) :
    ∀ other ∈ right :: rights, left.keyValues spec.leftKey ≠ other.keyValues spec.rightKey := by
  intro other hother heq
  have hle := isLE_of_sorted hrights hother
  rw [Record.compareOn_eq_compare, heq] at hlt
  rw [Std.OrientedCmp.gt_of_lt hlt] at hle
  exact Bool.false_ne_true hle

/-- The key of a right row that is smaller than the next left one is not in the left input. -/
theorem ne_of_gt {left right : Record} {lefts : List Record}
    (hgt : Record.compareOn left spec.leftKey right spec.rightKey = .gt)
    (hlefts : (left :: lefts).Pairwise fun a b => Record.leOn spec.leftKey a b = true) :
    ∀ other ∈ left :: lefts, other.keyValues spec.leftKey ≠ right.keyValues spec.rightKey := by
  intro other hother heq
  have hle := isLE_of_sorted hlefts hother
  rw [Record.compareOn_eq_compare, ← heq] at hgt
  rw [hgt] at hle
  exact Bool.false_ne_true hle

section LeadingRun

variable {left right : Record} {lefts rights : List Record}
  (hkey : left.keyValues spec.leftKey = right.keyValues spec.rightKey)

include hkey

theorem keyValues_of_mem_leftRun {l : Record}
    (hl : l ∈ left :: lefts.takeWhile (sameKey spec · right)) :
    l.keyValues spec.leftKey = right.keyValues spec.rightKey := by
  rcases List.mem_cons.1 hl with rfl | hl
  · exact hkey
  · exact sameKey_iff.1 (List.mem_takeWhile_imp (p := (sameKey spec · right)) hl)

theorem keyValues_of_mem_rightRun {r : Record}
    (hr : r ∈ right :: rights.takeWhile (sameKey spec left)) :
    r.keyValues spec.rightKey = right.keyValues spec.rightKey := by
  rcases List.mem_cons.1 hr with rfl | hr
  · rfl
  · exact (sameKey_iff.1 (List.mem_takeWhile_imp hr)).symm.trans hkey

theorem notNull_of_mem_leftRun (hnull : left.hasNullKey spec.leftKey = false) {l : Record}
    (hl : l ∈ left :: lefts.takeWhile (sameKey spec · right)) :
    l.hasNullKey spec.leftKey = false := by
  have hsame : l.keyValues spec.leftKey = left.keyValues spec.leftKey :=
    (keyValues_of_mem_leftRun hkey hl).trans hkey.symm
  rw [Record.hasNullKey_congr hsame]
  exact hnull

/-- Behind the left rows of a run its key does not come again. -/
theorem ne_of_mem_leftRest
    (hlefts : (left :: lefts).Pairwise fun a b => Record.leOn spec.leftKey a b = true) :
    ∀ l ∈ lefts.dropWhile (sameKey spec · right),
      l.keyValues spec.leftKey ≠ right.keyValues spec.rightKey := by
  intro l hl
  refine ne_of_mem_dropWhile hlefts.of_cons (fun r hr => ?_) (fun r => sameKey_iff) hl
  rw [← hkey]
  exact isLE_of_sorted hlefts (List.mem_cons_of_mem _ hr)

/-- Behind the right rows of a run its key does not come again. -/
theorem ne_of_mem_rightRest
    (hrights : (right :: rights).Pairwise fun a b => Record.leOn spec.rightKey a b = true) :
    ∀ r ∈ rights.dropWhile (sameKey spec left),
      r.keyValues spec.rightKey ≠ left.keyValues spec.leftKey := by
  intro r hr
  refine ne_of_mem_dropWhile hrights.of_cons (fun r hr => ?_)
    (fun r => sameKey_iff.trans eq_comm) hr
  rw [hkey]
  exact isLE_of_sorted hrights (List.mem_cons_of_mem _ hr)

end LeadingRun

/-- Within a part all keys match. -/
theorem keysMatch_of_mem_parts {lefts rights : List Record} {part : JoinPart}
    (h : part ∈ parts spec lefts rights) :
    ∀ l ∈ part.lefts, ∀ r ∈ part.rights, spec.keysMatch l r = true := by
  fun_induction parts spec lefts rights with
  | case1 => cases h
  | case2 left lefts ih
  | case4 left lefts right rights hnull ih
  | case6 left lefts right rights hnull hnull' hlt ih =>
      rcases List.mem_cons.1 h with rfl | hrest
      · exact fun _ _ => List.forall_mem_nil _
      · exact ih hrest
  | case3 right rights ih
  | case5 left lefts right rights hnull hnull' ih
  | case7 left lefts right rights hnull hnull' hgt ih =>
      rcases List.mem_cons.1 h with rfl | hrest
      · exact List.forall_mem_nil _
      · exact ih hrest
  | case8 left lefts right rights hnull hnull' heq ih =>
      rcases List.mem_cons.1 h with rfl | hrest
      · have hkey : left.keyValues spec.leftKey = right.keyValues spec.rightKey := by
          rw [Record.compareOn_eq_compare] at heq
          exact Record.compare_eq_iff.1 heq
        intro l hl r hr
        exact JoinSpec.keysMatch_iff.2
          ⟨notNull_of_mem_leftRun hkey (Bool.eq_false_iff.2 hnull) hl,
            (keyValues_of_mem_leftRun hkey hl).trans (keyValues_of_mem_rightRun hkey hr).symm⟩
      · exact ih hrest

section Apart

variable {lefts rights : List Record}

/-- A part is apart from those of the rest if its rows are. -/
theorem apart_of_rest {part : JoinPart}
    (hleft : ∀ l ∈ part.lefts, ∀ r ∈ rights, spec.keysMatch l r = false)
    (hright : ∀ l ∈ lefts, ∀ r ∈ part.rights, spec.keysMatch l r = false) :
    ∀ other ∈ parts spec lefts rights, part.Apart spec other :=
  fun _ hother =>
    ⟨fun l hl r hr => hleft l hl r (rights_subset_of_mem_parts hother hr),
      fun l hl r hr => hright l (lefts_subset_of_mem_parts hother hl) r hr⟩

theorem apart_left {left : Record} (h : ∀ r ∈ rights, spec.keysMatch left r = false) :
    ∀ other ∈ parts spec lefts rights, JoinPart.Apart spec ⟨[left], []⟩ other :=
  apart_of_rest (List.forall_mem_singleton.2 h) fun _ _ => List.forall_mem_nil _

theorem apart_right {right : Record} (h : ∀ l ∈ lefts, spec.keysMatch l right = false) :
    ∀ other ∈ parts spec lefts rights, JoinPart.Apart spec ⟨[], [right]⟩ other :=
  apart_of_rest (List.forall_mem_nil _) fun l hl => List.forall_mem_singleton.2 (h l hl)

/-- No keys of rows of different parts of sorted inputs match. -/
theorem apart_parts
    (hlefts : lefts.Pairwise fun a b => Record.leOn spec.leftKey a b = true)
    (hrights : rights.Pairwise fun a b => Record.leOn spec.rightKey a b = true) :
    (parts spec lefts rights).Pairwise (JoinPart.Apart spec) := by
  have hkeyed := spec.keyed_keysOnly [] []
  fun_induction parts spec lefts rights with
  | case1 => exact .nil
  | case2 left lefts ih =>
      exact List.pairwise_cons.2 ⟨apart_left (List.forall_mem_nil _), ih hlefts.of_cons hrights⟩
  | case3 right rights ih =>
      exact List.pairwise_cons.2 ⟨apart_right (List.forall_mem_nil _), ih hlefts hrights.of_cons⟩
  | case4 left lefts right rights hnull ih =>
      exact List.pairwise_cons.2 ⟨apart_left fun _ _ => hkeyed.eq_false_of_left_null hnull,
        ih hlefts.of_cons hrights⟩
  | case5 left lefts right rights hnull hnull' ih =>
      exact List.pairwise_cons.2 ⟨apart_right fun _ _ => hkeyed.eq_false_of_right_null hnull',
        ih hlefts hrights.of_cons⟩
  | case6 left lefts right rights hnull hnull' hlt ih =>
      exact List.pairwise_cons.2 ⟨apart_left fun other hother =>
        hkeyed.eq_false_of_ne (ne_of_lt hlt hrights other hother), ih hlefts.of_cons hrights⟩
  | case7 left lefts right rights hnull hnull' hgt ih =>
      exact List.pairwise_cons.2 ⟨apart_right fun other hother =>
        hkeyed.eq_false_of_ne (ne_of_gt hgt hlefts other hother), ih hlefts hrights.of_cons⟩
  | case8 left lefts right rights hnull hnull' heq ih =>
      have hkey : left.keyValues spec.leftKey = right.keyValues spec.rightKey := by
        rw [Record.compareOn_eq_compare] at heq
        exact Record.compare_eq_iff.1 heq
      have hleft := ne_of_mem_leftRest hkey hlefts
      have hright := ne_of_mem_rightRest hkey hrights
      refine List.pairwise_cons.2 ⟨apart_of_rest ?_ ?_,
        ih (hlefts.of_cons.sublist (List.dropWhile_sublist _))
          (hrights.of_cons.sublist (List.dropWhile_sublist _))⟩
      · intro l hl r hr
        refine hkeyed.eq_false_of_ne fun h => hright r hr (h.symm.trans ?_)
        exact (keyValues_of_mem_leftRun hkey hl).trans hkey.symm
      · intro l hl r hr
        refine hkeyed.eq_false_of_ne fun h => hleft l hl (h.trans ?_)
        exact keyValues_of_mem_rightRun hkey hr

end Apart

end SortMerge
end ExtentEngine
