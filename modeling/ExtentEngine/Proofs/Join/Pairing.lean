import ExtentEngine.Join.Pairing
import ExtentEngine.Proofs.Dataset.Emission
import ExtentEngine.Proofs.Join.Declared
import ExtentEngine.Proofs.Join.MatchFlags

/-!
# Tests of pairs

Each join algorithm tests pairs of rows, a list of them in the end, and what the tests find
depends on the list alone.  An algorithm is right if its tests cover the pairs that match:
those that it leaves out would not have matched, and none is made twice.

**Results.**
* `foldlM_tested`: tests that are made in portions are one list of tests.
* `after_of_covers`: which flags are set by tests that cover the pairs that match.
* `emitUnmatched_eq`: the rows whose flags are not set are emitted.
-/

namespace ExtentEngine

/-- An input with the lengths that its extents have. -/
def JoinSide.ofExtents (extents : List Extent) : JoinSide := ⟨extents, extents.map List.length⟩

theorem JoinSide.recordCount_ofExtents (extents : List Extent) :
    (ofExtents extents).recordCount = extents.flatten.length :=
  List.length_flatten.symm

/-- A test of a pair of rows, with the positions of their flags. -/
structure PairTest where
  left : Record
  right : Record
  leftRow : Nat
  rightRow : Nat
deriving DecidableEq, Repr

/-- The tests of all pairs of rows, the first rows' flags being at the given positions. -/
def grid (firstLeft firstRight : Nat) (lefts rights : List Record) : List PairTest :=
  (lefts.zipIdx firstLeft).flatMap fun (left, leftRow) =>
    (rights.zipIdx firstRight).map fun (right, rightRow) => ⟨left, right, leftRow, rightRow⟩

variable {hold : Record → Record → Bool} {row : Record × Record → Record} {out : JoinOutput}

namespace PairTest

def holds (hold : Record → Record → Bool) (test : PairTest) : Bool := hold test.left test.right

def pair (test : PairTest) : Record × Record := (test.left, test.right)

end PairTest

namespace MatchFlags

theorem cleared_length (rows : List Record) : cleared rows.length = rows.map fun _ => false :=
  List.map_const'.symm

/-- The flags with those of some rows set. -/
def setAll (flags : MatchFlags) (rows : List Nat) : MatchFlags :=
  rows.foldl (fun flags row => flags.set row true) flags

@[simp]
theorem length_setAll (flags : MatchFlags) (rows : List Nat) :
    (flags.setAll rows).length = flags.length := by
  induction rows generalizing flags with
  | nil => rfl
  | cons row rows ih => exact (ih (flags.set row true)).trans List.length_set

theorem getElem?_setAll (flags : MatchFlags) (rows : List Nat) (i : Nat) :
    (flags.setAll rows)[i]? = flags[i]?.map (· || rows.contains i) := by
  induction rows generalizing flags with
  | nil => simp [setAll]
  | cons row rows ih =>
      have hcons : flags.setAll (row :: rows) = setAll (flags.set row true) rows := rfl
      rw [hcons, ih, List.getElem?_set, List.contains_cons]
      by_cases hi : row = i
      · subst hi
        rcases Nat.lt_or_ge row flags.length with hlt | hge
        · simp [hlt]
        · simp [Nat.not_lt.2 hge]
      · simp [hi, beq_false_of_ne (Ne.symm hi)]

end MatchFlags

namespace PairFlags

/-- The flags after some tests. -/
def after (hold : Record → Record → Bool) (flags : PairFlags) (tests : List PairTest) : PairFlags :=
  let found := tests.filter (PairTest.holds hold)
  ⟨flags.left.setAll (found.map PairTest.leftRow), flags.right.setAll (found.map PairTest.rightRow)⟩

theorem after_append (flags : PairFlags) (first last : List PairTest) :
    flags.after hold (first ++ last) = (flags.after hold first).after hold last := by
  simp only [after, MatchFlags.setAll, List.filter_append, List.map_append, List.foldl_append]

/-- There are flags for so many rows. -/
def Fits (lefts rights : Nat) (flags : PairFlags) : Prop :=
  flags.left.length = lefts ∧ flags.right.length = rights

theorem Fits.of_maps (f g : Record → Bool) (lefts rights : List Record) :
    Fits lefts.length rights.length ⟨lefts.map f, rights.map g⟩ :=
  ⟨List.length_map _, List.length_map _⟩

theorem Fits.after {lefts rights : Nat} {flags : PairFlags} (h : flags.Fits lefts rights)
    (hold : Record → Record → Bool) (tests : List PairTest) :
    (flags.after hold tests).Fits lefts rights :=
  ⟨(MatchFlags.length_setAll _ _).trans h.1, (MatchFlags.length_setAll _ _).trans h.2⟩

end PairFlags

namespace JoinOutput

/-- The records of the pairs that tests find. -/
def found (out : JoinOutput) (hold : Record → Record → Bool) (row : Record × Record → Record)
    (tests : List PairTest) : List Record :=
  if out.method.emitsMatches then (tests.filter (PairTest.holds hold)).map (row ∘ PairTest.pair)
  else []

/-- What tests come to. -/
def tested (out : JoinOutput) (hold : Record → Record → Bool) (row : Record × Record → Record)
    (flags : PairFlags) (tests : List PairTest) : Emission PairFlags :=
  ⟨out.found hold row tests, .ok (flags.after hold tests)⟩

theorem found_append (first last : List PairTest) :
    out.found hold row (first ++ last) = out.found hold row first ++ out.found hold row last := by
  rw [found, found, found]
  split
  · rw [List.filter_append, List.map_append]
  · rfl

theorem tested_append (flags : PairFlags) (first last : List PairTest) :
    out.tested hold row flags (first ++ last) =
      out.tested hold row flags first >>= fun flags => out.tested hold row flags last := by
  rw [tested, found_append, PairFlags.after_append]
  rfl

/-- The output records of some pairs can be computed. -/
def Renders (out : JoinOutput) (row : Record × Record → Record) (pairs : List (Record × Record)) :
    Prop :=
  ∀ pair ∈ pairs, out.pair pair.1 pair.2 = ⟨[row pair], .ok ()⟩

theorem Renders.mono {pairs pairs' : List (Record × Record)} (h : out.Renders row pairs)
    (hsubset : pairs' ⊆ pairs) : out.Renders row pairs' :=
  fun pair hpair => h pair (hsubset hpair)

/-- The test of a pair can be made: the condition can be evaluated, and so can the projection if
the pair is emitted, and the rows have flags. -/
structure Testable (out : JoinOutput) (condition : Predicate) (hold : Record → Record → Bool)
    (row : Record × Record → Record) (lefts rights : Nat) (test : PairTest) : Prop where
  condition : condition.holds (.ofPair test.left test.right) = .ok (test.holds hold)
  pair : out.method.emitsMatches = true → test.holds hold = true →
    out.pair test.left test.right = ⟨[row test.pair], .ok ()⟩
  left : test.leftRow < lefts
  right : test.rightRow < rights

theorem test_eq {condition : Predicate} {lefts rights : Nat} {test : PairTest} {flags : PairFlags}
    (h : out.Testable condition hold row lefts rights test) (hflags : flags.Fits lefts rights) :
    out.test condition test.left test.right test.leftRow test.rightRow flags =
      out.tested hold row flags [test] := by
  have hleft : test.leftRow < flags.left.length := hflags.1.symm ▸ h.left
  have hright : test.rightRow < flags.right.length := hflags.2.symm ▸ h.right
  have hmark : flags.mark test.leftRow test.rightRow =
      .ok ⟨flags.left.set test.leftRow true, flags.right.set test.rightRow true⟩ := by
    rw [PairFlags.mark, MatchFlags.mark, MatchFlags.mark, if_pos hleft, if_pos hright]
    rfl
  rw [JoinOutput.test, h.condition, tested, found, PairFlags.after]
  cases hholds : test.holds hold with
  | false =>
      rw [List.filter_cons_of_neg (by rw [hholds]; exact Bool.false_ne_true)]
      split <;> rfl
  | true =>
      rw [List.filter_cons_of_pos hholds, hmark, matched]
      split
      · next hemits =>
          rw [h.pair hemits hholds]
          rfl
      · rfl

/-- Tests that are made in portions are one list of tests. -/
theorem foldlM_tested {β : Type} {step : PairFlags → β → Emission PairFlags}
    {portion : β → List PairTest} {lefts rights : Nat} {items : List β}
    (h : ∀ item ∈ items, ∀ flags : PairFlags, flags.Fits lefts rights →
      step flags item = out.tested hold row flags (portion item))
    {flags : PairFlags} (hflags : flags.Fits lefts rights) :
    items.foldlM step flags = out.tested hold row flags (items.flatMap portion) := by
  induction items generalizing flags with
  | nil =>
      rw [List.foldlM_nil, List.flatMap_nil, tested, found]
      split <;> rfl
  | cons item items ih =>
      obtain ⟨hitem, hitems⟩ := List.forall_mem_cons.1 h
      rw [List.foldlM_cons, List.flatMap_cons, tested_append, hitem flags hflags]
      have hrest := ih hitems (hflags.after hold (portion item))
      simp only [bind, tested] at hrest ⊢
      rw [hrest]

end JoinOutput

section Covers

variable {lefts rights : List Record} {tests : List PairTest}

theorem mem_grid {test : PairTest} :
    test ∈ grid 0 0 lefts rights ↔
      lefts[test.leftRow]? = some test.left ∧ rights[test.rightRow]? = some test.right := by
  simp only [grid, List.mem_flatMap, List.mem_map, Prod.exists, List.mem_zipIdx_iff_getElem?]
  constructor
  · rintro ⟨left, i, hleft, right, j, hright, rfl⟩
    exact ⟨hleft, hright⟩
  · rintro ⟨hleft, hright⟩
    exact ⟨_, _, hleft, _, _, hright, rfl⟩

/-- The pairs that match in a grid. -/
theorem filter_grid (firstLeft firstRight : Nat) :
    ((grid firstLeft firstRight lefts rights).filter (PairTest.holds hold)).map PairTest.pair =
      matchedPairs hold lefts rights := by
  have hrow : ∀ left leftRow, ((((rights.zipIdx firstRight).map fun (right, rightRow) =>
      (⟨left, right, leftRow, rightRow⟩ : PairTest)).filter (PairTest.holds hold)).map
        PairTest.pair) = (rights.filter (hold left)).map (left, ·) := by
    intro left leftRow
    conv_rhs => rw [← List.zipIdx_map_fst firstRight rights, List.filter_map, List.map_map]
    rw [List.filter_map, List.map_map]
    rfl
  conv_rhs => rw [matchedPairs, ← List.zipIdx_map_fst firstLeft lefts, List.flatMap_map]
  rw [grid, List.filter_flatMap, List.map_flatMap]
  exact List.flatMap_congr fun item _ => hrow item.1 item.2

/-- The tests that hold are those of the pairs that match. -/
def Covers (hold : Record → Record → Bool) (lefts rights : List Record) (tests : List PairTest) :
    Prop :=
  (tests.filter (PairTest.holds hold)).Perm
    ((grid 0 0 lefts rights).filter (PairTest.holds hold))

theorem getElem?_left_of_covers (h : Covers hold lefts rights tests) {i : Nat} {left : Record}
    (hleft : lefts[i]? = some left) :
    ((tests.filter (PairTest.holds hold)).map PairTest.leftRow).contains i =
      rights.any (hold left) := by
  rw [Bool.eq_iff_iff, List.contains_iff_mem, List.any_eq_true, (h.map _).mem_iff, List.mem_map]
  constructor
  · rintro ⟨test, htest, rfl⟩
    obtain ⟨hmem, hholds⟩ := List.mem_filter.1 htest
    obtain ⟨hl, hr⟩ := mem_grid.1 hmem
    rw [hleft] at hl
    refine ⟨test.right, List.mem_of_getElem? hr, ?_⟩
    rw [Option.some.inj hl]
    exact hholds
  · rintro ⟨right, hright, hholds⟩
    obtain ⟨j, hj⟩ := List.mem_iff_getElem?.1 hright
    exact ⟨⟨left, right, i, j⟩, List.mem_filter.2 ⟨mem_grid.2 ⟨hleft, hj⟩, hholds⟩, rfl⟩

theorem getElem?_right_of_covers (h : Covers hold lefts rights tests) {j : Nat} {right : Record}
    (hright : rights[j]? = some right) :
    ((tests.filter (PairTest.holds hold)).map PairTest.rightRow).contains j =
      lefts.any (hold · right) := by
  rw [Bool.eq_iff_iff, List.contains_iff_mem, List.any_eq_true, (h.map _).mem_iff, List.mem_map]
  constructor
  · rintro ⟨test, htest, rfl⟩
    obtain ⟨hmem, hholds⟩ := List.mem_filter.1 htest
    obtain ⟨hl, hr⟩ := mem_grid.1 hmem
    rw [hright] at hr
    refine ⟨test.left, List.mem_of_getElem? hl, ?_⟩
    rw [Option.some.inj hr]
    exact hholds
  · rintro ⟨left, hleft, hholds⟩
    obtain ⟨i, hi⟩ := List.mem_iff_getElem?.1 hleft
    exact ⟨⟨left, right, i, j⟩, List.mem_filter.2 ⟨mem_grid.2 ⟨hi, hright⟩, hholds⟩, rfl⟩

/-- Tests that cover the pairs that match set the flags of the rows with a partner. -/
theorem after_of_covers (h : Covers hold lefts rights tests) (f g : Record → Bool) :
    PairFlags.after hold ⟨lefts.map f, rights.map g⟩ tests =
      ⟨lefts.map fun left => f left || rights.any (hold left),
        rights.map fun right => g right || lefts.any (hold · right)⟩ := by
  rw [PairFlags.after, PairFlags.mk.injEq]
  constructor
  · refine List.ext_getElem? fun i => ?_
    rw [MatchFlags.getElem?_setAll, List.getElem?_map, List.getElem?_map]
    cases hi : lefts[i]? with
    | none => rfl
    | some left =>
        rw [getElem?_left_of_covers h hi]
        rfl
  · refine List.ext_getElem? fun j => ?_
    rw [MatchFlags.getElem?_setAll, List.getElem?_map, List.getElem?_map]
    cases hj : rights[j]? with
    | none => rfl
    | some right =>
        rw [getElem?_right_of_covers h hj]
        rfl

end Covers

section Unmatched

variable {emitRow : Record → Emission Unit} {lonely : Record → Bool}

/-- The rows of an extent whose flags are not set, from some row on. -/
theorem forEach_positions (before rest : Extent) :
    Emission.forEach (fun i => do
        let record ← .ofAttempt (rowAt (before ++ rest) i)
        emitRow record) (positions false before.length (rest.map fun record => !lonely record)) =
      Emission.forEach emitRow (rest.filter lonely) := by
  induction rest generalizing before with
  | nil => rfl
  | cons record rest ih =>
      have hnext := ih (before ++ [record])
      rw [List.length_append, List.length_singleton, List.append_assoc, List.singleton_append]
        at hnext
      rw [List.map_cons, positions]
      cases hlonely : lonely record with
      | false =>
          rw [List.filter_cons_of_neg (by rw [hlonely]; exact Bool.false_ne_true)]
          exact hnext
      | true =>
          have hat : rowAt (before ++ record :: rest) before.length = .ok record := by
            rw [rowAt, List.getElem?_append_right (Nat.le_refl _), Nat.sub_self]
            rfl
          rw [List.filter_cons_of_pos hlonely, Bool.not_true, if_pos rfl, Emission.forEach, hat,
            hnext, Emission.bind_ofAttempt_ok, Emission.forEach]

/-- The rows whose flags are not set are emitted. -/
theorem emitUnmatched_eq (flags : MatchFlags) (extents : List Extent) :
    emitUnmatched emitRow (flags ++ extents.flatten.map fun record => !lonely record)
      flags.length extents = Emission.forEach emitRow (extents.flatten.filter lonely) := by
  induction extents generalizing flags with
  | nil => rfl
  | cons extent extents ih =>
      have hrest := ih (flags ++ extent.map fun record => !lonely record)
      rw [List.length_append, List.length_map] at hrest
      have hscan := MatchFlags.unmatched_append flags (extent.map fun record => !lonely record)
        (extents.flatten.map fun record => !lonely record)
      rw [List.length_map] at hscan
      have hrows := @forEach_positions emitRow lonely [] extent
      rw [List.nil_append, List.length_nil] at hrows
      rw [emitUnmatched, List.flatten_cons, List.map_append, ← List.append_assoc, hscan, hrest,
        Emission.bind_ofAttempt_ok, MatchScan.toList_start, Emission.bind_ofAttempt_ok, hrows,
        List.filter_append, Emission.forEach_append]

/-- The rows whose flags are not set are emitted if they can be. -/
theorem emitUnmatched_emitted {output : Record → Record} {extents : List Extent}
    (flags : MatchFlags) (h : ∀ record ∈ extents.flatten, lonely record = true →
      emitRow record = ⟨[output record], .ok ()⟩) :
    emitUnmatched emitRow (flags ++ extents.flatten.map fun record => !lonely record)
      flags.length extents = ⟨(extents.flatten.filter lonely).map output, .ok ()⟩ := by
  have hemit : ∀ record ∈ extents.flatten.filter lonely,
      emitRow record = ⟨[output record], .ok ()⟩ := List.forall_mem_filter.2 h
  rw [emitUnmatched_eq, Emission.forEach_emitted hemit, List.map_eq_flatMap]

end Unmatched

namespace JoinOutput

/-- The output records of all pairs, and of all rows without a partner, can be computed. -/
structure Computes (out : JoinOutput) (row : Record × Record → Record)
    (lefts rights : List Record) : Prop where
  pair : ∀ left ∈ lefts, ∀ right ∈ rights, out.pair left right = ⟨[row (left, right)], .ok ()⟩
  left : ∀ left ∈ lefts, out.pair left out.rightNulls = ⟨[row (left, out.rightNulls)], .ok ()⟩
  right : ∀ right ∈ rights, out.pair out.leftNulls right = ⟨[row (out.leftNulls, right)], .ok ()⟩

/-- All that is asked for can be computed if all pairs of rows can, and all rows by themselves. -/
theorem Computes.renders {lefts rights : List Record} (h : out.Computes row lefts rights) :
    out.Renders row (out.declared hold lefts rights) := by
  intro pair hpair
  rcases List.mem_append.1 hpair with hpair | hpair
  · rcases List.mem_append.1 hpair with hpair | hpair
    · obtain ⟨hl, hr⟩ := mem_of_mem_declaredMatches hpair
      exact h.pair _ hl _ hr
    · obtain ⟨left, hl, rfl⟩ := mem_of_mem_declaredLefts hpair
      exact h.left left hl
  · obtain ⟨right, hr, rfl⟩ := mem_of_mem_declaredRights hpair
    exact h.right right hr

/-- The left rows without a partner are emitted at the end, if the method emits them. -/
theorem emitUnmatched_lefts {rights : List Record} {extents : List Extent}
    (h : out.Renders row (out.declaredLefts hold extents.flatten rights)) :
    (if out.method.emitsLeftUnmatched then
      emitUnmatched out.leftUnmatched
        (extents.flatten.map fun left => false || rights.any (hold left)) 0 extents
      else pure ()) =
      ⟨(out.declaredLefts hold extents.flatten rights).map row, .ok ()⟩ := by
  rw [declaredLefts] at h ⊢
  cases hemits : out.method.emitsLeftUnmatched with
  | false => rfl
  | true =>
      rw [if_pos hemits] at h
      have hemit : ∀ record ∈ extents.flatten, (!rights.any (hold record)) = true →
          out.leftUnmatched record = ⟨[row (record, out.rightNulls)], .ok ()⟩ := by
        intro record hrecord hlonely
        rw [leftUnmatched, if_pos hemits]
        exact h _ (List.mem_map_of_mem (List.mem_filter.2 ⟨hrecord, hlonely⟩))
      have heq := @emitUnmatched_emitted _ (fun left => !rights.any (hold left))
        (fun left => row (left, out.rightNulls)) extents [] hemit
      simp only [Bool.not_not, List.nil_append, List.length_nil] at heq
      simp only [Bool.false_or, if_true, heq, lonelyLefts, List.map_map]
      rfl

/-- The right rows without a partner are emitted at the end, if the method emits them. -/
theorem emitUnmatched_rights {lefts : List Record} {extents : List Extent}
    (h : out.Renders row (out.declaredRights hold lefts extents.flatten)) :
    (if out.method.emitsRightUnmatched then
      emitUnmatched out.rightUnmatched
        (extents.flatten.map fun right => false || lefts.any (hold · right)) 0 extents
      else pure ()) =
      ⟨(out.declaredRights hold lefts extents.flatten).map row, .ok ()⟩ := by
  rw [declaredRights] at h ⊢
  cases hemits : out.method.emitsRightUnmatched with
  | false => rfl
  | true =>
      rw [if_pos hemits] at h
      have hemit : ∀ record ∈ extents.flatten, (!lefts.any (hold · record)) = true →
          out.rightUnmatched record = ⟨[row (out.leftNulls, record)], .ok ()⟩ := by
        intro record hrecord hlonely
        rw [rightUnmatched, if_pos hemits]
        exact h _ (List.mem_map_of_mem (List.mem_filter.2 ⟨hrecord, hlonely⟩))
      have heq := @emitUnmatched_emitted _ (fun right => !lefts.any (hold · right))
        (fun right => row (out.leftNulls, right)) extents [] hemit
      simp only [Bool.not_not, List.nil_append, List.length_nil] at heq
      simp only [Bool.false_or, if_true, heq, lonelyRights, List.map_map]
      rfl

/-- The emission of the join of some rows, in whatever order. -/
def EmitsJoin (out : JoinOutput) (hold : Record → Record → Bool) (row : Record × Record → Record)
    (lefts rights : List Record) (emission : Emission Unit) : Prop :=
  ∃ rows, emission = ⟨rows, .ok ()⟩ ∧ rows.Perm ((out.declared hold lefts rights).map row)

end JoinOutput
end ExtentEngine
