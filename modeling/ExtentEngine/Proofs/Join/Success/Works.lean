import ExtentEngine.Proofs.Join.Keyed
import ExtentEngine.Proofs.Join.Success.Tests

/-!
# When a join works

A join of some rows works if its condition can be evaluated on all pairs that it tries and the
output records that it asks for can be computed.

**Results.**
* `JoinOutput.works_append`: inputs that fall into two parts are joined part by part.
* `JoinOutput.works_perm`: the order of the inputs is of no account.
* `JoinOutput.succeedsIff_lefts` and `JoinOutput.succeedsIff_rights`: when the rows without a
  partner can be emitted.
-/

namespace ExtentEngine

open Emission

variable {condition : Predicate} {tried hold hold' : Record → Record → Bool} {out : JoinOutput}
  {lefts rights lefts' rights' : List Record}

namespace JoinOutput

/-- Pairs are asked for in view of the rows that are there only. -/
theorem declared_congr (out : JoinOutput)
    (h : ∀ left ∈ lefts, ∀ right ∈ rights, hold left right = hold' left right) :
    out.declared hold lefts rights = out.declared hold' lefts rights := by
  have hmatches : matchedPairs hold lefts rights = matchedPairs hold' lefts rights :=
    List.flatMap_congr fun left hleft => by rw [List.filter_congr (h left hleft)]
  have hlefts : lonelyLefts hold lefts rights = lonelyLefts hold' lefts rights := by
    refine List.filter_congr fun left hleft => congrArg _ ?_
    rw [Bool.eq_iff_iff, List.any_eq_true, List.any_eq_true]
    exact exists_congr fun right => and_congr_right fun hright => by rw [h left hleft right hright]
  have hrights : lonelyRights hold lefts rights = lonelyRights hold' lefts rights := by
    refine List.filter_congr fun right hright => congrArg _ ?_
    rw [Bool.eq_iff_iff, List.any_eq_true, List.any_eq_true]
    exact exists_congr fun left => and_congr_right fun hleft => by rw [h left hleft right hright]
  rw [declared, declared, declaredMatches, declaredMatches, declaredLefts, declaredLefts,
    declaredRights, declaredRights, hmatches, hlefts, hrights]

theorem forall_declaredLefts {p : Record × Record → Prop} :
    (∀ pair ∈ out.declaredLefts hold lefts rights, p pair) ↔
      (out.method.emitsLeftUnmatched = true →
        ∀ left ∈ lefts, (!rights.any (hold left)) = true → p (left, out.rightNulls)) := by
  rw [declaredLefts]
  cases out.method.emitsLeftUnmatched with
  | false => exact iff_of_true (List.forall_mem_nil _) Bool.false_ne_true.elim
  | true =>
      rw [if_pos rfl, List.forall_mem_map, forall_prop_of_true rfl, lonelyLefts]
      simp only [List.mem_filter, and_imp]

theorem forall_declaredRights {p : Record × Record → Prop} :
    (∀ pair ∈ out.declaredRights hold lefts rights, p pair) ↔
      (out.method.emitsRightUnmatched = true →
        ∀ right ∈ rights, (!lefts.any (hold · right)) = true → p (out.leftNulls, right)) := by
  rw [declaredRights]
  cases out.method.emitsRightUnmatched with
  | false => exact iff_of_true (List.forall_mem_nil _) Bool.false_ne_true.elim
  | true =>
      rw [if_pos rfl, List.forall_mem_map, forall_prop_of_true rfl, lonelyRights]
      simp only [List.mem_filter, and_imp]

/-- Whether the pairs of rows that are tried can be tested, and the matches and the left rows
without a partner be emitted. -/
structure WorksLeft (out : JoinOutput) (condition : Predicate) (tried : Record → Record → Bool)
    (lefts rights : List Record) : Prop where
  evaluates : ∀ left ∈ lefts, ∀ right ∈ rights, tried left right = true →
    condition.Evaluates left right
  projects : ∀ pair ∈ out.declaredMatches (condition.among tried) lefts rights ++
    out.declaredLefts (condition.among tried) lefts rights, out.Projects pair

/-- Whether the pairs of rows that are tried can be tested, and all that is asked for be
emitted. -/
structure Works (out : JoinOutput) (condition : Predicate) (tried : Record → Record → Bool)
    (lefts rights : List Record) : Prop where
  evaluates : ∀ left ∈ lefts, ∀ right ∈ rights, tried left right = true →
    condition.Evaluates left right
  projects : ∀ pair ∈ out.declared (condition.among tried) lefts rights, out.Projects pair

theorem works_iff_worksLeft : out.Works condition tried lefts rights ↔
    out.WorksLeft condition tried lefts rights ∧
      ∀ pair ∈ out.declaredRights (condition.among tried) lefts rights, out.Projects pair := by
  constructor
  · intro h
    obtain ⟨hleft, hright⟩ := List.forall_mem_append.1 h.projects
    exact ⟨⟨h.evaluates, hleft⟩, hright⟩
  · rintro ⟨h, hright⟩
    exact ⟨h.evaluates, List.forall_mem_append.2 ⟨h.projects, hright⟩⟩

/-- The left rows are joined by all tests of a kind and by what is emitted of those without a
partner. -/
theorem worksLeft_iff_of_tries {tests : List PairTest} (h : Tries tried lefts rights tests) :
    out.WorksLeft condition tried lefts rights ↔
      (∀ test ∈ tests, out.Passes condition test) ∧
        ∀ pair ∈ out.declaredLefts (condition.among tried) lefts rights, out.Projects pair := by
  rw [h.passes_iff]
  constructor
  · intro hworks
    obtain ⟨hmatches, hlefts⟩ := List.forall_mem_append.1 hworks.projects
    exact ⟨⟨hworks.evaluates, hmatches⟩, hlefts⟩
  · rintro ⟨⟨hevaluates, hmatches⟩, hlefts⟩
    exact ⟨hevaluates, List.forall_mem_append.2 ⟨hmatches, hlefts⟩⟩

/-- Pairs are tried in view of the rows that are there only. -/
theorem works_congr {tried' : Record → Record → Bool}
    (h : ∀ left ∈ lefts, ∀ right ∈ rights, tried left right = tried' left right) :
    out.Works condition tried lefts rights ↔ out.Works condition tried' lefts rights := by
  have hdeclared : out.declared (condition.among tried) lefts rights =
      out.declared (condition.among tried') lefts rights :=
    out.declared_congr fun left hleft right hright => by
      rw [Predicate.among, Predicate.among, h left hleft right hright]
  have hevaluates : (∀ left ∈ lefts, ∀ right ∈ rights, tried left right = true →
        condition.Evaluates left right) ↔
      ∀ left ∈ lefts, ∀ right ∈ rights, tried' left right = true →
        condition.Evaluates left right :=
    forall₂_congr fun left hleft => forall₂_congr fun right hright => by
      rw [h left hleft right hright]
  constructor
  · exact fun hworks => ⟨hevaluates.1 hworks.evaluates, hdeclared ▸ hworks.projects⟩
  · exact fun hworks => ⟨hevaluates.2 hworks.evaluates, hdeclared.symm ▸ hworks.projects⟩

theorem worksLeft_nil : out.WorksLeft condition tried [] rights where
  evaluates := List.forall_mem_nil _
  projects := by
    rw [declaredMatches, declaredLefts]
    split <;> split <;> exact List.forall_mem_nil _

theorem worksLeft_append : out.WorksLeft condition tried (lefts ++ lefts') rights ↔
    out.WorksLeft condition tried lefts rights ∧ out.WorksLeft condition tried lefts' rights := by
  have hmatches := @out.declaredMatches_append_left (condition.among tried) lefts lefts' rights
  have hlefts := @out.declaredLefts_append_left (condition.among tried) lefts lefts' rights
  constructor
  · intro h
    have hprojects := h.projects
    obtain ⟨hevaluates, hevaluates'⟩ := List.forall_mem_append.1 h.evaluates
    simp only [hmatches, hlefts, List.forall_mem_append] at hprojects
    obtain ⟨⟨hmatch, hmatch'⟩, hlonely, hlonely'⟩ := hprojects
    exact ⟨⟨hevaluates, List.forall_mem_append.2 ⟨hmatch, hlonely⟩⟩,
      ⟨hevaluates', List.forall_mem_append.2 ⟨hmatch', hlonely'⟩⟩⟩
  · rintro ⟨h, h'⟩
    obtain ⟨hmatch, hlonely⟩ := List.forall_mem_append.1 h.projects
    obtain ⟨hmatch', hlonely'⟩ := List.forall_mem_append.1 h'.projects
    refine ⟨List.forall_mem_append.2 ⟨h.evaluates, h'.evaluates⟩, ?_⟩
    simp only [hmatches, hlefts, List.forall_mem_append]
    exact ⟨⟨hmatch, hmatch'⟩, hlonely, hlonely'⟩

/-- Inputs that fall into two parts are joined part by part. -/
theorem works_append (hapart : ∀ left ∈ lefts, ∀ right ∈ rights', tried left right = false)
    (hapart' : ∀ left ∈ lefts', ∀ right ∈ rights, tried left right = false) :
    out.Works condition tried (lefts ++ lefts') (rights ++ rights') ↔
      out.Works condition tried lefts rights ∧ out.Works condition tried lefts' rights' := by
  have hnone : ∀ left right, tried left right = false →
      condition.among tried left right = false := by
    intro left right h
    rw [Predicate.among, h, Bool.false_and]
  have hdeclared := @declared_append (condition.among tried) lefts rights lefts' rights'
    (fun left hleft right hright => hnone left right (hapart left hleft right hright))
    (fun left hleft right hright => hnone left right (hapart' left hleft right hright)) out
  constructor
  · intro h
    obtain ⟨hprojects, hprojects'⟩ := List.forall_mem_append.1 fun pair hpair =>
      h.projects pair (hdeclared.mem_iff.2 hpair)
    exact ⟨⟨fun left hleft right hright => h.evaluates left (List.mem_append_left _ hleft) right
        (List.mem_append_left _ hright), hprojects⟩,
      ⟨fun left hleft right hright => h.evaluates left (List.mem_append_right _ hleft) right
        (List.mem_append_right _ hright), hprojects'⟩⟩
  · rintro ⟨h, h'⟩
    refine ⟨fun left hleft right hright htried => ?_, fun pair hpair => ?_⟩
    · rcases List.mem_append.1 hleft with hleft | hleft
      · rcases List.mem_append.1 hright with hright | hright
        · exact h.evaluates left hleft right hright htried
        · rw [hapart left hleft right hright] at htried
          exact absurd htried Bool.false_ne_true
      · rcases List.mem_append.1 hright with hright | hright
        · rw [hapart' left hleft right hright] at htried
          exact absurd htried Bool.false_ne_true
        · exact h'.evaluates left hleft right hright htried
    · exact List.forall_mem_append.2 ⟨h.projects, h'.projects⟩ pair (hdeclared.mem_iff.1 hpair)

/-- The order of the inputs is of no account. -/
theorem works_perm (hlefts : lefts.Perm lefts') (hrights : rights.Perm rights') :
    out.Works condition tried lefts rights ↔ out.Works condition tried lefts' rights' := by
  have hdeclared := @declared_perm (condition.among tried) lefts rights lefts' rights' hlefts
    hrights out
  constructor
  · intro h
    exact ⟨fun left hleft right hright => h.evaluates left (hlefts.mem_iff.2 hleft) right
      (hrights.mem_iff.2 hright), fun pair hpair => h.projects pair (hdeclared.mem_iff.2 hpair)⟩
  · intro h
    exact ⟨fun left hleft right hright => h.evaluates left (hlefts.mem_iff.1 hleft) right
      (hrights.mem_iff.1 hright), fun pair hpair => h.projects pair (hdeclared.mem_iff.1 hpair)⟩

end JoinOutput

section Unmatched

variable {emitRow : Record → Emission Unit} {ok : Record → Prop} {lonely : Record → Bool}

/-- Rows without a partner can be emitted if every one of them can. -/
theorem succeedsIff_emitUnmatched (flags : MatchFlags) (extents : List Extent)
    (h : ∀ record ∈ extents.flatten, (emitRow record).SucceedsIff (ok record) ()) :
    (emitUnmatched emitRow (flags ++ extents.flatten.map fun record => !lonely record)
      flags.length extents).SucceedsIff
      (∀ record ∈ extents.flatten, lonely record = true → ok record) () := by
  rw [emitUnmatched_eq]
  exact (SucceedsIff.forEach fun record hrecord => h record (List.mem_filter.1 hrecord).1).congr
    List.forall_mem_filter

end Unmatched

namespace JoinOutput

/-- When the left rows without a partner can be emitted at the end. -/
theorem succeedsIff_lefts (out : JoinOutput) (hold : Record → Record → Bool)
    (extents : List Extent) (rights : List Record) :
    (if out.method.emitsLeftUnmatched then
      emitUnmatched out.leftUnmatched
        (extents.flatten.map fun left => false || rights.any (hold left)) 0 extents
      else pure ()).SucceedsIff
      (∀ pair ∈ out.declaredLefts hold extents.flatten rights, out.Projects pair) () := by
  have hite := SucceedsIff.ite fun hemits => by
    have hrow : ∀ record ∈ extents.flatten,
        (out.leftUnmatched record).SucceedsIff (out.Projects (record, out.rightNulls)) () := by
      intro record _
      rw [leftUnmatched, if_pos hemits]
      exact out.succeedsIff_pair record out.rightNulls
    exact @succeedsIff_emitUnmatched _ _ (fun left => !rights.any (hold left)) [] extents hrow
  simp only [Bool.not_not, List.nil_append, List.length_nil] at hite
  simp only [Bool.false_or]
  exact hite.congr forall_declaredLefts.symm

/-- When the right rows without a partner can be emitted at the end. -/
theorem succeedsIff_rights (out : JoinOutput) (hold : Record → Record → Bool)
    (lefts : List Record) (extents : List Extent) :
    (if out.method.emitsRightUnmatched then
      emitUnmatched out.rightUnmatched
        (extents.flatten.map fun right => false || lefts.any (hold · right)) 0 extents
      else pure ()).SucceedsIff
      (∀ pair ∈ out.declaredRights hold lefts extents.flatten, out.Projects pair) () := by
  have hite := SucceedsIff.ite fun hemits => by
    have hrow : ∀ record ∈ extents.flatten,
        (out.rightUnmatched record).SucceedsIff (out.Projects (out.leftNulls, record)) () := by
      intro record _
      rw [rightUnmatched, if_pos hemits]
      exact out.succeedsIff_pair out.leftNulls record
    exact @succeedsIff_emitUnmatched _ _ (fun right => !lefts.any (hold · right)) [] extents hrow
  simp only [Bool.not_not, List.nil_append, List.length_nil] at hite
  simp only [Bool.false_or]
  exact hite.congr forall_declaredRights.symm

end JoinOutput
end ExtentEngine
