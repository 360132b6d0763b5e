import ExtentEngine.Proofs.Aggregate.Conforming

/-!
# The groups of a key

A key may have groups in several places.  Merged in turn, the accumulators of the first one are
merged into those of the second one, what that makes into those of the third one, and so on.  The
order matters where totals are floating-point numbers.

**Results.**
* `mergedAt_append_congr`: what comes of the groups of a key depends on what comes of the first few.
* `mergedAt_of_mem`: the group of a key that has no other is what comes of it.
-/

namespace ExtentEngine

/-- Merges accumulators, if there are any, into others. -/
def Accumulator.mergeNext (merged : Option (List Accumulator)) (next : List Accumulator) :
    Attempt (Option (List Accumulator)) :=
  match merged with
  | none => .ok (some next)
  | some states =>
    match (mergeAll states).run next with
    | (.ok (), merged) => .ok (some merged)
    | (.error fault, _) => .error fault

namespace Groups

/-- The accumulators of each group of a key. -/
def statesAt (key : List Scalar) (groups : List Group) : List (List Accumulator) :=
  (groups.filter fun group => decide (group.key = key)).map Group.states

/-- What the groups of a key come to when they are merged in turn, the first into the second and so
on. -/
def mergedAt (key : List Scalar) (groups : List Group) : Attempt (Option (List Accumulator)) :=
  (statesAt key groups).foldlM Accumulator.mergeNext none

variable {key : List Scalar} {group : Group} {groups others later : List Group}
  {states merged : List Accumulator}

theorem statesAt_append (key : List Scalar) (groups later : List Group) :
    statesAt key (groups ++ later) = statesAt key groups ++ statesAt key later := by
  rw [statesAt, List.filter_append, List.map_append, statesAt, statesAt]

theorem statesAt_cons_self (group : Group) (groups : List Group) :
    statesAt group.key (group :: groups) = group.states :: statesAt group.key groups := by
  have hself : decide (group.key = group.key) = true := decide_eq_true rfl
  rw [statesAt, List.filter_cons, if_pos hself, List.map_cons, statesAt]

theorem statesAt_cons_of_ne (h : group.key ≠ key) (groups : List Group) :
    statesAt key (group :: groups) = statesAt key groups := by
  rw [statesAt, List.filter_cons_of_neg (by simpa using h), statesAt]

theorem statesAt_of_notMem (h : key ∉ keys groups) : statesAt key groups = [] := by
  have hnone : groups.filter (fun group => decide (group.key = key)) = [] := by
    refine List.filter_eq_nil_iff.2 fun group hgroup hkey => h ?_
    exact of_decide_eq_true hkey ▸ List.mem_map_of_mem hgroup
  rw [statesAt, hnone, List.map_nil]

/-- Leaving out groups of other keys makes no difference. -/
theorem statesAt_filter {p : List Scalar → Bool} (h : p key = true) :
    statesAt key (groups.filter fun group => p group.key) = statesAt key groups := by
  rw [statesAt, List.filter_filter, statesAt]
  congr 1
  refine List.filter_congr fun group _ => ?_
  by_cases hkey : group.key = key
  · rw [hkey, h, Bool.and_true]
  · simp [hkey]

/-- A key that no two groups have. -/
theorem statesAt_of_get? (hnodup : (keys groups).Nodup) (h : get? groups key = some states) :
    statesAt key groups = [states] := by
  induction groups with
  | nil => cases h
  | cons group groups ih =>
      obtain ⟨hnot, hnodup⟩ := List.nodup_cons.1 hnodup
      rw [get?_cons] at h
      by_cases hkey : group.key = key
      · rw [if_pos hkey] at h
        cases h
        subst hkey
        rw [statesAt_cons_self, statesAt_of_notMem hnot]
      · rw [if_neg hkey] at h
        rw [statesAt_cons_of_ne hkey, ih hnodup h]

theorem statesAt_of_mem (hnodup : (keys groups).Nodup) (h : group ∈ groups) :
    statesAt group.key groups = [group.states] := by
  induction groups with
  | nil => cases h
  | cons other groups ih =>
      obtain ⟨hnot, hnodup⟩ := List.nodup_cons.1 hnodup
      rcases List.mem_cons.1 h with rfl | hmem
      · rw [statesAt_cons_self, statesAt_of_notMem hnot]
      · have hkey : other.key ≠ group.key := fun heq => hnot (heq ▸ List.mem_map_of_mem hmem)
        rw [statesAt_cons_of_ne hkey, ih hnodup hmem]

theorem mergedAt_congr (h : statesAt key groups = statesAt key others) :
    mergedAt key groups = mergedAt key others := by
  rw [mergedAt, h, mergedAt]

theorem mergedAt_append (key : List Scalar) (groups later : List Group) :
    mergedAt key (groups ++ later) =
      mergedAt key groups >>= fun merged =>
        (statesAt key later).foldlM Accumulator.mergeNext merged := by
  rw [mergedAt, statesAt_append, List.foldlM_append, mergedAt]

/-- What comes of the groups of a key depends on what comes of the first few. -/
theorem mergedAt_append_congr (h : mergedAt key groups = mergedAt key others)
    (later : List Group) : mergedAt key (groups ++ later) = mergedAt key (others ++ later) := by
  rw [mergedAt_append, h, mergedAt_append]

theorem mergedAt_of_mem (hnodup : (keys groups).Nodup) (h : group ∈ groups) :
    mergedAt group.key groups = .ok (some group.states) := by
  rw [mergedAt, statesAt_of_mem hnodup h]
  rfl

/-- The first accumulators may be merged into the next ones beforehand. -/
theorem foldlM_mergeNext {next : List Accumulator}
    (h : (Accumulator.mergeAll states).run next = (.ok (), merged))
    (rest : List (List Accumulator)) :
    (states :: next :: rest).foldlM Accumulator.mergeNext none =
      (merged :: rest).foldlM Accumulator.mergeNext none := by
  have hnext : Accumulator.mergeNext (some states) next = .ok (some merged) := by
    rw [Accumulator.mergeNext, h]
  change Accumulator.mergeNext (some states) next >>= _ = _
  rw [hnext]
  rfl

end Groups
end ExtentEngine
