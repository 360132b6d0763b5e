import ExtentEngine.Proofs.Attempt
import ExtentEngine.Step

/-!
# How states are put together

A state that is computed from rows begins with none of them.  It takes rows one by one, and it can
be merged with a state that was computed from others.  An `Assembly` says in which order rows are
taken and how states are merged, whatever the states are.

**Results.**
* `fold_inTurn`: an assembly without merging is a fold over the rows.
* `fold_eq`: a summary that every step keeps up to date is that of all rows.
* `exec_forEach`: steps for all rows put a state together that way.
-/

namespace ExtentEngine

/-- A way of putting a state together from rows. -/
inductive Assembly (ρ : Type)
  /-- The state of no rows. -/
  | fresh
  /-- A state takes one more row. -/
  | add (before : Assembly ρ) (row : ρ)
  /-- A second state is merged into a first one. -/
  | merge (first second : Assembly ρ)

namespace Assembly

variable {ρ σ : Type}

/-- The rows in the order in which they are written down. -/
def rows : Assembly ρ → List ρ
  | fresh => []
  | add before row => before.rows ++ [row]
  | merge first second => first.rows ++ second.rows

/-- The state that is put together. -/
def fold (start : σ) (take : σ → ρ → σ) (join : σ → σ → σ) : Assembly ρ → σ
  | fresh => start
  | add before row => take (before.fold start take join) row
  | merge first second => join (first.fold start take join) (second.fold start take join)

/-- One row after the other. -/
def inTurn (rows : List ρ) : Assembly ρ := rows.foldl add fresh

theorem rows_foldl (before : Assembly ρ) (rows : List ρ) :
    (rows.foldl add before).rows = before.rows ++ rows := by
  induction rows generalizing before with
  | nil => rw [List.foldl_nil, List.append_nil]
  | cons first rest ih =>
      rw [List.foldl_cons, ih, Assembly.rows, List.append_assoc]
      rfl

@[simp] theorem rows_inTurn (rows : List ρ) : (inTurn rows).rows = rows :=
  rows_foldl fresh rows

theorem fold_foldl (start : σ) (take : σ → ρ → σ) (join : σ → σ → σ) (before : Assembly ρ)
    (rows : List ρ) :
    (rows.foldl add before).fold start take join =
      rows.foldl take (before.fold start take join) := by
  induction rows generalizing before with
  | nil => rfl
  | cons first rest ih => exact ih (before.add first)

/-- Rows that are taken in turn are folded over. -/
theorem fold_inTurn (start : σ) (take : σ → ρ → σ) (join : σ → σ → σ) (rows : List ρ) :
    (inTurn rows).fold start take join = rows.foldl take start :=
  fold_foldl start take join fresh rows

/-- States that each step makes those of the rows so far are those of all rows in the end, as long
as there are not too many rows. -/
theorem fold_eq {start : σ} {take : σ → ρ → σ} {join : σ → σ → σ} {summary : List ρ → σ}
    {feasible : ℕ → Prop} (hmono : ∀ {n m : ℕ}, n ≤ m → feasible m → feasible n)
    (hstart : start = summary [])
    (htake : ∀ rows row, feasible (rows.length + 1) →
      take (summary rows) row = summary (rows ++ [row]))
    (hjoin : ∀ rows rows', feasible (rows.length + rows'.length) →
      join (summary rows) (summary rows') = summary (rows ++ rows'))
    (assembly : Assembly ρ) (h : feasible assembly.rows.length) :
    assembly.fold start take join = summary assembly.rows := by
  induction assembly with
  | fresh => exact hstart
  | add before row ih =>
      rw [rows, List.length_append, List.length_singleton] at h
      rw [fold, rows, ih (hmono (Nat.le_succ _) h), htake _ _ h]
  | merge first second ih ih' =>
      rw [rows, List.length_append] at h
      rw [fold, rows, ih (hmono (Nat.le_add_right _ _) h), ih' (hmono (Nat.le_add_left _ _) h),
        hjoin _ _ h]

end Assembly

namespace Step

variable {σ β : Type}

/-- The state that a step leaves, if it succeeds. -/
def exec (step : Step σ Unit) (s : σ) : Attempt σ := (step.run s).1.map fun _ => (step.run s).2

theorem exec_eq_ok {step : Step σ Unit} {s t : σ} :
    step.exec s = .ok t ↔ step.run s = (.ok (), t) := by
  rw [exec, Attempt.map_eq_ok]
  constructor
  · rintro ⟨_, hok, rfl⟩
    exact Prod.ext hok rfl
  · intro hrun
    rw [hrun]
    exact ⟨(), rfl, rfl⟩

theorem exec_bind (step : Step σ Unit) (next : Unit → Step σ Unit) (s : σ) :
    exec (step >>= next) s = step.exec s >>= (next ()).exec := by
  simp only [exec, run_bind]
  rcases step.run s with ⟨result, t⟩
  cases result with
  | error fault => rfl
  | ok _ => rfl

theorem foldl_bind_error (step : β → Step σ Unit) (fault : Fault) (items : List β) :
    items.foldl (fun attempt item => attempt >>= (step item).exec) (.error fault) =
      (.error fault : Attempt σ) := by
  induction items with
  | nil => rfl
  | cons item items ih => exact ih

/-- Steps for all items put a state together item by item. -/
theorem exec_forEach (step : β → Step σ Unit) (items : List β) (s : σ) :
    (forEach step items).exec s =
      items.foldl (fun attempt item => attempt >>= (step item).exec) (.ok s) := by
  induction items generalizing s with
  | nil => rfl
  | cons item items ih =>
      rw [forEach, exec_bind, List.foldl_cons]
      change (step item).exec s >>= (forEach step items).exec =
        items.foldl (fun attempt item => attempt >>= (step item).exec) ((step item).exec s)
      cases (step item).exec s with
      | error fault => exact (foldl_bind_error step fault items).symm
      | ok t => exact ih t

end Step
end ExtentEngine
