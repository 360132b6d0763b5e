import ExtentEngine.Disk.Lines
import ExtentEngine.Proofs.Json.Cuts

/-!
# Lines are read back

Items that are written on a line each are read back, if the JSON values that stand for them
are written as the grammar asks for and stand for the items again.  What a text of objects that
breaks off somewhere holds are the first few of its items, unless it breaks off inside of one.

**Results.**
* `split_ofItems`: every item has a line of its own.
* `toItems?_ofItems`: the items of a text are those it was written for.
* `toItems?_take`: a text that breaks off is read as the first few of its items, or not at all.
* `readItems_of_read?`: the items of a file are those it was written for.
* `readItems_of_read?_take`: so are the first few of them if the file breaks off.
-/

namespace ExtentEngine
namespace Lines

/-- A line that is open is closed by the next line feed. -/
theorem splitFrom_append (line body rest : List Char) (hbody : ∀ c ∈ body, c ≠ '\n') :
    splitFrom line (body ++ '\n' :: rest) = dropReturn (line ++ body) :: splitFrom [] rest := by
  induction body generalizing line with
  | nil => simp [splitFrom]
  | cons c body ih =>
      obtain ⟨hc, hbody⟩ := List.forall_mem_cons.1 hbody
      rw [List.cons_append, splitFrom, if_neg hc, ih (line ++ [c]) hbody, List.append_assoc]
      rfl

theorem dropReturn_eq {line : List Char} (h : '\r' ∉ line) : dropReturn line = line := by
  have hlast : line.getLast? ≠ some '\r' := fun hlast => h (List.mem_of_getLast? hlast)
  rw [dropReturn, if_neg hlast]

/-- A written value has no line break in it. -/
theorem notMem_text {j : Json} (hw : j.Written) : '\n' ∉ j.text ∧ '\r' ∉ j.text := by
  refine ⟨fun hc => ?_, fun hc => ?_⟩
  · exact absurd (Json.printed_of_mem_text hw hc) (by unfold Json.Printed; decide)
  · exact absurd (Json.printed_of_mem_text hw hc) (by unfold Json.Printed; decide)

theorem split_ofItems {α : Type} {toJson : α → Json} {items : List α}
    (hw : ∀ item ∈ items, (toJson item).Written) :
    split (ofItems toJson items) = items.map fun item => (toJson item).text := by
  induction items with
  | nil => rfl
  | cons item items ih =>
      obtain ⟨hitem, hitems⟩ := List.forall_mem_cons.1 hw
      obtain ⟨hfeed, hreturn⟩ := notMem_text hitem
      have htext : ofItems toJson (item :: items) =
          (toJson item).text ++ '\n' :: ofItems toJson items := by
        simp [ofItems]
      have hbody : ∀ c ∈ (toJson item).text, c ≠ '\n' := fun c hc hbreak => hfeed (hbreak ▸ hc)
      rw [htext, split, splitFrom_append [] _ _ hbody, List.nil_append, dropReturn_eq hreturn]
      exact congrArg _ (ih hitems)

theorem ofItems_cons {α : Type} (toJson : α → Json) (item : α) (items : List α) :
    ofItems toJson (item :: items) = (toJson item).text ++ '\n' :: ofItems toJson items := by
  simp [ofItems]

section Reading

variable {α : Type} {toJson : α → Json} {ofJson? : Json → Option α} {items : List α}

/-- A line that stands for an item is read, and then the lines behind it are. -/
theorem toItems?_line {item : α} (hw : (toJson item).Written)
    (hback : ofJson? (toJson item) = some item) (rest : List Char) :
    toItems? ofJson? ((toJson item).text ++ '\n' :: rest) =
      (toItems? ofJson? rest).map (item :: ·) := by
  obtain ⟨hfeed, hreturn⟩ := notMem_text hw
  have hbody : ∀ c ∈ (toJson item).text, c ≠ '\n' := fun c hc hbreak => hfeed (hbreak ▸ hc)
  have hpos := List.ne_nil_of_length_pos (Json.text_length_pos hw)
  have hread : (Json.parse (toJson item).text).bind ofJson? = some item := by
    rw [Json.parse_text hw]
    exact hback
  rw [toItems?, toItems?, split, split, splitFrom_append [] _ _ hbody, List.nil_append,
    dropReturn_eq hreturn, List.filter_cons_of_pos (by simpa using hpos), List.mapM_cons, hread]
  cases (List.filter (fun line => !line.isEmpty) (splitFrom [] rest)).mapM fun line =>
    (Json.parse line).bind ofJson? <;> rfl

/-- The items of a text are those it was written for. -/
theorem toItems?_ofItems (hw : ∀ item ∈ items, (toJson item).Written)
    (hback : ∀ item ∈ items, ofJson? (toJson item) = some item) :
    toItems? ofJson? (ofItems toJson items) = some items := by
  induction items with
  | nil => rfl
  | cons item items ih =>
      obtain ⟨hitem, hitems⟩ := List.forall_mem_cons.1 hw
      obtain ⟨hitemBack, hitemsBack⟩ := List.forall_mem_cons.1 hback
      rw [ofItems_cons, toItems?_line hitem hitemBack, ih hitems hitemsBack]
      rfl

/-- The last line of a text may lack its end. -/
theorem splitFrom_of_forall_ne {body : List Char} (hbody : ∀ c ∈ body, c ≠ '\n')
    (line : List Char) :
    splitFrom line body = if (line ++ body).isEmpty then [] else [line ++ body] := by
  induction body generalizing line with
  | nil => rw [List.append_nil, splitFrom]
  | cons c body ih =>
      obtain ⟨hc, hbody⟩ := List.forall_mem_cons.1 hbody
      rw [splitFrom, if_neg hc, ih hbody, List.append_assoc]
      rfl

/-- A line that breaks off stands for no item, unless it lacks nothing but its end. -/
theorem toItems?_take_text {item : α} (hw : (toJson item).Written)
    (hobject : ∃ members, toJson item = .object members)
    (hback : ofJson? (toJson item) = some item) (count : Nat) :
    toItems? ofJson? ((toJson item).text.take count) = none ∨
      ∃ kept, toItems? ofJson? ((toJson item).text.take count) = some ([item].take kept) := by
  obtain ⟨members, hmembers⟩ := hobject
  obtain ⟨hfeed, -⟩ := notMem_text hw
  have hbody : ∀ c ∈ (toJson item).text.take count, c ≠ '\n' :=
    fun c hc hbreak => hfeed (hbreak ▸ List.mem_of_mem_take hc)
  rw [toItems?, split, splitFrom_of_forall_ne hbody, List.nil_append]
  cases hempty : ((toJson item).text.take count).isEmpty with
  | true => exact Or.inr ⟨0, rfl⟩
  | false =>
      rw [if_neg Bool.false_ne_true, List.filter_cons_of_pos (by rw [hempty]; rfl), List.filter_nil,
        List.mapM_cons]
      by_cases hwhole : (toJson item).text.take count = (toJson item).text
      · refine Or.inr ⟨1, ?_⟩
        rw [hwhole, Json.parse_text hw, Option.bind_some, hback]
        rfl
      · refine Or.inl ?_
        rw [hmembers] at hw hwhole ⊢
        rw [Json.parse_of_isPrefix hw (List.take_prefix count _) hwhole]
        rfl

/-- A text that breaks off is read as the first few of its items, or not at all. -/
theorem toItems?_take (hw : ∀ item ∈ items, (toJson item).Written)
    (hobject : ∀ item ∈ items, ∃ members, toJson item = .object members)
    (hback : ∀ item ∈ items, ofJson? (toJson item) = some item) (count : Nat) :
    toItems? ofJson? ((ofItems toJson items).take count) = none ∨
      ∃ kept, toItems? ofJson? ((ofItems toJson items).take count) = some (items.take kept) := by
  induction items generalizing count with
  | nil =>
      refine Or.inr ⟨0, ?_⟩
      rw [ofItems, List.flatMap_nil, List.take_nil]
      rfl
  | cons item items ih =>
      obtain ⟨hitem, hitems⟩ := List.forall_mem_cons.1 hw
      obtain ⟨hitemObject, hitemsObject⟩ := List.forall_mem_cons.1 hobject
      obtain ⟨hitemBack, hitemsBack⟩ := List.forall_mem_cons.1 hback
      rw [ofItems_cons]
      rcases Nat.lt_or_ge (toJson item).text.length count with hlong | hshort
      · obtain ⟨more, rfl⟩ := Nat.exists_eq_add_of_lt hlong
        rw [Nat.add_assoc, List.take_length_add_append, List.take_succ_cons,
          toItems?_line hitem hitemBack]
        rcases ih hitems hitemsObject hitemsBack more with hnone | ⟨kept, hkept⟩
        · exact Or.inl (by rw [hnone]; rfl)
        · exact Or.inr ⟨kept + 1, by rw [hkept]; rfl⟩
      · rw [List.take_append_of_le_length hshort]
        refine (toItems?_take_text hitem hitemObject hitemBack count).imp_right ?_
        rintro ⟨kept, hkept⟩
        refine ⟨min kept 1, hkept.trans (congrArg some ?_)⟩
        cases kept <;> simp

end Reading

end Lines

namespace Disk

/-- The items of a file are those it was written for. -/
theorem readItems_of_read? {α : Type} {toJson : α → Json} {ofJson? : Json → Option α}
    {items : List α} (hw : ∀ item ∈ items, (toJson item).Written)
    (hback : ∀ item ∈ items, ofJson? (toJson item) = some item) {disk : Disk} {file : FileName}
    (hread : disk.read? file = some (Lines.ofItems toJson items)) :
    disk.readItems ofJson? file = .ok items := by
  rw [readItems, hread]
  simp only [Lines.toItems?_ofItems hw hback]

/-- Of a file that breaks off the first few items are read, or it cannot be read. -/
theorem readItems_of_read?_take {α : Type} {toJson : α → Json} {ofJson? : Json → Option α}
    {items : List α} (hw : ∀ item ∈ items, (toJson item).Written)
    (hobject : ∀ item ∈ items, ∃ members, toJson item = .object members)
    (hback : ∀ item ∈ items, ofJson? (toJson item) = some item) {disk : Disk} {file : FileName}
    {count : Nat} (hread : disk.read? file = some ((Lines.ofItems toJson items).take count)) :
    disk.readItems ofJson? file = .error (.lineUnreadable file.path) ∨
      ∃ kept, disk.readItems ofJson? file = .ok (items.take kept) := by
  rw [readItems, hread]
  rcases Lines.toItems?_take hw hobject hback count with hnone | ⟨kept, hkept⟩
  · exact Or.inl (by simp only [hnone])
  · exact Or.inr ⟨kept, by simp only [hkept]⟩

end Disk
end ExtentEngine
