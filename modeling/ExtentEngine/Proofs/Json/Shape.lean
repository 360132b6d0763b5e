import ExtentEngine.Json.Shape
import ExtentEngine.Proofs.Decimal.ReadBack
import ExtentEngine.Proofs.Json.Values

/-!
# Shapes are read back

Data that is laid out as a record or as a choice is read back, field by field.

**Results.**
* `int?_ofInt`, `text?_ofText`, `items?_array`: the plain values are read back.
* `fields?_record`: a record is read back as its fields.
* `choice?_choose`: a choice is read back as the alternative and its contents.
-/

namespace ExtentEngine
namespace Json

/-- How data is laid out so that it can be written and read back. -/
structure Encodes {α : Type} (toJson : α → Json) (ofJson? : Json → Option α) (a : α) : Prop where
  written : (toJson a).Written
  readBack : ofJson? (toJson a) = some a

/-- A name that needs no escapes. -/
def Plain (name : String) : Prop := escape name.toList = name.toList

instance (name : String) : Decidable (Plain name) :=
  inferInstanceAs (Decidable (escape name.toList = name.toList))

theorem Plain.unescape {name : String} (h : Plain name) :
    unescape name.toList = some name.toList := by
  have hback := unescape_escape name.toList
  rwa [show escape name.toList = name.toList from h] at hback

theorem written_ofText (s : List Char) : (ofText s).Written := .string s

theorem text?_ofText (s : List Char) : (ofText s).text? = some s := unescape_escape s

theorem wellFormed_ofInt (n : ℤ) : (Numeral.ofInt n).WellFormed := by
  refine ⟨Digits.ofNat_ne_nil 10 _, Digits.isDigit_ofNat (by norm_num) (by norm_num) _, ?_,
    nofun, nofun⟩
  intro h
  by_cases hn : n.natAbs = 0
  · rw [Numeral.ofInt, hn, Digits.ofNat]
    rfl
  · exact absurd h (Digits.head?_ofNat hn)

theorem written_ofInt (n : ℤ) : (ofInt n).Written := .number (wellFormed_ofInt n)

theorem wholeValue_ofInt (n : ℤ) : (Numeral.ofInt n).wholeValue = n := by
  have hread : Digits.toNat 10 (Digits.ofNat 10 n.natAbs) = n.natAbs :=
    Digits.toNat_ofNat (by norm_num) (by norm_num) _
  simp only [Numeral.wholeValue, Numeral.ofInt, hread]
  by_cases hn : n < 0 <;> simp only [hn, decide_true, decide_false, if_true, Bool.false_eq_true,
    if_false] <;> omega

theorem int?_ofInt {low high n : ℤ} (hlow : low ≤ n) (hhigh : n ≤ high) :
    (ofInt n).int? low high = some n := by
  have hwhole : (Numeral.ofInt n).isWhole = true := rfl
  have hzero : ¬((Numeral.ofInt n).negative = true ∧ n = 0) := by
    rintro ⟨hneg, rfl⟩
    cases hneg
  simp only [int?, ofInt, wholeValue_ofInt]
  rw [if_pos ⟨hwhole, hzero, hlow, hhigh⟩]

theorem written_array {α : Type} {toJson : α → Json} {items : List α}
    (h : ∀ item ∈ items, (toJson item).Written) : (array (items.map toJson)).Written :=
  .array (List.forall_mem_map.2 h)

theorem items?_array {α : Type} {toJson : α → Json} {ofJson? : Json → Option α} {items : List α}
    (h : ∀ item ∈ items, ofJson? (toJson item) = some item) :
    (array (items.map toJson)).items? ofJson? = some items := by
  simp only [items?]
  induction items with
  | nil => rfl
  | cons item items ih =>
      obtain ⟨hitem, hitems⟩ := List.forall_mem_cons.1 h
      rw [List.map_cons, List.mapM_cons, hitem, ih hitems]
      rfl

theorem written_record {members : List (String × Json)} (hplain : ∀ m ∈ members, Plain m.1)
    (hw : ∀ m ∈ members, Written m.2) : (record members).Written := by
  refine .object (List.forall_mem_map.2 fun m hm => ?_) (List.forall_mem_map.2 hw)
  exact ⟨m.1.toList, (hplain m hm).symm⟩

theorem unescapeNames_record {members : List (String × Json)}
    (hplain : ∀ m ∈ members, Plain m.1) :
    unescapeNames (members.map fun m => (m.1.toList, m.2)) =
      some (members.map fun m => (m.1.toList, m.2)) := by
  unfold unescapeNames
  induction members with
  | nil => rfl
  | cons m members ih =>
      obtain ⟨hm, hmembers⟩ := List.forall_mem_cons.1 hplain
      rw [List.map_cons, List.mapM_cons, hm.unescape, ih hmembers]
      rfl

theorem member?_record {members : List (String × Json)} (hnodup : (members.map (·.1)).Nodup)
    {m : String × Json} (hm : m ∈ members) :
    member? (members.map fun m => (m.1.toList, m.2)) m.1 = some (some m.2) := by
  have hfilter : (members.map fun m => (m.1.toList, m.2)).filter
      (fun entry => entry.1 = m.1.toList) = [(m.1.toList, m.2)] := by
    induction members with
    | nil => cases hm
    | cons other members ih =>
        rw [List.map_cons, List.nodup_cons] at hnodup
        obtain ⟨hother, hnodup⟩ := hnodup
        rcases List.mem_cons.1 hm with rfl | hm
        · have hrest : ∀ entry ∈ members.map fun m => (m.1.toList, m.2),
              ¬decide (entry.1 = m.1.toList) = true := by
            refine List.forall_mem_map.2 fun entry hentry hname => hother ?_
            rw [decide_eq_true_eq] at hname
            rw [← String.toList_inj.1 hname]
            exact List.mem_map_of_mem hentry
          simp [List.filter_eq_nil_iff.2 hrest]
        · have hne : ¬other.1.toList = m.1.toList := by
            intro hname
            rw [String.toList_inj.1 hname] at hother
            exact hother (List.mem_map_of_mem hm)
          simp only [List.map_cons]
          rw [List.filter_cons_of_neg (by simpa using hne)]
          exact ih hnodup hm
  rw [member?, hfilter]

/-- A record is read back as its fields. -/
theorem fields?_record {members : List (String × Json)} (hplain : ∀ m ∈ members, Plain m.1)
    (hnodup : (members.map (·.1)).Nodup) :
    fields? (members.map (·.1)) (record members) = some (members.map fun m => some m.2) := by
  simp only [fields?, record, unescapeNames_record hplain]
  have hread : ∀ part : List (String × Json), part ⊆ members →
      (part.map (·.1)).mapM (member? (members.map fun m => (m.1.toList, m.2))) =
        some (part.map fun m => some m.2) := by
    intro part
    induction part with
    | nil => exact fun _ => rfl
    | cons m part ih =>
        intro hpart
        rw [List.map_cons, List.mapM_cons, member?_record hnodup (hpart List.mem_cons_self),
          ih (fun _ h => hpart (List.mem_cons_of_mem _ h))]
        rfl
  exact hread members (List.Subset.refl _)

/-- A record with given names and values is written as the grammar asks for. -/
theorem written_zip (names : List String) (values : List Json)
    (hplain : ∀ name ∈ names, Plain name) (hw : ∀ value ∈ values, Written value) :
    (record (names.zip values)).Written :=
  written_record (fun _ hm => hplain _ (List.of_mem_zip hm).1)
    fun _ hm => hw _ (List.of_mem_zip hm).2

/-- A record with given names and values is read back as its values. -/
theorem fields?_zip (names : List String) (values : List Json)
    (hlength : names.length = values.length) (hplain : ∀ name ∈ names, Plain name)
    (hnodup : names.Nodup) :
    fields? names (record (names.zip values)) = some (values.map some) := by
  have hnames : (names.zip values).map (·.1) = names := List.map_fst_zip hlength.le
  have hvalues : (names.zip values).map (·.2) = values := List.map_snd_zip hlength.ge
  have hfields := fields?_record (fun _ hm => hplain _ (List.of_mem_zip hm).1)
    (show ((names.zip values).map (·.1)).Nodup by rwa [hnames])
  have hmap : (names.zip values).map (fun m => some m.2) = values.map some := by
    rw [← hvalues, List.map_map, hvalues]
    rfl
  rwa [hnames, hmap] at hfields

/-- Data that is laid out as a record of given names and values. -/
theorem encodes_record {α : Type} {toJson : α → Json} {ofJson? : Json → Option α} {a : α}
    (names : List String) (values : List Json) (hlength : names.length = values.length)
    (hplain : ∀ name ∈ names, Plain name) (hnodup : names.Nodup)
    (hw : ∀ value ∈ values, Written value) (hjson : toJson a = record (names.zip values))
    (hread : (toJson a).fields? names = some (values.map some) → ofJson? (toJson a) = some a) :
    Encodes toJson ofJson? a := by
  refine ⟨?_, hread ?_⟩
  · rw [hjson]
    exact written_zip names values hplain hw
  · rw [hjson]
    exact fields?_zip names values hlength hplain hnodup

theorem written_choose {name : String} (hplain : Plain name) {contents : Json}
    (hw : contents.Written) : (choose name contents).Written :=
  written_record (by simpa using hplain) (by simpa using hw)

/-- A choice is read back as the alternative and its contents. -/
theorem choice?_choose {name : String} (hplain : Plain name) (contents : Json) :
    (choose name contents).choice? = some (name.toList, some contents) := by
  show (unescape name.toList).map (·, some contents) = _
  rw [hplain.unescape]
  rfl

theorem written_chooseBare {name : String} (hplain : Plain name) : (chooseBare name).Written := by
  rw [chooseBare, ← show escape name.toList = name.toList from hplain]
  exact .string _

end Json
end ExtentEngine
