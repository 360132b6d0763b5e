import ExtentEngine.Proofs.Json.Lexemes

/-!
# Values are read back

A value whose numerals are well formed and whose strings are escaped texts is read back from
its text.

**Results.**
* `takeValue_text`: a value is read back from the front of a text.
* `parse_text`: the text of a value stands for the value.
* `printed_of_mem_text`: a value is written on one line.
-/

namespace ExtentEngine
namespace Json

/-- Values that are written as the grammar asks for. -/
inductive Written : Json → Prop
  | null : Written .null
  | bool (b : Bool) : Written (.bool b)
  | number {n : Numeral} (hn : n.WellFormed) : Written (.number n)
  | string (s : List Char) : Written (.string (escape s))
  | array {items : List Json} (h : ∀ item ∈ items, Written item) : Written (.array items)
  | object {members : List (List Char × Json)}
      (hn : ∀ m ∈ members, ∃ s, m.1 = escape s) (hv : ∀ m ∈ members, Written m.2) :
      Written (.object members)

/-- A character that a value may begin with. -/
def Begins (c : Char) : Prop :=
  c ∈ ['n', 't', 'f', '"', '[', '\x7b', '-', '0', '1', '2', '3', '4', '5', '6', '7', '8', '9']

theorem begins_of_isDigit {c : Char} (h : Digits.isDigit 10 c = true) : Begins c := by
  unfold Digits.isDigit Digits.value? at h
  split at h
  · next v hv =>
      split at hv
      · next hc =>
          have hlow : 48 ≤ c.toNat := hc.1
          have hhigh : c.toNat ≤ 57 := hc.2
          have hback : Char.ofNat c.toNat = c := Char.ofNat_toNat c
          have hall : ∀ k : Fin 10, Begins (Char.ofNat (48 + k.val)) := by
            unfold Begins
            decide
          have := hall ⟨c.toNat - 48, by omega⟩
          rwa [show 48 + (c.toNat - 48) = c.toNat by omega, hback] at this
      · split at hv
        · next hc =>
            cases hv
            have hlow : 97 ≤ c.toNat := hc.1
            simp only [decide_eq_true_eq] at h
            omega
        · split at hv
          · next hc =>
              cases hv
              have hlow : 65 ≤ c.toNat := hc.1
              simp only [decide_eq_true_eq] at h
              omega
          · cases hv
  · cases h

theorem numeral_text_begins {n : Numeral} (hn : n.WellFormed) :
    ∃ c cs, n.text = c :: cs ∧ (c = '-' ∨ Digits.isDigit 10 c = true) := by
  rw [text_eq_parts]
  cases hs : n.negative with
  | true => exact ⟨'-', _, rfl, Or.inl rfl⟩
  | false =>
      obtain ⟨d, ds, hd⟩ := List.exists_cons_of_ne_nil hn.whole_ne_nil
      rw [hd]
      exact ⟨d, _, rfl, Or.inr (hn.whole_digits d (by simp [hd]))⟩

theorem text_begins {j : Json} (h : j.Written) : ∃ c cs, j.text = c :: cs ∧ Begins c := by
  cases h with
  | null => exact ⟨'n', _, by rw [text], by simp [Begins]⟩
  | bool b => cases b <;> exact ⟨_, _, by rw [text], by simp [Begins]⟩
  | number hn =>
      obtain ⟨c, cs, htext, hc⟩ := numeral_text_begins hn
      refine ⟨c, cs, by rw [text, htext], ?_⟩
      rcases hc with rfl | hc
      · simp [Begins]
      · exact begins_of_isDigit hc
  | string s => exact ⟨'"', escape s ++ ['"'], by rw [text]; rfl, by simp [Begins]⟩
  | array h => exact ⟨'[', _, by rw [text]; rfl, by simp [Begins]⟩
  | object hn hv => exact ⟨'\x7b', _, by rw [text]; rfl, by simp [Begins]⟩

theorem skipBlanks_of_begins {c : Char} (h : Begins c) (rest : List Char) :
    skipBlanks (c :: rest) = c :: rest := by
  have hblank : ∀ d ∈ ['n', 't', 'f', '"', '[', '\x7b', '-', '0', '1', '2', '3', '4', '5', '6',
      '7', '8', '9'], isBlank d = false := forall_mem_of_all (by decide)
  simp [skipBlanks, hblank c h]

theorem text_length_pos {j : Json} (h : j.Written) : 0 < j.text.length := by
  obtain ⟨c, cs, htext, -⟩ := text_begins h
  rw [htext]
  exact Nat.succ_pos _

/-- A text that begins like a numeral is read as one. -/
theorem takeValue_numeral {c : Char} (hc : c = '-' ∨ Digits.isDigit 10 c = true)
    (cs : List Char) (fuel : Nat) :
    takeValue (fuel + 1) (c :: cs) =
      (takeNumeral (c :: cs)).map fun (numeral, rest) => (.number numeral, rest) := by
  have hbegins : Begins c := by
    rcases hc with rfl | hc
    · simp [Begins]
    · exact begins_of_isDigit hc
  have hother : ∀ d ∈ ['n', 't', 'f', '"', '[', '\x7b'], c ≠ d := by
    rintro d hd rfl
    rcases hc with rfl | hc
    · exact absurd hd (by decide)
    · have hall : ∀ d ∈ ['n', 't', 'f', '"', '[', '\x7b'], Digits.isDigit 10 d = false :=
        forall_mem_of_all (by decide)
      rw [hall c hd] at hc
      cases hc
  rw [takeValue, skipBlanks_of_begins hbegins]
  split
  case h_7 => rfl
  all_goals
    next h =>
      injection h with hhead htail
      exact absurd hhead (hother _ (by simp))

/-- Whether a value is read back from the front of a text, whatever follows it. -/
def ReadBack (j : Json) : Prop :=
  ∀ fuel rest, 2 * j.text.length ≤ fuel → Ends rest →
    takeValue fuel (j.text ++ rest) = some (j, rest)

theorem takeItems_text {items : List Json} (hne : items ≠ [])
    (hw : ∀ item ∈ items, Written item) (hread : ∀ item ∈ items, ReadBack item) :
    ∀ fuel rest, 2 * (itemsText items).length + 1 ≤ fuel →
      takeItems fuel (itemsText items ++ ']' :: rest) = some (items, rest) := by
  induction items with
  | nil => exact absurd rfl hne
  | cons item items ih =>
      intro fuel rest hfuel
      obtain ⟨fuel, rfl⟩ : ∃ k, fuel = k + 1 := ⟨fuel - 1, by omega⟩
      have hpos := text_length_pos (hw item List.mem_cons_self)
      have hitem := hread item List.mem_cons_self
      cases items with
      | nil =>
          rw [itemsText] at hfuel ⊢
          rw [takeItems, hitem fuel (']' :: rest) (by omega) (Or.inr (Or.inl rfl))]
          rfl
      | cons next items =>
          rw [itemsText] at hfuel ⊢
          · rw [List.length_append, List.length_cons] at hfuel
            have hrest := ih (List.cons_ne_nil _ _)
              (fun i hi => hw i (List.mem_cons_of_mem _ hi))
              (fun i hi => hread i (List.mem_cons_of_mem _ hi)) fuel rest (by omega)
            rw [List.append_assoc, takeItems, List.cons_append,
              hitem fuel (',' :: (itemsText (next :: items) ++ ']' :: rest)) (by omega)
                (Or.inl rfl)]
            simp [skipBlanks, isBlank, hrest]
          · exact List.cons_ne_nil _ _
          · exact List.cons_ne_nil _ _

theorem takeName_text (s rest : List Char) :
    takeName ('"' :: (escape s ++ '"' :: ':' :: rest)) = some (escape s, rest) := by
  have hquote : Begins '"' := by simp [Begins]
  rw [takeName, skipBlanks_of_begins hquote]
  simp [takeString_escape, skipBlanks, isBlank]

theorem takeMembers_text {members : List (List Char × Json)} (hne : members ≠ [])
    (hname : ∀ m ∈ members, ∃ s, m.1 = escape s) (hread : ∀ m ∈ members, ReadBack m.2) :
    ∀ fuel rest, 2 * (membersText members).length + 1 ≤ fuel →
      takeMembers fuel (membersText members ++ '\x7d' :: rest) = some (members, rest) := by
  induction members with
  | nil => exact absurd rfl hne
  | cons member members ih =>
      intro fuel rest hfuel
      obtain ⟨fuel, rfl⟩ : ∃ k, fuel = k + 1 := ⟨fuel - 1, by omega⟩
      obtain ⟨name, value⟩ := member
      obtain ⟨s, rfl⟩ : ∃ s, name = escape s := hname (name, value) List.mem_cons_self
      have hvalue : ReadBack value := hread (escape s, value) List.mem_cons_self
      cases members with
      | nil =>
          simp only [membersText, List.length_cons, List.length_append, List.cons_append,
            List.append_assoc] at hfuel ⊢
          rw [takeMembers, takeName_text]
          simp only
          rw [hvalue fuel ('\x7d' :: rest) (by omega) (Or.inr (Or.inr rfl))]
          simp [skipBlanks, isBlank]
      | cons next members =>
          rw [membersText] at hfuel ⊢
          · simp only [List.length_cons, List.length_append, List.cons_append,
              List.append_assoc] at hfuel ⊢
            have hrest := ih (List.cons_ne_nil _ _)
              (fun m hm => hname m (List.mem_cons_of_mem _ hm))
              (fun m hm => hread m (List.mem_cons_of_mem _ hm)) fuel rest (by omega)
            rw [takeMembers, takeName_text]
            simp only
            rw [hvalue fuel (',' :: (membersText (next :: members) ++ '\x7d' :: rest)) (by omega)
              (Or.inl rfl)]
            simp [skipBlanks, isBlank, hrest]
          · exact List.cons_ne_nil _ _
          · exact List.cons_ne_nil _ _

theorem itemsText_begins {items : List Json} (hne : items ≠ [])
    (hw : ∀ item ∈ items, Written item) (rest : List Char) :
    ∃ c cs, itemsText items ++ rest = c :: cs ∧ Begins c := by
  obtain ⟨item, items, rfl⟩ := List.exists_cons_of_ne_nil hne
  obtain ⟨c, cs, htext, hc⟩ := text_begins (hw item List.mem_cons_self)
  cases items with
  | nil => exact ⟨c, cs ++ rest, by rw [itemsText, htext]; rfl, hc⟩
  | cons next items =>
      refine ⟨c, cs ++ ',' :: (itemsText (next :: items) ++ rest), ?_, hc⟩
      rw [itemsText]
      · simp [htext]
      · exact List.cons_ne_nil _ _

/-- A text that does not begin with a bracket is the text of a first item. -/
theorem takeValue_array {c : Char} {cs : List Char} (hc : Begins c) (fuel : Nat) :
    takeValue (fuel + 1) ('[' :: c :: cs) =
      (takeItems fuel (c :: cs)).map fun (items, rest) => (.array items, rest) := by
  have hbracket : c ≠ ']' := by
    rintro rfl
    exact absurd hc (by unfold Begins; decide)
  have hopen : Begins '[' := by simp [Begins]
  rw [takeValue, skipBlanks_of_begins hopen]
  simp only
  rw [skipBlanks_of_begins hc]
  split
  · next h =>
      injection h with hhead htail
      exact absurd hhead hbracket
  · rfl

theorem takeValue_object (cs : List Char) (fuel : Nat) :
    takeValue (fuel + 1) ('\x7b' :: '"' :: cs) =
      (takeMembers fuel ('"' :: cs)).map fun (members, rest) => (.object members, rest) := by
  have hopen : Begins '\x7b' := by simp [Begins]
  have hquote : Begins '"' := by simp [Begins]
  rw [takeValue, skipBlanks_of_begins hopen]
  simp only
  rw [skipBlanks_of_begins hquote]
  split
  · next h => cases h
  · rfl

theorem membersText_begins {members : List (List Char × Json)} (hne : members ≠ [])
    (rest : List Char) : ∃ cs, membersText members ++ rest = '"' :: cs := by
  obtain ⟨⟨name, value⟩, others, rfl⟩ := List.exists_cons_of_ne_nil hne
  cases others with
  | nil => exact ⟨_, by rw [membersText]; rfl⟩
  | cons other others =>
      refine ⟨name ++ '"' :: ':' :: (value.text ++ ',' :: membersText (other :: others)) ++ rest,
        ?_⟩
      rw [membersText]
      · rfl
      · exact List.cons_ne_nil _ _

/-- A value is read back from the front of a text. -/
theorem takeValue_text {j : Json} (h : j.Written) : ReadBack j := by
  induction h with
  | null =>
      intro fuel rest hfuel _
      obtain ⟨fuel, rfl⟩ : ∃ k, fuel = k + 1 := ⟨fuel - 1, by simp [text] at hfuel; omega⟩
      have hbegins : Begins 'n' := by simp [Begins]
      rw [takeValue, text, List.cons_append, skipBlanks_of_begins hbegins]
      rfl
  | bool b =>
      intro fuel rest hfuel _
      obtain ⟨fuel, rfl⟩ : ∃ k, fuel = k + 1 :=
        ⟨fuel - 1, by cases b <;> simp [text] at hfuel <;> omega⟩
      cases b with
      | true =>
          have hbegins : Begins 't' := by simp [Begins]
          rw [takeValue, text, List.cons_append, skipBlanks_of_begins hbegins]
          rfl
      | false =>
          have hbegins : Begins 'f' := by simp [Begins]
          rw [takeValue, text, List.cons_append, skipBlanks_of_begins hbegins]
          rfl
  | @number n hn =>
      intro fuel rest hfuel hrest
      obtain ⟨c, cs, htext, hc⟩ := numeral_text_begins hn
      obtain ⟨fuel, rfl⟩ : ∃ k, fuel = k + 1 :=
        ⟨fuel - 1, by simp [text, htext] at hfuel; omega⟩
      have hnumeral := takeNumeral_text hn hrest
      rw [htext, List.cons_append] at hnumeral
      rw [text, htext, List.cons_append, takeValue_numeral hc, hnumeral]
      rfl
  | string s =>
      intro fuel rest hfuel _
      obtain ⟨fuel, rfl⟩ : ∃ k, fuel = k + 1 := ⟨fuel - 1, by simp [text] at hfuel; omega⟩
      have hbegins : Begins '"' := by simp [Begins]
      rw [takeValue, text, List.cons_append, List.cons_append, skipBlanks_of_begins hbegins]
      simp [takeString_escape]
  | @array items hw ih =>
      intro fuel rest hfuel _
      rw [text] at hfuel ⊢
      simp only [List.length_cons, List.length_append, List.length_nil, List.cons_append,
        List.append_assoc, List.nil_append] at hfuel ⊢
      obtain ⟨fuel, rfl⟩ : ∃ k, fuel = k + 1 := ⟨fuel - 1, by omega⟩
      by_cases hne : items = []
      · subst hne
        have hbegins : Begins '[' := by simp [Begins]
        rw [takeValue, skipBlanks_of_begins hbegins]
        simp [itemsText, skipBlanks, isBlank]
      · have hitems := takeItems_text hne hw ih fuel rest (by omega)
        obtain ⟨c, cs, htext, hc⟩ := itemsText_begins hne hw (']' :: rest)
        rw [htext] at hitems ⊢
        rw [takeValue_array hc, hitems]
        rfl
  | @object members hn hw ih =>
      intro fuel rest hfuel _
      rw [text] at hfuel ⊢
      simp only [List.length_cons, List.length_append, List.length_nil, List.cons_append,
        List.append_assoc, List.nil_append] at hfuel ⊢
      obtain ⟨fuel, rfl⟩ : ∃ k, fuel = k + 1 := ⟨fuel - 1, by omega⟩
      by_cases hne : members = []
      · subst hne
        have hbegins : Begins '\x7b' := by simp [Begins]
        rw [takeValue, skipBlanks_of_begins hbegins]
        simp [membersText, skipBlanks, isBlank]
      · have hmembers := takeMembers_text hne hn ih fuel rest (by omega)
        obtain ⟨cs, htext⟩ := membersText_begins hne ('\x7d' :: rest)
        rw [htext] at hmembers ⊢
        rw [takeValue_object, hmembers]
        rfl

/-- The text of a value stands for the value. -/
theorem parse_text {j : Json} (h : j.Written) : parse j.text = some j := by
  have hvalue := takeValue_text h (2 * j.text.length + 2) [] (by omega) trivial
  rw [List.append_nil] at hvalue
  rw [parse, hvalue]
  rfl

/-- Whether a character breaks no line. -/
def Printed (c : Char) : Prop := 32 ≤ c.toNat

instance : DecidablePred Printed := fun c => Nat.decLe 32 c.toNat

theorem Begins.printed {c : Char} (h : Begins c) : Printed c := by
  have hall : ∀ d ∈ ['n', 't', 'f', '"', '[', '\x7b', '-', '0', '1', '2', '3', '4', '5', '6',
      '7', '8', '9'], Printed d := forall_mem_of_all (by decide)
  exact hall c h

theorem printed_of_mem_numeral {n : Numeral} (hn : n.WellFormed) {c : Char} (hc : c ∈ n.text) :
    Printed c := by
  have hdigit : ∀ {ds : List Char}, (∀ d ∈ ds, Digits.isDigit 10 d = true) → c ∈ ds → Printed c :=
    fun hds hmem => (begins_of_isDigit (hds c hmem)).printed
  have hmark : ∀ d ∈ ['-', '+', '.', 'e'], Printed d := forall_mem_of_all (by decide)
  rw [text_eq_parts] at hc
  simp only [List.mem_append] at hc
  rcases hc with hsign | hwhole | hfraction | hexponent
  · refine hmark c ?_
    split at hsign
    · simp_all
    · cases hsign
  · exact hdigit hn.whole_digits hwhole
  · unfold fractionText at hfraction
    split at hfraction
    · cases hfraction
    · rcases List.mem_cons.1 hfraction with rfl | hfraction
      · exact hmark '.' (by simp)
      · exact hdigit hn.fraction_digits hfraction
  · cases he : n.exponent with
    | none =>
        rw [he] at hexponent
        cases hexponent
    | some e =>
        obtain ⟨sign, digits⟩ := e
        rw [he, exponentText] at hexponent
        rcases List.mem_cons.1 hexponent with rfl | hexponent
        · exact hmark 'e' (by simp)
        · rcases List.mem_append.1 hexponent with hsign | hdigits
          · refine hmark c ?_
            cases sign <;> simp_all [ExponentSign.text]
          · exact hdigit (hn.exponent_digits sign digits he).2 hdigits

theorem mem_itemsText {items : List Json} {c : Char} (hc : c ∈ itemsText items) :
    c = ',' ∨ ∃ item ∈ items, c ∈ item.text := by
  induction items with
  | nil => simp [itemsText] at hc
  | cons item items ih =>
      cases items with
      | nil => exact Or.inr ⟨item, List.mem_cons_self, by simpa [itemsText] using hc⟩
      | cons next items =>
          rw [itemsText] at hc
          · rcases List.mem_append.1 hc with hc | hc
            · exact Or.inr ⟨item, List.mem_cons_self, hc⟩
            · rcases List.mem_cons.1 hc with rfl | hc
              · exact Or.inl rfl
              · rcases ih hc with hmark | ⟨other, hother, hc⟩
                · exact Or.inl hmark
                · exact Or.inr ⟨other, List.mem_cons_of_mem _ hother, hc⟩
          · exact List.cons_ne_nil _ _

theorem mem_membersText {members : List (List Char × Json)} {c : Char}
    (hc : c ∈ membersText members) :
    c ∈ [',', ':', '"'] ∨ ∃ m ∈ members, c ∈ m.1 ∨ c ∈ m.2.text := by
  induction members with
  | nil => simp [membersText] at hc
  | cons member members ih =>
      obtain ⟨name, value⟩ := member
      cases members with
      | nil =>
          simp only [membersText, List.mem_cons, List.mem_append, List.cons_append] at hc
          rcases hc with rfl | hc | rfl | rfl | hc
          · simp
          · exact Or.inr ⟨_, List.mem_cons_self, Or.inl hc⟩
          · simp
          · simp
          · exact Or.inr ⟨_, List.mem_cons_self, Or.inr hc⟩
      | cons next members =>
          rw [membersText] at hc
          · simp only [List.mem_cons, List.mem_append, List.cons_append] at hc
            rcases hc with rfl | hc | rfl | rfl | hc | rfl | hc
            · simp
            · exact Or.inr ⟨_, List.mem_cons_self, Or.inl hc⟩
            · simp
            · simp
            · exact Or.inr ⟨_, List.mem_cons_self, Or.inr hc⟩
            · simp
            · rcases ih hc with hmark | ⟨other, hother, hc⟩
              · exact Or.inl hmark
              · exact Or.inr ⟨other, List.mem_cons_of_mem _ hother, hc⟩
          · exact List.cons_ne_nil _ _

/-- A value is written on one line. -/
theorem printed_of_mem_text {j : Json} (h : j.Written) {c : Char} (hc : c ∈ j.text) :
    Printed c := by
  induction h with
  | null =>
      rw [text] at hc
      exact forall_mem_of_all (by decide) c hc
  | bool b =>
      cases b with
      | false =>
          rw [text] at hc
          exact forall_mem_of_all (by decide) c hc
      | true =>
          rw [text] at hc
          exact forall_mem_of_all (by decide) c hc
  | number hn => exact printed_of_mem_numeral hn (by simpa [text] using hc)
  | string s =>
      simp only [text, List.mem_cons, List.mem_append, List.not_mem_nil, or_false,
        List.cons_append] at hc
      rcases hc with rfl | hc | rfl
      · exact (by decide : Printed '"')
      · exact not_control_of_mem_escape hc
      · exact (by decide : Printed '"')
  | array hw ih =>
      simp only [text, List.mem_cons, List.mem_append, List.not_mem_nil, or_false,
        List.cons_append] at hc
      rcases hc with rfl | hc | rfl
      · exact (by decide : Printed '[')
      · rcases mem_itemsText hc with rfl | ⟨item, hitem, hc⟩
        · exact (by decide : Printed ',')
        · exact ih item hitem hc
      · exact (by decide : Printed ']')
  | object hn hw ih =>
      simp only [text, List.mem_cons, List.mem_append, List.not_mem_nil, or_false,
        List.cons_append] at hc
      rcases hc with rfl | hc | rfl
      · exact (by decide : Printed '\x7b')
      · rcases mem_membersText hc with hc | ⟨m, hm, hc | hc⟩
        · exact forall_mem_of_all (by decide) c hc
        · obtain ⟨s, hs⟩ := hn m hm
          rw [hs] at hc
          exact not_control_of_mem_escape hc
        · exact ih m hm hc
      · exact (by decide : Printed '\x7d')

end Json
end ExtentEngine
