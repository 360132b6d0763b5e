import ExtentEngine.Proofs.Json.Values
import Mathlib.Data.List.DropRight

/-!
# Values that break off

A parser takes a token without looking behind it, numerals apart.  So what was read from the front
of a text is read from the front of a longer text as well, and the text of an object of which the
end is missing is no value.

**Results.**
* `takeValue_append`: a value is still there if more follows.
* `parse_of_isPrefix`: an object that breaks off cannot be read.
-/

namespace ExtentEngine
namespace Json

variable {s rest : List Char}

theorem skipBlanks_append {c : Char} (h : skipBlanks s = c :: rest) (more : List Char) :
    skipBlanks (s ++ more) = c :: (rest ++ more) := by
  rw [skipBlanks] at h
  rw [skipBlanks, List.dropWhile_append, h]
  rfl

theorem skipBlanks_eq_self {c : Char} (h : skipBlanks s = c :: rest) :
    skipBlanks (c :: rest) = c :: rest := by
  rw [← h]
  exact List.dropWhile_idempotent isBlank s

theorem takeString_append {raw : List Char} (h : takeString s = some (raw, rest))
    (more : List Char) : takeString (s ++ more) = some (raw, rest ++ more) := by
  fun_induction takeString s generalizing raw with
  | case1 => cases h
  | case2 =>
      cases h
      simp [takeString]
  | case3 a b c d s hdigits ih =>
      obtain ⟨⟨raw', rest'⟩, hs, heq⟩ := Option.map_eq_some_iff.1 h
      cases heq
      simp [takeString, hdigits, ih hs]
  | case4 => cases h
  | case5 c s hother hescape ih =>
      obtain ⟨⟨raw', rest'⟩, hs, heq⟩ := Option.map_eq_some_iff.1 h
      cases heq
      have hu : c ≠ 'u' := by
        rintro rfl
        cases hescape
      rw [List.cons_append, List.cons_append, takeString]
      · simp [hescape, ih hs]
      · rintro a b c d s rfl
        exact absurd rfl hu
  | case6 => cases h
  | case7 => cases h
  | case8 c s hquote hfour hpair hplain ih =>
      obtain ⟨⟨raw', rest'⟩, hs, heq⟩ := Option.map_eq_some_iff.1 h
      cases heq
      have hescape : c ≠ '\\' := by
        rintro rfl
        exact hplain rfl
      rw [List.cons_append, takeString]
      · simp [hplain, ih hs]
      · exact hquote
      · exact fun _ _ _ _ _ hc => absurd hc hescape
      · exact fun _ _ hc => absurd hc hescape

/-- Digits end where something else stands. -/
theorem takeDigits_append_of_ne_nil {digits : List Char} (h : takeDigits s = (digits, rest))
    (hrest : rest ≠ []) (more : List Char) :
    takeDigits (s ++ more) = (digits, rest ++ more) := by
  rw [takeDigits, List.span_eq_takeWhile_dropWhile] at h
  obtain ⟨rfl, rfl⟩ := Prod.mk.inj h
  rw [takeDigits, List.span_eq_takeWhile_dropWhile, List.dropWhile_append,
    if_neg (by simpa using hrest), List.takeWhile_append, if_neg]
  intro hlength
  have hwhole := congrArg List.length (List.takeWhile_append_dropWhile
    (p := Digits.isDigit 10) (l := s))
  rw [List.length_append, hlength] at hwhole
  exact hrest (List.length_eq_zero_iff.1 (by omega))

theorem takeFraction_append {fraction : List Char} (h : takeFraction s = some (fraction, rest))
    (hrest : rest ≠ []) (more : List Char) :
    takeFraction (s ++ more) = some (fraction, rest ++ more) := by
  unfold takeFraction at h
  split at h
  · next s' =>
      rcases hdigits : takeDigits s' with ⟨digits, rest'⟩
      simp only [hdigits] at h
      split at h
      · cases h
      · next hne =>
          cases h
          simp [takeFraction, takeDigits_append_of_ne_nil hdigits hrest, hne]
  · next hpoint =>
      cases h
      obtain ⟨c, cs, rfl⟩ := List.exists_cons_of_ne_nil hrest
      rw [List.cons_append, takeFraction]
      rintro _ ⟨rfl, -⟩
      exact hpoint _ rfl

theorem takeSign_append {sign : ExponentSign} (h : takeSign s = (sign, rest)) (hs : s ≠ [])
    (more : List Char) : takeSign (s ++ more) = (sign, rest ++ more) := by
  obtain ⟨c, cs, rfl⟩ := List.exists_cons_of_ne_nil hs
  unfold takeSign at h
  split at h
  · next heq =>
      cases heq
      cases h
      rfl
  · next heq =>
      cases heq
      cases h
      rfl
  · next hplus hminus =>
      cases h
      rw [List.cons_append, takeSign]
      · rintro _ ⟨rfl, -⟩
        exact hplus _ rfl
      · rintro _ ⟨rfl, -⟩
        exact hminus _ rfl

theorem takeExponent_append {exponent : Option (ExponentSign × List Char)}
    (h : takeExponent s = some (exponent, rest)) (hrest : rest ≠ []) (more : List Char) :
    takeExponent (s ++ more) = some (exponent, rest ++ more) := by
  cases s with
  | nil =>
      cases h
      exact absurd rfl hrest
  | cons c s =>
      rw [takeExponent] at h
      rw [List.cons_append, takeExponent]
      split at h
      · next hmark =>
          rcases hsign : takeSign s with ⟨sign, s'⟩
          rcases hdigits : takeDigits s' with ⟨digits, rest'⟩
          simp only [hsign, hdigits] at h
          split at h
          · cases h
          · next hne =>
              cases h
              have hs : s ≠ [] := by
                rintro rfl
                cases hsign
                cases hdigits
                exact hne rfl
              simp [hmark, takeSign_append hsign hs, takeDigits_append_of_ne_nil hdigits hrest, hne]
      · next hmark =>
          cases h
          rw [if_neg hmark]
          rfl

theorem takeUnsigned_append {negative : Bool} {numeral : Numeral}
    (h : takeUnsigned negative s = some (numeral, rest)) (hrest : rest ≠ []) (more : List Char) :
    takeUnsigned negative (s ++ more) = some (numeral, rest ++ more) := by
  rcases hwhole : takeDigits s with ⟨whole, s₁⟩
  rw [takeUnsigned, hwhole] at h
  simp only at h
  split at h
  · cases h
  · next hgood =>
      split at h
      · cases h
      · next fraction s₂ hfraction =>
          split at h
          · cases h
          · next exponent s₃ hexponent =>
              cases h
              have hne₂ : s₂ ≠ [] := by
                rintro rfl
                cases hexponent
                exact hrest rfl
              have hne₁ : s₁ ≠ [] := by
                rintro rfl
                cases hfraction
                exact hne₂ rfl
              simp only [takeUnsigned, takeDigits_append_of_ne_nil hwhole hne₁ more, if_neg hgood,
                takeFraction_append hfraction hne₂ more, takeExponent_append hexponent hrest more]

theorem takeNumeral_append {numeral : Numeral} (h : takeNumeral s = some (numeral, rest))
    (hrest : rest ≠ []) (more : List Char) :
    takeNumeral (s ++ more) = some (numeral, rest ++ more) := by
  unfold takeNumeral at h
  split at h
  · exact takeUnsigned_append h hrest more
  · next hsign =>
      have hunsigned := takeUnsigned_append h hrest more
      cases s with
      | nil => cases h
      | cons c s =>
          rw [List.cons_append, takeNumeral]
          · exact hunsigned
          · rintro _ ⟨rfl, -⟩
            exact hsign _ rfl

/-- A numeral begins with a sign or with a digit. -/
theorem begins_of_takeNumeral {numeral : Numeral} (h : takeNumeral s = some (numeral, rest)) :
    ∃ c cs, s = c :: cs ∧ (c = '-' ∨ Digits.isDigit 10 c = true) := by
  unfold takeNumeral at h
  split at h
  · exact ⟨_, _, rfl, Or.inl rfl⟩
  · cases s with
    | nil => cases h
    | cons c s =>
        refine ⟨c, s, rfl, Or.inr ?_⟩
        by_contra hdigit
        have hnone : takeDigits (c :: s) = ([], c :: s) :=
          takeDigits_append (List.forall_mem_nil _) ((Bool.not_eq_true _).mp hdigit)
        rw [takeUnsigned, hnone] at h
        cases h

theorem takeName_append {name : List Char} (h : takeName s = some (name, rest))
    (more : List Char) : takeName (s ++ more) = some (name, rest ++ more) := by
  unfold takeName at h
  split at h
  · next s' hquote =>
      split at h
      · cases h
      · next name' s'' hstring =>
          split at h
          · next rest' hcolon =>
              cases h
              simp only [takeName, skipBlanks_append hquote, takeString_append hstring,
                skipBlanks_append hcolon]
          · cases h
  · cases h

theorem takeValue_nil (fuel : Nat) : takeValue fuel [] = none := by
  cases fuel with
  | zero => rfl
  | succ fuel => rfl

/-- Values between brackets begin with something. -/
theorem exists_of_takeItems {fuel : Nat} {items : List Json}
    (h : takeItems fuel s = some (items, rest)) : ∃ c cs, s = c :: cs := by
  refine List.exists_cons_of_ne_nil ?_
  rintro rfl
  cases fuel with
  | zero => cases h
  | succ fuel =>
      rw [takeItems, takeValue_nil] at h
      cases h

theorem exists_of_takeMembers {fuel : Nat} {members : List (List Char × Json)}
    (h : takeMembers fuel s = some (members, rest)) : ∃ c cs, s = c :: cs := by
  refine List.exists_cons_of_ne_nil ?_
  rintro rfl
  cases fuel with
  | zero => cases h
  | succ fuel => cases h

/-- Whether values are read alike if more follows, and with more fuel. -/
structure Extends (fuel : Nat) : Prop where
  value : ∀ {s rest : List Char} {value : Json}, takeValue fuel s = some (value, rest) →
    (rest = [] → ∀ numeral, value ≠ .number numeral) →
      ∀ more fuel', fuel ≤ fuel' → takeValue fuel' (s ++ more) = some (value, rest ++ more)
  items : ∀ {s rest : List Char} {items : List Json}, takeItems fuel s = some (items, rest) →
    ∀ more fuel', fuel ≤ fuel' → takeItems fuel' (s ++ more) = some (items, rest ++ more)
  members : ∀ {s rest : List Char} {members : List (List Char × Json)},
    takeMembers fuel s = some (members, rest) →
      ∀ more fuel', fuel ≤ fuel' → takeMembers fuel' (s ++ more) = some (members, rest ++ more)

theorem takeItems_extends {fuel : Nat} (h : Extends fuel) {items : List Json}
    (hitems : takeItems (fuel + 1) s = some (items, rest)) (more : List Char) (fuel' : Nat)
    (hfuel : fuel ≤ fuel') : takeItems (fuel' + 1) (s ++ more) = some (items, rest ++ more) := by
  rw [takeItems] at hitems
  split at hitems
  · cases hitems
  · next item behind hitem =>
      split at hitems
      · next rest' hcomma =>
          obtain ⟨⟨others, rest''⟩, hothers, heq⟩ := Option.map_eq_some_iff.1 hitems
          cases heq
          have hne : behind ≠ [] := by
            rintro rfl
            cases hcomma
          rw [takeItems, h.value hitem (fun hnil => absurd hnil hne) more fuel' hfuel]
          simp only [skipBlanks_append hcomma, h.items hothers more fuel' hfuel, Option.map_some]
      · next rest' hclose =>
          cases hitems
          have hne : behind ≠ [] := by
            rintro rfl
            cases hclose
          rw [takeItems, h.value hitem (fun hnil => absurd hnil hne) more fuel' hfuel]
          simp only [skipBlanks_append hclose]
      · cases hitems

theorem takeMembers_extends {fuel : Nat} (h : Extends fuel) {members : List (List Char × Json)}
    (hmembers : takeMembers (fuel + 1) s = some (members, rest)) (more : List Char) (fuel' : Nat)
    (hfuel : fuel ≤ fuel') :
    takeMembers (fuel' + 1) (s ++ more) = some (members, rest ++ more) := by
  rw [takeMembers] at hmembers
  split at hmembers
  · cases hmembers
  · next name behind hname =>
      split at hmembers
      · cases hmembers
      · next value behind' hvalue =>
          rw [takeMembers, takeName_append hname more]
          split at hmembers
          · next rest' hcomma =>
              obtain ⟨⟨others, rest''⟩, hothers, heq⟩ := Option.map_eq_some_iff.1 hmembers
              cases heq
              have hne : behind' ≠ [] := by
                rintro rfl
                cases hcomma
              simp only [h.value hvalue (fun hnil => absurd hnil hne) more fuel' hfuel,
                skipBlanks_append hcomma, h.members hothers more fuel' hfuel, Option.map_some]
          · next rest' hclose =>
              cases hmembers
              have hne : behind' ≠ [] := by
                rintro rfl
                cases hclose
              simp only [h.value hvalue (fun hnil => absurd hnil hne) more fuel' hfuel,
                skipBlanks_append hclose]
          · cases hmembers

theorem takeValue_extends {fuel : Nat} (h : Extends fuel) {value : Json}
    (hvalue : takeValue (fuel + 1) s = some (value, rest))
    (hnumber : rest = [] → ∀ numeral, value ≠ .number numeral) (more : List Char) (fuel' : Nat)
    (hfuel : fuel ≤ fuel') : takeValue (fuel' + 1) (s ++ more) = some (value, rest ++ more) := by
  rw [takeValue] at hvalue
  split at hvalue
  · next hs =>
      cases hvalue
      simp only [takeValue, skipBlanks_append hs, List.cons_append]
  · next hs =>
      cases hvalue
      simp only [takeValue, skipBlanks_append hs, List.cons_append]
  · next hs =>
      cases hvalue
      simp only [takeValue, skipBlanks_append hs, List.cons_append]
  · next hs =>
      obtain ⟨⟨raw, rest'⟩, hstring, heq⟩ := Option.map_eq_some_iff.1 hvalue
      cases heq
      simp only [takeValue, skipBlanks_append hs, takeString_append hstring, Option.map_some]
  · next inside hs =>
      split at hvalue
      · next hclose =>
          cases hvalue
          simp only [takeValue, skipBlanks_append hs, skipBlanks_append hclose]
      · next hopen =>
          obtain ⟨⟨items, rest'⟩, hitems, heq⟩ := Option.map_eq_some_iff.1 hvalue
          cases heq
          obtain ⟨c, cs, hinside⟩ := exists_of_takeItems hitems
          rw [hinside] at hitems hopen
          have hread := h.items hitems more fuel' hfuel
          simp only [takeValue, skipBlanks_append hs, skipBlanks_append hinside]
          split
          · next heq =>
              obtain ⟨rfl, -⟩ := List.cons.inj heq
              exact absurd rfl (hopen _)
          · rw [← List.cons_append, hread]
            rfl
  · next inside hs =>
      split at hvalue
      · next hclose =>
          cases hvalue
          simp only [takeValue, skipBlanks_append hs, skipBlanks_append hclose]
      · next hopen =>
          obtain ⟨⟨members, rest'⟩, hmembers, heq⟩ := Option.map_eq_some_iff.1 hvalue
          cases heq
          obtain ⟨c, cs, hinside⟩ := exists_of_takeMembers hmembers
          rw [hinside] at hmembers hopen
          have hread := h.members hmembers more fuel' hfuel
          simp only [takeValue, skipBlanks_append hs, skipBlanks_append hinside]
          split
          · next heq =>
              obtain ⟨rfl, -⟩ := List.cons.inj heq
              exact absurd rfl (hopen _)
          · rw [← List.cons_append, hread]
            rfl
  · next hs =>
      obtain ⟨⟨numeral, rest'⟩, hnumeral, heq⟩ := Option.map_eq_some_iff.1 hvalue
      cases heq
      obtain ⟨c, cs, hbegins, hc⟩ := begins_of_takeNumeral hnumeral
      have hrest : rest ≠ [] := fun hnil => hnumber hnil numeral rfl
      rw [hbegins] at hnumeral
      have hread := takeNumeral_append hnumeral hrest more
      have hskip := takeValue_numeral hc (cs ++ more) fuel'
      rw [takeValue, skipBlanks_eq_self (skipBlanks_append hbegins more)] at hskip
      rw [takeValue, skipBlanks_append hbegins more, hskip, ← List.cons_append, hread]
      rfl

theorem extends_all (fuel : Nat) : Extends fuel := by
  induction fuel with
  | zero =>
      refine ⟨fun h => ?_, fun h => ?_, fun h => ?_⟩
      · cases h
      · cases h
      · cases h
  | succ fuel ih =>
      refine ⟨fun hvalue hnumber more fuel' hfuel => ?_, fun hitems more fuel' hfuel => ?_,
        fun hmembers more fuel' hfuel => ?_⟩
      · obtain ⟨fuel', rfl⟩ : ∃ k, fuel' = k + 1 := ⟨fuel' - 1, by omega⟩
        exact takeValue_extends ih hvalue hnumber more fuel' (Nat.le_of_succ_le_succ hfuel)
      · obtain ⟨fuel', rfl⟩ : ∃ k, fuel' = k + 1 := ⟨fuel' - 1, by omega⟩
        exact takeItems_extends ih hitems more fuel' (Nat.le_of_succ_le_succ hfuel)
      · obtain ⟨fuel', rfl⟩ : ∃ k, fuel' = k + 1 := ⟨fuel' - 1, by omega⟩
        exact takeMembers_extends ih hmembers more fuel' (Nat.le_of_succ_le_succ hfuel)

/-- A value that is no numeral up to the end of the text is still there if more follows. -/
theorem takeValue_append {fuel fuel' : Nat} {value : Json}
    (h : takeValue fuel s = some (value, rest))
    (hnumber : rest = [] → ∀ numeral, value ≠ .number numeral) (more : List Char)
    (hfuel : fuel ≤ fuel') : takeValue fuel' (s ++ more) = some (value, rest ++ more) :=
  (extends_all fuel).value h hnumber more fuel' hfuel

/-- Behind a brace there is no numeral. -/
theorem ne_number_of_takeValue {fuel : Nat} {value : Json}
    (h : takeValue fuel ('\x7b' :: s) = some (value, rest)) (numeral : Numeral) :
    value ≠ .number numeral := by
  rintro rfl
  cases fuel with
  | zero => cases h
  | succ fuel =>
      have hopen : Begins '\x7b' := by simp [Begins]
      rw [takeValue, skipBlanks_of_begins hopen] at h
      simp only at h
      split at h
      · cases h
      · obtain ⟨_, -, heq⟩ := Option.map_eq_some_iff.1 h
        cases heq

/-- An object that breaks off cannot be read. -/
theorem parse_of_isPrefix {members : List (List Char × Json)} {cut : List Char}
    (h : (object members).Written) (hcut : cut <+: (object members).text)
    (hshort : cut ≠ (object members).text) : parse cut = none := by
  obtain ⟨more, hmore⟩ := hcut
  rw [parse]
  split
  · next value rest hvalue =>
      exfalso
      have hnumber : ∀ numeral, value ≠ .number numeral := by
        cases cut with
        | nil =>
            rw [takeValue_nil] at hvalue
            cases hvalue
        | cons c cs =>
            rw [text] at hmore
            obtain ⟨rfl, -⟩ := List.cons.inj hmore
            exact ne_number_of_takeValue hvalue
      have hlength : 2 * cut.length + 2 ≤ 2 * (object members).text.length + 2 := by
        rw [← hmore, List.length_append]
        omega
      have hwhole := takeValue_text h _ [] (Nat.le_add_right _ 2) trivial
      rw [List.append_nil, ← hmore, takeValue_append hvalue (fun _ => hnumber) more
        (hmore.symm ▸ hlength)] at hwhole
      obtain ⟨-, hnil⟩ := Prod.mk.inj (Option.some.inj hwhole)
      obtain ⟨-, rfl⟩ := List.append_eq_nil_iff.1 hnil
      exact hshort (List.append_nil cut ▸ hmore)
  · rfl

end Json
end ExtentEngine
