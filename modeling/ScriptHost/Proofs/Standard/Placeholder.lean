import ScriptHost.Standard.Placeholder
/-!
# Placeholders are filled in by a single pass

What a template is filled in to is said here without the reader of placeholders: `Fills` goes over
the template from left to right, puts an argument's text in the place of a placeholder and copies
every other character. Formatting does just that, and nothing else: `format_fills`. What an argument
brings in is never gone over again, and a brace that opens no placeholder stops none behind it.

A placeholder holds decimal digits, which may have one plus sign in front. The sign is no part of
what a placeholder is said to hold: `signed_placeholder_is_filled`.
-/

set_option autoImplicit false

namespace ScriptHost.Placeholder

variable {args : List Value} {cs inner after shown : List Char} {index : Nat}

/-- A text of decimal digits, at least one, spells a number. -/
structure Numeral (digits : List Char) (number : Nat) : Prop where
  nonempty : digits ≠ []
  allDigits : ∀ c ∈ digits, isDigit c = true
  value : Decimal.ofDigits digits = number

/-- A numeral, or a plus sign and a numeral. -/
def SignedNumeral (cs : List Char) (number : Nat) : Prop :=
  Numeral cs number ∨ ∃ digits, cs = '+' :: digits ∧ Numeral digits number

/-- A placeholder for one of the arguments stands at the front of the text. -/
def Opens (numeral : List Char → Nat → Prop) (args : List Value) (cs : List Char) : Prop :=
  ∃ inner after index,
    cs = '{' :: (inner ++ '}' :: after) ∧ numeral inner index ∧ index < args.length

/-- Filling in a text, from left to right. The texts that may stand in a placeholder, and the
indices that they spell, are those of `numeral`. -/
inductive Fills (numeral : List Char → Nat → Prop) (args : List Value) :
    List Char → List Char → Prop
  | done : Fills numeral args [] []
  | slot {inner after shown : List Char} {index : Nat} {value : Value}
      (spells : numeral inner index) (stands : args[index]? = some value)
      (rest : Fills numeral args after shown) :
      Fills numeral args ('{' :: (inner ++ '}' :: after)) (value.text.toList ++ shown)
  | copy {c : Char} {cs shown : List Char} (plain : ¬ Opens numeral args (c :: cs))
      (rest : Fills numeral args cs shown) : Fills numeral args (c :: cs) (c :: shown)

/-! ## Numerals -/

theorem indexDigits_of_ne (h : ∀ digits, cs ≠ '+' :: digits) : indexDigits cs = cs := by
  unfold indexDigits
  split
  · rename_i digits
    exact absurd rfl (h digits)
  · rfl

theorem isDigit_plus : isDigit '+' = false := by decide

theorem isDigit_brace : isDigit '}' = false := by decide

/-- No numeral begins with a sign. -/
theorem Numeral.ne_plus (h : Numeral cs index) (digits : List Char) : cs ≠ '+' :: digits := by
  rintro rfl
  have hplus := h.allDigits '+' List.mem_cons_self
  rw [isDigit_plus] at hplus
  cases hplus

theorem numeral_iff :
    Numeral cs index ↔
      (!cs.isEmpty && cs.all isDigit) = true ∧ Decimal.ofDigits cs = index := by
  rw [Bool.and_eq_true, Bool.not_eq_true', List.isEmpty_eq_false_iff, List.all_eq_true]
  exact ⟨fun ⟨hne, hall, hvalue⟩ => ⟨⟨hne, hall⟩, hvalue⟩, fun ⟨⟨hne, hall⟩, hvalue⟩ =>
    ⟨hne, hall, hvalue⟩⟩

theorem signedNumeral_iff : SignedNumeral cs index ↔ Numeral (indexDigits cs) index := by
  by_cases hplus : ∃ digits, cs = '+' :: digits
  · obtain ⟨digits, rfl⟩ := hplus
    constructor
    · rintro (h | ⟨digits', hdigits, h⟩)
      · exact absurd rfl (h.ne_plus digits)
      · obtain rfl := (List.cons.inj hdigits).2
        exact h
    · exact fun h => .inr ⟨digits, rfl, h⟩
  · have hnone := not_exists.mp hplus
    rw [indexDigits_of_ne hnone]
    exact ⟨fun h => h.resolve_right fun ⟨digits, hdigits, _⟩ => hnone digits hdigits, .inl⟩

/-- The reader of indices reads signed numerals. -/
theorem index?_eq_some_iff : index? cs = some index ↔ SignedNumeral cs index := by
  rw [signedNumeral_iff, numeral_iff]
  unfold index?
  dsimp only
  split
  · rename_i hdigits
    simp [hdigits]
  · rename_i hdigits
    simp [hdigits]

/-- No brace stands in a placeholder. -/
theorem SignedNumeral.isInner (h : SignedNumeral inner index) : ∀ c ∈ inner, isInner c = true := by
  have hdigits {digits : List Char} (hnumeral : Numeral digits index) (c : Char)
      (hc : c ∈ digits) : Placeholder.isInner c = true := by
    refine bne_iff_ne.mpr fun hbrace => ?_
    have hdigit := hnumeral.allDigits c hc
    rw [hbrace, isDigit_brace] at hdigit
    cases hdigit
  obtain hnumeral | ⟨digits, rfl, hnumeral⟩ := h
  · exact hdigits hnumeral
  · exact List.forall_mem_cons.mpr ⟨by decide, hdigits hnumeral⟩

/-! ## One placeholder -/

/-- The reader of placeholders finds a signed numeral, the brace behind it and the argument. -/
theorem slot?_eq_some_iff :
    slot? args cs = some (shown, after) ↔ ∃ inner index value,
      cs = inner ++ '}' :: after ∧ SignedNumeral inner index ∧ args[index]? = some value ∧
        shown = value.text.toList := by
  constructor
  · intro h
    unfold slot? at h
    split at h
    · cases h
    · rename_i brace rest hdrop
      split at h
      · rename_i value hvalue
        cases h
        obtain ⟨index, hindex, hstands⟩ := Option.bind_eq_some_iff.mp hvalue
        have hbrace : brace = '}' := by
          have hnot := List.head_dropWhile_not isInner (by rw [hdrop]; exact List.cons_ne_nil _ _)
          simp only [hdrop, List.head_cons] at hnot
          simpa [isInner] using hnot
        refine ⟨_, index, value, ?_, index?_eq_some_iff.mp hindex, hstands, rfl⟩
        rw [← hbrace, ← hdrop, List.takeWhile_append_dropWhile]
      · cases h
  · rintro ⟨inner, index, value, rfl, hnumeral, hstands, rfl⟩
    have hbrace : ¬ isInner '}' = true := by decide
    unfold slot?
    rw [List.dropWhile_append_of_pos hnumeral.isInner, List.dropWhile_cons_of_neg hbrace,
      List.takeWhile_append_of_pos hnumeral.isInner, List.takeWhile_cons_of_neg hbrace,
      List.append_nil, index?_eq_some_iff.mpr hnumeral, Option.bind_some, hstands]

theorem opens_iff : Opens SignedNumeral args ('{' :: cs) ↔ slot? args cs ≠ none := by
  constructor
  · rintro ⟨inner, after, index, hcs, hnumeral, hlt⟩ hnone
    have hslot : slot? args cs = some (args[index].text.toList, after) :=
      slot?_eq_some_iff.mpr ⟨inner, index, args[index], (List.cons.inj hcs).2, hnumeral,
        List.getElem?_eq_getElem hlt, rfl⟩
    rw [hslot] at hnone
    cases hnone
  · intro hsome
    obtain ⟨⟨shown, after⟩, hslot⟩ := Option.ne_none_iff_exists'.mp hsome
    obtain ⟨inner, index, value, rfl, hnumeral, hstands, rfl⟩ := slot?_eq_some_iff.mp hslot
    exact ⟨inner, after, index, rfl, hnumeral, (List.getElem?_eq_some_iff.mp hstands).1⟩

/-! ## The pass -/

/-- What has been written stands in front. -/
theorem fill_eq_append (done cs : List Char) : fill args done cs = done.reverse ++ fill args [] cs := by
  induction hlength : cs.length using Nat.strongRecOn generalizing done cs with
  | ind n ih =>
    have hpast (c : Char) (rest : List Char) (hrest : rest.length < n) :
        fill args (c :: done) rest = done.reverse ++ fill args [c] rest := by
      rw [ih rest.length hrest (c :: done) rest rfl, ih rest.length hrest [c] rest rfl]
      simp
    cases cs with
    | nil => simp [fill]
    | cons c rest =>
      have hrest : rest.length < n := hlength ▸ Nat.lt_succ_self _
      rw [fill, fill]
      split
      · cases hslot : slot? args rest with
        | none => exact hpast c rest hrest
        | some found =>
          obtain ⟨shown, after⟩ := found
          have hafter : after.length < n := hlength ▸ slot?_rest_length hslot
          dsimp only
          rw [ih after.length hafter (shown.reverse ++ done) after rfl,
            ih after.length hafter (shown.reverse ++ []) after rfl]
          simp
      · exact hpast c rest hrest

theorem fill_slot (h : slot? args cs = some (shown, after)) :
    fill args [] ('{' :: cs) = shown ++ fill args [] after := by
  rw [fill, if_pos rfl]
  split
  · rename_i shown' after' hslot
    obtain ⟨rfl, rfl⟩ := Prod.mk.inj (Option.some.inj (hslot.symm.trans h))
    rw [fill_eq_append]
    simp
  · rename_i hslot
    rw [hslot] at h
    cases h

theorem fill_copy {c : Char} (h : ¬ Opens SignedNumeral args (c :: cs)) :
    fill args [] (c :: cs) = c :: fill args [] cs := by
  rw [fill]
  split
  · rename_i hbrace
    subst hbrace
    rw [opens_iff, Classical.not_not] at h
    split
    · rename_i hslot
      rw [hslot] at h
      cases h
    · exact fill_eq_append ['{'] cs
  · exact fill_eq_append [c] cs

theorem Fills.eq_fill (h : Fills SignedNumeral args cs shown) : shown = fill args [] cs := by
  induction h with
  | done => rw [fill, List.reverse_nil]
  | slot spells stands rest ih =>
    rw [fill_slot (slot?_eq_some_iff.mpr ⟨_, _, _, rfl, spells, stands, rfl⟩), ih]
  | copy plain rest ih => rw [fill_copy plain, ih]

theorem fills_fill (cs : List Char) : Fills SignedNumeral args cs (fill args [] cs) := by
  induction hlength : cs.length using Nat.strongRecOn generalizing cs with
  | ind n ih =>
    cases cs with
    | nil =>
      rw [fill, List.reverse_nil]
      exact .done
    | cons c rest =>
      by_cases hopens : Opens SignedNumeral args (c :: rest)
      · obtain ⟨inner, after, index, hcs, hnumeral, hlt⟩ := hopens
        obtain ⟨rfl, rfl⟩ := List.cons.inj hcs
        have hstands : args[index]? = some args[index] := List.getElem?_eq_getElem hlt
        rw [fill_slot (slot?_eq_some_iff.mpr ⟨_, _, _, rfl, hnumeral, hstands, rfl⟩)]
        refine .slot hnumeral hstands (ih after.length ?_ after rfl)
        rw [← hlength, List.length_cons, List.length_append, List.length_cons]
        omega
      · rw [fill_copy hopens]
        exact .copy hopens (ih rest.length (hlength ▸ Nat.lt_succ_self _) rest rfl)

/-- Where there are no arguments there are no placeholders. -/
theorem fills_none {numeral : List Char → Nat → Prop} (cs : List Char) : Fills numeral [] cs cs := by
  induction cs with
  | nil => exact .done
  | cons c cs ih => exact .copy (fun ⟨_, _, _, _, _, hlt⟩ => absurd hlt (Nat.not_lt_zero _)) ih

theorem fills_iff {template text : String} :
    Fills SignedNumeral args template.toList text.toList ↔ format template args = text := by
  constructor
  · intro h
    rw [format, ← h.eq_fill, String.ofList_toList]
  · rintro rfl
    rw [format, String.toList_ofList]
    exact fills_fill _

/-- **Placeholders are filled in by a single pass from left to right.** Whatever the template and
the arguments, one text is the template filled in, and it is what formatting yields. Without
arguments that is the template. -/
theorem format_fills (template : String) (args : List Value) :
    (∀ text : String, Fills SignedNumeral args template.toList text.toList ↔
      format template args = text) ∧ format template [] = template :=
  ⟨fun _ => fills_iff, fills_iff.mp (fills_none _)⟩

/-- Where placeholders hold digits only, a brace with a sign behind it opens none. -/
theorem Fills.head?_signed (h : Fills Numeral args ('{' :: '+' :: cs) shown) :
    shown.head? = some '{' := by
  generalize hwhole : '{' :: '+' :: cs = whole at h
  cases h with
  | done => cases hwhole
  | @slot inner after shown index value spells stands rest =>
    obtain ⟨-, hinner⟩ := List.cons.inj hwhole
    cases inner with
    | nil => exact absurd rfl spells.nonempty
    | cons c inner =>
      obtain ⟨rfl, -⟩ := List.cons.inj hinner
      exact absurd rfl (spells.ne_plus inner)
  | copy plain rest =>
    obtain ⟨rfl, -⟩ := List.cons.inj hwhole
    rfl

/-- A plus sign in braces does not keep an argument out, although it is no digit. -/
theorem signed_placeholder_is_filled :
    format "{+0}" [.int 7] = "7" ∧
      ¬ Fills Numeral [.int 7] "{+0}".toList (format "{+0}" [.int 7]).toList := by
  have hdigit : ∀ c ∈ ['0'], isDigit c = true := List.forall_mem_singleton.mpr (by decide)
  have hsigned : SignedNumeral ['+', '0'] 0 := .inr ⟨['0'], rfl, by simp, hdigit, rfl⟩
  have hstands : ([.int 7] : List Value)[0]? = some (.int 7) := rfl
  have hfills : Fills SignedNumeral [.int 7] "{+0}".toList "7".toList :=
    .slot hsigned hstands .done
  have hformat : format "{+0}" [.int 7] = "7" := fills_iff.mp hfills
  refine ⟨hformat, fun h => ?_⟩
  rw [hformat] at h
  cases h.head?_signed

end ScriptHost.Placeholder
