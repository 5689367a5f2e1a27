import ScriptHost.Program.Build
import ScriptHost.Proofs.Grammar.Seam.Join
import ScriptHost.Proofs.Scope.Bare
import ScriptHost.Proofs.Token.Join
/-!
# How a unit is cut into files

Two source texts can be one, the second on a new line behind the first, if the first ends where a
statement may end. The unit stays the same, and so does all that is said about it, but for places.
-/

set_option autoImplicit false

namespace ScriptHost

open Grammar

/-- Where a text stands is nothing to what is read off it. -/
theorem read_bare (source : String) (file file' : Nat) :
    ReadSame SameItems (read source file) (read source file') := by
  have hlex := lex_bare source file file'
  unfold read
  cases hfirst : lex source file with
  | error errors =>
    rw [hfirst] at hlex
    cases hother : lex source file' with
    | error errors' =>
      rw [hother] at hlex
      cases hlex with
      | error hsame => exact .error hsame
    | ok lexemes' =>
      rw [hother] at hlex
      cases hlex
  | ok lexemes =>
    rw [hfirst] at hlex
    cases hother : lex source file' with
    | error errors' =>
      rw [hother] at hlex
      cases hlex
    | ok lexemes' =>
      rw [hother] at hlex
      cases hlex with
      | ok htokens => exact parse_bare (lex_ended hfirst) htokens

/-- The last token of a text, if it has one, is a semicolon or a closing brace. -/
def Closed (source : String) (file : Nat) : Prop :=
  ∃ lexemes, lex source file = .ok lexemes ∧
    ∀ lexeme ∈ lexemes.dropLast.getLast?, lexeme.token = .semicolon ∨ lexeme.token = .rbrace

/-- Two texts on lines of their own are read as the items of both. -/
theorem read_join {first second : String} {file other : Nat} {items items' : List Item}
    (hclosed : Closed first file) (hfirst : read first file = .ok items)
    (hsecond : read second other = .ok items') :
    ∃ joined, read (first ++ "\n" ++ second) file = .ok joined ∧
      SameItems (items ++ items') joined := by
  obtain ⟨lexemes, hlex, hends⟩ := hclosed
  unfold read at hfirst hsecond ⊢
  rw [hlex] at hfirst
  cases hother : lex second other with
  | error errors =>
    rw [hother] at hsecond
    cases hsecond
  | ok lexemes' =>
    rw [hother] at hsecond
    obtain ⟨front, last, rest, rfl, hlast, hjoined, htokens⟩ := lex_join hlex hother
    rw [List.dropLast_concat] at hends
    rw [hjoined]
    refine parse_join (lex_ended hlex) (fun lexeme hlexeme => ?_) (lex_ended hother) htokens.symm
      hfirst hsecond
    obtain hsemicolon | hbrace := hends lexeme hlexeme
    · rw [hsemicolon]
      rfl
    · rw [hbrace]
      rfl

/-! ## All texts of a unit -/

/-- The same items have been read, however cut, and the same is wrong with the texts. -/
structure FoundSame (found found' : ReadTexts) : Prop where
  items : SameItems found.texts.reverse.flatten found'.texts.reverse.flatten
  diagnostics : SaySame found.diagnostics.toList found'.diagnostics.toList

theorem FoundSame.add {found found' : ReadTexts} (h : FoundSame found found') (source : String)
    (file file' : Nat) : FoundSame (found.add source file) (found'.add source file') := by
  have hread := read_bare source file file'
  unfold ReadTexts.add
  cases hfirst : read source file with
  | error errors =>
    rw [hfirst] at hread
    cases hother : read source file' with
    | error errors' =>
      rw [hother] at hread
      cases hread with
      | error hsame =>
        refine ⟨h.items, ?_⟩
        dsimp only
        rw [Array.toList_appendList, Array.toList_appendList]
        exact h.diagnostics.append hsame
    | ok items' =>
      rw [hother] at hread
      cases hread
  | ok items =>
    rw [hfirst] at hread
    cases hother : read source file' with
    | error errors' =>
      rw [hother] at hread
      cases hread
    | ok items' =>
      rw [hother] at hread
      cases hread with
      | ok hitems =>
        refine ⟨?_, h.diagnostics⟩
        dsimp only
        rw [List.reverse_cons, List.reverse_cons, List.flatten_append, List.flatten_append,
          List.flatten_singleton, List.flatten_singleton]
        exact h.items.append hitems

/-- Texts may have other numbers. -/
theorem FoundSame.readTexts {found found' : ReadTexts} (h : FoundSame found found')
    (sources : List String) (file file' : Nat) (hfile : file + sources.length ≤ maxSourceTexts)
    (hfile' : file' + sources.length ≤ maxSourceTexts) :
    FoundSame (readTexts found file sources) (readTexts found' file' sources) := by
  induction sources generalizing found found' file file' with
  | nil => exact h
  | cons source rest ih =>
    rw [List.length_cons] at hfile hfile'
    rw [ScriptHost.readTexts, ScriptHost.readTexts, if_pos (by omega), if_pos (by omega)]
    exact ih (h.add source file file') _ _ (by omega) (by omega)

theorem readTexts_append (found : ReadTexts) (file : Nat) (front rest : List String)
    (hfile : file + front.length ≤ maxSourceTexts) :
    readTexts found file (front ++ rest) =
      readTexts (readTexts found file front) (file + front.length) rest := by
  induction front generalizing found file with
  | nil => rfl
  | cons source front ih =>
    rw [List.length_cons] at hfile ⊢
    rw [List.cons_append, readTexts, readTexts, if_pos (by omega), if_pos (by omega),
      ih _ _ (by omega), Nat.add_right_comm, Nat.add_assoc]

/-- What is built is the same if the same items have been read. -/
theorem build_same {sources sources' : List String} (env : Env)
    (h : FoundSame (readTexts {} 0 sources) (readTexts {} 0 sources')) :
    (build sources env).1 = (build sources' env).1 ∧
      SaySame (build sources env).2 (build sources' env).2 := by
  unfold build
  generalize readTexts {} 0 sources = found at h ⊢
  generalize readTexts {} 0 sources' = found' at h ⊢
  obtain ⟨hunit, hsame⟩ := resolve_bare h.items env
  have hempty : found.diagnostics.isEmpty = found'.diagnostics.isEmpty := by
    rw [Bool.eq_iff_iff, Array.isEmpty_iff, Array.isEmpty_iff, ← Array.toList_eq_nil_iff,
      h.diagnostics.nil_iff, Array.toList_eq_nil_iff]
  dsimp only
  rw [hempty]
  split
  · generalize resolve found.texts.reverse env = resolved at hunit hsame ⊢
    generalize resolve found'.texts.reverse env = resolved' at hunit hsame ⊢
    obtain ⟨unit, reported⟩ := resolved
    obtain ⟨unit', reported'⟩ := resolved'
    dsimp only at hunit hsame ⊢
    rw [hunit, hsame.any_isError]
    split
    · exact ⟨rfl, hsame⟩
    · split
      · exact ⟨rfl, hsame⟩
      · exact ⟨rfl, hsame.append (.refl _)⟩
  · exact ⟨rfl, h.diagnostics⟩

/-- Two adjacent texts can be one: the unit is the same, or there is none in either case, and the
diagnostics say the same in the same order. -/
theorem build_join (env : Env) (before after : List String) (first second : String)
    (hcount : (before ++ first :: second :: after).length ≤ maxSourceTexts)
    (hfirst : ∃ items, read first before.length = .ok items)
    (hsecond : ∃ items, read second (before.length + 1) = .ok items)
    (hclosed : Closed first before.length) :
    (build (before ++ first :: second :: after) env).1 =
        (build (before ++ (first ++ "\n" ++ second) :: after) env).1 ∧
      SaySame (build (before ++ first :: second :: after) env).2
        (build (before ++ (first ++ "\n" ++ second) :: after) env).2 := by
  obtain ⟨items, hitems⟩ := hfirst
  obtain ⟨items', hitems'⟩ := hsecond
  obtain ⟨joined, hjoined, hsame⟩ := read_join hclosed hitems hitems'
  rw [List.length_append, List.length_cons, List.length_cons] at hcount
  refine build_same env ?_
  rw [readTexts_append _ _ _ _ (by omega), readTexts_append _ _ _ _ (by omega), Nat.zero_add]
  generalize readTexts {} 0 before = found
  rw [readTexts, readTexts, readTexts, if_pos (by omega), if_pos (by omega), if_pos (by omega)]
  refine FoundSame.readTexts ?_ after _ _ (by omega) (by omega)
  unfold ReadTexts.add
  rw [hitems, hitems', hjoined]
  refine ⟨?_, .refl _⟩
  dsimp only
  have hflatten : (items' :: items :: found.texts).reverse.flatten =
      found.texts.reverse.flatten ++ (items ++ items') := by simp
  have hflatten' : (joined :: found.texts).reverse.flatten =
      found.texts.reverse.flatten ++ joined := by simp
  rw [hflatten, hflatten']
  exact SameItems.append rfl hsame

/-- A variable and its use can stand in two texts or in one. -/
theorem declaration_and_use_join :
    let env : Env := { program := {}, lookup := fun _ _ => .notAModule, warningLevel := 2 }
    (∃ items, read "let a = 1;" 0 = .ok items) ∧ (∃ items, read "a;" 1 = .ok items) ∧
      Closed "let a = 1;" 0 ∧
        (build ["let a = 1;", "a;"] env).1 = (build ["let a = 1;" ++ "\n" ++ "a;"] env).1 ∧
          SaySame (build ["let a = 1;", "a;"] env).2
            (build ["let a = 1;" ++ "\n" ++ "a;"] env).2 := by
  intro env
  have hfirst : ∃ items, read "let a = 1;" 0 = .ok items := ⟨_, by with_unfolding_all rfl⟩
  have hsecond : ∃ items, read "a;" 1 = .ok items := ⟨_, by with_unfolding_all rfl⟩
  have hclosed : Closed "let a = 1;" 0 := by
    obtain ⟨lexemes, hlex, hlast⟩ : ∃ lexemes, lex "let a = 1;" 0 = .ok lexemes ∧
        lexemes.dropLast.getLast? = some ⟨.semicolon, ⟨0, 9, 10⟩⟩ :=
      ⟨_, by with_unfolding_all rfl, by with_unfolding_all rfl⟩
    refine ⟨lexemes, hlex, fun lexeme hlexeme => .inl ?_⟩
    rw [hlast] at hlexeme
    cases hlexeme
    rfl
  exact ⟨hfirst, hsecond, hclosed,
    build_join env [] [] "let a = 1;" "a;" (by decide) hfirst hsecond hclosed⟩

end ScriptHost
