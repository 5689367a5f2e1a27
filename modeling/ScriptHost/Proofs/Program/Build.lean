import ScriptHost.Program.Build
import ScriptHost.Proofs.Grammar.Steps
import ScriptHost.Proofs.Scope.Declared
import ScriptHost.Proofs.Trees.History
/-!
# What a unit is built from

A unit that has been built is the code of a resolved unit without errors, and what it declares is
what the declarations of its source texts say.
-/

set_option autoImplicit false

namespace ScriptHost

/-- Syntax trees have been read from source texts, each from the one with its number. -/
def ReadFrom (sources : List String) (texts : List (List Item)) : Prop :=
  ∀ items ∈ texts, ∃ file source, sources[file]? = some source ∧ read source file = .ok items

/-- Whatever is found in source texts has been read from one of them. -/
theorem mem_readTexts {sources : List String} {found : ReadTexts} {file : Nat} {items : List Item}
    (h : items ∈ (readTexts found file sources).texts) :
    items ∈ found.texts ∨
      ∃ index source, sources[index]? = some source ∧ read source (file + index) = .ok items := by
  induction sources generalizing found file with
  | nil => exact .inl h
  | cons source rest ih =>
    rw [readTexts] at h
    split at h
    · obtain h | ⟨index, other, hother, hread⟩ := ih h
      · unfold ReadTexts.add at h
        split at h
        · rename_i hread
          obtain rfl | h := List.mem_cons.mp h
          · exact .inr ⟨0, source, rfl, hread⟩
          · exact .inl h
        · exact .inl h
      · exact .inr ⟨index + 1, other, hother, by rwa [Nat.add_comm index, ← Nat.add_assoc]⟩
    · exact .inl h

/-- A unit that has been built is the code of source texts in which no error was found. -/
theorem build_ok {sources : List String} {env : Env} {unit : CompiledUnit}
    {diagnostics : List Diagnostic} (h : build sources env = (some unit, diagnostics)) :
    ∃ texts, ReadFrom sources texts ∧ (resolve texts env).2 = diagnostics ∧
      diagnostics.any Diagnostic.isError = false ∧
      (resolve texts env).1.compile env.program.bindings.size = .ok unit := by
  have hread : ReadFrom sources (readTexts {} 0 sources).texts.reverse := fun items hitems => by
    obtain hnone | ⟨file, source, hsource, hread⟩ := mem_readTexts (List.mem_reverse.mp hitems)
    · cases hnone
    · exact ⟨file, source, hsource, by rwa [Nat.zero_add] at hread⟩
  unfold build at h
  dsimp only at h
  generalize readTexts {} 0 sources = found at h hread
  split at h
  · refine ⟨found.texts.reverse, hread, ?_⟩
    generalize resolve found.texts.reverse env = resolved at h ⊢
    obtain ⟨resolved, reported⟩ := resolved
    dsimp only at h ⊢
    split at h
    · cases h
    · rename_i hnone
      split at h
      · rename_i compiled hcompiled
        cases h
        exact ⟨rfl, by simpa using hnone, hcompiled⟩
      · cases h
  · cases h

/-- A single text that can be read and resolved without a diagnostic is built. -/
theorem build_of_read {source : String} {items : List Item} {env : Env} {unit : CompiledUnit}
    (hread : read source 0 = .ok items) (hclean : (resolve [items] env).2 = [])
    (hcompile : (resolve [items] env).1.compile env.program.bindings.size = .ok unit) :
    build [source] env = (some unit, []) := by
  have hfound : readTexts {} 0 [source] = { texts := [items] } := by
    simp [readTexts, ReadTexts.add, hread, maxSourceTexts]
  unfold build
  simp only [hfound]
  simp [hclean, hcompile]

/-- The global variables of a unit that has been built are those that its texts declare. -/
theorem build_globals {sources : List String} {env : Env} {unit : CompiledUnit}
    {diagnostics : List Diagnostic} (h : build sources env = (some unit, diagnostics)) :
    ∃ d : Declarations, d.GlobalsSound env.program ∧ unit.globals = d.newGlobals.toList := by
  obtain ⟨texts, -, -, -, hcompiled⟩ := build_ok h
  exact ⟨_, (Declarations.sound_ofTexts env.program texts).globals,
    (Code.compile_ok hcompiled).globals⟩

/-! ## Diagnostics and units

Source texts are built, or there is an error among the diagnostics, and never both. A unit that has
been built starts where the tables of the program end, so that it can be linked at once. -/

namespace Scan

/-- Whatever is found misspelt is an error. -/
theorem Found.errors_add {found : Found} (h : ∀ d ∈ found.errors, d.isError = true)
    (file start : Nat) (piece : Piece) :
    ∀ d ∈ (found.add file start piece).errors, d.isError = true := by
  unfold Found.add
  dsimp only
  generalize found.errors = errors at h
  induction piece.errors generalizing errors with
  | nil => exact h
  | cons first rest ih => exact ih _ (List.forall_mem_cons.mpr ⟨rfl, h⟩)

theorem errors_all (file offset : Nat) (cs : List Char) (found : Found)
    (h : ∀ d ∈ found.errors, d.isError = true) :
    ∀ d ∈ (all file offset cs found).errors, d.isError = true := by
  fun_induction all file offset cs found with
  | case1 => exact h
  | case2 offset found c cs piece ih => exact ih (Found.errors_add h file offset piece)

end Scan

/-- If a text is misspelt, there are errors in its spelling. -/
theorem lex_error {source : String} {file : Nat} {errors : List Diagnostic}
    (h : lex source file = .error errors) : errors ≠ [] ∧ ∀ d ∈ errors, d.isError = true := by
  have hall := Scan.errors_all file 0 source.toList {} nofun
  unfold lex at h
  dsimp only at h
  split at h
  · cases h
  · rename_i hsome
    cases h
    refine ⟨fun hnone => hsome ?_, fun d hd => hall d (List.mem_reverse.mp hd)⟩
    rw [List.isEmpty_iff, ← List.reverse_eq_nil_iff]
    exact hnone

/-- If a text cannot be read, there are errors in it. -/
theorem read_error {source : String} {file : Nat} {errors : List Diagnostic}
    (h : read source file = .error errors) : errors ≠ [] ∧ ∀ d ∈ errors, d.isError = true := by
  unfold read at h
  cases hlex : lex source file with
  | error misspelt =>
    rw [hlex] at h
    cases h
    exact lex_error hlex
  | ok lexemes =>
    rw [hlex] at h
    obtain ⟨hsome, hcomplains⟩ := parse_error (show parse lexemes = .error errors from h)
    refine ⟨hsome, fun d hd => ?_⟩
    obtain ⟨e, span, rfl⟩ := hcomplains d hd
    rfl

/-- What is wrong with source texts that are read are errors. -/
theorem errors_readTexts (sources : List String) (file : Nat) (found : ReadTexts)
    (h : ∀ d ∈ found.diagnostics, d.isError = true) :
    ∀ d ∈ (readTexts found file sources).diagnostics, d.isError = true := by
  induction sources generalizing found file with
  | nil => exact h
  | cons source rest ih =>
    rw [readTexts]
    split
    · refine ih _ _ fun d hd => ?_
      unfold ReadTexts.add at hd
      split at hd
      · exact h d hd
      · rename_i errors hread
        rw [← Array.mem_toList_iff, Array.toList_appendList, List.mem_append] at hd
        obtain hd | hd := hd
        · exact h d (Array.mem_toList_iff.mp hd)
        · exact (read_error hread).2 d hd
    · intro d hd
      obtain hd | rfl := Array.mem_push.mp hd
      · exact h d hd
      · rfl

/-- Where no unit has been built, there is an error among the diagnostics. -/
theorem build_none {sources : List String} {env : Env} {diagnostics : List Diagnostic}
    (h : build sources env = (none, diagnostics)) : ∃ d ∈ diagnostics, d.isError = true := by
  have hread := errors_readTexts sources 0 {} nofun
  unfold build at h
  dsimp only at h
  generalize readTexts {} 0 sources = found at h hread
  split at h
  · generalize resolve found.texts.reverse env = resolved at h
    obtain ⟨resolved, reported⟩ := resolved
    dsimp only at h
    split at h
    · rename_i hany
      cases h
      exact List.any_eq_true.mp hany
    · split at h
      · cases h
      · cases h
        exact ⟨_, List.mem_append_right _ List.mem_cons_self, rfl⟩
  · rename_i hsome
    cases h
    obtain ⟨d, hd⟩ := Array.exists_mem_of_ne_empty found.diagnostics fun hempty =>
      hsome (by rw [hempty]; rfl)
    exact ⟨d, Array.mem_toList_iff.mpr hd, hread d hd⟩

/-- The number of errors among the diagnostics of texts of which no unit has been built. -/
theorem one_le_errors {sources : List String} {env : Env} {diagnostics : List Diagnostic}
    (h : build sources env = (none, diagnostics)) : 1 ≤ diagnostics.countP Diagnostic.isError :=
  List.countP_pos_iff.mpr (build_none h)

/-- A unit comes without errors. -/
theorem no_errors {sources : List String} {env : Env} {unit : CompiledUnit}
    {diagnostics : List Diagnostic} (h : build sources env = (some unit, diagnostics)) :
    diagnostics.countP Diagnostic.isError = 0 := by
  obtain ⟨-, -, -, hnone, -⟩ := build_ok h
  rw [List.countP_eq_zero]
  exact fun d hd herror => by simp [List.any_eq_false.mp hnone d hd] at herror

/-- A unit can be linked to the program that it has been built for. -/
theorem accepts_of_build {sources : List String} {env : Env} {unit : CompiledUnit}
    {diagnostics : List Diagnostic} (h : build sources env = (some unit, diagnostics)) :
    env.program.accepts unit = true := by
  obtain ⟨texts, -, -, -, hcompiled⟩ := build_ok h
  have hlowered := Code.compile_ok hcompiled
  have hdeclared := Declarations.sound_ofTexts env.program texts
  have hfunctions : unit.functionBase = env.program.functions.size :=
    hlowered.functionBase.trans hdeclared.functionBase
  have hclasses : unit.classBase = env.program.classes.size :=
    hlowered.classBase.trans hdeclared.classBase
  unfold Program.accepts
  rw [hfunctions, hclasses, hlowered.bindingBase]
  simp

end ScriptHost
