import ScriptHost.Proofs.Code.Joined
import ScriptHost.Proofs.Machine.Reordered
import ScriptHost.Proofs.Program.Split
import ScriptHost.Proofs.Scope.Later
/-!
# Declarations first, statements later

A text of declarations with statements behind it can be built and linked as one unit, or the
declarations first and then the statements. The one succeeds if the other does, and the programs
differ in nothing but what bindings the statements use, and what names lead to.

The main statements are `build_joined` and `CompiledUnit.Joins.renumbers`.
-/

set_option autoImplicit false

namespace ScriptHost

/-! ## Units -/

/-- A text of declarations ends where a statement may end. -/
theorem closed_of_declares {source : String} {file : Nat} {items : List Item}
    (hread : read source file = .ok items) (h : Declares items) : Closed source file := by
  unfold read at hread
  cases hlex : lex source file with
  | error errors =>
    rw [hlex] at hread
    cases hread
  | ok lexemes =>
    rw [hlex] at hread
    refine ⟨lexemes, hlex, fun lexeme hlexeme => ?_⟩
    have hclosing := parse_declares (lex_ended hlex) hread h lexeme hlexeme
    unfold Grammar.closing at hclosing
    simpa using hclosing

/-- What it comes to to build a text that can be read. -/
theorem build_run {source : String} {items : List Item} (hread : read source 0 = .ok items)
    (env : Env) : (build [source] env).1 =
      if (resolve [items] env).2.any Diagnostic.isError then none
      else ((resolve [items] env).1.compile env.program.bindings.size).toOption := by
  have hfound : readTexts {} 0 [source] = { texts := [items] } := by
    simp [readTexts, ReadTexts.add, hread, maxSourceTexts]
  unfold build
  rw [hfound]
  dsimp only
  rw [if_pos (show (#[] : Array Diagnostic).isEmpty = true from rfl)]
  rw [List.reverse_singleton]
  split
  · rfl
  · cases (resolve [items] env).1.compile env.program.bindings.size <;> rfl

/-- A unit that is built of such a text is the code of what it is resolved to. -/
theorem build_read_ok {source : String} {items : List Item} {env : Env} {unit : CompiledUnit}
    (hread : read source 0 = .ok items) (h : (build [source] env).1 = some unit) :
    (resolve [items] env).2.any Diagnostic.isError = false ∧
      (resolve [items] env).1.compile env.program.bindings.size = .ok unit := by
  rw [build_run hread] at h
  split at h
  · cases h
  · rename_i hclean
    refine ⟨Bool.not_eq_true _ ▸ hclean, ?_⟩
    cases hcompile : (resolve [items] env).1.compile env.program.bindings.size with
    | error e =>
      rw [hcompile] at h
      cases h
    | ok other =>
      rw [hcompile] at h
      cases h
      rfl

/-- A unit of declarations has been built from them, and its top level does nothing. -/
theorem build_declares {source : String} {declared : List Item} {env : Env} {unit : CompiledUnit}
    (hread : read source 0 = .ok declared) (hdeclares : Declares declared)
    (hprogram : env.program.Indexed) (h : (build [source] env).1 = some unit) :
    unit.BuiltOn env (.ofTexts env.program [declared]) (resolve [declared] env).1 ∧
      unit.topLevel = Code.idle := by
  obtain ⟨hclean, hcompiled⟩ := build_read_ok hread h
  refine ⟨⟨Declarations.sound_ofTexts env.program _, resolve_sound hprogram hclean,
    Code.compile_ok hcompiled⟩, ?_⟩
  obtain ⟨htop, hlocals, hvalue⟩ := resolve_declares hdeclares env
  rw [Code.compile_run_of_declares htop hlocals hvalue] at hcompiled
  split at hcompiled
  · cases hcompiled
  · cases hcompiled
    rfl

section Build

variable {first second : String} {declared acts : List Item} {env : Env}
  (hfirst : read first 0 = .ok declared) (hdeclares : Declares declared)
  (hsecond : read second 0 = .ok acts) (hacts : Acts acts)

include hfirst hdeclares hsecond

/-- The whole text is built as the items of both. -/
theorem build_lines (env : Env) : (build [first ++ "\n" ++ second] env).1 =
    if (resolve [declared ++ acts] env).2.any Diagnostic.isError then none
    else ((resolve [declared ++ acts] env).1.compile env.program.bindings.size).toOption := by
  obtain ⟨joined, hjoined, hsame⟩ := read_join (closed_of_declares hfirst hdeclares) hfirst hsecond
  have hitems : [declared ++ acts].flatten.map Item.bare = [joined].flatten.map Item.bare := by
    rw [List.flatten_singleton, List.flatten_singleton]
    exact hsame
  obtain ⟨hunit, hdiagnostics⟩ := resolve_bare hitems env
  rw [build_run hjoined, ← hunit, ← hdiagnostics.any_isError]

include hacts

/-- If the declarations are refused, so is the whole. -/
theorem build_lines_of_none (h : (build [first] env).1 = none) :
    (build [first ++ "\n" ++ second] env).1 = none := by
  obtain ⟨topLevel, topLevelLocals, returnsValue, more, hresolved⟩ :=
    resolve_append declared hacts env
  rw [build_run hfirst] at h
  rw [build_lines hfirst hdeclares hsecond, hresolved]
  dsimp only
  rw [List.any_append]
  cases hany : (resolve [declared] env).2.any Diagnostic.isError with
  | true => rfl
  | false =>
    rw [hany, if_neg Bool.false_ne_true] at h
    split
    · rfl
    · cases hcompile : (resolve [declared] env).1.compile env.program.bindings.size with
      | ok unit =>
        rw [hcompile] at h
        cases h
      | error e =>
        obtain ⟨htop, hlocals, hvalue⟩ := resolve_declares hdeclares env
        rw [Code.compile_error_of_declares htop hlocals hvalue hcompile]
        rfl

/-- Where the declarations have been built, the statements can be built behind them, or later, or
neither. -/
theorem build_joined (hprogram : env.program.Indexed) (allowed : AllowedModules)
    {unit : CompiledUnit} (h : (build [first] env).1 = some unit) :
    ((build [first ++ "\n" ++ second] env).1 = none ∧
        (build [second] (env.after unit allowed)).1 = none) ∨
      ∃ later whole, (build [second] (env.after unit allowed)).1 = some later ∧
        (build [first ++ "\n" ++ second] env).1 = some whole ∧
          unit.Joins env.program.bindings.size later whole := by
  obtain ⟨hclean, hcompiled⟩ := build_read_ok hfirst h
  obtain ⟨hbuilt, -⟩ := build_declares hfirst hdeclares hprogram h
  obtain ⟨hunit, hsame⟩ := resolve_declared allowed hdeclares hacts hbuilt
  have hbindings : (env.after unit allowed).program.bindings.size =
      env.program.bindings.size + unit.hostCalls.size := by
    rw [Env.after, Program.append, Array.size_append, Array.size_map]
  rw [build_lines hfirst hdeclares hsecond, build_run hsecond, hunit, hsame.any_isError,
    List.any_append, hclean, Bool.false_or, hbindings]
  split
  · exact .inl ⟨rfl, rfl⟩
  · obtain ⟨htop, hlocals, hvalue⟩ := resolve_declares hdeclares env
    have hlone := resolve_acts hacts (env.after unit allowed)
    obtain ⟨e, hwhole, hlater⟩ | ⟨whole, later, hwhole, hlater, hjoins⟩ :=
      CompiledUnit.joins (v := (resolve [acts] (env.after unit allowed)).1) htop hlocals hvalue
        (congrArg Resolved.Unit.functions hlone) (congrArg Resolved.Unit.classes hlone)
        (congrArg Resolved.Unit.globals hlone) hcompiled
    · exact .inl ⟨by rw [hwhole]; rfl, by rw [hlater]; rfl⟩
    · exact .inr ⟨later, whole, by rw [hlater]; rfl, by rw [hwhole]; rfl, hjoins⟩

end Build

/-- Declarations bring in no global variables. -/
theorem CompiledUnit.BuiltOn.globals_of_declares {unit : CompiledUnit} {env : Env}
    {declared : List Item} (hdeclares : Declares declared)
    (h : unit.BuiltOn env (.ofTexts env.program [declared]) (resolve [declared] env).1) :
    unit.globals = [] := by
  have hnew := (Declarations.sameGlobals_addItems env.program declared []
    (.start env.program) hdeclares).newGlobals
  rw [h.lowered.globals, h.walked.globals]
  exact congrArg Array.toList hnew

/-! ## Programs -/

/-- The bindings of a unit keep their numbers where there are more of them. -/
theorem bindings_append {program : Program} {unit whole : CompiledUnit} {allowed : AllowedModules}
    (h : ∀ (index : Nat) (call : String × String), unit.hostCalls[index]? = some call →
      whole.hostCalls[index]? = some call) {id : Nat} {binding : HostBinding}
    (hid : (program.append unit allowed).bindings[id]? = some binding) :
    (program.append whole allowed).bindings[id]? = some binding := by
  rw [Program.append, Array.getElem?_append] at hid ⊢
  split at hid
  · rename_i hold
    rwa [if_pos hold]
  · rename_i hnew
    rw [if_neg hnew]
    rw [Array.getElem?_map] at hid ⊢
    obtain ⟨call, hcall, hbinding⟩ := Option.map_eq_some_iff.mp hid
    rw [h _ call hcall]
    exact congrArg some hbinding

namespace CompiledUnit.Joins

variable {unit later whole : CompiledUnit} {program : Program}

/-- The program that has the whole unit is the program that has its parts, but for the bindings of
the statements. -/
theorem renumbers (h : unit.Joins program.bindings.size later whole) (allowed : AllowedModules)
    {accepts : HostBinding → Nat → Prop} (hsound : (program.append unit allowed).Sound accepts) :
    let single := program.append whole allowed
    let last := (program.append unit allowed).append later allowed
    single.Renumbers .refl (single.SameBinding last) last ∧
      whole.topLevel.Renumbers .refl (single.SameBinding last) later.topLevel := by
  intro single last
  have hfunctions : single.functions = (program.append unit allowed).functions := by
    change program.functions ++ whole.functions = program.functions ++ unit.functions
    rw [h.functions]
  have hlastFunctions : last.functions = single.functions := by
    change (program.append unit allowed).functions ++ later.functions = _
    rw [h.noFunction, Array.append_empty, hfunctions]
  have hlastClasses : last.classes = single.classes := by
    change (program.classes ++ unit.classes) ++ later.classes = program.classes ++ whole.classes
    rw [h.noClass, Array.append_empty, h.classes]
  have hkept (id : Nat) (binding : HostBinding)
      (hbinding : (program.append unit allowed).bindings[id]? = some binding) :
      single.SameBinding last id id :=
    ⟨binding, bindings_append h.hosts hbinding,
      (Program.extends_append _ later allowed).bindings hbinding⟩
  refine ⟨⟨fun id f hf => ⟨f.chunk, ?_, ?_⟩, fun id hid => ⟨rfl, hlastFunctions ▸ hid⟩,
    fun number => ?_, fun _ _ => rfl, fun _ _ hid => hid, fun _ => rfl⟩, ?_, fun value _ =>
      Value.rename_refl value⟩
  · rw [hlastFunctions]
    exact hf
  · exact (hsound.functions id f (hfunctions ▸ hf)).renumbers hkept
  · rw [hlastClasses, show Class.rename .refl = id from funext Class.rename_refl, Option.map_id]
    rfl
  · refine h.topLevel.mono fun id id' hsame => ?_
    obtain ⟨index, index', ⟨module, function⟩, rfl, rfl, hcall, hcall'⟩ := hsame
    have hsize : (program.append unit allowed).bindings.size =
        program.bindings.size + unit.hostCalls.size := by
      rw [Program.append, Array.size_append, Array.size_map]
    refine ⟨⟨allowed.get? module, module, function⟩,
      bound_append program whole allowed #[] index module function hcall, ?_⟩
    rw [← hsize]
    exact bound_append (program.append unit allowed) later allowed #[] index' module function hcall'

end CompiledUnit.Joins

end ScriptHost
