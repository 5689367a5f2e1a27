import ScriptHost.Proofs.Code.Depth
import ScriptHost.Proofs.Code.Sound
import ScriptHost.Proofs.Program.Build
import ScriptHost.Proofs.Scope.Unit
/-!
# Sound programs

In a sound program all code refers to what is there and keeps to its operand stack. A program stays
sound when a unit is linked that was built against it, and what was sound in the program before is
sound in the program after, as the tables only grow.

The main statement is `Program.Sound.append`.
-/

set_option autoImplicit false

namespace ScriptHost

/-- All that the program has, the other one has under the same number. Names may lead elsewhere. -/
structure Program.Extends (next program : Program) : Prop where
  functions : ∀ {id : Nat} {f : Function}, program.functions[id]? = some f →
    next.functions[id]? = some f
  classes : ∀ {id : Nat} {c : Class}, program.classes[id]? = some c → next.classes[id]? = some c
  bindings : ∀ {id : Nat} {b : HostBinding}, program.bindings[id]? = some b →
    next.bindings[id]? = some b
  globalCount : program.globalCount ≤ next.globalCount

/-- A program extends itself. -/
theorem Program.Extends.refl (program : Program) : program.Extends program :=
  ⟨fun h => h, fun h => h, fun h => h, Nat.le_refl _⟩

theorem Program.Extends.trans {first second third : Program} (h : third.Extends second)
    (h' : second.Extends first) : third.Extends first :=
  ⟨fun hf => h.functions (h'.functions hf), fun hc => h.classes (h'.classes hc),
    fun hb => h.bindings (h'.bindings hb), Nat.le_trans h'.globalCount h.globalCount⟩

/-- A program with a unit appended extends the program. -/
theorem Program.extends_append (program : Program) (unit : CompiledUnit)
    (allowed : AllowedModules) : (program.append unit allowed).Extends program where
  functions := fun h => by
    rw [Program.append, Array.getElem?_append_left (Array.getElem?_eq_some_iff.mp h).1]
    exact h
  classes := fun h => by
    rw [Program.append, Array.getElem?_append_left (Array.getElem?_eq_some_iff.mp h).1]
    exact h
  bindings := fun h => by
    rw [Program.append, Array.getElem?_append_left (Array.getElem?_eq_some_iff.mp h).1]
    exact h
  globalCount := Table.size_le_insertAll program.globalNames unit.globals

/-- A function that takes so many arguments still does. -/
theorem Program.Takes.mono {program next : Program} (hext : next.Extends program) {id argc : Nat}
    (h : program.Takes id argc) : next.Takes id argc := by
  obtain ⟨f, hf, hargc⟩ := h
  exact ⟨f, hext.functions hf, hargc⟩

/-- A class that is created with so many arguments still is. -/
theorem Program.Creates.mono {program next : Program} (hext : next.Extends program) {id argc : Nat}
    (h : program.Creates id argc) : next.Creates id argc := by
  obtain ⟨c, hc, htakes⟩ := h
  refine ⟨c, hext.classes hc, ?_⟩
  cases hfunction : c.constructor? with
  | none => simpa only [hfunction] using htakes
  | some function =>
    simp only [hfunction] at htakes ⊢
    exact htakes.mono hext

/-- A sound instruction stays sound when there is more to refer to. -/
theorem Op.Sound.mono {program next : Program} {accepts later : HostBinding → Nat → Prop}
    {slot wider : Nat → Prop} {constants : Array Value} {op : Op} (hext : next.Extends program)
    (haccepts : ∀ binding ∈ program.bindings, ∀ argc, accepts binding argc → later binding argc)
    (hslot : ∀ s, slot s → wider s) (h : op.Sound program accepts slot constants) :
    op.Sound next later wider constants := by
  cases op with
  | loadLocal s | storeLocal s => exact hslot s h
  | loadGlobal id | storeGlobal id => exact Nat.lt_of_lt_of_le h hext.globalCount
  | call id argc => exact Program.Takes.mono hext h
  | create id argc => exact Program.Creates.mono hext h
  | callHost id argc =>
    obtain ⟨binding, hbinding, haccepted⟩ := h
    exact ⟨binding, hext.bindings hbinding,
      haccepts binding (Array.mem_of_getElem? hbinding) argc haccepted⟩
  | pushConst _ | getField _ | setField _ | callMethod _ _ => exact h
  | _ => trivial

/-- The code of a chunk keeps to its operand stack and refers to what is there. Slots are not asked
about if the chunk is `wide`. -/
structure Chunk.Sound (program : Program) (accepts : HostBinding → Nat → Prop) (wide : Prop)
    (chunk : Chunk) : Prop where
  flows : ∃ body depths, chunk.Flows body depths
  ops : Code.CodeSound program accepts (fun s => wide ∨ s < chunk.localCount) chunk.constants
    chunk.ops.toList

/-- A sound chunk stays sound when there is more to refer to. -/
theorem Chunk.Sound.mono {program next : Program} {accepts later : HostBinding → Nat → Prop}
    {wide : Prop} {chunk : Chunk} (hext : next.Extends program)
    (haccepts : ∀ binding ∈ program.bindings, ∀ argc, accepts binding argc → later binding argc)
    (h : chunk.Sound program accepts wide) : chunk.Sound next later wide :=
  ⟨h.flows, fun op hop => (h.ops op hop).mono hext haccepts fun _ hslot => hslot⟩

/-- All names, classes and functions of a program refer to what is there. A function with more
parameters than there can be slots may refer to other slots. -/
structure Program.Sound (program : Program) (accepts : HostBinding → Nat → Prop) : Prop
    extends Program.Indexed program where
  functions : ∀ (id : Nat) (f : Function), program.functions[id]? = some f →
    f.chunk.Sound program accepts (maxLocals < f.arity)

/-- An empty program is sound. -/
theorem Program.sound_empty (accepts : HostBinding → Nat → Prop) :
    ({} : Program).Sound accepts where
  functionNames := fun _ _ h => by cases h
  classNames := fun _ _ h => by cases h
  globalNames := fun _ _ h => by cases h
  classes := fun _ _ h => by simp at h
  functions := fun _ _ h => by simp at h

/-- A sound program stays sound when bindings may be called in more ways. -/
theorem Program.Sound.mono {program : Program} {accepts later : HostBinding → Nat → Prop}
    (h : program.Sound accepts)
    (haccepts : ∀ binding ∈ program.bindings, ∀ argc, accepts binding argc → later binding argc) :
    program.Sound later where
  toIndexed := h.toIndexed
  functions := fun id f hf => (h.functions id f hf).mono (.refl program) haccepts

/-! ## Linking a unit that has just been built -/

/-- What a unit has been built from: declarations on top of a program, and resolved trees without
an error. -/
structure CompiledUnit.BuiltOn (unit : CompiledUnit) (env : Env) (d : Declarations)
    (resolved : Resolved.Unit) : Prop where
  declared : d.Sound env.program
  walked : resolved.Sound d (Scope.Context.referents { env, declared := d })
  lowered : Code.UnitLowered env.program.bindings.size unit resolved

/-- Every unit that has been built has been built from declarations and trees. -/
theorem build_sound {sources : List String} {env : Env} {unit : CompiledUnit}
    {diagnostics : List Diagnostic} (hprogram : env.program.Indexed)
    (h : build sources env = (some unit, diagnostics)) :
    ∃ d resolved, unit.BuiltOn env d resolved := by
  obtain ⟨texts, -, rfl, hclean, hcompiled⟩ := build_ok h
  exact ⟨_, _, Declarations.sound_ofTexts env.program texts, resolve_sound hprogram hclean,
    Code.compile_ok hcompiled⟩

namespace CompiledUnit.BuiltOn

variable {unit : CompiledUnit} {env : Env} {d : Declarations} {resolved : Resolved.Unit}

/-- There is a function for each one declared. -/
theorem size_eq (h : unit.BuiltOn env d resolved) : unit.functions.size = d.functions.size := by
  have hlength := h.lowered.functions.length_eq
  rw [Array.length_toList, Array.length_toList] at hlength
  rw [hlength, h.walked.size]

/-- A function of the unit is made from a tree, for one that is declared. -/
theorem function (h : unit.BuiltOn env d resolved) {index : Nat} {f : Function}
    (hf : unit.functions[index]? = some f) :
    ∃ t signature, resolved.functions[index]? = some t ∧
      Code.FunctionLowered unit.hostCalls env.program.bindings.size f t ∧
      d.functions[index]? = some signature ∧ f.name = signature.name ∧
      f.arity = signature.arity := by
  have hinside := (Array.getElem?_eq_some_iff.mp hf).1
  rw [h.size_eq, ← h.walked.size] at hinside
  have ht := Array.getElem?_eq_getElem hinside
  obtain ⟨⟨signature, hsignature, hname, harity⟩, -⟩ := h.walked.functions index _ ht
  have hlowered : Code.FunctionLowered unit.hostCalls env.program.bindings.size f
      resolved.functions[index] := by
    rw [← Array.getElem?_toList] at hf ht
    exact forall₂_getElem? h.lowered.functions hf ht
  exact ⟨_, signature, ht, hlowered, hsignature, hlowered.name.trans hname,
    hlowered.arity.trans harity⟩

/-- A function that is declared is in the program once the unit is appended. -/
theorem declaredFunction (h : unit.BuiltOn env d resolved) (allowed : AllowedModules) {index : Nat}
    {signature : Signature} (hsignature : d.functions[index]? = some signature) :
    ∃ f, (env.program.append unit allowed).functions[d.functionBase + index]? = some f ∧
      f.name = signature.name ∧ f.arity = signature.arity := by
  have hinside := (Array.getElem?_eq_some_iff.mp hsignature).1
  rw [← h.size_eq] at hinside
  have hf := Array.getElem?_eq_getElem hinside
  obtain ⟨_, other, -, -, hother, hname, harity⟩ := h.function hf
  rw [hsignature, Option.some.injEq] at hother
  subst hother
  refine ⟨_, ?_, hname, harity⟩
  rw [h.declared.functionBase, Program.append, Array.getElem?_append_right (Nat.le_add_right ..),
    Nat.add_sub_cancel_left]
  exact hf

/-- A class that is declared is in the program once the unit is appended. -/
theorem declaredClass (h : unit.BuiltOn env d resolved) (allowed : AllowedModules) {index : Nat}
    {c : Class} (hc : d.classes[index]? = some c) :
    (env.program.append unit allowed).classes[d.classBase + index]? = some c := by
  rw [h.declared.classBase, Program.append, Array.getElem?_append_right (Nat.le_add_right ..),
    Nat.add_sub_cancel_left, h.lowered.classes, h.walked.classes]
  exact hc

/-- The global variables of the program are those before, and the new ones. -/
theorem globalCount_append (h : unit.BuiltOn env d resolved) (allowed : AllowedModules) :
    (env.program.append unit allowed).globalCount = d.nextGlobal := by
  have hglobals := h.declared.globals
  have hunit : unit.globals = d.newGlobals.toList := h.lowered.globals.trans h.walked.globals
  rw [hglobals.next]
  change (env.program.globalNames.insertAll unit.globals).entries.length = _
  rw [hunit, Table.entries_insertAll_of_new hglobals.distinct hglobals.new, List.length_append,
    Array.length_toList]
  rfl

variable {accepts : HostBinding → Nat → Prop} {allowed : AllowedModules}

/-- A function that is known to the unit is in the program once the unit is appended. -/
theorem takes (h : unit.BuiltOn env d resolved) (allowed : AllowedModules) {id argc : Nat}
    (htakes : Scope.Context.Takes { env, declared := d } id argc) :
    (env.program.append unit allowed).Takes id argc := by
  obtain ⟨index, signature, hsignature, rfl, rfl⟩ | hold := htakes
  · obtain ⟨f, hf, -, harity⟩ := h.declaredFunction allowed hsignature
    exact ⟨f, hf, harity⟩
  · exact Program.Takes.mono (env.program.extends_append unit allowed) hold

/-- What is known to the unit is in the program once the unit is appended. -/
theorem sub (h : unit.BuiltOn env d resolved)
    (hlookup : ∀ module function arity argc, env.lookup module function = .found arity →
      arity.accepts argc = true → accepts ⟨allowed.get? module, module, function⟩ argc)
    (wide : Prop) (slots : Nat) :
    (Scope.Context.referents { env, declared := d } wide slots).Sub
      ((env.program.append unit allowed).referents accepts allowed
        fun s => wide ∨ s < slots) := by
  have hext := env.program.extends_append unit allowed
  refine ⟨id, fun hid => ?_, h.takes allowed, ?_, fun ⟨arity, hfound, haccepts⟩ =>
    hlookup _ _ arity _ hfound haccepts⟩
  · exact Nat.lt_of_lt_of_eq hid (h.globalCount_append allowed).symm
  · rintro id argc ⟨c, hc, hconstructor⟩
    refine ⟨c, ?_, ?_⟩
    · unfold Scope.Context.classOf? at hc
      split at hc
      · rename_i hnew
        have := h.declaredClass allowed hc
        rwa [Nat.add_sub_cancel' hnew] at this
      · exact hext.classes hc
    · cases hfunction : c.constructor? with
      | none => simpa only [hfunction] using hconstructor
      | some function =>
        simp only [hfunction] at hconstructor ⊢
        exact h.takes allowed hconstructor

/-- A class that is declared refers to functions of the program once the unit is appended. -/
theorem classIndexed (h : unit.BuiltOn env d resolved) (allowed : AllowedModules) {c : Class}
    (hholds : d.Holds c) : c.Indexed (env.program.append unit allowed).functions where
  fieldInit := by
    obtain ⟨index, signature, hsignature, harity, hid⟩ := hholds.fieldInit
    obtain ⟨f, hf, -, harity'⟩ := h.declaredFunction allowed hsignature
    exact ⟨f, hid ▸ hf, harity'.trans harity⟩
  methods := fun name id hid => by
    obtain ⟨index, hindex, rfl⟩ := hholds.methods name id hid
    obtain ⟨f, hf, -⟩ := h.declaredFunction allowed (Array.getElem?_eq_getElem hindex)
    exact (Array.getElem?_eq_some_iff.mp hf).1
  constructor := hholds.constructor

/-- Names and classes lead to entries of the tables once the unit is appended. -/
theorem indexed (h : unit.BuiltOn env d resolved) (hprogram : env.program.Indexed)
    (allowed : AllowedModules) : (env.program.append unit allowed).Indexed where
  functionNames := fun name id hid => by
    obtain hnew | hold := Table.get?_insertAll_cases hid
    · rw [h.lowered.functionNames, h.walked.functionNames] at hnew
      have hget := (Table.get?_eq_some_iff h.declared.functionsDistinct).mpr hnew
      obtain ⟨index, signature, hsignature, -, rfl⟩ := h.declared.functionNames name id hget
      obtain ⟨f, hf, -⟩ := h.declaredFunction allowed hsignature
      exact (Array.getElem?_eq_some_iff.mp hf).1
    · rw [Program.append, Array.size_append]
      exact Nat.lt_add_right _ (hprogram.functionNames name id hold)
  classNames := fun name id hid => by
    rw [Program.append, Array.size_append]
    obtain hnew | hold := Table.get?_insertAll_cases hid
    · obtain ⟨index, hindex, heq⟩ := List.mem_mapIdx.mp hnew
      cases heq
      rw [Array.length_toList] at hindex
      have hbase := h.lowered.classBase.trans (h.walked.classBase.trans h.declared.classBase)
      omega
    · exact Nat.lt_add_right _ (hprogram.classNames name id hold)
  globalNames := fun name id hid => by
    obtain hnew | hold := Table.get?_insertAll_cases hid
    · rw [h.lowered.globals, h.walked.globals] at hnew
      have hslot : id ∈ d.newGlobals.toList.map (·.2) := List.mem_map.mpr ⟨_, hnew, rfl⟩
      rw [h.declared.globals.slots, List.mem_range'_1] at hslot
      rw [h.globalCount_append, h.declared.globals.next]
      exact hslot.2
    · exact Nat.lt_of_lt_of_le (hprogram.globalNames name id hold)
        (env.program.extends_append unit allowed).globalCount
  classes := fun id c hc => by
    rw [Program.append, Array.getElem?_append] at hc
    split at hc
    · obtain ⟨⟨f, hf, harity⟩, hmethods, hconstructor⟩ := hprogram.classes id c hc
      have hext := env.program.extends_append unit allowed
      refine ⟨⟨f, hext.functions hf, harity⟩, fun name function hfunction => ?_, hconstructor⟩
      rw [Program.append, Array.size_append]
      exact Nat.lt_add_right _ (hmethods name function hfunction)
    · rw [h.lowered.classes, h.walked.classes] at hc
      exact h.classIndexed allowed (h.declared.classes _ c hc)

end CompiledUnit.BuiltOn

/-- A sound program stays sound when a unit is appended that was built against it, and the top level
of the unit is sound in it. -/
theorem Program.Sound.append {accepts : HostBinding → Nat → Prop} {allowed : AllowedModules}
    {unit : CompiledUnit} {env : Env} {d : Declarations} {resolved : Resolved.Unit}
    (hprogram : env.program.Sound accepts) (h : unit.BuiltOn env d resolved)
    (hlookup : ∀ module function arity argc, env.lookup module function = .found arity →
      arity.accepts argc = true → accepts ⟨allowed.get? module, module, function⟩ argc) :
    (env.program.append unit allowed).Sound accepts ∧
      unit.topLevel.Sound (env.program.append unit allowed) accepts False := by
  have hbound := bound_append env.program unit allowed
  refine ⟨⟨h.indexed hprogram.toIndexed allowed, fun id f hf => ?_⟩, ?_, ?_⟩
  · rw [Program.append, Array.getElem?_append] at hf
    split at hf
    · exact (hprogram.functions id f hf).mono (env.program.extends_append unit allowed)
        fun _ _ _ haccepted => haccepted
    · obtain ⟨t, _, ht, hlowered, -⟩ := h.function hf
      have hwithin := (h.walked.functions _ t ht).2.mono (h.sub hlookup _ _)
      refine ⟨⟨_, _, hlowered.body.flows rfl⟩, ?_⟩
      rw [hlowered.arity, hlowered.localCount]
      exact hlowered.body.sound (hbound _) hwithin
  · exact h.lowered.topLevel.flows rfl
  · have hwithin := h.walked.topLevel.mono (h.sub hlookup False _)
    rw [← h.lowered.topLevelLocals] at hwithin
    exact h.lowered.topLevel.sound (hbound _) hwithin

end ScriptHost
