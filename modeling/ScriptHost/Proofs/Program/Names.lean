import ScriptHost.Proofs.Program.Sound
import ScriptHost.Proofs.Scope.Members
/-!
# Names and members after a link

Linking adds functions and classes to a program. The functions of a class stay with it, and names
lead to what was linked last.
-/

set_option autoImplicit false

/-! ## Functions that belong to classes

In a program a function belongs to one class at most, and one that is called by its name belongs to
none. Linking keeps it so, also where a class takes the name of another: the functions of the one
before stay with it.

The main statement is `Program.Membered.append`. -/

namespace ScriptHost

/-- Functions and classes belong together as they should. -/
structure Program.Membered (program : Program) : Prop extends program.Indexed where
  /-- A function belongs to one class at most. -/
  unique : ∀ {index other : Nat} {c c' : Class} {id : Nat}, program.classes[index]? = some c →
    program.classes[other]? = some c' → c.Member id → c'.Member id → index = other
  /-- A function that is called by its name belongs to no class. -/
  free : ∀ {name : String} {id index : Nat} {c : Class},
    program.functionNames.get? name = some id → program.classes[index]? = some c → ¬ c.Member id
  /-- No class has a field twice. -/
  distinct : ∀ {index : Nat} {c : Class}, program.classes[index]? = some c → c.fields.Nodup

theorem Program.membered_empty : ({} : Program).Membered where
  functionNames := fun _ _ h => by cases h
  classNames := fun _ _ h => by cases h
  globalNames := fun _ _ h => by cases h
  classes := fun _ _ h => by simp at h
  unique := fun h => by simp at h
  free := fun h => by cases h
  distinct := fun h => by simp at h

variable {unit : CompiledUnit} {env : Env} {d : Declarations} {resolved : Resolved.Unit}
  {decls : List ClassDecl} {written : List Written}

/-- A class of the program with a unit appended is one from before, or one that is declared. -/
theorem CompiledUnit.BuiltOn.class_cases (h : unit.BuiltOn env d resolved)
    {allowed : AllowedModules} {index : Nat} {c : Class}
    (hc : (env.program.append unit allowed).classes[index]? = some c) :
    env.program.classes[index]? = some c ∨
      ∃ place, index = env.program.classes.size + place ∧ d.classes[place]? = some c := by
  rw [Program.append, Array.getElem?_append] at hc
  split at hc
  · exact .inl hc
  · rename_i hpast
    rw [h.lowered.classes, h.walked.classes] at hc
    exact .inr ⟨_, (Nat.add_sub_cancel' (Nat.le_of_not_lt hpast)).symm, hc⟩

/-- The functions of a unit come behind those of the program. -/
theorem CompiledUnit.BuiltOn.le_of_writtenAt (h : unit.BuiltOn env d resolved) {id : Nat}
    {member : Option Nat} (hid : WrittenAt written d.functionBase member id) :
    env.program.functions.size ≤ id := by
  obtain ⟨place, _, rfl, -⟩ := hid
  rw [h.declared.functionBase]
  exact Nat.le_add_right ..

/-- A function that names of the unit or of the program lead to belongs to no class. -/
theorem Program.Membered.not_member (hprogram : env.program.Membered)
    (h : unit.BuiltOn env d resolved) (hlists : d.Lists decls written) {allowed : AllowedModules}
    {name : String} {id index : Nat} {c : Class}
    (hname : d.functionNames.get? name = some id ∨ env.program.functionNames.get? name = some id)
    (hc : (env.program.append unit allowed).classes[index]? = some c) : ¬ c.Member id := by
  intro hid
  obtain hc | ⟨place, rfl, hnew⟩ := h.class_cases hc
  · obtain hunit | hold := hname
    · exact absurd ((hprogram.classes _ _ hc).member_lt hid)
        (Nat.not_lt.mpr (h.le_of_writtenAt (hlists.free name id hunit)))
    · exact hprogram.free hold hc hid
  · have hplace := hlists.members place c id hnew hid
    obtain hunit | hold := hname
    · cases (hlists.free name id hunit).unique hplace
    · exact absurd (hprogram.functionNames name id hold)
        (Nat.not_lt.mpr (h.le_of_writtenAt hplace))

/-- Linking keeps functions and classes together. -/
theorem Program.Membered.append (hprogram : env.program.Membered)
    (h : unit.BuiltOn env d resolved) (hlists : d.Lists decls written)
    (allowed : AllowedModules) : (env.program.append unit allowed).Membered where
  toIndexed := h.indexed hprogram.toIndexed allowed
  unique := fun {index other c c' id} hc hc' hid hid' => by
    have hold : ∀ {index : Nat} {c : Class}, env.program.classes[index]? = some c →
        c.Member id → id < env.program.functions.size := fun hc hid =>
      (hprogram.classes _ _ hc).member_lt hid
    obtain hc | ⟨place, rfl, hnew⟩ := h.class_cases hc
    · obtain hc' | ⟨place', rfl, hnew'⟩ := h.class_cases hc'
      · exact hprogram.unique hc hc' hid hid'
      · have hpast := h.le_of_writtenAt (hlists.members place' c' id hnew' hid')
        exact absurd (hold hc hid) (Nat.not_lt.mpr hpast)
    · have hplace := hlists.members place c id hnew hid
      obtain hc' | ⟨place', rfl, hnew'⟩ := h.class_cases hc'
      · exact absurd (hold hc' hid') (Nat.not_lt.mpr (h.le_of_writtenAt hplace))
      · rw [Option.some.inj (hplace.unique (hlists.members place' c' id hnew' hid'))]
  free := fun {name id index c} hname hc => by
    have hknown : d.functionNames.get? name = some id ∨
        env.program.functionNames.get? name = some id := by
      refine (Table.get?_insertAll_cases hname).imp_left fun hunit => ?_
      rw [h.lowered.functionNames, h.walked.functionNames] at hunit
      exact (Table.get?_eq_some_iff h.declared.functionsDistinct).mpr hunit
    exact hprogram.not_member h hlists hknown hc
  distinct := fun {index c} hc => by
    obtain hc | ⟨place, rfl, hnew⟩ := h.class_cases hc
    · exact hprogram.distinct hc
    · exact hlists.distinct place c hnew

end ScriptHost

/-! ## What names lead to after a link

A unit that has been built declares every function and every class under a name of its own. Once it
has been linked these names lead to what the unit declares, whatever they led to before, and so does
every dotted name that code built afterwards spells them with. -/

namespace ScriptHost

/-- The names of a unit are those of its functions and classes. No two of a kind are the same. -/
structure CompiledUnit.Named (unit : CompiledUnit) : Prop where
  functionsDistinct : (unit.functionNames.map (·.1)).Nodup
  functions : ∀ (name : String) (id : Nat), (name, id) ∈ unit.functionNames →
    ∃ (index : Nat) (f : Function), unit.functions[index]? = some f ∧ f.name = name ∧
      id = unit.functionBase + index
  classesDistinct : ∀ (first second : Nat) (c other : Class), unit.classes[first]? = some c →
    unit.classes[second]? = some other → c.name = other.name → first = second

/-- The names of a unit that has been built are those of its functions and classes. -/
theorem CompiledUnit.BuiltOn.named {unit : CompiledUnit} {env : Env} {d : Declarations}
    {resolved : Resolved.Unit} (h : unit.BuiltOn env d resolved) : unit.Named where
  functionsDistinct := by
    rw [h.lowered.functionNames, h.walked.functionNames]
    exact h.declared.functionsDistinct
  functions := fun name id hmem => by
    rw [h.lowered.functionNames, h.walked.functionNames] at hmem
    have hget := (Table.get?_eq_some_iff h.declared.functionsDistinct).mpr hmem
    obtain ⟨index, signature, hsignature, hname, rfl⟩ := h.declared.functionNames name id hget
    have hinside := (Array.getElem?_eq_some_iff.mp hsignature).1
    rw [← h.size_eq] at hinside
    have hf := Array.getElem?_eq_getElem hinside
    obtain ⟨_, other, -, -, hother, hsame, -⟩ := h.function hf
    rw [hsignature, Option.some.injEq] at hother
    refine ⟨index, _, hf, hsame.trans (hother ▸ hname), ?_⟩
    rw [h.lowered.functionBase, h.walked.functionBase]
  classesDistinct := fun first second c other hc hother hname => by
    rw [h.lowered.classes, h.walked.classes] at hc hother
    have hfirst := h.declared.classesNamed h.walked.clean first c hc
    have hsecond := h.declared.classesNamed h.walked.clean second other hother
    rw [hname, hsecond, Option.some.injEq] at hfirst
    omega

/-- The names of classes are listed with the numbers that the classes get. -/
theorem mem_numbered {base : Nat} {classes : Array Class} {name : String} {id : Nat} :
    (name, id) ∈ Program.numbered base classes ↔
      ∃ (index : Nat) (c : Class), classes[index]? = some c ∧ c.name = name ∧
        id = base + index := by
  simp only [Program.numbered, List.mem_mapIdx, Prod.mk.injEq, Array.getElem_toList,
    Array.length_toList, Array.getElem?_eq_some_iff]
  constructor
  · rintro ⟨index, hindex, rfl, rfl⟩
    exact ⟨index, _, ⟨hindex, rfl⟩, rfl, rfl⟩
  · rintro ⟨index, c, ⟨hindex, rfl⟩, rfl, rfl⟩
    exact ⟨index, hindex, rfl, rfl⟩

section Linked

variable {program next : Program} {unit : CompiledUnit} {allowed : AllowedModules}

/-- A function name of a unit leads to the function of the unit once it has been linked. -/
theorem functionName_of_link (hlink : program.link unit allowed = .ok next) (h : unit.Named)
    {name : String} {id : Nat} (hmem : (name, id) ∈ unit.functionNames) :
    next.functionNames.get? name = some id ∧
      ∃ f ∈ unit.functions, next.functions[id]? = some f ∧ f.name = name := by
  obtain ⟨hbase, -, -, rfl⟩ := link_ok hlink
  refine ⟨Table.get?_insertAll_of_mem _ h.functionsDistinct hmem, ?_⟩
  obtain ⟨index, f, hf, hname, rfl⟩ := h.functions name id hmem
  refine ⟨f, Array.mem_of_getElem? hf, ?_, hname⟩
  rw [Program.append, hbase, Array.getElem?_append_right (Nat.le_add_right ..),
    Nat.add_sub_cancel_left]
  exact hf

/-- The name of a class of a unit leads to the class once the unit has been linked. -/
theorem className_of_link (hlink : program.link unit allowed = .ok next) (h : unit.Named)
    {index : Nat} {c : Class} (hc : unit.classes[index]? = some c) :
    next.classNames.get? c.name = some (unit.classBase + index) ∧
      next.classes[unit.classBase + index]? = some c := by
  obtain ⟨-, hbase, -, rfl⟩ := link_ok hlink
  constructor
  · refine Table.get?_insertAll_of_only _ (mem_numbered.mpr ⟨index, c, hc, rfl, rfl⟩) fun id hid => ?_
    obtain ⟨place, other, hother, hname, rfl⟩ := mem_numbered.mp hid
    rw [h.classesDistinct index place c other hc hother hname.symm]
  · rw [Program.append, hbase, Array.getElem?_append_right (Nat.le_add_right ..),
      Nat.add_sub_cancel_left]
    exact hc

end Linked

namespace Scope.Context

/-- What a dotted name spells at a level of the namespace in which it is used. -/
def spelled (ctx : Context) (path : List String) (depth : Nat) : String :=
  qualify (ctx.space.take depth) (".".intercalate path)

/-- A dotted name spells a qualified name at some level of the namespace in which it is used.
Neither table has what it spells further in, and the table of the unit does not have the name. -/
structure Spells (ctx : Context) (unit program : Table Nat) (path : List String) (depth : Nat)
    (name : String) : Prop where
  level : depth ≤ ctx.space.length
  spells : ctx.spelled path depth = name
  fresh : unit.get? name = none
  inner : ∀ deeper, depth < deeper → deeper ≤ ctx.space.length →
    unit.get? (ctx.spelled path deeper) = none ∧ program.get? (ctx.spelled path deeper) = none

/-- A dotted name leads where the program's table leads from the name that it spells. -/
theorem Spells.lookup {ctx : Context} {unit program : Table Nat} {path : List String}
    {depth id : Nat} {name : String} (h : ctx.Spells unit program path depth name)
    (hid : program.get? name = some id) : ctx.lookupPath? unit program path = some id := by
  have hsplit : List.range (ctx.space.length + 1) = List.range depth ++
      depth :: List.range' (depth + 1) (ctx.space.length - depth) := by
    have hlevel := h.level
    rw [← List.range'_succ, List.range_eq_range', List.range_eq_range']
    have happend := List.range'_append_1 (s := 0) (m := depth) (n := ctx.space.length - depth + 1)
    rw [Nat.zero_add] at happend
    rw [happend]
    congr 1
    omega
  unfold lookupPath?
  rw [List.findSome?_eq_some_iff]
  refine ⟨(List.range' (depth + 1) (ctx.space.length - depth)).reverse, depth,
    (List.range depth).reverse, ?_, ?_, fun deeper hdeeper => ?_⟩
  · rw [hsplit, List.reverse_append, List.reverse_cons, List.append_assoc]
    rfl
  · have hname := h.spells
    unfold spelled at hname
    dsimp only
    rw [hname, h.fresh, hid]
    rfl
  · rw [List.mem_reverse, List.mem_range'_1] at hdeeper
    obtain ⟨hunit, hprogram⟩ := h.inner deeper (by omega) (by omega)
    unfold spelled at hunit hprogram
    dsimp only
    rw [hunit, hprogram]
    rfl

end Scope.Context

end ScriptHost
