import ScriptHost.Proofs.Host.Catalog
/-!
# What is visible through a view

Modules are loaded and unloaded in any order before a view of the catalog is taken, and afterwards.
The view keeps the numbers of the instances that were allowed, and the names of all that were
loaded. An instance is in the catalog until its name is loaded again or unloaded, and not again
after that; so what a lookup finds later is settled by the instances of then and now.

The main statement is `Catalog.visible_through_view`.
-/

set_option autoImplicit false

namespace ScriptHost

variable {σ : Type}

/-! ## Histories -/

/-- What can be done to a catalog. -/
inductive CatalogChange (σ : Type) where
  | load (module : HostModule σ)
  | unload (name : String)

/-- The name of the module that is loaded or unloaded. -/
def CatalogChange.name : CatalogChange σ → String
  | .load module => module.name
  | .unload name => name

namespace Catalog

/-- The catalog after a change. -/
def change (catalog : Catalog σ) : CatalogChange σ → Catalog σ
  | .load module => catalog.load module
  | .unload name => (catalog.unload name).2

/-- The catalog after several changes, one after the other. -/
def after (catalog : Catalog σ) (changes : List (CatalogChange σ)) : Catalog σ :=
  changes.foldl change catalog

/-- What every catalog is like. -/
structure Sound (catalog : Catalog σ) : Prop where
  numbered : catalog.Numbered
  nodup : catalog.names.Nodup

theorem sound_empty : ({} : Catalog σ).Sound :=
  ⟨numbered_empty, List.nodup_nil⟩

theorem Sound.change {catalog : Catalog σ} (h : catalog.Sound) (c : CatalogChange σ) :
    (catalog.change c).Sound := by
  cases c with
  | load module => exact ⟨h.numbered.load module, nodup_names_load h.nodup module⟩
  | unload name => exact ⟨h.numbered.unload name, nodup_names_unload h.nodup name⟩

theorem Sound.after {catalog : Catalog σ} (h : catalog.Sound) (changes : List (CatalogChange σ)) :
    (catalog.after changes).Sound := by
  induction changes generalizing catalog with
  | nil => exact h
  | cons c rest ih => exact ih (h.change c)

theorem Sound.later_change {catalog : Catalog σ} (h : catalog.Sound) (c : CatalogChange σ) :
    catalog.Later (catalog.change c) := by
  cases c with
  | load module => exact h.numbered.later_load module
  | unload name => exact h.numbered.later_unload name

theorem Sound.later {catalog : Catalog σ} (h : catalog.Sound) (changes : List (CatalogChange σ)) :
    catalog.Later (catalog.after changes) := by
  induction changes generalizing catalog with
  | nil => exact .refl _
  | cons c rest ih => exact (h.later_change c).trans (ih (h.change c))

/-- There is a module under each of the names, and under no other. -/
theorem find?_isSome (catalog : Catalog σ) (name : String) :
    (catalog.find? name).isSome = true ↔ name ∈ catalog.names := by
  simp [find?, names]

/-- An instance that is in a catalog is what the catalog has under its name. -/
theorem Sound.find?_of_mem {catalog : Catalog σ} (h : catalog.Sound) {loaded : LoadedModule σ}
    (hmem : loaded ∈ catalog.modules) : catalog.find? loaded.module.name = some loaded :=
  (h.numbered.find?_eq_some_iff h.nodup).mpr ⟨h.numbered.live? hmem, rfl⟩

theorem mem_of_find? {catalog : Catalog σ} {name : String} {loaded : LoadedModule σ}
    (h : catalog.find? name = some loaded) :
    loaded ∈ catalog.modules ∧ loaded.module.name = name :=
  ⟨List.mem_of_find?_eq_some h, by simpa using List.find?_some h⟩

/-! ## How long an instance is there -/

/-- Instances of other names stay where they are when one is put in its place. -/
theorem mem_place_of_ne {loaded other : LoadedModule σ} {modules : List (LoadedModule σ)}
    (hmem : other ∈ modules) (hne : other.module.name ≠ loaded.module.name) :
    other ∈ place loaded modules := by
  induction modules with
  | nil => cases hmem
  | cons first rest ih =>
    rw [place]
    obtain rfl | hrest := List.mem_cons.mp hmem
    · have hnot : (other.module.name == loaded.module.name) = false := by simpa using hne
      rw [hnot]
      exact List.mem_cons_self
    · split
      · exact List.mem_cons_of_mem _ hrest
      · exact List.mem_cons_of_mem _ (ih hrest)

/-- One instance has the name of the one that has been put in its place, if it was only one
before. -/
theorem eq_of_mem_place {loaded other : LoadedModule σ} {modules : List (LoadedModule σ)}
    (hdistinct : (modules.map (·.module.name)).Nodup) (hmem : other ∈ place loaded modules)
    (hname : other.module.name = loaded.module.name) : other = loaded := by
  induction modules with
  | nil => exact List.mem_singleton.mp hmem
  | cons first rest ih =>
    rw [List.map_cons, List.nodup_cons] at hdistinct
    rw [place] at hmem
    split at hmem
    · rename_i hsame
      rw [beq_iff_eq] at hsame
      obtain rfl | hrest := List.mem_cons.mp hmem
      · rfl
      · have hagain := List.mem_map_of_mem (f := fun l => l.module.name) hrest
        rw [hname, ← hsame] at hagain
        exact absurd hagain hdistinct.1
    · rename_i hother
      obtain rfl | hrest := List.mem_cons.mp hmem
      · exact absurd (beq_iff_eq.mpr hname) hother
      · exact ih hdistinct.2 hrest

/-- A change of a name takes away the instance under this name, and no other. -/
theorem Sound.mem_change {catalog : Catalog σ} (h : catalog.Sound) {loaded : LoadedModule σ}
    (hmem : loaded ∈ catalog.modules) (c : CatalogChange σ) :
    loaded ∈ (catalog.change c).modules ↔ c.name ≠ loaded.module.name := by
  cases c with
  | load module =>
    constructor
    · intro hstays hname
      have hnew := eq_of_mem_place h.nodup hstays hname.symm
      have hgiven := h.numbered.given loaded hmem
      rw [hnew] at hgiven
      exact Nat.lt_irrefl _ hgiven
    · intro hname
      exact mem_place_of_ne hmem (Ne.symm hname)
  | unload name =>
    have hfilter : loaded ∈ (catalog.unload name).2.modules ↔ loaded.module.name ≠ name := by
      simp [Catalog.unload, hmem]
    rw [ne_comm]
    exact hfilter

/-- An instance that is not in a catalog any more does not come back. -/
theorem Later.not_mem {earlier later : Catalog σ} (h : earlier.Later later)
    (hlater : later.Sound) {loaded : LoadedModule σ} (hgiven : loaded.id < earlier.nextId)
    (hnot : loaded ∉ earlier.modules) : loaded ∉ later.modules := by
  intro hmem
  have hlive := h.live? hgiven (hlater.numbered.live? hmem)
  exact hnot (mem_of_live? hlive)

/-- An instance is in the catalog until its name is loaded again or unloaded. -/
theorem Sound.mem_after {catalog : Catalog σ} (h : catalog.Sound) {loaded : LoadedModule σ}
    (hmem : loaded ∈ catalog.modules) (changes : List (CatalogChange σ)) :
    loaded ∈ (catalog.after changes).modules ↔ ∀ c ∈ changes, c.name ≠ loaded.module.name := by
  induction changes generalizing catalog with
  | nil => simpa [Catalog.after] using hmem
  | cons c rest ih =>
    have hchange := h.mem_change hmem c
    change loaded ∈ ((catalog.change c).after rest).modules ↔ _
    rw [List.forall_mem_cons]
    by_cases hname : c.name = loaded.module.name
    · have hgone : loaded ∉ (catalog.change c).modules := by simp [hchange, hname]
      have hgiven : loaded.id < (catalog.change c).nextId :=
        Nat.lt_of_lt_of_le (h.numbered.given loaded hmem) (h.later_change c).nextId
      have hnot := ((h.change c).later rest).not_mem ((h.change c).after rest) hgiven hgone
      simp [hnot, hname]
    · rw [ih (h.change c) (hchange.mpr hname)]
      simp [hname]

end Catalog

/-! ## What is allowed -/

namespace AllowedModules

/-- The entry of a module that is named, if it is loaded. -/
def pick? (catalog : Catalog σ) (name : String) : Option (String × Nat) :=
  (catalog.find? name).map fun loaded => (name, loaded.id)

/-- The choice of one more name. -/
def add (catalog : Catalog σ) (allowed : AllowedModules) (name : String) : AllowedModules :=
  if allowed.contains name then allowed
  else
    match catalog.find? name with
    | some loaded => allowed.insert name loaded.id
    | none => allowed

theorem add_known {catalog : Catalog σ} {allowed : AllowedModules} {name : String}
    (hnew : allowed.contains name = false) {loaded : LoadedModule σ}
    (hfind : catalog.find? name = some loaded) :
    add catalog allowed name = allowed.insert name loaded.id := by
  simp [add, hnew, hfind]

theorem add_unknown {catalog : Catalog σ} {allowed : AllowedModules} {name : String}
    (hfind : catalog.find? name = none) : add catalog allowed name = allowed := by
  simp [add, hfind]

/-- The entries of a choice: those of the names that are loaded, each once. -/
theorem entries_addAll (catalog : Catalog σ) (names : List String) (allowed : AllowedModules) :
    (names.foldl (add catalog) allowed).entries = allowed.entries ++
      (names.filter fun name => !allowed.contains name &&
        (catalog.find? name).isSome).eraseDups.filterMap (pick? catalog) := by
  induction names generalizing allowed with
  | nil => simp
  | cons name rest ih =>
    rw [List.foldl_cons, ih]
    cases hcontains : allowed.contains name with
    | true => simp [add, hcontains]
    | false =>
      cases hfind : catalog.find? name with
      | none => simp [add_unknown hfind, hfind]
      | some loaded =>
        have hnew : name ∉ allowed.names := by
          rw [← Table.contains_iff, hcontains]
          exact Bool.false_ne_true
        have hcontains' (other : String) : (allowed.insert name loaded.id).contains other =
            (allowed.contains other || other == name) := by
          unfold Table.contains
          rw [Table.entries_insert_of_not_mem hnew, List.any_append]
          simp [Bool.beq_comm (a := name)]
        have hpick : pick? catalog name = some (name, loaded.id) := by simp [pick?, hfind]
        -- the names that come later are filtered by what is allowed by then
        rw [add_known hcontains hfind, List.filter_cons_of_pos (by simp [hcontains, hfind]),
          List.eraseDups_cons, List.filterMap_cons_some hpick,
          Table.entries_insert_of_not_mem hnew, List.append_assoc, List.singleton_append,
          List.filter_filter]
        congr 4
        apply List.filter_congr
        intro other _
        rw [hcontains']
        cases allowed.contains other <;> cases other == name <;> rfl

/-- The names that are loaded, each once. -/
def chosen (catalog : Catalog σ) (names : List String) : List String :=
  (names.filter fun name => catalog.names.contains name).eraseDups

theorem entries_select (catalog : Catalog σ) (names : List String) :
    (select catalog names).entries = (chosen catalog names).filterMap (pick? catalog) := by
  have hknown : (fun name => catalog.names.contains name) =
      fun name => !Table.contains ({} : AllowedModules) name && (catalog.find? name).isSome := by
    funext name
    rw [Bool.eq_iff_iff, List.contains_iff_mem, ← Catalog.find?_isSome]
    simp [Table.contains]
  rw [chosen, hknown]
  exact entries_addAll catalog names {}

/-- The names that are allowed are those that are loaded, each once. -/
theorem names_select (catalog : Catalog σ) (names : List String) :
    (select catalog names).names = chosen catalog names := by
  have hall : ∀ name ∈ chosen catalog names, ∃ loaded, catalog.find? name = some loaded := by
    intro name hname
    rw [chosen, List.mem_eraseDups, List.mem_filter, List.contains_iff_mem,
      ← Catalog.find?_isSome] at hname
    exact Option.isSome_iff_exists.mp hname.2
  rw [Table.names, entries_select]
  generalize chosen catalog names = chosen at hall
  induction chosen with
  | nil => rfl
  | cons name rest ih =>
    rw [List.forall_mem_cons] at hall
    obtain ⟨loaded, hfind⟩ := hall.1
    simp [pick?, hfind, ih hall.2]

theorem nodup_eraseDups (names : List String) : names.eraseDups.Nodup := by
  induction hlength : names.length using Nat.strongRecOn generalizing names with
  | _ length ih =>
    cases names with
    | nil => simp
    | cons name rest =>
      have hless : (rest.filter fun other => !other == name).length < length := by
        rw [← hlength, List.length_cons]
        exact Nat.lt_succ_of_le (List.length_filter_le ..)
      rw [List.eraseDups_cons, List.nodup_cons]
      refine ⟨?_, ih _ hless _ rfl⟩
      simp [List.mem_eraseDups]

theorem eraseDups_of_nodup {names : List String} (h : names.Nodup) : names.eraseDups = names := by
  induction names with
  | nil => rfl
  | cons name rest ih =>
    rw [List.nodup_cons] at h
    have hall : (rest.filter fun other => !other == name) = rest := by
      apply List.filter_eq_self.mpr
      intro other hother
      have hne : other ≠ name := fun hsame => h.1 (hsame ▸ hother)
      simpa using hne
    rw [List.eraseDups_cons, hall, ih h.2]

/-- Names that are loaded and all different are chosen as they are. -/
theorem chosen_of_nodup {catalog : Catalog σ} {names : List String} (hnodup : names.Nodup)
    (hloaded : ∀ name ∈ names, name ∈ catalog.names) : chosen catalog names = names := by
  have hall : (names.filter fun name => catalog.names.contains name) = names := by
    apply List.filter_eq_self.mpr
    intro name hname
    exact List.contains_iff_mem.mpr (hloaded name hname)
  rw [chosen, hall, eraseDups_of_nodup hnodup]

/-- To choose what is chosen leads to the same again. -/
theorem select_names (catalog : Catalog σ) (names : List String) :
    select catalog (select catalog names).names = select catalog names := by
  have hnodup : (chosen catalog names).Nodup := nodup_eraseDups _
  have hagain : chosen catalog (chosen catalog names) = chosen catalog names := by
    apply chosen_of_nodup hnodup
    intro name hname
    rw [chosen, List.mem_eraseDups, List.mem_filter] at hname
    exact List.contains_iff_mem.mp hname.2
  have hentries := entries_select catalog (select catalog names).names
  rw [names_select, hagain, ← entries_select] at hentries
  rw [names_select]
  exact congrArg Table.mk hentries

/-- Every module of the catalog is chosen by the names of all. -/
theorem select_all {catalog : Catalog σ} (h : catalog.Sound) :
    select catalog catalog.names = all catalog := by
  have hentries : (all catalog).entries =
      catalog.modules.map fun loaded => (loaded.module.name, loaded.id) := by
    have hnames : ((catalog.modules.map fun loaded => (loaded.module.name, loaded.id)).map
        (·.1)).Nodup := by
      rw [List.map_map]
      exact h.nodup
    exact Table.entries_insertAll_of_new hnames (by simp [Table.names])
  have hselect := entries_select catalog catalog.names
  rw [chosen_of_nodup h.nodup fun _ => id] at hselect
  have hmodules : catalog.names.filterMap (pick? catalog) =
      catalog.modules.map fun loaded => (loaded.module.name, loaded.id) := by
    rw [Catalog.names, List.filterMap_map, ← List.filterMap_eq_map]
    apply List.filterMap_congr
    intro loaded hloaded
    simp [pick?, h.find?_of_mem hloaded]
  rw [hmodules, ← hentries] at hselect
  exact congrArg Table.mk hselect

/-- The number under a name is that of the instance that is loaded, if the name is listed. -/
theorem get?_select {catalog : Catalog σ} {names : List String} {name : String} {id : Nat} :
    (select catalog names).get? name = some id ↔
      name ∈ names ∧ ∃ loaded, catalog.find? name = some loaded ∧ loaded.id = id := by
  have hdistinct : (select catalog names).Distinct := by
    unfold Table.Distinct
    rw [names_select]
    exact nodup_eraseDups _
  rw [Table.get?_eq_some_iff hdistinct, entries_select, List.mem_filterMap]
  constructor
  · rintro ⟨other, hother, hpick⟩
    obtain ⟨loaded, hfind, hsame⟩ := Option.map_eq_some_iff.mp hpick
    cases hsame
    rw [chosen, List.mem_eraseDups, List.mem_filter] at hother
    exact ⟨hother.1, loaded, hfind, rfl⟩
  · rintro ⟨hname, loaded, hfind, rfl⟩
    refine ⟨name, ?_, by simp [pick?, hfind]⟩
    rw [chosen, List.mem_eraseDups, List.mem_filter, List.contains_iff_mem,
      ← Catalog.find?_isSome, hfind]
    exact ⟨hname, rfl⟩

/-- A name is allowed if it is listed and there is a module under it. -/
theorem contains_select {catalog : Catalog σ} {names : List String} {name : String} :
    (select catalog names).contains name = true ↔ name ∈ names ∧ name ∈ catalog.names := by
  rw [Table.contains_iff, names_select, chosen, List.mem_eraseDups, List.mem_filter,
    List.contains_iff_mem]

end AllowedModules

/-- How the modules of a view are chosen. -/
inductive ModuleChoice where
  /-- Every module that is loaded. -/
  | all
  /-- Those of a list of names. -/
  | select (names : List String)

namespace ModuleChoice

/-- The names that are listed. -/
def listed (catalog : Catalog σ) : ModuleChoice → List String
  | .all => catalog.names
  | .select names => names

/-- The modules that are allowed. -/
def allowed (catalog : Catalog σ) : ModuleChoice → AllowedModules
  | .all => .all catalog
  | .select names => .select catalog names

/-- The view of a catalog through a choice. -/
def view (choice : ModuleChoice) (catalog : Catalog σ) : ModuleView :=
  .of catalog (choice.allowed catalog)

theorem allowed_eq {catalog : Catalog σ} (h : catalog.Sound) (choice : ModuleChoice) :
    choice.allowed catalog = .select catalog (choice.listed catalog) := by
  cases choice with
  | all => exact (AllowedModules.select_all h).symm
  | select names => rfl

end ModuleChoice

/-! ## What is found -/

/-- What is found through a view in a later state of the catalog, told by the instances that were
loaded when it was taken, and those that are loaded now. -/
structure ModuleView.Shows (view : ModuleView) (listed : List String) (taken later : Catalog σ) :
    Prop where
  found : ∀ module function arity, view.lookup later module function = .found arity ↔
    module ∈ listed ∧ ∃ loaded, taken.find? module = some loaded ∧ loaded ∈ later.modules ∧
      ∃ f, loaded.module.functions.get? function = some f ∧ f.arity = arity
  missingFunction : ∀ module function, view.lookup later module function = .missingFunction ↔
    module ∈ listed ∧ ∃ loaded, taken.find? module = some loaded ∧ loaded ∈ later.modules ∧
      loaded.module.functions.get? function = none
  unloaded : ∀ module function, view.lookup later module function = .unloaded ↔
    module ∈ listed ∧ ∃ loaded, taken.find? module = some loaded ∧ loaded ∉ later.modules
  notAllowed : ∀ module function, view.lookup later module function = .notAllowed ↔
    module ∉ listed ∧ module ∈ taken.names
  notAModule : ∀ module function, view.lookup later module function = .notAModule ↔
    module ∉ taken.names

namespace ModuleView

variable {taken later : Catalog σ} {listed : List String} {module : String}

/-- Nothing is known of a name under which no module was loaded. -/
theorem lookup_of_unknown (hname : module ∉ taken.names) (function : String) :
    (of taken (.select taken listed)).lookup later module function = .notAModule := by
  have hnot : (AllowedModules.select taken listed).contains module = false := by
    rw [Bool.eq_false_iff, ne_eq, AllowedModules.contains_select]
    exact fun h => hname h.2
  simp [lookup, of, hnot, hname]

/-- A module that was loaded but is not listed is not allowed. -/
theorem lookup_of_not_listed (hlisted : module ∉ listed) (hname : module ∈ taken.names)
    (function : String) :
    (of taken (.select taken listed)).lookup later module function = .notAllowed := by
  have hnot : (AllowedModules.select taken listed).contains module = false := by
    rw [Bool.eq_false_iff, ne_eq, AllowedModules.contains_select]
    exact fun h => hlisted h.1
  simp [lookup, of, hnot, hname]

/-- The number of an instance that is gone leads nowhere. -/
theorem live?_eq_none (htaken : taken.Sound) (h : taken.Later later) {loaded : LoadedModule σ}
    (hmem : loaded ∈ taken.modules) (hgone : loaded ∉ later.modules) :
    later.live? loaded.id = none := by
  rw [Option.eq_none_iff_forall_ne_some]
  intro module hlive
  have hsame := h.live? (htaken.numbered.given loaded hmem) hlive
  rw [htaken.numbered.live? hmem, Option.some.injEq] at hsame
  subst hsame
  exact hgone (Catalog.mem_of_live? hlive)

/-- What is listed and was loaded is looked up by the number of the instance. -/
theorem lookup_of_listed (hlisted : module ∈ listed) {loaded : LoadedModule σ}
    (hfind : taken.find? module = some loaded) (function : String) :
    (of taken (.select taken listed)).lookup later module function =
      match later.live? loaded.id with
      | none => .unloaded
      | some current =>
        match current.functions.get? function with
        | some f => .found f.arity
        | none => .missingFunction := by
  have hcontains : (AllowedModules.select taken listed).contains module = true := by
    rw [AllowedModules.contains_select, ← Catalog.find?_isSome, hfind]
    exact ⟨hlisted, rfl⟩
  have hid : (AllowedModules.select taken listed).get? module = some loaded.id :=
    AllowedModules.get?_select.mpr ⟨hlisted, loaded, hfind, rfl⟩
  have hlive : (AllowedModules.select taken listed).live? later module =
      later.live? loaded.id := by simp [AllowedModules.live?, hid]
  unfold lookup of
  refine (if_pos hcontains).trans ?_
  cases hcurrent : later.live? loaded.id with
  | none => simp [hlive, hcurrent]
  | some current => cases hf : current.functions.get? function <;> simp [hlive, hcurrent, hf]

/-- An instance that is gone is unloaded, whatever is under its name now. -/
theorem lookup_of_gone (htaken : taken.Sound) (h : taken.Later later) (hlisted : module ∈ listed)
    {loaded : LoadedModule σ} (hfind : taken.find? module = some loaded)
    (hgone : loaded ∉ later.modules) (function : String) :
    (of taken (.select taken listed)).lookup later module function = .unloaded := by
  have hmem := (Catalog.mem_of_find? hfind).1
  rw [lookup_of_listed hlisted hfind, live?_eq_none htaken h hmem hgone]

/-- An instance that is still there shows its functions. -/
theorem lookup_of_live (hlater : later.Sound) (hlisted : module ∈ listed)
    {loaded : LoadedModule σ} (hfind : taken.find? module = some loaded)
    (hmem : loaded ∈ later.modules) (function : String) :
    (of taken (.select taken listed)).lookup later module function =
      match loaded.module.functions.get? function with
      | some f => .found f.arity
      | none => .missingFunction := by
  rw [lookup_of_listed hlisted hfind, hlater.numbered.live? hmem]

/-- What a lookup comes to, and why. -/
inductive Verdict (listed : List String) (taken later : Catalog σ) (module function : String) :
    HostLookup → Prop
  | found {loaded : LoadedModule σ} {f : HostFunction σ} (isListed : module ∈ listed)
      (before : taken.find? module = some loaded) (now : loaded ∈ later.modules)
      (has : loaded.module.functions.get? function = some f) :
      Verdict listed taken later module function (.found f.arity)
  | missingFunction {loaded : LoadedModule σ} (isListed : module ∈ listed)
      (before : taken.find? module = some loaded) (now : loaded ∈ later.modules)
      (has : loaded.module.functions.get? function = none) :
      Verdict listed taken later module function .missingFunction
  | unloaded {loaded : LoadedModule σ} (isListed : module ∈ listed)
      (before : taken.find? module = some loaded) (now : loaded ∉ later.modules) :
      Verdict listed taken later module function .unloaded
  | notAllowed (notListed : module ∉ listed) (before : module ∈ taken.names) :
      Verdict listed taken later module function .notAllowed
  | notAModule (before : module ∉ taken.names) :
      Verdict listed taken later module function .notAModule

/-- Every lookup comes to something for a reason. -/
theorem verdict (htaken : taken.Sound) (hlater : later.Sound) (h : taken.Later later)
    (listed : List String) (module function : String) :
    Verdict listed taken later module function
      ((of taken (.select taken listed)).lookup later module function) := by
  by_cases hname : module ∈ taken.names
  · by_cases hlisted : module ∈ listed
    · obtain ⟨loaded, hfind⟩ := Option.isSome_iff_exists.mp
        ((Catalog.find?_isSome taken module).mpr hname)
      by_cases hmem : loaded ∈ later.modules
      · rw [lookup_of_live hlater hlisted hfind hmem]
        cases hf : loaded.module.functions.get? function with
        | some f => exact .found hlisted hfind hmem hf
        | none => exact .missingFunction hlisted hfind hmem hf
      · rw [lookup_of_gone htaken h hlisted hfind hmem]
        exact .unloaded hlisted hfind hmem
    · rw [lookup_of_not_listed hlisted hname]
      exact .notAllowed hlisted hname
  · rw [lookup_of_unknown hname]
    exact .notAModule hname

/-- A lookup through a view goes by the instances of then and now. -/
theorem shows_of (htaken : taken.Sound) (hlater : later.Sound) (h : taken.Later later)
    (listed : List String) :
    (of taken (.select taken listed)).Shows listed taken later := by
  have hverdict := verdict htaken hlater h listed
  refine ⟨fun module function arity => ⟨fun hlookup => ?_, ?_⟩,
    fun module function => ⟨fun hlookup => ?_, ?_⟩, fun module function => ⟨fun hlookup => ?_, ?_⟩,
    fun module function => ⟨fun hlookup => ?_, ?_⟩, fun module function => ⟨fun hlookup => ?_, ?_⟩⟩
  · have hreason := hlookup ▸ hverdict module function
    cases hreason with
    | found isListed before now has => exact ⟨isListed, _, before, now, _, has, rfl⟩
  · rintro ⟨hlisted, loaded, hfind, hmem, f, hf, rfl⟩
    rw [lookup_of_live hlater hlisted hfind hmem, hf]
  · have hreason := hlookup ▸ hverdict module function
    cases hreason with
    | missingFunction isListed before now has => exact ⟨isListed, _, before, now, has⟩
  · rintro ⟨hlisted, loaded, hfind, hmem, hf⟩
    rw [lookup_of_live hlater hlisted hfind hmem, hf]
  · have hreason := hlookup ▸ hverdict module function
    cases hreason with
    | unloaded isListed before now => exact ⟨isListed, _, before, now⟩
  · rintro ⟨hlisted, loaded, hfind, hgone⟩
    exact lookup_of_gone htaken h hlisted hfind hgone function
  · have hreason := hlookup ▸ hverdict module function
    cases hreason with
    | notAllowed notListed before => exact ⟨notListed, before⟩
  · rintro ⟨hlisted, hname⟩
    exact lookup_of_not_listed hlisted hname function
  · have hreason := hlookup ▸ hverdict module function
    cases hreason with
    | notAModule before => exact before
  · intro hname
    exact lookup_of_unknown hname function

end ModuleView

/-- A view of a catalog that has any history shows in every later state what was allowed and loaded
when it was taken, and is still there: an instance is there until its name is loaded again or
unloaded. The names that are allowed are those listed, without the ones that were not loaded and
without repetitions, and to choose them again leads to the same. -/
theorem Catalog.visible_through_view (before since : List (CatalogChange σ))
    (choice : ModuleChoice) :
    let taken := Catalog.after {} before
    let later := taken.after since
    let view := choice.view taken
    (taken.names.Nodup ∧ later.names.Nodup) ∧
      view.Shows (choice.listed taken) taken later ∧
      (∀ loaded ∈ taken.modules,
        loaded ∈ later.modules ↔ ∀ c ∈ since, c.name ≠ loaded.module.name) ∧
      view.allowed.names =
        ((choice.listed taken).filter fun name => taken.names.contains name).eraseDups ∧
      AllowedModules.select taken view.allowed.names = view.allowed := by
  intro taken later view
  have htaken : taken.Sound := sound_empty.after before
  have hlater : later.Sound := htaken.after since
  have hallowed : view.allowed = .select taken (choice.listed taken) :=
    choice.allowed_eq htaken
  have hview : view = .of taken (.select taken (choice.listed taken)) :=
    congrArg (ModuleView.of taken) hallowed
  refine ⟨⟨htaken.nodup, hlater.nodup⟩, ?_, fun loaded hmem => htaken.mem_after hmem since, ?_, ?_⟩
  · rw [hview]
    exact ModuleView.shows_of htaken hlater (htaken.later since) _
  · rw [hallowed, AllowedModules.names_select]
    rfl
  · rw [hallowed, AllowedModules.select_names]

end ScriptHost
