import Mathlib.Data.List.Nodup
import ScriptHost.Host.Catalog
import ScriptHost.Program.Basic
import ScriptHost.Proofs.Table
/-!
# Instance numbers of modules

Every instance number is given out once, so a number that some code holds leads to the instance it
was given to, as long as that one is loaded, and to nothing afterwards: `Catalog.Later`. An
allow-list keeps numbers of modules under their names, and a binding that was good when its code was
built stays good.
-/

set_option autoImplicit false

namespace ScriptHost

variable {σ : Type}

namespace Catalog

/-- No two instances have one number, and all numbers have been given out. -/
structure Numbered (catalog : Catalog σ) : Prop where
  distinct : (catalog.modules.map (·.id)).Nodup
  given : ∀ loaded ∈ catalog.modules, loaded.id < catalog.nextId

/-- An empty catalog is numbered. -/
theorem numbered_empty : ({} : Catalog σ).Numbered where
  distinct := List.nodup_nil
  given := nofun

/-- What is in a catalog after an instance has been put in its place. -/
theorem mem_place {loaded other : LoadedModule σ} {modules : List (LoadedModule σ)}
    (h : other ∈ place loaded modules) : other = loaded ∨ other ∈ modules := by
  induction modules with
  | nil => exact .inl (List.mem_singleton.mp h)
  | cons first rest ih =>
    rw [place] at h
    split at h
    · obtain rfl | h := List.mem_cons.mp h
      · exact .inl rfl
      · exact .inr (List.mem_cons_of_mem first h)
    · obtain rfl | h := List.mem_cons.mp h
      · exact .inr List.mem_cons_self
      · exact (ih h).imp_right (List.mem_cons_of_mem first)

/-- A catalog stays numbered when a module is loaded. -/
theorem Numbered.load {catalog : Catalog σ} (h : catalog.Numbered) (module : HostModule σ) :
    (catalog.load module).Numbered where
  distinct := by
    have hplace : ∀ modules : List (LoadedModule σ), (modules.map (·.id)).Nodup →
        (∀ loaded ∈ modules, loaded.id < catalog.nextId) →
          ((place ⟨catalog.nextId, module⟩ modules).map (·.id)).Nodup := by
      intro modules
      induction modules with
      | nil => exact fun _ _ => by simp [place]
      | cons first rest ih =>
        intro hdistinct hgiven
        rw [List.map_cons, List.nodup_cons] at hdistinct
        rw [List.forall_mem_cons] at hgiven
        rw [place]
        split
        · rw [List.map_cons, List.nodup_cons]
          refine ⟨fun hmem => ?_, hdistinct.2⟩
          obtain ⟨loaded, hloaded, hid⟩ := List.mem_map.mp hmem
          exact absurd hid (Nat.ne_of_lt (hgiven.2 loaded hloaded))
        · rw [List.map_cons, List.nodup_cons]
          refine ⟨fun hmem => ?_, ih hdistinct.2 hgiven.2⟩
          obtain ⟨loaded, hloaded, hid⟩ := List.mem_map.mp hmem
          obtain rfl | hold := mem_place hloaded
          · exact absurd hid.symm (Nat.ne_of_lt hgiven.1)
          · exact hdistinct.1 (hid ▸ List.mem_map_of_mem hold)
    exact hplace catalog.modules h.distinct h.given
  given := fun loaded hloaded => by
    obtain rfl | hold := mem_place hloaded
    · exact Nat.lt_succ_self _
    · exact Nat.lt_succ_of_lt (h.given loaded hold)

/-- A catalog stays numbered when a module is unloaded. -/
theorem Numbered.unload {catalog : Catalog σ} (h : catalog.Numbered) (name : String) :
    (catalog.unload name).2.Numbered where
  distinct := h.distinct.sublist (List.filter_sublist.map _)
  given := fun loaded hloaded => h.given loaded (List.mem_filter.mp hloaded).1

/-- A live module has been loaded under its number. -/
theorem mem_of_live? {catalog : Catalog σ} {id : Nat} {module : HostModule σ}
    (h : catalog.live? id = some module) : ⟨id, module⟩ ∈ catalog.modules := by
  obtain ⟨⟨id', module'⟩, hfound, rfl⟩ := Option.map_eq_some_iff.mp h
  obtain rfl : id' = id := by simpa using List.find?_some hfound
  exact List.mem_of_find?_eq_some hfound

/-- A module that has been loaded under a number is live under it. -/
theorem Numbered.live? {catalog : Catalog σ} (h : catalog.Numbered) {id : Nat}
    {module : HostModule σ} (hmem : ⟨id, module⟩ ∈ catalog.modules) :
    catalog.live? id = some module := by
  unfold Catalog.live?
  cases hfind : catalog.modules.find? (·.id == id) with
  | none =>
    have hnone := List.find?_eq_none.mp hfind ⟨id, module⟩ hmem
    simp at hnone
  | some other =>
    have hid : other.id = id := by simpa using List.find?_some hfind
    have hsame : other = ⟨id, module⟩ :=
      List.inj_on_of_nodup_map h.distinct (List.mem_of_find?_eq_some hfind) hmem hid
    rw [hsame]
    rfl

/-- A catalog at a later time. More numbers may have been given out, and a number that had been
given out leads to what it led to, or nowhere. -/
structure Later (earlier later : Catalog σ) : Prop where
  nextId : earlier.nextId ≤ later.nextId
  live? : ∀ {id : Nat} {module : HostModule σ}, id < earlier.nextId →
    later.live? id = some module → earlier.live? id = some module

theorem Later.refl (catalog : Catalog σ) : catalog.Later catalog :=
  ⟨Nat.le_refl _, fun _ => id⟩

theorem Later.trans {first second third : Catalog σ} (h : first.Later second)
    (h' : second.Later third) : first.Later third where
  nextId := Nat.le_trans h.nextId h'.nextId
  live? := fun hid hlive => h.live? hid (h'.live? (Nat.lt_of_lt_of_le hid h.nextId) hlive)

/-- A module is loaded. -/
theorem Numbered.later_load {catalog : Catalog σ} (h : catalog.Numbered) (module : HostModule σ) :
    catalog.Later (catalog.load module) where
  nextId := Nat.le_succ _
  live? := fun hid hlive => by
    obtain hnew | hold := mem_place (mem_of_live? hlive)
    · cases hnew
      exact absurd hid (Nat.lt_irrefl _)
    · exact h.live? hold

/-- A module is unloaded. -/
theorem Numbered.later_unload {catalog : Catalog σ} (h : catalog.Numbered) (name : String) :
    catalog.Later (catalog.unload name).2 where
  nextId := Nat.le_refl _
  live? := fun _ hlive => h.live? (List.mem_filter.mp (mem_of_live? hlive)).1

/-! ## Names -/

/-- No two modules of a catalog have one name, also after a module has been loaded. -/
theorem nodup_names_load {catalog : Catalog σ} (h : catalog.names.Nodup) (module : HostModule σ) :
    (catalog.load module).names.Nodup := by
  have hplace : ∀ modules : List (LoadedModule σ), (modules.map (·.module.name)).Nodup →
      ((place ⟨catalog.nextId, module⟩ modules).map (·.module.name)).Nodup := by
    intro modules
    induction modules with
    | nil => exact fun _ => by simp [place]
    | cons first rest ih =>
      intro hdistinct
      rw [List.map_cons, List.nodup_cons] at hdistinct
      rw [place]
      split
      · rename_i hsame
        rw [beq_iff_eq] at hsame
        rw [List.map_cons, List.nodup_cons]
        exact hsame ▸ hdistinct
      · rename_i hother
        rw [List.map_cons, List.nodup_cons]
        refine ⟨fun hmem => ?_, ih hdistinct.2⟩
        obtain ⟨loaded, hloaded, hname⟩ := List.mem_map.mp hmem
        obtain rfl | hold := mem_place hloaded
        · exact hother (beq_iff_eq.mpr hname.symm)
        · exact hdistinct.1 (hname ▸ List.mem_map_of_mem hold)
  exact hplace catalog.modules h

theorem nodup_names_unload {catalog : Catalog σ} (h : catalog.names.Nodup) (name : String) :
    (catalog.unload name).2.names.Nodup :=
  h.sublist (List.filter_sublist.map _)

/-- What a catalog has under a name is live, and has the name. -/
theorem Numbered.find?_eq_some_iff {catalog : Catalog σ} (h : catalog.Numbered)
    (hnames : catalog.names.Nodup) {name : String} {id : Nat} {module : HostModule σ} :
    catalog.find? name = some ⟨id, module⟩ ↔
      catalog.live? id = some module ∧ module.name = name := by
  constructor
  · intro hfind
    exact ⟨h.live? (List.mem_of_find?_eq_some hfind), by simpa using List.find?_some hfind⟩
  · rintro ⟨hlive, rfl⟩
    have hmem := mem_of_live? hlive
    cases hfind : catalog.find? module.name with
    | none =>
      have hnone := List.find?_eq_none.mp hfind ⟨id, module⟩ hmem
      simp at hnone
    | some other =>
      have hname : other.module.name = module.name := by simpa using List.find?_some hfind
      rw [List.inj_on_of_nodup_map hnames (List.mem_of_find?_eq_some hfind) hmem hname]

end Catalog

/-! ## Allowed modules -/

/-- The numbers in an allow-list have been given out, each to a module of its name. -/
def AllowedModules.Given (allowed : AllowedModules) (catalog : Catalog σ) : Prop :=
  ∀ (name : String) (id : Nat), allowed.get? name = some id →
    id < catalog.nextId ∧ ∀ module, catalog.live? id = some module → module.name = name

namespace AllowedModules

theorem Given.later {allowed : AllowedModules} {earlier later : Catalog σ}
    (h : allowed.Given earlier) (hlater : earlier.Later later) : allowed.Given later := by
  intro name id hname
  obtain ⟨hid, hlive⟩ := h name id hname
  exact ⟨Nat.lt_of_lt_of_le hid hlater.nextId, fun module hmodule =>
    hlive module (hlater.live? hid hmodule)⟩

theorem given_empty (catalog : Catalog σ) : Given {} catalog :=
  nofun

/-- A module of the catalog is put into the list under its name. -/
theorem given_of_mem {catalog : Catalog σ} (h : catalog.Numbered) {loaded : LoadedModule σ}
    (hmem : loaded ∈ catalog.modules) : loaded.id < catalog.nextId ∧
      ∀ module, catalog.live? loaded.id = some module → module.name = loaded.module.name := by
  refine ⟨h.given loaded hmem, fun module hmodule => ?_⟩
  rw [h.live? hmem, Option.some.injEq] at hmodule
  rw [hmodule]

theorem given_all {catalog : Catalog σ} (h : catalog.Numbered) : (all catalog).Given catalog := by
  intro name id hname
  obtain hmem | hempty := Table.get?_insertAll_cases hname
  · obtain ⟨loaded, hloaded, hsame⟩ := List.mem_map.mp hmem
    cases hsame
    exact given_of_mem h hloaded
  · cases hempty

/-- A list stays as it is said, when modules of the catalog are put into it one after the other. -/
theorem given_select {catalog : Catalog σ} (h : catalog.Numbered) (names : List String) :
    (select catalog names).Given catalog := by
  unfold select
  refine List.foldlRecOn (motive := fun allowed => AllowedModules.Given allowed catalog) names _
    (given_empty catalog) fun allowed hallowed name _ => ?_
  split
  · exact hallowed
  · split
    · rename_i loaded hfind
      intro other id hother
      rw [Table.get?_insert] at hother
      split at hother
      · rename_i hsame
        cases hother
        have hname : loaded.module.name = name := by simpa using List.find?_some hfind
        rw [hsame, ← hname]
        exact given_of_mem h (List.mem_of_find?_eq_some hfind)
      · exact hallowed other id hother
    · exact hallowed

end AllowedModules

/-! ## Bindings -/

/-- A binding that may be called with so many arguments: as long as its module is loaded, the module
has the function, which takes so many arguments. -/
def HostBinding.Accepted (catalog : Catalog σ) (binding : HostBinding) (argc : Nat) : Prop :=
  ∃ id, binding.handle = some id ∧ id < catalog.nextId ∧ ∀ module, catalog.live? id = some module →
    ∃ f, module.functions.get? binding.functionName = some f ∧ f.arity.accepts argc = true

/-- A binding stays good. -/
theorem HostBinding.Accepted.later {earlier later : Catalog σ} {binding : HostBinding} {argc : Nat}
    (h : binding.Accepted earlier argc) (hlater : earlier.Later later) :
    binding.Accepted later argc := by
  obtain ⟨id, hhandle, hid, hlive⟩ := h
  exact ⟨id, hhandle, Nat.lt_of_lt_of_le hid hlater.nextId, fun module hmodule =>
    hlive module (hlater.live? hid hmodule)⟩

/-- What a view finds is a function of an allowed module that is loaded. -/
theorem ModuleView.lookup_found {view : ModuleView} {catalog : Catalog σ}
    {module function : String} {arity : Arity}
    (h : view.lookup catalog module function = .found arity) :
    ∃ id loaded f, view.allowed.get? module = some id ∧ catalog.live? id = some loaded ∧
      loaded.functions.get? function = some f ∧ f.arity = arity := by
  unfold ModuleView.lookup at h
  split at h
  · split at h
    · cases h
    · rename_i loaded hlive
      obtain ⟨id, hid, hlive⟩ := Option.bind_eq_some_iff.mp hlive
      split at h
      · rename_i f hf
        cases h
        exact ⟨id, loaded, f, hid, hlive, hf, rfl⟩
      · cases h
  · split at h <;> cases h

/-- What a view finds makes a good binding. -/
theorem ModuleView.accepted_of_lookup {view : ModuleView} {catalog : Catalog σ}
    (hcatalog : catalog.Numbered) {module function : String} {arity : Arity} {argc : Nat}
    (hlookup : view.lookup catalog module function = .found arity)
    (haccepts : arity.accepts argc = true) :
    HostBinding.Accepted catalog ⟨view.allowed.get? module, module, function⟩ argc := by
  obtain ⟨id, loaded, f, hid, hlive, hf, rfl⟩ := lookup_found hlookup
  refine ⟨id, hid, hcatalog.given _ (Catalog.mem_of_live? hlive), fun other hother => ?_⟩
  rw [hlive, Option.some.injEq] at hother
  exact ⟨f, hother ▸ hf, haccepts⟩

end ScriptHost
