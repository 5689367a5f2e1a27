import ScriptHost.Host.Module
/-!
# The catalog of host modules

A host loads modules into its catalog and unloads them again. Every loading makes a new instance
with a number of its own; loading a module under a name that is taken puts the new instance in the
place of the old one. Others hold instances by number only. A number whose instance is no longer
in the catalog is dead, and stays so.

A script sees what an allow-list names, as it stood when the list was applied: `ModuleView`.
-/

set_option autoImplicit false

namespace ScriptHost

/-- A module that has been loaded, and the number of its instance. -/
structure LoadedModule (σ : Type) where
  id : Nat
  module : HostModule σ

/-- The loaded modules, in the order in which their names came. -/
structure Catalog (σ : Type) where
  modules : List (LoadedModule σ) := []
  nextId : Nat := 0

namespace Catalog

variable {σ : Type}

/-- Puts an instance in the place of the one with its name, or last. -/
def place (loaded : LoadedModule σ) : List (LoadedModule σ) → List (LoadedModule σ)
  | [] => [loaded]
  | other :: rest =>
    if other.module.name == loaded.module.name then loaded :: rest else other :: place loaded rest

/-- Loads a module. -/
def load (catalog : Catalog σ) (module : HostModule σ) : Catalog σ where
  modules := place ⟨catalog.nextId, module⟩ catalog.modules
  nextId := catalog.nextId + 1

/-- The loaded module of a name. -/
def find? (catalog : Catalog σ) (name : String) : Option (LoadedModule σ) :=
  catalog.modules.find? (·.module.name == name)

/-- The loaded module with an instance number, as long as it is loaded. -/
def live? (catalog : Catalog σ) (id : Nat) : Option (HostModule σ) :=
  (catalog.modules.find? (·.id == id)).map (·.module)

/-- Unloads the module of a name, and says whether there was one. -/
def unload (catalog : Catalog σ) (name : String) : Bool × Catalog σ :=
  ((catalog.find? name).isSome,
    { catalog with modules := catalog.modules.filter (·.module.name != name) })

/-- The names of the loaded modules. -/
def names (catalog : Catalog σ) : List String :=
  catalog.modules.map (·.module.name)

end Catalog

/-- The modules that a script may refer to: their names and instance numbers. -/
abbrev AllowedModules := Table Nat

namespace AllowedModules

variable {σ : Type}

/-- Every module of the catalog. -/
def all (catalog : Catalog σ) : AllowedModules :=
  .ofList (catalog.modules.map fun loaded => (loaded.module.name, loaded.id))

/-- The modules of the catalog that are named, in the order of the names. A name that is unknown or
comes again is passed over. -/
def select (catalog : Catalog σ) (names : List String) : AllowedModules :=
  names.foldl
    (fun allowed name =>
      if allowed.contains name then allowed
      else
        match catalog.find? name with
        | some loaded => allowed.insert name loaded.id
        | none => allowed)
    {}

/-- The module allowed under a name, if it is still loaded. -/
def live? (allowed : AllowedModules) (catalog : Catalog σ) (name : String) :
    Option (HostModule σ) :=
  (allowed.get? name).bind catalog.live?

end AllowedModules

/-- What `module.function` is to a script. -/
inductive HostLookup where
  | found (arity : Arity)
  /-- The module is allowed but has no such function. -/
  | missingFunction
  /-- The module was loaded but is not allowed. -/
  | notAllowed
  /-- The module is allowed but no longer loaded. -/
  | unloaded
  | notAModule
deriving DecidableEq, Repr, Inhabited

/-- The allowed modules, and the names of all that were loaded when they were chosen. -/
structure ModuleView where
  allowed : AllowedModules := {}
  loaded : List String := []
deriving Inhabited

namespace ModuleView

variable {σ : Type}

/-- The view of a catalog through a choice of modules. -/
def of (catalog : Catalog σ) (allowed : AllowedModules) : ModuleView :=
  ⟨allowed, catalog.names⟩

/-- What `module.function` is, given what is loaded now. -/
def lookup (view : ModuleView) (catalog : Catalog σ) (module function : String) : HostLookup :=
  if view.allowed.contains module then
    match view.allowed.live? catalog module with
    | none => .unloaded
    | some module =>
      match module.functions.get? function with
      | some f => .found f.arity
      | none => .missingFunction
  else if view.loaded.contains module then .notAllowed
  else .notAModule

end ModuleView

end ScriptHost
