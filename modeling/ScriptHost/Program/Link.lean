import ScriptHost.Host.Catalog
import ScriptHost.Program.Basic
import ScriptHost.Source.Diagnostic
/-!
# Linking

A unit is built against a program of a certain size, and numbers what it declares from there. To
link it appends its functions, classes and bindings to the tables and lets its names lead to them.
A unit whose numbers no longer start where the tables end is refused.
-/

set_option autoImplicit false

namespace ScriptHost

/-- A unit that has been built and can be linked. -/
structure CompiledUnit where
  /-- The number of its first function. -/
  functionBase : Nat
  functions : Array Function
  /-- The number of its first class. -/
  classBase : Nat
  classes : Array Class
  /-- Its free functions by name. -/
  functionNames : List (String × Nat)
  /-- The global variables that it brings in. -/
  globals : List (String × Nat)
  /-- The host functions that it calls, module and function. -/
  hostCalls : Array (String × String)
  /-- The number of its first binding. -/
  bindingBase : Nat
  topLevel : Chunk
  /-- Whether the top level ends with an expression, whose value is the unit's. -/
  returnsValue : Bool
deriving Inhabited

/-- What can stop a unit from being linked. -/
inductive LinkError where
  | outOfDate
deriving DecidableEq, Repr

/-- The text of a linking error. -/
def LinkError.message : LinkError → String
  | .outOfDate => "Compiled unit is out of date with the program"

/-- The diagnostic for a linking error, which has no place. -/
def LinkError.diagnostic (e : LinkError) : Diagnostic :=
  .error .compiler e.message .nowhere

namespace Program

/-- Whether the unit's numbers start where the tables end. -/
def accepts (program : Program) (unit : CompiledUnit) : Bool :=
  unit.functionBase == program.functions.size && unit.classBase == program.classes.size &&
    unit.bindingBase == program.bindings.size

/-- The names of classes with their numbers, counted from `base`. -/
def numbered (base : Nat) (classes : Array Class) : List (String × Nat) :=
  classes.toList.mapIdx fun offset c => (c.name, base + offset)

/-- The program with the unit's parts appended. -/
def append (program : Program) (unit : CompiledUnit) (allowed : AllowedModules) : Program where
  functions := program.functions ++ unit.functions
  classes := program.classes ++ unit.classes
  bindings :=
    program.bindings ++
      unit.hostCalls.map fun (module, function) => ⟨allowed.get? module, module, function⟩
  functionNames := program.functionNames.insertAll unit.functionNames
  classNames := program.classNames.insertAll (numbered unit.classBase unit.classes)
  globalNames := program.globalNames.insertAll unit.globals

/-- Links a unit. Its top level is `unit.topLevel`, ready to run on the new program. -/
def link (program : Program) (unit : CompiledUnit) (allowed : AllowedModules) :
    Except LinkError Program :=
  if program.accepts unit then .ok (program.append unit allowed) else .error .outOfDate

end Program

end ScriptHost
