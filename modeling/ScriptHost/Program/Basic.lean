import ScriptHost.Table
import ScriptHost.Value.Basic
/-!
# Programs

A program is what has been built and linked so far: functions, classes and bindings to host
functions, each kept under its number. The tables only grow. A name leads to the number of the
latest declaration, and older numbers stay good.
-/

set_option autoImplicit false

namespace ScriptHost

/-- An instruction of the stack machine. -/
inductive Op where
  /-- Pushes a constant of the chunk. -/
  | pushConst (index : Nat)
  | pushNull
  | pushTrue
  | pushFalse
  | loadLocal (slot : Nat)
  | storeLocal (slot : Nat)
  | loadGlobal (id : Nat)
  | storeGlobal (id : Nat)
  /-- Pushes the object whose member is running. -/
  | loadThis
  /-- Pops an object and pushes its field. -/
  | getField (name : Nat)
  /-- Pops a value, then an object, and puts the value into its field. -/
  | setField (name : Nat)
  | pop
  | add
  | sub
  | mul
  | div
  | mod
  | neg
  | lt
  | gt
  | le
  | ge
  | eq
  | ne
  | not
  /-- Pops a condition and jumps if it is false. -/
  | jumpIfFalse (target : Nat)
  | jump (target : Nat)
  | call (function argc : Nat)
  /-- Pops arguments, then an object, and calls its method. -/
  | callMethod (name argc : Nat)
  | callHost (binding argc : Nat)
  | create (classId argc : Nat)
  | ret
deriving DecidableEq, Repr, Inhabited

/-- The code of one body. -/
structure Chunk where
  ops : Array Op := #[]
  constants : Array Value := #[]
  localCount : Nat := 0
deriving Inhabited

/-- A function, under its qualified name. -/
structure Function where
  name : String
  arity : Nat
  chunk : Chunk
deriving Inhabited

/-- A class, under its qualified name. -/
structure Class where
  name : String
  fields : List String
  /-- The numbers of the functions that are its methods. -/
  methods : Table Nat := {}
  /-- The function that gives the fields what they start with. -/
  fieldInit : Nat
  /-- The method that goes on from there. -/
  constructor? : Option Nat
deriving Inhabited

/-- A reference to a host function. It holds the instance number of the module that was allowed
under the name, if one was. -/
structure HostBinding where
  handle : Option Nat
  moduleName : String
  functionName : String
deriving DecidableEq, Repr, Inhabited

/-- All that has been linked. -/
structure Program where
  functions : Array Function := #[]
  classes : Array Class := #[]
  bindings : Array HostBinding := #[]
  functionNames : Table Nat := {}
  classNames : Table Nat := {}
  globalNames : Table Nat := {}
deriving Inhabited

namespace Program

/-- The number of arguments that a function takes. -/
def functionArity? (program : Program) (id : Nat) : Option Nat :=
  program.functions[id]?.map (·.arity)

/-- The number of arguments that the constructor of a class takes, if it has one. -/
def constructorArity? (program : Program) (classId : Nat) : Option Nat := do
  program.functionArity? (← (← program.classes[classId]?).constructor?)

/-- The number of global variables. -/
def globalCount (program : Program) : Nat :=
  program.globalNames.size

end Program

end ScriptHost
