import ScriptHost.Program.Basic
import ScriptHost.Scope.Problem
import ScriptHost.Tree.Basic
/-!
# What a unit declares

The declarations of all source texts of a unit are collected before any body is looked at, so a
body may use what a later text declares. Functions and classes are numbered in the order of the
text, from where the tables of the program end; the fields of a class are initialised by a function
that comes right before its methods. A global variable that the program has keeps its slot.

A name that is declared twice is an error. The second declaration takes a number all the same, but
the name stays with the first.
-/

set_option autoImplicit false

namespace ScriptHost

/-- The name of the method that is the constructor. -/
def constructorName : String := "init"

/-- The qualified name of `name` in a namespace. -/
def qualify (space : List String) (name : String) : String :=
  if space.isEmpty then name else ".".intercalate space ++ "." ++ name

/-- A function whose body has not been looked at. -/
structure Signature where
  name : String
  arity : Nat
deriving DecidableEq, Repr, Inhabited

/-- What has been declared. -/
structure Declarations where
  functionBase : Nat
  classBase : Nat
  functions : Array Signature := #[]
  classes : Array Class := #[]
  functionNames : Table Nat := {}
  classNames : Table Nat := {}
  /-- The slots of all global variables that the unit declares. -/
  globals : Table Nat := {}
  /-- The global variables among them that are new to the program. -/
  newGlobals : Array (String × Nat) := #[]
  nextGlobal : Nat
  diagnostics : Array Diagnostic := #[]
deriving Inhabited

namespace Declarations

/-- Nothing declared yet, on top of a program. -/
def start (program : Program) : Declarations where
  functionBase := program.functions.size
  classBase := program.classes.size
  nextGlobal := program.globalCount

/-- Records an error. -/
def report (d : Declarations) (e : ScopeError) (span : Span) : Declarations :=
  { d with diagnostics := d.diagnostics.push (e.placed span) }

/-- The number of the next function. -/
def nextFunction (d : Declarations) : Nat :=
  d.functionBase + d.functions.size

/-- Gives the next number to a function. -/
def pushFunction (d : Declarations) (name : String) (arity : Nat) : Declarations :=
  { d with functions := d.functions.push ⟨name, arity⟩ }

/-- Declares a free function. -/
def addFunction (d : Declarations) (space : List String) (f : FunctionDecl) : Declarations :=
  let name := qualify space f.name
  let id := d.nextFunction
  let d := d.pushFunction name f.params.length
  if d.functionNames.contains name then d.report (.functionRedeclared name) f.span
  else { d with functionNames := d.functionNames.insert name id }

/-- Declares the fields of a class. -/
def addFields (d : Declarations) (className : String) (fields : List FieldDecl) :
    List String × Declarations :=
  fields.foldl
    (fun (names, d) field =>
      if names.contains field.name then
        (names, d.report (.fieldRedeclared className field.name) field.span)
      else (names ++ [field.name], d))
    ([], d)

/-- Declares the methods of a class that has these fields. -/
def addMethods (d : Declarations) (className : String) (fields : List String)
    (methods : List FunctionDecl) : Table Nat × Declarations :=
  methods.foldl
    (fun (table, d) method =>
      let id := d.nextFunction
      let d := d.pushFunction (className ++ "." ++ method.name) method.params.length
      if table.contains method.name || fields.contains method.name then
        (table, d.report (.memberRedeclared className method.name) method.span)
      else (table.insert method.name id, d))
    ({}, d)

/-- Declares a class with all its members. -/
def addClass (d : Declarations) (space : List String) (c : ClassDecl) : Declarations :=
  let name := qualify space c.name
  let id := d.classBase + d.classes.size
  let fieldInit := d.nextFunction
  let d := d.pushFunction (name ++ ".<fields>") 0
  let (fields, d) := d.addFields name c.fields
  let (methods, d) := d.addMethods name fields c.methods
  let made : Class :=
    { name, fields, methods, fieldInit, constructor? := methods.get? constructorName }
  let d := { d with classes := d.classes.push made }
  if d.classNames.contains name then d.report (.typeRedeclared name) c.span
  else { d with classNames := d.classNames.insert name id }

/-- Declares a global variable. -/
def addGlobal (d : Declarations) (program : Program) (name : String) (span : Span) :
    Declarations :=
  if d.globals.contains name then d.report (.globalRedeclared name) span
  else
    match program.globalNames.get? name with
    | some id => { d with globals := d.globals.insert name id }
    | none =>
      { d with
        globals := d.globals.insert name d.nextGlobal
        newGlobals := d.newGlobals.push (name, d.nextGlobal)
        nextGlobal := d.nextGlobal + 1 }

mutual

/-- Declares what an item in a namespace declares. -/
def addItem (program : Program) (space : List String) (d : Declarations) : Item → Declarations
  | .space path items _ => addItems program (space ++ path) d items
  | .classDecl c => d.addClass space c
  | .function f => d.addFunction space f
  | .stmt (.letVar name _ span) => if space.isEmpty then d.addGlobal program name span else d
  | .stmt _ => d

/-- Declares what the items of a namespace declare. -/
def addItems (program : Program) (space : List String) (d : Declarations) :
    List Item → Declarations
  | [] => d
  | item :: rest => addItems program space (addItem program space d item) rest

end

/-- What source texts declare on top of a program. -/
def ofTexts (program : Program) (texts : List (List Item)) : Declarations :=
  texts.foldl (fun d items => addItems program [] d items) (start program)

end Declarations

end ScriptHost
