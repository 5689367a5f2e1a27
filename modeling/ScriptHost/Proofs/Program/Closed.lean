import ScriptHost.Program.Basic
import ScriptHost.Scope.Declarations
/-!
# What the tables of a program refer to

Tables of a program refer to each other by numbers, and code refers to all of them.
-/

set_option autoImplicit false

namespace ScriptHost

/-! ## Closed programs

A program is closed if its names and its classes refer to nothing but entries of its own tables, and
so do the instructions of its code. -/

/-- A class refers to some of the first `count` functions only. -/
structure Class.Closed (count : Nat) (c : Class) : Prop where
  fieldInit : c.fieldInit < count
  methods : ∀ entry ∈ c.methods.entries, entry.2 < count
  constructor : ∀ id ∈ c.constructor?, id < count

/-- Names and classes refer to entries of the tables. -/
structure Program.Closed (program : Program) : Prop where
  functionNames : ∀ (name : String) (id : Nat), program.functionNames.get? name = some id →
    id < program.functions.size
  classNames : ∀ (name : String) (id : Nat), program.classNames.get? name = some id →
    id < program.classes.size
  classes : ∀ (id : Nat) (c : Class), program.classes[id]? = some c →
    c.Closed program.functions.size

/-- An instruction refers to entries of the tables. -/
def Op.Closed (program : Program) : Op → Prop
  | .call function _ => function < program.functions.size
  | .create classId _ => classId < program.classes.size
  | .callHost binding _ => binding < program.bindings.size
  | _ => True

/-- The code of a chunk refers to entries of the tables, and so do the objects among its
constants. -/
structure Chunk.Closed (program : Program) (chunk : Chunk) : Prop where
  ops : ∀ op ∈ chunk.ops.toList, op.Closed program
  constants : ∀ object, Value.object object ∈ chunk.constants →
    object.classId < program.classes.size

/-- All code refers to entries of the tables, too. -/
structure Program.CodeClosed (program : Program) : Prop extends program.Closed where
  code : ∀ (id : Nat) (f : Function), program.functions[id]? = some f → f.chunk.Closed program

/-- An empty program is closed. -/
theorem Program.codeClosed_empty : ({} : Program).CodeClosed where
  functionNames := fun _ _ h => by cases h
  classNames := fun _ _ h => by cases h
  classes := fun _ _ h => by simp at h
  code := fun _ _ h => by simp at h

/-! ## Numbers in the tables of a program

Every number that a name or a class of a program leads to is a number of one of its tables. -/

/-- A class refers to functions of the program: one without parameters that initialises fields, and
methods, of which the constructor is one. -/
structure Class.Indexed (c : Class) (functions : Array Function) : Prop where
  fieldInit : ∃ f, functions[c.fieldInit]? = some f ∧ f.arity = 0
  methods : ∀ (name : String) (id : Nat), c.methods.get? name = some id → id < functions.size
  constructor : c.constructor? = c.methods.get? constructorName

/-- A constructor is a function of the program. -/
theorem Class.Indexed.constructor_lt {c : Class} {functions : Array Function}
    (h : c.Indexed functions) {id : Nat} (hid : c.constructor? = some id) :
    id < functions.size :=
  h.methods constructorName id (h.constructor ▸ hid)

/-- A function belongs to a class: it initialises the fields, or is a method. -/
def Class.Member (c : Class) (id : Nat) : Prop :=
  c.fieldInit = id ∨ ∃ name, c.methods.get? name = some id

/-- A member is a function of the program. -/
theorem Class.Indexed.member_lt {c : Class} {functions : Array Function}
    (h : c.Indexed functions) {id : Nat} (hid : c.Member id) : id < functions.size := by
  obtain rfl | ⟨name, hname⟩ := hid
  · obtain ⟨f, hf, -⟩ := h.fieldInit
    exact (Array.getElem?_eq_some_iff.mp hf).1
  · exact h.methods name id hname

/-- The constructor is a member. -/
theorem Class.Indexed.constructor_member {c : Class} {functions : Array Function}
    (h : c.Indexed functions) {id : Nat} (hid : c.constructor? = some id) : c.Member id :=
  .inr ⟨constructorName, h.constructor ▸ hid⟩

/-- Names and classes lead to entries of the tables. -/
structure Program.Indexed (program : Program) : Prop where
  functionNames : ∀ (name : String) (id : Nat), program.functionNames.get? name = some id →
    id < program.functions.size
  classNames : ∀ (name : String) (id : Nat), program.classNames.get? name = some id →
    id < program.classes.size
  globalNames : ∀ (name : String) (id : Nat), program.globalNames.get? name = some id →
    id < program.globalCount
  classes : ∀ (id : Nat) (c : Class), program.classes[id]? = some c → c.Indexed program.functions

end ScriptHost
