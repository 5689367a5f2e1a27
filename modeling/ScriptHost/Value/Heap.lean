import ScriptHost.Table
import ScriptHost.Value.Basic
/-!
# The heap

The fields of every object that was ever made, under the object's number. Making an object takes
the next number; no object is ever taken away, and none gains or loses a field.
-/

set_option autoImplicit false

namespace ScriptHost

/-- The fields of an object, in the order of their declaration. -/
abbrev Fields := Table Value

/-- The fields of all objects, by number. -/
structure Heap where
  objects : Array Fields := #[]
deriving Inhabited

namespace Heap

/-- The object that is made next, if it is of this class. -/
def next (heap : Heap) (classId : Nat) (className : String) : ObjectRef :=
  ⟨heap.objects.size, classId, className⟩

/-- Makes the next object, with these fields. -/
def alloc (heap : Heap) (fields : Fields) : Heap :=
  ⟨heap.objects.push fields⟩

/-- The fields of an object. -/
def fields (heap : Heap) (ref : ObjectRef) : Fields :=
  heap.objects[ref.id]?.getD {}

/-- The value of a field, if the object has it. -/
def getField? (heap : Heap) (ref : ObjectRef) (name : String) : Option Value :=
  (heap.fields ref).get? name

/-- Whether an object has a field. -/
def hasField (heap : Heap) (ref : ObjectRef) (name : String) : Bool :=
  (heap.fields ref).contains name

/-- The heap with a new value in a field that the object has. -/
def setField (heap : Heap) (ref : ObjectRef) (name : String) (value : Value) : Heap :=
  ⟨heap.objects.modify ref.id (·.insert name value)⟩

end Heap

end ScriptHost
