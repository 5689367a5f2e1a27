import ScriptHost.Number.Decimal
/-!
# Values

What a script computes with. An object is known by its number: two values are the same object when
they have the same number, and its fields are kept in a heap (`ScriptHost.Value.Heap`). The class of
an object never changes, so it stands beside the number.
-/

set_option autoImplicit false

namespace ScriptHost

/-- An object: its number in the heap, the class that made it and the name of that class. -/
structure ObjectRef where
  id : Nat
  classId : Nat
  className : String
deriving DecidableEq, Repr, Inhabited

/-- A value. -/
inductive Value where
  | null
  | bool (value : Bool)
  | int (value : Int64)
  | float (value : Float)
  | str (text : String)
  | object (ref : ObjectRef)
deriving DecidableEq, Inhabited

namespace Value

/-- The name of the kind of value. -/
def typeName : Value → String
  | .null => "null"
  | .bool _ => "bool"
  | .int _ => "int"
  | .float _ => "float"
  | .str _ => "string"
  | .object _ => "object"

/-- Whether the value is null. -/
def isNull : Value → Bool
  | .null => true
  | _ => false

/-- A number as a floating point number, the nearest one for a whole number. -/
def toFloat? : Value → Option Float
  | .int value => some value.toFloat
  | .float value => some value
  | _ => none

/-- The text of a string. -/
def toStr? : Value → Option String
  | .str text => some text
  | _ => none

/-- The value as text. An object shows the name of its class only, since objects may hold each
other. -/
def text : Value → String
  | .null => "null"
  | .bool value => if value then "true" else "false"
  | .int value => toString value.toInt
  | .float value => pointedFloatText value
  | .str text => text
  | .object ref => ref.className

/-- Whether two values are equal in a script. A whole number equals a floating point number if that
is its nearest one, a number that is no number equals nothing, and objects are equal if they are
the same. -/
def same : Value → Value → Bool
  | .null, .null => true
  | .bool a, .bool b => a == b
  | .int a, .int b => a == b
  | .float a, .float b => a == b
  | .int a, .float b => a.toFloat == b
  | .float a, .int b => b.toFloat == a
  | .str a, .str b => a == b
  | .object a, .object b => a.id == b.id
  | _, _ => false

end Value

/-- A kind of value that a caller may ask for. -/
inductive ValueKind where
  | bool
  | int
  | float
  | str
deriving DecidableEq, Repr, Inhabited

/-- The name of a kind. -/
def ValueKind.name : ValueKind → String
  | .bool => "bool"
  | .int => "int"
  | .float => "float"
  | .str => "string"

/-- A value of the wrong kind. -/
structure KindMismatch where
  expected : ValueKind
  found : String
deriving DecidableEq, Repr

/-- The text of the complaint. -/
def KindMismatch.message (e : KindMismatch) : String :=
  s!"expected {e.expected.name}, got {e.found}"

/-- The value as one of this kind. A whole number will do for a floating point number; nothing else
is converted. -/
def Value.convert (kind : ValueKind) (value : Value) : Except KindMismatch Value :=
  match kind, value with
  | .bool, .bool b => .ok (.bool b)
  | .int, .int n => .ok (.int n)
  | .float, .float x => .ok (.float x)
  | .float, .int n => .ok (.float n.toFloat)
  | .str, .str s => .ok (.str s)
  | _, other => .error ⟨kind, other.typeName⟩

end ScriptHost
