/-!
# JSON values

What a JSON text tells. Numbers are kept as they are written. A string whose escapes tell half of a
pair of surrogates stands for no text; that matters only to those who want the text.
-/

set_option autoImplicit false

namespace ScriptHost

/-- A JSON value. -/
inductive Json where
  | null
  | bool (value : Bool)
  | number (literal : String)
  | string (text : Option String)
  | array (items : List Json)
  | object (members : List (Option String × Json))
deriving Inhabited

namespace Json

/-- The text of a string. -/
def text? : Json → Option String
  | string text => text
  | _ => none

/-- The value of a number that is written with digits only. -/
def natural? : Json → Option Nat
  | number literal => if literal.toList.all Char.isDigit then literal.toNat? else none
  | _ => none

/-- The value of such a number below a bound. -/
def naturalBelow? (bound : Nat) (json : Json) : Option Nat :=
  json.natural?.filter (· < bound)

/-- The texts of an array of strings. -/
def texts? : Json → Option (List String)
  | array items => items.mapM text?
  | _ => none

/-- What a value other than null is read as; null is read as nothing. -/
def optional? {α : Type} (read : Json → Option α) : Json → Option (Option α)
  | null => some none
  | json => (read json).map some

end Json

end ScriptHost
