import ScriptHost.Host.Module
import ScriptHost.Text.Case
/-!
# The module `Text`

Functions of strings. Lengths count characters.
-/

set_option autoImplicit false

namespace ScriptHost.Texts

/-- The string that is the argument at an index. -/
def str (args : List Value) (index : Nat) (function : String) : Except String String :=
  match args[index]? with
  | some (.str text) => .ok text
  | some other =>
    .error s!"{function} expects a string as argument {index + 1}, got {other.typeName}"
  | none => .error s!"{function} is missing argument {index + 1}"

/-- A function of one string. -/
def unary (name : String) (f : String → Value) (args : List Value) : HostOutcome :=
  match str args 0 name with
  | .ok text => .value (f text)
  | .error message => .failure message

/-- The texts of all arguments in a row. -/
def concat (args : List Value) : HostOutcome :=
  .value (.str (args.foldl (fun text arg => text ++ arg.text) ""))

/-- Whether characters stand somewhere in a text in a row. -/
def isWithin (part : List Char) : List Char → Bool
  | [] => part.isEmpty
  | c :: cs => part.isPrefixOf (c :: cs) || isWithin part cs

/-- Whether the first string contains the second. -/
def contains (args : List Value) : HostOutcome :=
  match str args 0 "contains", str args 1 "contains" with
  | .ok whole, .ok part => .value (.bool (isWithin part.toList whole.toList))
  | .error message, _ => .failure message
  | _, .error message => .failure message

/-- The module. -/
def module {σ : Type} : HostModule σ :=
  ({ name := "Text" } : HostModule σ)
    |>.withPure "len" (.exact 1) (unary "len" fun s => .int (Int64.ofNat s.length))
    |>.withPure "upper" (.exact 1) (unary "upper" fun s => .str (Case.upper s))
    |>.withPure "lower" (.exact 1) (unary "lower" fun s => .str (Case.lower s))
    |>.withPure "concat" (.atLeast 0) concat
    |>.withPure "contains" (.exact 2) contains

end ScriptHost.Texts
