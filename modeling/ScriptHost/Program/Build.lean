import ScriptHost.Code.Emit
import ScriptHost.Grammar.Item
import ScriptHost.Scope.Resolve
import ScriptHost.Token.Scan
/-!
# From source texts to a unit

Every text is read first, and all errors of spelling and grammar are gathered. Only if there are
none are the names resolved, and only if they are all good is code made. Diagnostics come in the
order in which they were found, and a unit with an error is no unit.
-/

set_option autoImplicit false

namespace ScriptHost

/-- The most source texts in a unit. -/
def maxSourceTexts : Nat := 65536

/-- What can be wrong with a unit as a whole. -/
inductive UnitError where
  | tooManySources
deriving DecidableEq, Repr

/-- The text of a unit error. -/
def UnitError.message : UnitError → String
  | .tooManySources => "Too many source files"

/-- The diagnostic for a unit error, which has no place. -/
def UnitError.diagnostic (e : UnitError) : Diagnostic :=
  .error .compiler e.message .nowhere

/-- The items of a source text. -/
def read (source : String) (file : Nat) : Except (List Diagnostic) (List Item) :=
  lex source file >>= parse

/-- Source texts read so far, last first, and everything wrong with them. -/
structure ReadTexts where
  texts : List (List Item) := []
  diagnostics : Array Diagnostic := #[]

/-- Adds the text with a number to those read. -/
def ReadTexts.add (found : ReadTexts) (source : String) (file : Nat) : ReadTexts :=
  match read source file with
  | .ok items => { found with texts := items :: found.texts }
  | .error errors => { found with diagnostics := found.diagnostics ++ errors }

/-- Reads source texts, numbered from `file`. -/
def readTexts (found : ReadTexts) (file : Nat) : List String → ReadTexts
  | [] => found
  | source :: rest =>
    if file < maxSourceTexts then readTexts (found.add source file) (file + 1) rest
    else
      { found with diagnostics := found.diagnostics.push UnitError.tooManySources.diagnostic }

/-- Builds a unit from source texts. -/
def build (sources : List String) (env : Env) : Option CompiledUnit × List Diagnostic :=
  let found := readTexts {} 0 sources
  if found.diagnostics.isEmpty then
    let (unit, diagnostics) := resolve found.texts.reverse env
    if diagnostics.any Diagnostic.isError then (none, diagnostics)
    else
      match unit.compile env.program.bindings.size with
      | .ok compiled => (some compiled, diagnostics)
      | .error e => (none, diagnostics ++ [e.diagnostic])
  else (none, found.diagnostics.toList)

end ScriptHost
