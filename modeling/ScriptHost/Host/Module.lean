import ScriptHost.Table
import ScriptHost.Value.Basic
/-!
# Host modules

A host module is a named table of functions that scripts may call. What the functions act on beside
their arguments (lines written, calls counted) is a state of some type `σ`, which the host chooses.
-/

set_option autoImplicit false

namespace ScriptHost

/-- How many arguments a host function takes. -/
inductive Arity where
  | exact (count : Nat)
  | atLeast (count : Nat)
deriving DecidableEq, Repr, Inhabited

namespace Arity

/-- Whether a call with so many arguments is in order. -/
def accepts : Arity → Nat → Bool
  | .exact count, given => given == count
  | .atLeast count, given => decide (count ≤ given)

/-- The arity as text. -/
def text : Arity → String
  | .exact count => toString count
  | .atLeast count => s!"at least {count}"

end Arity

/-- What a call of a host function came to. -/
inductive HostOutcome where
  | value (value : Value)
  /-- The function refused, and says why. -/
  | failure (message : String)
  /-- The function broke down, with a text if it left one. -/
  | panic (detail : Option String)
deriving DecidableEq, Inhabited

/-- A host function over states of type `σ`. -/
structure HostFunction (σ : Type) where
  arity : Arity
  call : List Value → σ → HostOutcome × σ

/-- A named table of host functions. -/
structure HostModule (σ : Type) where
  name : String
  functions : Table (HostFunction σ) := {}

namespace HostModule

variable {σ : Type}

/-- The module with a function added, or replaced if the name is taken. -/
def withFunction (module : HostModule σ) (name : String) (arity : Arity)
    (call : List Value → σ → HostOutcome × σ) : HostModule σ :=
  { module with functions := module.functions.insert name ⟨arity, call⟩ }

/-- The module with a function added that leaves the state alone. -/
def withPure (module : HostModule σ) (name : String) (arity : Arity)
    (call : List Value → HostOutcome) : HostModule σ :=
  module.withFunction name arity fun args state => (call args, state)

end HostModule

end ScriptHost
