import ScriptHost.Scope.Problem
/-!
# Local variables

The variables in scope at a point of a body, innermost scope first and newest variable first, each
in a slot of its own. A scope that ends gives its slots back. `Resolver` is the kind of computation
that walks a body: it keeps the variables and the diagnostics, and fails with one diagnostic.
-/

set_option autoImplicit false

namespace ScriptHost

/-- A local variable. -/
structure Local where
  name : String
  slot : Nat
  /-- Whether its value has been asked for. -/
  used : Bool
  /-- The place of its declaration. -/
  span : Span
deriving DecidableEq, Repr, Inhabited

/-- The most slots that a body can have. -/
def maxLocals : Nat := 65535

/-- How far the walk through a body has come. -/
structure Body where
  scopes : List (List Local) := []
  nextSlot : Nat := 0
  /-- The most slots that were taken at a time. -/
  maxSlot : Nat := 0
  diagnostics : Array Diagnostic := #[]
deriving Inhabited

/-- A step of the walk through a body. -/
abbrev Resolver := EStateM Diagnostic Body

namespace Body

/-- The variable that a name stands for. -/
def findLocal? (body : Body) (name : String) : Option Local :=
  body.scopes.findSome? (·.find? (·.name == name))

/-- Notes that the newest variable of a name is used. -/
def markFirst (name : String) : List Local → List Local
  | [] => []
  | l :: rest => if l.name == name then { l with used := true } :: rest else l :: markFirst name rest

/-- Notes that the variable of a name is used, in the innermost scope that has one. -/
def markIn (name : String) : List (List Local) → List (List Local)
  | [] => []
  | scope :: rest =>
    if scope.any (·.name == name) then markFirst name scope :: rest else scope :: markIn name rest

/-- Notes that the variable that a name stands for is used. -/
def markUsed (body : Body) (name : String) : Body :=
  { body with scopes := markIn name body.scopes }

/-- Opens a scope. -/
def enter (body : Body) : Body :=
  { body with scopes := [] :: body.scopes }

/-- Gives a warning if the level asks for it. -/
def warn (body : Body) (level : Nat) (warning : ScopeWarning) (span : Span) : Body :=
  if warning.level ≤ level then
    { body with diagnostics := body.diagnostics.push (.warning warning.message span) }
  else body

/-- Closes the innermost scope, and warns of the variables in it that were not used, the oldest
first. -/
def leave (body : Body) (level : Nat) : Body :=
  match body.scopes with
  | [] => body
  | scope :: rest =>
    let body := scope.reverse.foldl
      (fun body l => if l.used then body else body.warn level (.unusedVariable l.name) l.span) body
    { body with scopes := rest, nextSlot := body.nextSlot - min scope.length maxLocals }

/-- The start of a function body. Parameters take the first slots and count as used. -/
def ofParams (params : List String) (diagnostics : Array Diagnostic) : Body where
  scopes := [(params.mapIdx fun i name => ⟨name, min i maxLocals, true, .nowhere⟩).reverse]
  nextSlot := min params.length maxLocals
  maxSlot := min params.length maxLocals
  diagnostics

end Body

namespace Resolver

/-- Fails with an error at a place. -/
def fail {α : Type} (e : ScopeError) (span : Span) : Resolver α :=
  throw (e.placed span)

/-- Declares a variable in the innermost scope and answers its slot. -/
def declareLocal (name : String) (span : Span) : Resolver Nat := do
  let body ← get
  match body.scopes with
  | [] => fail (.undeclaredGlobal name) span
  | scope :: rest =>
    if scope.any (·.name == name) then fail (.localRedeclared name) span
    else
      let slot := body.nextSlot
      let scopes := (⟨name, slot, false, span⟩ :: scope) :: rest
      if slot < maxLocals then
        set { body with scopes, nextSlot := slot + 1, maxSlot := max body.maxSlot (slot + 1) }
        return slot
      else
        set { body with scopes }
        fail .tooManyLocals span

/-- The outcome of a step, with a failure recorded and passed over. -/
def recover {α : Type} (step : Resolver α) : Resolver (Option α) := fun body =>
  match step body with
  | .ok a body => .ok (some a) body
  | .error e body => .ok none { body with diagnostics := body.diagnostics.push e }

end Resolver

end ScriptHost
