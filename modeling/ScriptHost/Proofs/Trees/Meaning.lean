import ScriptHost.Machine.Basic
import ScriptHost.Resolved.Basic
/-!
# What resolved trees mean

An interpreter that walks resolved trees: expressions from left to right, statements one after the
other, calls by recursion. It has no instructions, no operand stack and no frames; what the machine
does for a unit is measured against it in `ScriptHost.Proofs.Trees.Agreement`.

The trees alone do not make sure that a loop or a chain of calls ends. The interpreter is given time
instead: so many calls inside each other, so many turns of each loop. If that is not enough it has
no answer; if it has one, the answer is the same with more time.
-/

set_option autoImplicit false

namespace ScriptHost.Resolved

/-- A part of a run: the value that it comes to, or the fault that stops it, and the world that it
leaves. It is nothing if there was not enough time. -/
abbrev Eval (σ : Type) := ExceptT Fault (StateT (World σ) Option)

/-- A function as a tree, with the modules that its unit was linked with. -/
structure LinkedFunction where
  function : Function
  allowed : AllowedModules

/-- All that has been linked, as trees. -/
structure Trees where
  functions : Array LinkedFunction := #[]
  classes : Array Class := #[]

/-- The trees with those of a unit appended. -/
def Trees.append (trees : Trees) (unit : Unit) (allowed : AllowedModules) : Trees where
  functions := trees.functions ++ unit.functions.map (⟨·, allowed⟩)
  classes := trees.classes ++ unit.classes

/-- The function with a number, if it takes so many arguments. -/
def Trees.callee (trees : Trees) (id given : Nat) : Except Fault LinkedFunction :=
  match trees.functions[id]? with
  | none => .error (.invalidFunction id)
  | some f =>
    if given = f.function.arity then .ok f
    else .error (.argumentCount f.function.name (toString f.function.arity) given)

/-- The class with a number, if an object of it can be made from so many arguments. A class without
a constructor takes none; with one, the constructor says. -/
def Trees.madeFrom (trees : Trees) (classId given : Nat) : Except Fault Class :=
  match trees.classes[classId]? with
  | none => .error (.invalidClass classId)
  | some c =>
    if c.constructor? = none ∧ given ≠ 0 then .error (.noConstructor c.name given) else .ok c

/-- The method of a name on the class of the receiver, and the receiver. -/
def Trees.method (trees : Trees) (receiver : Value) (name : String) :
    Except Fault (Nat × ObjectRef) :=
  match receiver with
  | .object object =>
    match trees.classes[object.classId]? with
    | none => .error (.invalidClass object.classId)
    | some c =>
      match c.methods.get? name with
      | some id => .ok (id, object)
      | none => .error (.unknownMethod c.name name)
  | .null => .error (.nullCall name)
  | other => .error (.notAnObjectCall name other.typeName)

/-- An operator that works on both operands. -/
def binaryValue : BinaryOp → Value → Value → Except Fault Value
  | .add => Machine.arith .add
  | .sub => Machine.arith .sub
  | .mul => Machine.arith .mul
  | .div => Machine.arith .div
  | .mod => Machine.arith .mod
  | .lt => Machine.inOrder .lt
  | .gt => Machine.inOrder .gt
  | .le => Machine.inOrder .le
  | .ge => Machine.inOrder .ge
  | .eq => fun a b => .ok (.bool (a.same b))
  | .ne | .and | .or => fun a b => .ok (.bool !(a.same b))

/-- An operator with one operand. -/
def unaryValue : UnaryOp → Value → Except Fault Value
  | .neg => Machine.negate
  | .not => Machine.invert

namespace Eval

variable {σ α : Type}

/-- No answer in the time given. -/
def late : Eval σ α := fun _ => none

/-- What follows a part that has a value. -/
theorem bind_of_ok {β : Type} {first : Eval σ α} {rest : α → Eval σ β} {value : α}
    {world after : World σ} (h : first world = some (.ok value, after)) :
    (first >>= rest) world = rest value after := by
  change ExceptT.bind first rest world = _
  unfold ExceptT.bind
  change StateT.bind first (ExceptT.bindCont rest) world = _
  unfold StateT.bind
  rw [h]
  rfl

/-- Nothing follows a part that faults. -/
theorem bind_of_error {β : Type} {first : Eval σ α} {rest : α → Eval σ β} {fault : Fault}
    {world after : World σ} (h : first world = some (.error fault, after)) :
    (first >>= rest) world = some (.error fault, after) := by
  change ExceptT.bind first rest world = _
  unfold ExceptT.bind
  change StateT.bind first (ExceptT.bindCont rest) world = _
  unfold StateT.bind
  rw [h]
  rfl

/-- A check that succeeds changes nothing. -/
theorem ok_bind {β : Type} (value : α) (rest : α → Eval σ β) :
    ((liftM (Except.ok value : Except Fault α) : Eval σ α) >>= rest) = rest value :=
  rfl

/-- A check that fails is all that happens. -/
theorem error_bind {β : Type} (fault : Fault) (rest : α → Eval σ β) (world : World σ) :
    ((liftM (Except.error fault : Except Fault α) : Eval σ α) >>= rest) world =
      some (.error fault, world) :=
  rfl

/-- Makes room for one more call, where so many are active. -/
def room (active : Nat) (callee : String) : Eval σ PUnit :=
  if maxCallDepth ≤ active then throw (.callDepth callee) else pure ⟨⟩

/-- Makes an object, with null in its fields. -/
def allocate (classId : Nat) (c : Class) : Eval σ ObjectRef := do
  let world ← get
  set { world with heap := world.heap.alloc (.ofList (c.fields.map fun name => (name, .null))) }
  return world.heap.next classId c.name

/-- The field of an object. -/
def readField (owner : Value) (name : String) : Eval σ Value := do
  let world ← get
  let object ← Machine.fieldOwner world.heap owner name
  return (world.heap.getField? object name).getD .null

/-- Gives a field of an object a new value. -/
def writeField (owner : Value) (name : String) (value : Value) : Eval σ PUnit := do
  let world ← get
  let object ← Machine.fieldOwner world.heap owner name
  set { world with heap := world.heap.setField object name value }

/-- Calls a host function. -/
def callHost (catalog : Catalog σ) (binding : HostBinding) (args : List Value) :
    Eval σ Value := fun world =>
  let (result, host) := Machine.callBound catalog binding args world.host
  some (result, { world with host })

end Eval

/-- What an activation of a function can refer to. -/
structure Activation (σ : Type) where
  trees : Trees
  catalog : Catalog σ
  allowed : AllowedModules
  this : Option ObjectRef
  /-- The number of calls that are active, this one included. -/
  active : Nat
  /-- How many turns each loop may take. -/
  turns : Nat
  /-- Runs the body of a function that is called from here. -/
  invoke : LinkedFunction → Option ObjectRef → List Value → Eval σ Value

namespace Activation

variable {σ : Type}

/-- Calls the function with a number. -/
def call (act : Activation σ) (id : Nat) (this : Option ObjectRef) (args : List Value) :
    Eval σ Value := do
  let f ← act.trees.callee id args.length
  Eval.room act.active f.function.name
  act.invoke f this args

/-- Initialises the fields of a new object, and runs the constructor of its class, if it has one.
Whatever the two return, the value is the object. -/
def initialise (act : Activation σ) (initial : LinkedFunction) (object : ObjectRef)
    (constructor? : Option Nat) (args : List Value) : Eval σ Value := do
  let _ ← act.invoke initial (some object) []
  match constructor? with
  | none => return .object object
  | some id =>
    let f ← act.trees.callee id args.length
    let _ ← act.invoke f (some object) args
    return .object object

/-- Makes an object of the class with a number. The calls that it takes come one after the other, so
there must be room for one. -/
def create (act : Activation σ) (classId : Nat) (args : List Value) : Eval σ Value := do
  let c ← act.trees.madeFrom classId args.length
  let initial ← act.trees.callee c.fieldInit 0
  let object ← Eval.allocate classId c
  Eval.room act.active initial.function.name
  act.initialise initial object c.constructor? args

end Activation

/-- How a statement ended. -/
inductive Exit where
  /-- The next statement is due, with these local variables. -/
  | next (locals : Array Value)
  | ret (value : Value)

/-- What a function returns whose body ended like this. -/
def Exit.value : Exit → Value
  | .next _ => .null
  | .ret value => value

section Walk

variable {σ : Type} (act : Activation σ)

mutual

/-- The value of an expression. -/
def Expr.eval (locals : Array Value) : Expr → Eval σ Value
  | .const value => return value
  | .loadLocal slot => return locals[slot]?.getD .null
  | .loadGlobal id => return (← get).globals[id]?.getD .null
  | .loadThis => return (act.this.map Value.object).getD .null
  | .getField object name => do
    let owner ← object.eval locals
    Eval.readField owner name
  | .binary .and left right => do
    if ← Machine.condition (← left.eval locals) then right.eval locals else return .bool false
  | .binary .or left right => do
    if ← Machine.condition (← left.eval locals) then return .bool true else right.eval locals
  | .binary op left right => do
    let a ← left.eval locals
    let b ← right.eval locals
    binaryValue op a b
  | .unary op operand => do
    unaryValue op (← operand.eval locals)
  | .call function args => do
    let args ← Expr.evalAll locals args
    act.call function none args
  | .callMethod object method args => do
    let receiver ← object.eval locals
    let args ← Expr.evalAll locals args
    let (id, this) ← act.trees.method receiver method
    act.call id (some this) args
  | .callHost module function args => do
    let args ← Expr.evalAll locals args
    Eval.callHost act.catalog ⟨act.allowed.get? module, module, function⟩ args
  | .create classId args => do
    let args ← Expr.evalAll locals args
    act.create classId args

/-- The values of expressions, the first one first. -/
def Expr.evalAll (locals : Array Value) : List Expr → Eval σ (List Value)
  | [] => return []
  | e :: rest => do
    let value ← e.eval locals
    let values ← Expr.evalAll locals rest
    return value :: values

end

/-- Repeats `body` as long as `test` holds, at most so many times. -/
def repeatWhile (test : Array Value → Eval σ Bool) (body : Array Value → Eval σ Exit) :
    Nat → Array Value → Eval σ Exit
  | 0, _ => Eval.late
  | turns + 1, locals => do
    if ← test locals then
      match ← body locals with
      | .next locals => repeatWhile test body turns locals
      | .ret value => return .ret value
    else return .next locals

mutual

/-- Carries out a statement. -/
def Stmt.exec (locals : Array Value) : Stmt → Eval σ Exit
  | .storeLocal slot value => do
    let value ← value.eval act locals
    return .next (locals.setIfInBounds slot value)
  | .storeGlobal id value => do
    let value ← value.eval act locals
    modify fun world => { world with globals := Machine.storeGlobal world.globals id value }
    return .next locals
  | .setField object name value => do
    let owner ← object.eval act locals
    let value ← value.eval act locals
    Eval.writeField owner name value
    return .next locals
  | .branch condition body alternative => do
    if ← Machine.condition (← condition.eval act locals) then Stmt.execAll locals body
    else Stmt.execAll locals alternative
  | .loop condition body =>
    repeatWhile (fun locals => do Machine.condition (← condition.eval act locals))
      (fun locals => Stmt.execAll locals body) act.turns locals
  | .ret none => return .ret .null
  | .ret (some value) => do
    let value ← value.eval act locals
    return .ret value
  | .expr value => do
    let _ ← value.eval act locals
    return .next locals

/-- Carries out statements until one returns. -/
def Stmt.execAll (locals : Array Value) : List Stmt → Eval σ Exit
  | [] => return .next locals
  | s :: rest => do
    match ← s.exec locals with
    | .next locals => Stmt.execAll locals rest
    | .ret value => return .ret value

end

end Walk

/-- The local variables at the start of a call: the arguments, then null. -/
def initialLocals (count : Nat) (args : List Value) : Array Value :=
  args.toArray ++ Array.replicate (count - args.length) Value.null

/-- The expression at the end of a top level that `returnsValue`. -/
def resultOf (returnsValue : Bool) (body : List Stmt) : Option Expr :=
  match returnsValue, body.getLast? with
  | true, some (.expr value) => some value
  | _, _ => none

section Run

variable {σ : Type} (trees : Trees) (catalog : Catalog σ)

/-- Runs the body of a function, where `active` calls are active with this one, and at most `time`
calls may come inside each other. -/
def invoke : Nat → Nat → LinkedFunction → Option ObjectRef → List Value → Eval σ Value
  | 0, _, _, _, _ => Eval.late
  | time + 1, active, f, this, args => do
    let act : Activation σ :=
      { trees, catalog, allowed := f.allowed, this, active, turns := time + 1
        invoke := invoke time (active + 1) }
    let exit ← Stmt.execAll act (initialLocals f.function.localCount args) f.function.body
    return exit.value

/-- What a caller outside all scripts can refer to. -/
def outside (time : Nat) : Activation σ where
  trees := trees
  catalog := catalog
  allowed := {}
  this := none
  active := 0
  turns := time + 1
  invoke := invoke trees catalog time 1

/-- What the top level of a unit can refer to. -/
def Unit.activation (time : Nat) (allowed : AllowedModules) : Activation σ where
  trees := trees
  catalog := catalog
  allowed := allowed
  this := none
  active := 1
  turns := time + 1
  invoke := invoke trees catalog time 2

/-- Runs the top level of a unit. If there is an expression for its value, that comes last. -/
def Unit.run (unit : Unit) (allowed : AllowedModules) (time : Nat) : Eval σ Value := do
  let act := Unit.activation trees catalog time allowed
  let locals := initialLocals unit.topLevelLocals []
  match resultOf unit.returnsValue unit.topLevel with
  | some value =>
    match ← Stmt.execAll act locals unit.topLevel.dropLast with
    | .next locals => value.eval act locals
    | .ret early => return early
  | none =>
    let exit ← Stmt.execAll act locals unit.topLevel
    return exit.value

end Run

end ScriptHost.Resolved
