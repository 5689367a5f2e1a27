import ScriptHost.Host.Catalog
import ScriptHost.Machine.Arithmetic
import ScriptHost.Program.Basic
import ScriptHost.Value.Heap
/-!
# The stack machine

A run of the machine is a stack of frames, one for each call that is active, over a world that all
calls share. `Machine.step` does one thing: it carries out one instruction, or hands the value of a
finished frame to the frame below. `Machine.run` repeats it.

To create an object takes two calls in a row, of the function that initialises its fields and of
its constructor. What is left to do when a frame finishes stands in the frame: `Resume`.
-/

set_option autoImplicit false

namespace ScriptHost

/-- What all calls share: global variables, the fields of objects, and the state of the host. -/
structure World (σ : Type) where
  globals : Array Value := #[]
  heap : Heap := {}
  host : σ

/-- What becomes of the value that a frame returns. -/
inductive Resume where
  /-- The caller gets it. -/
  | value
  /-- The fields of the object are initialised; its constructor is next, if there is one. -/
  | construct (object : ObjectRef) (next : Option (Nat × List Value))
  /-- The constructor has run; the caller gets the object. -/
  | object (object : ObjectRef)
deriving Inhabited

/-- One active call. -/
structure Frame where
  /-- The name of the function, for traces. -/
  name : String
  chunk : Chunk
  /-- The place of the next instruction. -/
  ip : Nat := 0
  locals : Array Value
  /-- The operand stack, its top first. -/
  stack : List Value := []
  this : Option ObjectRef := none
  resume : Resume := .value
deriving Inhabited

namespace Frame

/-- A frame about to run a chunk. Arguments fill the first slots and null the others. -/
def start (name : String) (chunk : Chunk) (this : Option ObjectRef) (args : List Value)
    (resume : Resume) : Frame where
  name := name
  chunk := chunk
  locals := args.toArray ++ Array.replicate (chunk.localCount - args.length) Value.null
  this := this
  resume := resume

/-- The frame with a value pushed. -/
def push (frame : Frame) (value : Value) : Frame :=
  { frame with stack := value :: frame.stack }

/-- The top of the stack, and the frame without it. -/
def pop (frame : Frame) : Except Fault (Value × Frame) :=
  match frame.stack with
  | [] => .error .stackUnderflow
  | value :: rest => .ok (value, { frame with stack := rest })

/-- The two topmost values, the lower one first, and the frame without them. -/
def pop₂ (frame : Frame) : Except Fault (Value × Value × Frame) := do
  let (b, frame) ← frame.pop
  let (a, frame) ← frame.pop
  return (a, b, frame)

/-- The topmost values in the order in which they were pushed, and the frame without them. -/
def popArgs (frame : Frame) (count : Nat) : Except Fault (List Value × Frame) :=
  if count ≤ frame.stack.length then
    .ok ((frame.stack.take count).reverse, { frame with stack := frame.stack.drop count })
  else .error .stackUnderflow

/-- The name that a constant of the chunk spells. -/
def constantName (frame : Frame) (index : Nat) : Except Fault String :=
  match frame.chunk.constants[index]?.bind Value.toStr? with
  | some name => .ok name
  | none => .error (.invalidName index)

end Frame

namespace Machine

/-- The name of the frame that runs a top level. -/
def topLevelName : String := "<top-level>"

/-- What a run goes by. -/
structure Setting (σ : Type) where
  program : Program
  catalog : Catalog σ
  /-- The most instructions that a run may carry out. -/
  limit : Option Nat

variable {σ : Type}

/-- The frame for a call of a function. -/
def enter (program : Program) (function : Nat) (this : Option ObjectRef) (args : List Value)
    (resume : Resume) : Except Fault Frame :=
  match program.functions[function]? with
  | none => .error (.invalidFunction function)
  | some f =>
    if args.length = f.arity then .ok (.start f.name f.chunk this args resume)
    else .error (.argumentCount f.name (toString f.arity) args.length)

/-- The start of the creation of an object: the frame that initialises its fields, and what they
hold before. The object is the next one in the heap. -/
def construct (program : Program) (classId : Nat) (args : List Value) (heap : Heap) :
    Except Fault (Frame × Fields) :=
  match program.classes[classId]? with
  | none => .error (.invalidClass classId)
  | some c =>
    if c.constructor?.isNone && !args.isEmpty then .error (.noConstructor c.name args.length)
    else do
      let object := heap.next classId c.name
      let next := c.constructor?.map fun id => (id, args)
      let frame ← enter program c.fieldInit (some object) [] (.construct object next)
      return (frame, .ofList (c.fields.map fun name => (name, .null)))

/-- The method of a name on the class of the receiver, and the receiver. -/
def method (program : Program) (receiver : Value) (name : String) :
    Except Fault (Nat × ObjectRef) :=
  match receiver with
  | .object object =>
    match program.classes[object.classId]? with
    | none => .error (.invalidClass object.classId)
    | some c =>
      match c.methods.get? name with
      | some id => .ok (id, object)
      | none => .error (.unknownMethod c.name name)
  | .null => .error (.nullCall name)
  | other => .error (.notAnObjectCall name other.typeName)

/-- The object behind a value, which must have a field. -/
def fieldOwner (heap : Heap) (value : Value) (name : String) : Except Fault ObjectRef :=
  match value with
  | .object object =>
    if heap.hasField object name then .ok object else .error (.unknownField object.className name)
  | .null => .error (.nullAccess name)
  | other => .error (.notAnObjectAccess name other.typeName)

/-- The host function behind a binding, if a call with so many arguments may go there. -/
def boundFunction (catalog : Catalog σ) (binding : HostBinding) (argc : Nat) :
    Except Fault (HostFunction σ) :=
  match binding.handle.bind catalog.live? with
  | none => .error (.moduleUnloaded binding.moduleName binding.functionName)
  | some module =>
    match module.functions.get? binding.functionName with
    | none => .error (.unknownHostFunction binding.moduleName binding.functionName)
    | some f =>
      if f.arity.accepts argc then .ok f
      else
        .error (.argumentCount (binding.moduleName ++ "." ++ binding.functionName)
          f.arity.text argc)

/-- Calls the host function behind a binding. Its effects on the host stay, also when it fails. -/
def callBound (catalog : Catalog σ) (binding : HostBinding) (args : List Value) (host : σ) :
    Except Fault Value × σ :=
  match boundFunction catalog binding args.length with
  | .error fault => (.error fault, host)
  | .ok f =>
    let (outcome, host) := f.call args host
    let result :=
      match outcome with
      | .value value => .ok value
      | .failure message =>
        .error (.hostFailure binding.moduleName binding.functionName message)
      | .panic detail => .error (.hostPanic binding.moduleName binding.functionName detail)
    (result, host)

/-- Calls a host function by the number of its binding. -/
def callHost (setting : Setting σ) (id : Nat) (args : List Value) (host : σ) :
    Except Fault Value × σ :=
  match setting.program.bindings[id]? with
  | none => (.error (.invalidBinding id), host)
  | some binding => callBound setting.catalog binding args host

/-- The global variables with a value in a slot, and null in slots that had to be added. -/
def storeGlobal (globals : Array Value) (id : Nat) (value : Value) : Array Value :=
  let globals := globals ++ Array.replicate (id + 1 - globals.size) Value.null
  globals.setIfInBounds id value

/-- What an instruction leads to. -/
inductive Effect (σ : Type) where
  /-- The frame goes on. -/
  | next (frame : Frame) (world : World σ)
  /-- The frame waits for another. -/
  | enter (caller callee : Frame) (world : World σ)
  /-- The frame is finished. -/
  | ret (value : Value) (world : World σ)
  | fault (fault : Fault) (world : World σ)

/-- The effect of something that can fail before it changes the world. -/
def Effect.attempt {α : Type} (world : World σ) (prepared : Except Fault α)
    (act : α → World σ → Effect σ) : Effect σ :=
  match prepared with
  | .ok a => act a world
  | .error e => .fault e world

/-- The frame with the value of an operator on its topmost value. -/
def operate (frame : Frame) (f : Value → Except Fault Value) : Except Fault Frame := do
  let (a, frame) ← frame.pop
  return frame.push (← f a)

/-- The frame with the value of an operator on its two topmost values. -/
def operate₂ (frame : Frame) (f : Value → Value → Except Fault Value) : Except Fault Frame := do
  let (a, b, frame) ← frame.pop₂
  return frame.push (← f a b)

/-- The frame with an object replaced by its field. -/
def readField (heap : Heap) (frame : Frame) (index : Nat) : Except Fault Frame := do
  let (value, frame) ← frame.pop
  let name ← frame.constantName index
  let object ← fieldOwner heap value name
  return frame.push ((heap.getField? object name).getD .null)

/-- The object, field and value of an assignment, and the frame without object and value. -/
def prepareField (heap : Heap) (frame : Frame) (index : Nat) :
    Except Fault (ObjectRef × String × Value × Frame) := do
  let (owner, value, frame) ← frame.pop₂
  let name ← frame.constantName index
  let object ← fieldOwner heap owner name
  return (object, name, value, frame)

/-- The frame after a jump that is taken if the topmost value is false. -/
def jumpIfFalse (frame : Frame) (target : Nat) : Except Fault Frame := do
  let (value, frame) ← frame.pop
  return if ← condition value then frame else { frame with ip := target }

/-- The frame that calls a function, and the one for the call. -/
def prepareCall (program : Program) (frame : Frame) (function argc : Nat) :
    Except Fault (Frame × Frame) := do
  let (args, frame) ← frame.popArgs argc
  return (frame, ← enter program function none args .value)

/-- The frame that calls a method, and the one for the call. -/
def prepareMethod (program : Program) (frame : Frame) (index argc : Nat) :
    Except Fault (Frame × Frame) := do
  let (args, frame) ← frame.popArgs argc
  let (receiver, frame) ← frame.pop
  let name ← frame.constantName index
  let (function, object) ← method program receiver name
  return (frame, ← enter program function (some object) args .value)

/-- The frame that creates an object, the one that initialises its fields, and the fields. -/
def prepareObject (program : Program) (heap : Heap) (frame : Frame) (classId argc : Nat) :
    Except Fault (Frame × Frame × Fields) := do
  let (args, frame) ← frame.popArgs argc
  let (callee, fields) ← construct program classId args heap
  return (frame, callee, fields)

/-- The effect of a call of a host function. -/
def hostEffect (setting : Setting σ) (binding : Nat) (args : List Value) (frame : Frame) :
    World σ → Effect σ
  | ⟨globals, heap, host⟩ =>
    match callHost setting binding args host with
    | (.ok value, host) => .next (frame.push value) ⟨globals, heap, host⟩
    | (.error e, host) => .fault e ⟨globals, heap, host⟩

/-- The effect of an instruction on a frame that has moved past it. -/
@[simp] def effect (setting : Setting σ) (frame : Frame) (world : World σ) : Op → Effect σ
  | .pushConst index => .next (frame.push (frame.chunk.constants[index]?.getD .null)) world
  | .pushNull => .next (frame.push .null) world
  | .pushTrue => .next (frame.push (.bool true)) world
  | .pushFalse => .next (frame.push (.bool false)) world
  | .loadLocal slot => .next (frame.push (frame.locals[slot]?.getD .null)) world
  | .storeLocal slot => .attempt world frame.pop fun (value, frame) world =>
    .next { frame with locals := frame.locals.setIfInBounds slot value } world
  | .loadGlobal id => .next (frame.push (world.globals[id]?.getD .null)) world
  | .storeGlobal id => .attempt world frame.pop fun (value, frame) world =>
    .next frame { world with globals := storeGlobal world.globals id value }
  | .loadThis => .next (frame.push ((frame.this.map Value.object).getD .null)) world
  | .getField index => .attempt world (readField world.heap frame index) .next
  | .setField index =>
    .attempt world (prepareField world.heap frame index) fun (object, name, value, frame) world =>
      .next frame { world with heap := world.heap.setField object name value }
  | .pop => .attempt world frame.pop fun (_, frame) world => .next frame world
  | .add => .attempt world (operate₂ frame (arith .add)) .next
  | .sub => .attempt world (operate₂ frame (arith .sub)) .next
  | .mul => .attempt world (operate₂ frame (arith .mul)) .next
  | .div => .attempt world (operate₂ frame (arith .div)) .next
  | .mod => .attempt world (operate₂ frame (arith .mod)) .next
  | .neg => .attempt world (operate frame negate) .next
  | .lt => .attempt world (operate₂ frame (inOrder .lt)) .next
  | .gt => .attempt world (operate₂ frame (inOrder .gt)) .next
  | .le => .attempt world (operate₂ frame (inOrder .le)) .next
  | .ge => .attempt world (operate₂ frame (inOrder .ge)) .next
  | .eq => .attempt world (operate₂ frame fun a b => .ok (.bool (a.same b))) .next
  | .ne => .attempt world (operate₂ frame fun a b => .ok (.bool !(a.same b))) .next
  | .not => .attempt world (operate frame invert) .next
  | .jumpIfFalse target => .attempt world (jumpIfFalse frame target) .next
  | .jump target => .next { frame with ip := target } world
  | .call function argc =>
    .attempt world (prepareCall setting.program frame function argc) fun (caller, callee) =>
      .enter caller callee
  | .callMethod index argc =>
    .attempt world (prepareMethod setting.program frame index argc) fun (caller, callee) =>
      .enter caller callee
  | .callHost binding argc => .attempt world (frame.popArgs argc) fun (args, frame) world =>
    hostEffect setting binding args frame world
  | .create classId argc =>
    .attempt world (prepareObject setting.program world.heap frame classId argc)
      fun (caller, callee, fields) world =>
        .enter caller callee { world with heap := world.heap.alloc fields }
  | .ret => .ret (frame.stack.headD .null) world

/-- The limit, if it allows fewer instructions than `executed`. -/
def exceeded? (limit : Option Nat) (executed : Nat) : Option Nat :=
  limit.filter (· < executed)

/-- Carries out an instruction of a frame. `executed` counts it already. -/
def instruction (setting : Setting σ) (executed : Nat) (frame : Frame) (world : World σ)
    (op : Op) : Effect σ :=
  match exceeded? setting.limit executed with
  | some limit => .fault (.instructionLimit limit) world
  | none =>
    if maxStack ≤ frame.stack.length then .fault .stackOverflow world
    else effect setting { frame with ip := frame.ip + 1 } world op

/-- A machine in the middle of a run. -/
structure State (σ : Type) where
  /-- The frame that runs. -/
  frame : Frame
  /-- The frames that wait, the innermost first. -/
  callers : List Frame
  /-- The number of instructions carried out. -/
  executed : Nat
  world : World σ

/-- How a run ended. -/
structure Ending (σ : Type) where
  result : Except RuntimeError Value
  /-- The number of instructions carried out. -/
  executed : Nat
  world : World σ

/-- What a step leads to. -/
inductive Outcome (σ : Type) where
  | running (state : State σ)
  | ended (ending : Ending σ)

/-- The names of frames. -/
def traceOf (frames : List Frame) : List String :=
  frames.map (·.name)

/-- The end of a run with a fault. -/
def fault (fault : Fault) (frames : List Frame) (executed : Nat) (world : World σ) : Outcome σ :=
  .ended ⟨.error ⟨fault, traceOf frames⟩, executed, world⟩

/-- Puts a frame on top of others, if there is room. -/
def pushFrame (callee : Frame) (frames : List Frame) (executed : Nat) (world : World σ) :
    Outcome σ :=
  if maxCallDepth ≤ frames.length then fault (.callDepth callee.name) frames executed world
  else .running ⟨callee, frames, executed, world⟩

/-- Hands a value to the frame that waits for it, or ends the run. -/
def deliver (value : Value) (callers : List Frame) (executed : Nat) (world : World σ) :
    Outcome σ :=
  match callers with
  | [] => .ended ⟨.ok value, executed, world⟩
  | caller :: rest => .running ⟨caller.push value, rest, executed, world⟩

/-- Goes on after a frame has returned a value. -/
def finish (program : Program) (resume : Resume) (value : Value) (callers : List Frame)
    (executed : Nat) (world : World σ) : Outcome σ :=
  match resume with
  | .value => deliver value callers executed world
  | .object object => deliver (.object object) callers executed world
  | .construct object none => deliver (.object object) callers executed world
  | .construct object (some (id, args)) =>
    match enter program id (some object) args (.object object) with
    | .error e => fault e callers executed world
    | .ok callee => pushFrame callee callers executed world

/-- One step of a run. A frame with no next instruction is finished, and returns null. -/
def step (setting : Setting σ) : State σ → Outcome σ
  | ⟨frame, callers, executed, world⟩ =>
    match frame.chunk.ops[frame.ip]? with
    | none => finish setting.program frame.resume .null callers executed world
    | some op =>
      let resume := frame.resume
      match instruction setting (executed + 1) frame world op with
      | .next frame world => .running ⟨frame, callers, executed + 1, world⟩
      | .enter caller callee world => pushFrame callee (caller :: callers) (executed + 1) world
      | .ret value world => finish setting.program resume value callers (executed + 1) world
      | .fault e world => fault e (frame :: callers) (executed + 1) world

/-- Repeats `step` until the run ends, at most `fuel` times. -/
def run (setting : Setting σ) : Nat → State σ → Option (Ending σ)
  | 0, _ => none
  | fuel + 1, state =>
    match step setting state with
    | .ended ending => some ending
    | .running state => run setting fuel state

/-- The end of a run that did not start. -/
def refuse (fault : Fault) (world : World σ) : Ending σ :=
  ⟨.error ⟨fault, []⟩, 0, world⟩

/-- Runs the top level of a unit. -/
def runTopLevel (setting : Setting σ) (fuel : Nat) (chunk : Chunk) (world : World σ) :
    Option (Ending σ) :=
  run setting fuel ⟨.start topLevelName chunk none [] .value, [], 0, world⟩

/-- Calls a function. -/
def call (setting : Setting σ) (fuel : Nat) (function : Nat) (this : Option ObjectRef)
    (args : List Value) (world : World σ) : Option (Ending σ) :=
  match enter setting.program function this args .value with
  | .error fault => some (refuse fault world)
  | .ok frame => run setting fuel ⟨frame, [], 0, world⟩

/-- Makes an object: its fields are initialised, then its constructor is called. -/
def instantiate (setting : Setting σ) (fuel : Nat) (classId : Nat) (args : List Value)
    (world : World σ) : Option (Ending σ) :=
  match construct setting.program classId args world.heap with
  | .error fault => some (refuse fault world)
  | .ok (frame, fields) =>
    run setting fuel ⟨frame, [], 0, { world with heap := world.heap.alloc fields }⟩

end Machine

end ScriptHost
