import ScriptHost.Program.Link
import ScriptHost.Resolved.Basic
/-!
# Code for resolved trees

Each expression becomes instructions that leave one more value on the operand stack, each statement
instructions that leave the stack as it was. Jumps go to absolute places, so every function here is
told the place at which its code will start.

A chunk lists each constant once. The host functions that a unit calls are listed once for the
whole unit, and numbered from where the bindings of the program end.
-/

set_option autoImplicit false

namespace ScriptHost

/-- What can be too much for the code of a unit. -/
inductive CodeError where
  | tooManyConstants
  | tooManyArguments
deriving DecidableEq, Repr

/-- The text of a code error. -/
def CodeError.message : CodeError → String
  | .tooManyConstants => "Too many constants (max 65535)"
  | .tooManyArguments => "Too many arguments (max 255)"

/-- The diagnostic for a code error, which has no place. -/
def CodeError.diagnostic (e : CodeError) : Diagnostic :=
  .error .compiler e.message .nowhere

namespace Code

/-- The most constants whose numbers an instruction can hold. -/
def maxConstants : Nat := 65536

/-- The most arguments that an instruction can hold. -/
def maxArguments : Nat := 255

/-- The constants of the chunk in the making, and the host functions called in the unit so far. -/
structure Pool where
  constants : Array Value := #[]
  hostCalls : Array (String × String) := #[]
deriving Inhabited

/-- A step in the making of code. -/
abbrev Emit := EStateM CodeError Pool

/-- Whether two constants are one entry of the list. Floating point numbers are told apart by their
bits, so that the two zeros are different. -/
def sameConstant : Value → Value → Bool
  | .int a, .int b => a == b
  | .float a, .float b => a.toBits == b.toBits
  | .str a, .str b => a == b
  | _, _ => false

/-- The number of a constant, which is added to the list if it is new. -/
def constant (value : Value) : Emit Nat := do
  let pool ← get
  match pool.constants.findIdx? (sameConstant value) with
  | some index => return index
  | none =>
    let index := pool.constants.size
    if index < maxConstants then
      set { pool with constants := pool.constants.push value }
      return index
    else throw .tooManyConstants

/-- The number of a host function, counted from `base`, which is added to the list if it is new. -/
def binding (base : Nat) (module function : String) : Emit Nat := do
  let pool ← get
  match pool.hostCalls.findIdx? (· == (module, function)) with
  | some index => return base + index
  | none =>
    set { pool with hostCalls := pool.hostCalls.push (module, function) }
    return base + pool.hostCalls.size

/-- The number of arguments, as far as an instruction can hold it. -/
def argumentCount (args : List Resolved.Expr) : Emit Nat :=
  if args.length ≤ maxArguments then return args.length else throw .tooManyArguments

/-- The instruction for an operator that works on both operands. -/
def binaryOp : BinaryOp → Op
  | .add => .add
  | .sub => .sub
  | .mul => .mul
  | .div => .div
  | .mod => .mod
  | .lt => .lt
  | .gt => .gt
  | .le => .le
  | .ge => .ge
  | .eq => .eq
  | .ne | .and | .or => .ne

/-- The instruction for an operator with one operand. -/
def unaryOp : UnaryOp → Op
  | .neg => .neg
  | .not => .not

mutual

/-- The code of an expression. `base` is the number of the unit's first binding, `start` the place
of the first instruction. -/
def expr (base start : Nat) : Resolved.Expr → Emit (List Op)
  | .const .null => return [.pushNull]
  | .const (.bool true) => return [.pushTrue]
  | .const (.bool false) => return [.pushFalse]
  | .const value => return [.pushConst (← constant value)]
  | .loadLocal slot => return [.loadLocal slot]
  | .loadGlobal id => return [.loadGlobal id]
  | .loadThis => return [.loadThis]
  | .getField object name => do
    let object ← expr base start object
    return object ++ [.getField (← constant (.str name))]
  | .binary .and left right => do
    let left ← expr base start left
    let right ← expr base (start + left.length + 1) right
    let otherwise := start + left.length + 1 + right.length + 1
    return left ++ .jumpIfFalse otherwise :: right ++ [.jump (otherwise + 1), .pushFalse]
  | .binary .or left right => do
    let left ← expr base start left
    let otherwise := start + left.length + 3
    let right ← expr base otherwise right
    return left ++ .jumpIfFalse otherwise :: .pushTrue ::
      .jump (otherwise + right.length) :: right
  | .binary op left right => do
    let left ← expr base start left
    let right ← expr base (start + left.length) right
    return left ++ right ++ [binaryOp op]
  | .unary op operand => do
    let operand ← expr base start operand
    return operand ++ [unaryOp op]
  | .call function args => do
    let code ← exprs base start #[] args
    return code.toList ++ [.call function (← argumentCount args)]
  | .callMethod object method args => do
    let object ← expr base start object
    let code ← exprs base (start + object.length) #[] args
    let name ← constant (.str method)
    return object ++ code.toList ++ [.callMethod name (← argumentCount args)]
  | .callHost module function args => do
    let code ← exprs base start #[] args
    let binding ← binding base module function
    return code.toList ++ [.callHost binding (← argumentCount args)]
  | .create classId args => do
    let code ← exprs base start #[] args
    return code.toList ++ [.create classId (← argumentCount args)]

/-- The code of expressions one after the other, behind `code`, which starts at `start`. -/
def exprs (base start : Nat) (code : Array Op) : List Resolved.Expr → Emit (Array Op)
  | [] => return code
  | e :: rest => do
    let next ← expr base (start + code.size) e
    exprs base start (code ++ next) rest

end

mutual

/-- The code of a statement. -/
def stmt (base start : Nat) : Resolved.Stmt → Emit (List Op)
  | .storeLocal slot value => do
    let value ← expr base start value
    return value ++ [.storeLocal slot]
  | .storeGlobal id value => do
    let value ← expr base start value
    return value ++ [.storeGlobal id]
  | .setField object name value => do
    let object ← expr base start object
    let value ← expr base (start + object.length) value
    return object ++ value ++ [.setField (← constant (.str name))]
  | .branch condition body [] => do
    let condition ← expr base start condition
    let body ← stmts base (start + condition.length + 1) #[] body
    return condition ++ .jumpIfFalse (start + condition.length + 1 + body.size) :: body.toList
  | .branch condition body (first :: rest) => do
    let condition ← expr base start condition
    let body ← stmts base (start + condition.length + 1) #[] body
    let otherwise := start + condition.length + 1 + body.size + 1
    let first ← stmt base otherwise first
    let alternative ← stmts base otherwise first.toArray rest
    return condition ++ .jumpIfFalse otherwise :: body.toList ++
      .jump (otherwise + alternative.size) :: alternative.toList
  | .loop condition body => do
    let condition ← expr base start condition
    let body ← stmts base (start + condition.length + 1) #[] body
    return condition ++ .jumpIfFalse (start + condition.length + 1 + body.size + 1) ::
      body.toList ++ [.jump start]
  | .ret none => return [.pushNull, .ret]
  | .ret (some value) => do
    let value ← expr base start value
    return value ++ [.ret]
  | .expr value => do
    let value ← expr base start value
    return value ++ [.pop]

/-- The code of statements one after the other, behind `code`, which starts at `start`. -/
def stmts (base start : Nat) (code : Array Op) : List Resolved.Stmt → Emit (Array Op)
  | [] => return code
  | s :: rest => do
    let next ← stmt base (start + code.size) s
    stmts base start (code ++ next) rest

end

/-- The code of a function body. A body that comes to its end returns null. -/
def body (base : Nat) (body : List Resolved.Stmt) : Emit (Array Op) := do
  let code ← stmts base 0 #[] body
  return code ++ #[Op.pushNull, Op.ret]

/-- The code of a top level. If it `returnsValue`, the value of the expression at its end is
returned. -/
def topLevel (base : Nat) (returnsValue : Bool) (body : List Resolved.Stmt) : Emit (Array Op) := do
  match returnsValue, body.getLast? with
  | true, some (.expr value) =>
    let code ← stmts base 0 #[] body.dropLast
    let value ← expr base code.size value
    return code ++ value ++ #[Op.ret, Op.pushNull, Op.ret]
  | _, _ => Code.body base body

/-- A chunk made by `code`, with a list of constants of its own. -/
def chunk (localCount : Nat) (code : Emit (Array Op)) : Emit Chunk := do
  modify fun pool => { pool with constants := #[] }
  let ops ← code
  return { ops, constants := (← get).constants, localCount }

/-- The function of a resolved function. -/
def function (base : Nat) (f : Resolved.Function) : Emit Function := do
  return { name := f.name, arity := f.arity, chunk := ← chunk f.localCount (body base f.body) }

/-- The unit of a resolved unit. -/
def unit (base : Nat) (u : Resolved.Unit) : Emit CompiledUnit := do
  let functions ← u.functions.mapM (function base)
  let topLevel ← chunk u.topLevelLocals (topLevel base u.returnsValue u.topLevel)
  return {
    functionBase := u.functionBase
    functions
    classBase := u.classBase
    classes := u.classes
    functionNames := u.functionNames
    globals := u.globals
    hostCalls := (← get).hostCalls
    bindingBase := base
    topLevel
    returnsValue := u.returnsValue }

end Code

/-- The code of a unit whose bindings are numbered from `bindingBase`. -/
def Resolved.Unit.compile (unit : Resolved.Unit) (bindingBase : Nat) :
    Except CodeError CompiledUnit :=
  match Code.unit bindingBase unit {} with
  | .ok compiled _ => .ok compiled
  | .error e _ => .error e

end ScriptHost
