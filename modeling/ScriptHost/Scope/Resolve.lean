import ScriptHost.Host.Catalog
import ScriptHost.Resolved.Basic
import ScriptHost.Scope.Declarations
import ScriptHost.Scope.Locals
/-!
# What names stand for

Turns the syntax trees of a unit into resolved trees. A name is looked up among the local variables,
innermost first, then among the global ones. Functions and classes are looked up relative to the
namespace they are used in, innermost first; at each level what the unit declares comes before what
the program has. The head of a dotted call that is no variable may also be a host module.

A statement with an error in it is left out, and the walk goes on behind it.
-/

set_option autoImplicit false

namespace ScriptHost

/-- What a unit is resolved against. -/
structure Env where
  program : Program
  /-- What `module.function` is to the unit. -/
  lookup : String → String → HostLookup
  /-- How many kinds of warnings are given: none at 0, all at 2. -/
  warningLevel : Nat

namespace Scope

/-- Where in a unit a body stands. -/
structure Context where
  env : Env
  declared : Declarations
  /-- The namespace. -/
  space : List String := []
  /-- The class of which the body is a member. -/
  member : Option Nat := none
  inFunction : Bool := false

namespace Context

/-- The number that a dotted name leads to, in the unit's table or else the program's, from the
innermost namespace outward. -/
def lookupPath? (ctx : Context) (unit program : Table Nat) (path : List String) : Option Nat :=
  let name := ".".intercalate path
  (List.range (ctx.space.length + 1)).reverse.findSome? fun depth =>
    let qualified := qualify (ctx.space.take depth) name
    unit.get? qualified <|> program.get? qualified

/-- The number of the function that a dotted name stands for. -/
def function? (ctx : Context) (path : List String) : Option Nat :=
  ctx.lookupPath? ctx.declared.functionNames ctx.env.program.functionNames path

/-- The number of the class that a dotted name stands for. -/
def class? (ctx : Context) (path : List String) : Option Nat :=
  ctx.lookupPath? ctx.declared.classNames ctx.env.program.classNames path

/-- The name and arity of the function with a number. -/
def signature (ctx : Context) (id : Nat) : Signature :=
  let known :=
    if ctx.declared.functionBase ≤ id then
      ctx.declared.functions[id - ctx.declared.functionBase]?
    else ctx.env.program.functions[id]?.map fun f => ⟨f.name, f.arity⟩
  known.getD ⟨"", 0⟩

/-- The class with a number. -/
def classOf? (ctx : Context) (id : Nat) : Option Class :=
  if ctx.declared.classBase ≤ id then ctx.declared.classes[id - ctx.declared.classBase]?
  else ctx.env.program.classes[id]?

/-- The slot of the global variable of a name. -/
def global? (ctx : Context) (name : String) : Option Nat :=
  ctx.declared.globals.get? name <|> ctx.env.program.globalNames.get? name

end Context

/-- Whether a name stands for a variable. -/
def isVariable (ctx : Context) (name : String) : Resolver Bool := do
  return ((← get).findLocal? name).isSome || (ctx.global? name).isSome

/-- The class of which the body is a member. -/
def currentClass (ctx : Context) (span : Span) : Resolver Class :=
  match ctx.member.bind ctx.classOf? with
  | some c => return c
  | none => Resolver.fail .thisOutsideMethod span

/-- Insists that the current class has a field. -/
def checkOwnField (ctx : Context) (name : String) (span : Span) : Resolver Unit := do
  let c ← currentClass ctx span
  unless c.fields.contains name do
    Resolver.fail (.unknownField c.name name) span

/-- Insists on the number of arguments of a function. -/
def checkArity (ctx : Context) (function given : Nat) (span : Span) : Resolver Unit := do
  let signature := ctx.signature function
  unless signature.arity = given do
    Resolver.fail (.argumentCount signature.name (toString signature.arity) given) span

/-- What a name stands for as a value. -/
def resolveIdent (ctx : Context) (name : String) (span : Span) : Resolver Resolved.Expr := do
  match (← get).findLocal? name with
  | some l =>
    modify (·.markUsed name)
    return .loadLocal l.slot
  | none =>
    match ctx.global? name with
    | some id => return .loadGlobal id
    | none =>
      match ctx.env.lookup name "" with
      | .notAllowed => Resolver.fail (.moduleNotAllowed name) span
      | .notAModule => Resolver.fail (.unknownName name) span
      | _ => Resolver.fail (.moduleAsValue name) span

/-- The function that a bare name stands for in a call. -/
def bareCallee (ctx : Context) (name : String) (argc : Nat) (span : Span) : Resolver Nat := do
  match ctx.function? [name] with
  | some id =>
    checkArity ctx id argc span
    return id
  | none =>
    if ← isVariable ctx name then Resolver.fail (.variableCalled name) span
    else Resolver.fail (.unknownName name) span

/-- What a dotted call is. -/
inductive Callee where
  | host (module function : String)
  | function (id : Nat)
  /-- A method of whatever the object turns out to be. -/
  | method

/-- The script function that a dotted name stands for in a call. -/
def dottedFunction (ctx : Context) (path : List String) (object : Expr) (method : String)
    (argc : Nat) (span : Span) : Resolver Callee := do
  let full := path ++ [method]
  match ctx.function? full with
  | some id =>
    checkArity ctx id argc span
    return .function id
  | none =>
    match path with
    | [head] => Resolver.fail (.unknownName head) object.span
    | _ => Resolver.fail (.unknownName (".".intercalate full)) span

/-- What a call of `method` on a chain of names is, where the first name is no variable. -/
def dottedCallee (ctx : Context) (path : List String) (object : Expr) (method : String)
    (argc : Nat) (span : Span) : Resolver Callee := do
  match path with
  | [head] =>
    match ctx.env.lookup head method with
    | .found arity =>
      if arity.accepts argc then return .host head method
      else Resolver.fail (.argumentCount (head ++ "." ++ method) arity.text argc) span
    | .missingFunction => Resolver.fail (.unknownHostFunction head method) span
    | .notAllowed => Resolver.fail (.moduleNotAllowed head) object.span
    | .unloaded => Resolver.fail (.moduleUnloaded head) object.span
    | .notAModule => dottedFunction ctx path object method argc span
  | _ => dottedFunction ctx path object method argc span

/-- What a call of `method` on an object is, where the object is a value. A method of the current
class must exist and take so many arguments. -/
def valueCallee (ctx : Context) (object : Expr) (method : String) (argc : Nat) (span : Span) :
    Resolver Callee := do
  match object with
  | .this own =>
    let c ← currentClass ctx own
    match c.methods.get? method with
    | some id =>
      checkArity ctx id argc span
      return .method
    | none => Resolver.fail (.unknownMethod c.name method) span
  | _ => return .method

/-- What a call behind a dot is. -/
def callee (ctx : Context) (object : Expr) (method : String) (argc : Nat) (span : Span) :
    Resolver Callee := do
  match object.path? with
  | some path =>
    if ← isVariable ctx (path.headD "") then valueCallee ctx object method argc span
    else dottedCallee ctx path object method argc span
  | none => valueCallee ctx object method argc span

/-- The class that a creation names. -/
def createdClass (ctx : Context) (path : List String) (argc : Nat) (span : Span) :
    Resolver Nat := do
  let name := ".".intercalate path
  match ctx.class? path with
  | none => Resolver.fail (.unknownType name) span
  | some id =>
    let takes :=
      match (ctx.classOf? id).bind (·.constructor?) with
      | some function => (ctx.signature function).arity
      | none => 0
    if takes = argc then return id else Resolver.fail (.noConstructor name argc) span

mutual

/-- Resolves an expression. -/
def resolveExpr (ctx : Context) : Expr → Resolver Resolved.Expr
  | .int value _ => return .const (.int value)
  | .float value _ => return .const (.float value)
  | .str text _ => return .const (.str text)
  | .bool value _ => return .const (.bool value)
  | .null _ => return .const .null
  | .this span => do
    let _ ← currentClass ctx span
    return .loadThis
  | .ident name span => resolveIdent ctx name span
  | .binary op left right _ => do
    let left ← resolveExpr ctx left
    let right ← resolveExpr ctx right
    return .binary op left right
  | .unary op operand _ => do
    let operand ← resolveExpr ctx operand
    return .unary op operand
  | .call name args span => do
    let function ← bareCallee ctx name args.length span
    let args ← resolveArgs ctx [] args
    return .call function args
  | .methodCall object method args span => do
    match ← callee ctx object method args.length span with
    | .host module function =>
      let args ← resolveArgs ctx [] args
      return .callHost module function args
    | .function id =>
      let args ← resolveArgs ctx [] args
      return .call id args
    | .method =>
      let object ← resolveExpr ctx object
      let args ← resolveArgs ctx [] args
      return .callMethod object method args
  | .field object name span => do
    if let .this _ := object then checkOwnField ctx name span
    let object ← resolveExpr ctx object
    return .getField object name
  | .create path args span => do
    let classId ← createdClass ctx path args.length span
    let args ← resolveArgs ctx [] args
    return .create classId args

/-- Resolves arguments, the first one first. Those found so far come last first. -/
def resolveArgs (ctx : Context) (found : List Resolved.Expr) :
    List Expr → Resolver (List Resolved.Expr)
  | [] => return found.reverse
  | arg :: rest => do
    let arg ← resolveExpr ctx arg
    resolveArgs ctx (arg :: found) rest

end

/-- Resolves an assignment. The value comes before the target. -/
def resolveAssign (ctx : Context) (target value : Expr) (span : Span) :
    Resolver Resolved.Stmt := do
  let value ← resolveExpr ctx value
  match target with
  | .ident name own =>
    match (← get).findLocal? name with
    | some l => return .storeLocal l.slot value
    | none =>
      match ctx.global? name with
      | some id => return .storeGlobal id value
      | none => Resolver.fail (.unknownName name) own
  | .field object name own =>
    if let .this _ := object then checkOwnField ctx name own
    let object ← resolveExpr ctx object
    return .setField object name value
  | _ => Resolver.fail .notAssignable span

/-- Whether the statements of a list can still be reached. -/
inductive Reach where
  | live
  /-- A `return` stands in front. -/
  | dead
  /-- A `return` stands in front, and a warning has been given. -/
  | reported
deriving DecidableEq, Repr

/-- The reach behind a statement. -/
def Reach.after (reach : Reach) (stmt : Stmt) : Reach :=
  match reach with
  | .live => if stmt.isReturn then .dead else .live
  | _ => .reported

mutual

/-- Resolves a statement. -/
def resolveStmt (ctx : Context) : Stmt → Resolver Resolved.Stmt
  | .letVar name value span => do
    let value ← resolveExpr ctx value
    if (← get).scopes.isEmpty then
      match ctx.global? name with
      | some id => return .storeGlobal id value
      | none => Resolver.fail (.undeclaredGlobal name) span
    else
      let slot ← Resolver.declareLocal name span
      return .storeLocal slot value
  | .assign target value span => resolveAssign ctx target value span
  | .ifThen condition body _ => do
    let condition ← resolveExpr ctx condition
    modify (·.enter)
    let body ← resolveStmts ctx .live [] body
    modify (·.leave ctx.env.warningLevel)
    return .branch condition body []
  | .ifElse condition body alternative _ => do
    let condition ← resolveExpr ctx condition
    modify (·.enter)
    let body ← resolveStmts ctx .live [] body
    modify (·.leave ctx.env.warningLevel)
    modify (·.enter)
    let alternative ← resolveStmts ctx .live [] alternative
    modify (·.leave ctx.env.warningLevel)
    return .branch condition body alternative
  | .loop condition body _ => do
    let condition ← resolveExpr ctx condition
    modify (·.enter)
    let body ← resolveStmts ctx .live [] body
    modify (·.leave ctx.env.warningLevel)
    return .loop condition body
  | .ret value span => do
    unless ctx.inFunction do
      Resolver.fail .returnOutsideFunction span
    match value with
    | none => return .ret none
    | some value => return .ret (some (← resolveExpr ctx value))
  | .block body _ => do
    modify (·.enter)
    let body ← resolveStmts ctx .live [] body
    modify (·.leave ctx.env.warningLevel)
    return .branch (.const (.bool true)) body []
  | .expr value => do
    let value ← resolveExpr ctx value
    return .expr value

/-- Resolves the statements of a block. Those found so far come last first. -/
def resolveStmts (ctx : Context) (reach : Reach) (found : List Resolved.Stmt) :
    List Stmt → Resolver (List Resolved.Stmt)
  | [] => return found.reverse
  | stmt :: rest => do
    if reach = .dead then
      modify (·.warn ctx.env.warningLevel .unreachable stmt.span)
    let resolved ← Resolver.recover (resolveStmt ctx stmt)
    resolveStmts ctx (reach.after stmt) (resolved.toList ++ found) rest

end

/-- How far the walk through a unit has come. -/
structure Progress where
  /-- The bodies of the functions, in the order of their numbers, with their slots. -/
  bodies : Array (List Resolved.Stmt × Nat) := #[]
  /-- The number of classes passed. -/
  classes : Nat := 0
  topLevel : Array Resolved.Stmt := #[]
  returnsValue : Bool := false
  /-- The walk through the top level, and all diagnostics. -/
  top : Body := {}
deriving Inhabited

namespace Progress

/-- Adds a function body found by a walk that starts with these parameters. -/
def addBody (p : Progress) (params : List String) (walk : Resolver (List Resolved.Stmt)) :
    Progress :=
  let start := Body.ofParams params p.top.diagnostics
  let (stmts, body) :=
    match walk start with
    | .ok stmts body => (stmts, body)
    | .error e body => ([], { body with diagnostics := body.diagnostics.push e })
  { p with
    bodies := p.bodies.push (stmts, body.maxSlot)
    top := { p.top with diagnostics := body.diagnostics } }

/-- Adds the body of a function or method. -/
def addFunction (p : Progress) (ctx : Context) (f : FunctionDecl) : Progress :=
  let ctx := { ctx with inFunction := true }
  p.addBody f.params do
    let stmts ← resolveStmts ctx .live [] f.body
    modify (·.leave ctx.env.warningLevel)
    return stmts

/-- The assignment of what a field starts with. -/
def fieldAssignment (ctx : Context) (field : FieldDecl) : Resolver (Option Resolved.Stmt) :=
  match field.initial with
  | none => return none
  | some initial =>
    Resolver.recover do
      let value ← resolveExpr ctx initial
      return .setField .loadThis field.name value

/-- Adds the bodies of a class: what initialises its fields, and its methods. -/
def addClass (p : Progress) (ctx : Context) (c : ClassDecl) : Progress :=
  let ctx := { ctx with member := some (ctx.declared.classBase + p.classes), inFunction := true }
  let p := { p with classes := p.classes + 1 }
  let p := p.addBody [] do
    let assignments ← c.fields.mapM (fieldAssignment ctx)
    return assignments.filterMap id
  c.methods.foldl (fun p method => p.addFunction ctx method) p

/-- Adds a statement of the top level. -/
def addStmt (p : Progress) (ctx : Context) (stmt : Stmt) : Progress :=
  if ctx.space.isEmpty then
    let p := { p with returnsValue := stmt.isExpr }
    match resolveStmt ctx stmt p.top with
    | .ok resolved top => { p with topLevel := p.topLevel.push resolved, top }
    | .error e top => { p with top := { top with diagnostics := top.diagnostics.push e } }
  else
    let error := ScopeError.statementInNamespace.placed stmt.span
    { p with top := { p.top with diagnostics := p.top.diagnostics.push error } }

mutual

/-- Adds an item. -/
def addItem (ctx : Context) (p : Progress) : Item → Progress
  | .space path items _ => addItems { ctx with space := ctx.space ++ path } p items
  | .classDecl c => p.addClass ctx c
  | .function f => p.addFunction ctx f
  | .stmt stmt => p.addStmt ctx stmt

/-- Adds the items of a namespace. -/
def addItems (ctx : Context) (p : Progress) : List Item → Progress
  | [] => p
  | item :: rest => addItems ctx (addItem ctx p item) rest

end

end Progress

/-- A declared function with its body. -/
def withBody (signature : Signature) (body : List Resolved.Stmt × Nat) : Resolved.Function :=
  { name := signature.name, arity := signature.arity, body := body.1, localCount := body.2 }

end Scope

/-- Resolves all source texts of a unit, and says what is wrong with their names. -/
def resolve (texts : List (List Item)) (env : Env) : Resolved.Unit × List Diagnostic :=
  let declared := Declarations.ofTexts env.program texts
  let ctx : Scope.Context := { env, declared }
  let start : Scope.Progress := { top := { diagnostics := declared.diagnostics } }
  let p := texts.foldl (fun p items => Scope.Progress.addItems ctx p items) start
  ({ functionBase := declared.functionBase
     functions := Array.zipWith Scope.withBody declared.functions p.bodies
     classBase := declared.classBase
     classes := declared.classes
     functionNames := declared.functionNames.entries
     globals := declared.newGlobals.toList
     topLevel := p.topLevel.toList
     topLevelLocals := p.top.maxSlot
     returnsValue := p.returnsValue },
    p.top.diagnostics.toList)

end ScriptHost
