import ScriptHost.Proofs.Code.Places
import ScriptHost.Proofs.Scope.Balanced
/-!
# Lexical scope

What the variables of a body are, said of its syntax alone: a variable is in scope behind its `let`,
up to the end of the block that the `let` stands in, and a name stands for the newest variable of
that name. `StmtsScoped` relates statements to the trees that they are resolved to by this rule, and
lists for every instruction the variables in scope there. A variable carries the place of the
instruction that stores its first value, so that no two variables of a body are the same.

The main statements are `resolveExpr_binds` and `resolveStmts_scoped`: without an error, a body is
resolved by this rule and no other.
-/

set_option autoImplicit false

namespace ScriptHost

/-- The number of instructions of an expression. -/
def Resolved.Expr.width (e : Resolved.Expr) : Nat :=
  (e.places []).length

theorem Code.Lowered.width {pool : Pool} {base start : Nat} {e : Resolved.Expr} {code : List Op}
    (h : Lowered pool base start e code) : e.width = code.length :=
  h.places_length []

namespace Scope

/-- A variable of a body. -/
structure Variable where
  name : String
  slot : Nat
  /-- The place of the instruction that stores the first value. A parameter has none. -/
  stored : Option Nat
deriving DecidableEq, Repr

namespace Variable

/-- The parameters of a function, the last one first. The first slots are theirs. -/
def ofParams (params : List String) : List Variable :=
  (params.mapIdx fun i name => ⟨name, i, none⟩).reverse

/-- The newest variable of a name. -/
def named? (vars : List Variable) (name : String) : Option Variable :=
  vars.find? (·.name == name)

end Variable

mutual

/-- An expression is resolved to a tree where these variables are in scope, the newest first: a name
stands for the newest variable of that name. The head of a dotted call that is not a call of a
method is no variable. -/
inductive Binds (vars : List Variable) : Expr → Resolved.Expr → Prop
  | int {value : Int64} {span : Span} : Binds vars (.int value span) (.const (.int value))
  | float {value : Float} {span : Span} : Binds vars (.float value span) (.const (.float value))
  | str {text : String} {span : Span} : Binds vars (.str text span) (.const (.str text))
  | bool {value : Bool} {span : Span} : Binds vars (.bool value span) (.const (.bool value))
  | null {span : Span} : Binds vars (.null span) (.const .null)
  | this {span : Span} : Binds vars (.this span) .loadThis
  | loadLocal {name : String} {span : Span} {v : Variable}
      (newest : Variable.named? vars name = some v) :
      Binds vars (.ident name span) (.loadLocal v.slot)
  | loadGlobal {name : String} {span : Span} {id : Nat}
      (absent : Variable.named? vars name = none) :
      Binds vars (.ident name span) (.loadGlobal id)
  | binary {op : BinaryOp} {left right : Expr} {span : Span} {l r : Resolved.Expr}
      (first : Binds vars left l) (second : Binds vars right r) :
      Binds vars (.binary op left right span) (.binary op l r)
  | unary {op : UnaryOp} {operand : Expr} {span : Span} {tree : Resolved.Expr}
      (first : Binds vars operand tree) : Binds vars (.unary op operand span) (.unary op tree)
  | call {name : String} {args : List Expr} {span : Span} {id : Nat} {trees : List Resolved.Expr}
      (all : BindsAll vars args trees) : Binds vars (.call name args span) (.call id trees)
  | callHost {object : Expr} {module function : String} {args : List Expr} {span : Span}
      {path : List String} {trees : List Resolved.Expr} (dotted : object.path? = some path)
      (absent : Variable.named? vars (path.headD "") = none) (all : BindsAll vars args trees) :
      Binds vars (.methodCall object function args span) (.callHost module function trees)
  | callFree {object : Expr} {method : String} {args : List Expr} {span : Span} {id : Nat}
      {path : List String} {trees : List Resolved.Expr} (dotted : object.path? = some path)
      (absent : Variable.named? vars (path.headD "") = none) (all : BindsAll vars args trees) :
      Binds vars (.methodCall object method args span) (.call id trees)
  | callMethod {object : Expr} {method : String} {args : List Expr} {span : Span}
      {owner : Resolved.Expr} {trees : List Resolved.Expr} (receiver : Binds vars object owner)
      (all : BindsAll vars args trees) :
      Binds vars (.methodCall object method args span) (.callMethod owner method trees)
  | field {object : Expr} {name : String} {span : Span} {owner : Resolved.Expr}
      (receiver : Binds vars object owner) :
      Binds vars (.field object name span) (.getField owner name)
  | create {path : List String} {args : List Expr} {span : Span} {classId : Nat}
      {trees : List Resolved.Expr} (all : BindsAll vars args trees) :
      Binds vars (.create path args span) (.create classId trees)

/-- Expressions are resolved to trees, each to one. -/
inductive BindsAll (vars : List Variable) : List Expr → List Resolved.Expr → Prop
  | nil : BindsAll vars [] []
  | cons {e : Expr} {rest : List Expr} {tree : Resolved.Expr} {trees : List Resolved.Expr}
      (first : Binds vars e tree) (others : BindsAll vars rest trees) :
      BindsAll vars (e :: rest) (tree :: trees)

end

mutual

/-- A statement is resolved to a tree where these variables are in scope, the newest first. Its code
starts at a place and has as many instructions as there are lists of variables, each of which tells
what is in scope before the instruction. The last list is what is in scope behind the statement.

A `let` brings a variable into scope, but only behind the value that it starts with; its slot is the
number of the variables that are in scope. A `let` at the `top`, where no block is open, declares no
variable. -/
inductive StmtScoped (count : Nat) :
    Bool → List Variable → Nat → Stmt → Resolved.Stmt → List (List Variable) → List Variable → Prop
  | letLocal {vars : List Variable} {start : Nat} {name : String} {value : Expr} {span : Span}
      {tree : Resolved.Expr} (first : Binds vars value tree) (room : vars.length < count) :
      StmtScoped count false vars start (.letVar name value span) (.storeLocal vars.length tree)
        (List.replicate (tree.width + 1) vars)
        (⟨name, vars.length, some (start + tree.width)⟩ :: vars)
  | letGlobal {vars : List Variable} {start : Nat} {name : String} {value : Expr} {span : Span}
      {id : Nat} {tree : Resolved.Expr} (first : Binds vars value tree) :
      StmtScoped count true vars start (.letVar name value span) (.storeGlobal id tree)
        (List.replicate (tree.width + 1) vars) vars
  | assignLocal {top : Bool} {vars : List Variable} {start : Nat} {name : String} {own span : Span}
      {value : Expr} {v : Variable} {tree : Resolved.Expr} (first : Binds vars value tree)
      (newest : Variable.named? vars name = some v) :
      StmtScoped count top vars start (.assign (.ident name own) value span)
        (.storeLocal v.slot tree) (List.replicate (tree.width + 1) vars) vars
  | assignGlobal {top : Bool} {vars : List Variable} {start : Nat} {name : String} {own span : Span}
      {value : Expr} {id : Nat} {tree : Resolved.Expr} (first : Binds vars value tree)
      (absent : Variable.named? vars name = none) :
      StmtScoped count top vars start (.assign (.ident name own) value span) (.storeGlobal id tree)
        (List.replicate (tree.width + 1) vars) vars
  | assignField {top : Bool} {vars : List Variable} {start : Nat} {object value : Expr}
      {name : String} {own span : Span} {owner tree : Resolved.Expr}
      (receiver : Binds vars object owner) (first : Binds vars value tree) :
      StmtScoped count top vars start (.assign (.field object name own) value span)
        (.setField owner name tree) (List.replicate (owner.width + tree.width + 1) vars) vars
  | ifThen {top : Bool} {vars : List Variable} {start : Nat} {condition : Expr} {body : List Stmt}
      {span : Span} {tree : Resolved.Expr} {trees : List Resolved.Stmt}
      {inner : List (List Variable)} {last : List Variable} (test : Binds vars condition tree)
      (all : StmtsScoped count false vars (start + tree.width + 1) body trees inner last) :
      StmtScoped count top vars start (.ifThen condition body span) (.branch tree trees [])
        (List.replicate (tree.width + 1) vars ++ inner) vars
  | ifElse {top : Bool} {vars : List Variable} {start : Nat} {condition : Expr}
      {body alternative : List Stmt} {span : Span} {tree : Resolved.Expr}
      {trees others : List Resolved.Stmt} {inner outer : List (List Variable)}
      {last final : List Variable} (some : others ≠ []) (test : Binds vars condition tree)
      (all : StmtsScoped count false vars (start + tree.width + 1) body trees inner last)
      (rest : StmtsScoped count false vars (start + tree.width + 1 + inner.length + 1) alternative
        others outer final) :
      StmtScoped count top vars start (.ifElse condition body alternative span)
        (.branch tree trees others)
        (List.replicate (tree.width + 1) vars ++ inner ++ last :: outer) vars
  | ifElseNil {top : Bool} {vars : List Variable} {start : Nat} {condition : Expr}
      {body : List Stmt} {span : Span} {tree : Resolved.Expr} {trees : List Resolved.Stmt}
      {inner : List (List Variable)} {last : List Variable} (test : Binds vars condition tree)
      (all : StmtsScoped count false vars (start + tree.width + 1) body trees inner last) :
      StmtScoped count top vars start (.ifElse condition body [] span) (.branch tree trees [])
        (List.replicate (tree.width + 1) vars ++ inner) vars
  | loop {top : Bool} {vars : List Variable} {start : Nat} {condition : Expr} {body : List Stmt}
      {span : Span} {tree : Resolved.Expr} {trees : List Resolved.Stmt}
      {inner : List (List Variable)} {last : List Variable} (test : Binds vars condition tree)
      (all : StmtsScoped count false vars (start + tree.width + 1) body trees inner last) :
      StmtScoped count top vars start (.loop condition body span) (.loop tree trees)
        (List.replicate (tree.width + 1) vars ++ inner ++ [last]) vars
  | retNull {top : Bool} {vars : List Variable} {start : Nat} {span : Span} :
      StmtScoped count top vars start (.ret none span) (.ret none) [vars, vars] vars
  | ret {top : Bool} {vars : List Variable} {start : Nat} {value : Expr} {span : Span}
      {tree : Resolved.Expr} (first : Binds vars value tree) :
      StmtScoped count top vars start (.ret (some value) span) (.ret (some tree))
        (List.replicate (tree.width + 1) vars) vars
  | block {top : Bool} {vars : List Variable} {start : Nat} {body : List Stmt} {span : Span}
      {trees : List Resolved.Stmt} {inner : List (List Variable)} {last : List Variable}
      (all : StmtsScoped count false vars (start + 2) body trees inner last) :
      StmtScoped count top vars start (.block body span) (.branch (.const (.bool true)) trees [])
        ([vars, vars] ++ inner) vars
  | expr {top : Bool} {vars : List Variable} {start : Nat} {value : Expr} {tree : Resolved.Expr}
      (first : Binds vars value tree) :
      StmtScoped count top vars start (.expr value) (.expr tree)
        (List.replicate (tree.width + 1) vars) vars

/-- The same for statements one after the other. What a statement brings into scope is in scope in
those behind it. -/
inductive StmtsScoped (count : Nat) : Bool → List Variable → Nat → List Stmt →
    List Resolved.Stmt → List (List Variable) → List Variable → Prop
  | nil {top : Bool} {vars : List Variable} {start : Nat} :
      StmtsScoped count top vars start [] [] [] vars
  | cons {top : Bool} {vars next last : List Variable} {start : Nat} {s : Stmt} {rest : List Stmt}
      {tree : Resolved.Stmt} {trees : List Resolved.Stmt} {here more : List (List Variable)}
      (first : StmtScoped count top vars start s tree here next)
      (others : StmtsScoped count top next (start + here.length) rest trees more last) :
      StmtsScoped count top vars start (s :: rest) (tree :: trees) (here ++ more) last

end

/-! ## Walks -/

/-- The walk through a body is where these variables are in scope, scope by scope. -/
structure Holds (frames : List (List Variable)) (body : Body) : Prop where
  scopes : body.scopes.map (List.map fun l => (l.name, l.slot)) =
    frames.map (List.map fun v => (v.name, v.slot))
  nextSlot : body.nextSlot = frames.flatten.length
  room : frames.flatten.length ≤ maxLocals

namespace Holds

variable {frames : List (List Variable)} {body : Body}

/-- What the walk finds for a name is the newest variable of the name. -/
theorem findLocal? (h : Holds frames body) (name : String) :
    (body.findLocal? name).map (·.slot) = (Variable.named? frames.flatten name).map (·.slot) := by
  have hflat : body.scopes.flatten.map (fun l => (l.name, l.slot)) =
      frames.flatten.map fun v => (v.name, v.slot) := by
    rw [List.map_flatten, h.scopes, List.map_flatten]
  have hfind := congrArg (fun pairs => (pairs.find? (·.1 == name)).map (·.2)) hflat
  simpa only [List.find?_map, Option.map_map, Function.comp_def, List.find?_flatten,
    Body.findLocal?, Variable.named?] using hfind

theorem found (h : Holds frames body) {name : String} {l : Local}
    (hfound : body.findLocal? name = some l) :
    ∃ v, Variable.named? frames.flatten name = some v ∧ v.slot = l.slot := by
  have hslots := h.findLocal? name
  rw [hfound, Option.map_some, eq_comm, Option.map_eq_some_iff] at hslots
  exact hslots

theorem absent (h : Holds frames body) {name : String} (hnone : body.findLocal? name = none) :
    Variable.named? frames.flatten name = none := by
  have hslots := h.findLocal? name
  rw [hnone, Option.map_none, eq_comm, Option.map_eq_none_iff] at hslots
  exact hslots

/-- What is said does not matter. -/
theorem diagnostics (h : Holds frames body) (diagnostics : Array Diagnostic) :
    Holds frames { body with diagnostics } :=
  ⟨h.scopes, h.nextSlot, h.room⟩

theorem warn (h : Holds frames body) (level : Nat) (warning : ScopeWarning) (span : Span) :
    Holds frames (body.warn level warning span) := by
  unfold Body.warn
  split
  · exact h.diagnostics _
  · exact h

theorem map_markFirst (name : String) (scope : List Local) :
    (Body.markFirst name scope).map (fun l => (l.name, l.slot)) =
      scope.map fun l => (l.name, l.slot) := by
  induction scope with
  | nil => rfl
  | cons l rest ih =>
    rw [Body.markFirst]
    split
    · rfl
    · rw [List.map_cons, ih, List.map_cons]

theorem map_markIn (name : String) (scopes : List (List Local)) :
    (Body.markIn name scopes).map (List.map fun l => (l.name, l.slot)) =
      scopes.map (List.map fun l => (l.name, l.slot)) := by
  induction scopes with
  | nil => rfl
  | cons scope rest ih =>
    rw [Body.markIn]
    split
    · rw [List.map_cons, map_markFirst, List.map_cons]
    · rw [List.map_cons, ih, List.map_cons]

theorem markUsed (h : Holds frames body) (name : String) : Holds frames (body.markUsed name) :=
  ⟨(map_markIn name body.scopes).trans h.scopes, h.nextSlot, h.room⟩

theorem enter (h : Holds frames body) : Holds ([] :: frames) body.enter :=
  ⟨congrArg ([] :: ·) h.scopes, h.nextSlot, h.room⟩

/-- The scope that is closed gives its slots back. -/
theorem leave {scope : List Variable} (h : Holds (scope :: frames) body) (level : Nat) :
    Holds frames (body.leave level) := by
  obtain ⟨hscopes, hnext, hroom⟩ := h
  rw [Body.leave_eq]
  cases hbody : body.scopes with
  | nil =>
    rw [hbody] at hscopes
    cases hscopes
  | cons closed rest =>
    rw [hbody, List.map_cons, List.map_cons, List.cons.injEq] at hscopes
    have hlength : closed.length = scope.length := by
      simpa using congrArg List.length hscopes.1
    obtain ⟨diagnostics, hleft⟩ := Body.leaveAll_eq level closed.reverse body
    simp only [hleft]
    rw [List.flatten_cons, List.length_append] at hnext hroom
    refine ⟨hscopes.2, ?_, ?_⟩
    · show body.nextSlot - min closed.length maxLocals = frames.flatten.length
      omega
    · omega

/-- A variable that is declared takes the next slot. -/
theorem declareLocal {name : String} {span : Span} {after : Body} {slot : Nat}
    (h : Holds frames body) (hok : Resolver.declareLocal name span body = .ok slot after) :
    ∃ scope rest, frames = scope :: rest ∧ slot = frames.flatten.length ∧ slot < after.maxSlot ∧
      ∀ stored, Holds ((⟨name, slot, stored⟩ :: scope) :: rest) after := by
  obtain ⟨hscopes, hnext, hroom⟩ := h
  obtain ⟨_, _, herror, -⟩ | ⟨opened, others, hbody, hfree, htaken⟩ :=
    Resolver.declareLocal_cases name span body
  · rw [herror] at hok
    cases hok
  · rw [htaken] at hok
    cases hok
    cases frames with
    | nil =>
      rw [hbody] at hscopes
      cases hscopes
    | cons scope rest =>
      rw [hbody, List.map_cons, List.map_cons, List.cons.injEq] at hscopes
      have hgrown : body.nextSlot < max body.maxSlot (body.nextSlot + 1) := by omega
      refine ⟨scope, rest, rfl, hnext, hgrown, fun stored => ⟨?_, ?_, ?_⟩⟩
      · rw [List.map_cons, List.map_cons, List.map_cons, List.map_cons, hscopes.1, hscopes.2]
      · simp [hnext]
      · simp only [List.flatten_cons, List.length_append, List.length_cons] at hnext ⊢
        omega

/-- A function starts with its parameters. -/
theorem ofParams {params : List String} (hcount : params.length ≤ maxLocals)
    (diagnostics : Array Diagnostic) :
    Holds [Variable.ofParams params] (Body.ofParams params diagnostics) := by
  have hslots : ∀ i < params.length, min i maxLocals = i := by omega
  refine ⟨?_, ?_, ?_⟩
  · simp only [Body.ofParams, Variable.ofParams, List.map_cons, List.map_nil, List.map_reverse]
    congr 2
    apply List.ext_getElem
    · simp
    · intro i hi _
      rw [List.length_map, List.length_mapIdx] at hi
      simp [hslots i hi]
  · simp [Body.ofParams, Variable.ofParams, hcount]
  · simpa [Variable.ofParams] using hcount

end Holds

/-- A step leaves the variables in scope alone, and its answer is right for them. -/
structure Reads {α : Type} (step : Resolver α) (right : List Variable → α → Prop) : Prop where
  ok : ∀ {frames : List (List Variable)} {body after : Body} {a : α}, step body = .ok a after →
    Holds frames body → Holds frames after ∧ right frames.flatten a

namespace Reads

variable {α β : Type}

theorem pure {a : α} {right : List Variable → α → Prop} (h : ∀ vars, right vars a) :
    Reads (Pure.pure a : Resolver α) right := by
  refine ⟨fun {frames body after b} hstep hbody => ?_⟩
  obtain ⟨rfl, rfl⟩ := pure_eq_ok.mp hstep
  exact ⟨hbody, h _⟩

/-- What follows from what is right is right. -/
theorem imp {step : Resolver α} {right weaker : List Variable → α → Prop} (h : Reads step right)
    (himp : ∀ vars a, right vars a → weaker vars a) : Reads step weaker :=
  ⟨fun hstep hbody => (h.ok hstep hbody).imp_right (himp _ _)⟩

/-- One step after another: what is right about the first answer helps with the second one. -/
theorem bind {step : Resolver α} {next : α → Resolver β} {first : List Variable → α → Prop}
    {right : List Variable → β → Prop} (hstep : Reads step first)
    (hnext : ∀ a, Reads (next a) fun vars b => first vars a → right vars b) :
    Reads (step >>= next) right := by
  refine ⟨fun {frames body after b} h hbody => ?_⟩
  obtain ⟨a, middle, ha, hb⟩ := bind_eq_ok.mp h
  obtain ⟨hmiddle, hfirst⟩ := hstep.ok ha hbody
  obtain ⟨hafter, hright⟩ := (hnext a).ok hb hmiddle
  exact ⟨hafter, hright hfirst⟩

theorem fail {e : ScopeError} {span : Span} {right : List Variable → α → Prop} :
    Reads (Resolver.fail e span) right :=
  ⟨fun h _ => by cases h⟩

/-- What is looked up is the newest variable of the name. -/
theorem get : Reads (MonadState.get : Resolver Body) fun vars body =>
    (∀ {name l}, body.findLocal? name = some l →
      ∃ v, Variable.named? vars name = some v ∧ v.slot = l.slot) ∧
    ∀ {name}, body.findLocal? name = none → Variable.named? vars name = none := by
  refine ⟨fun {frames body after b} h hbody => ?_⟩
  cases h
  exact ⟨hbody, hbody.found, hbody.absent⟩

theorem markUsed (name : String) :
    Reads (modify (·.markUsed name) : Resolver PUnit) fun _ _ => True := by
  refine ⟨fun {frames body after b} h hbody => ?_⟩
  cases h
  exact ⟨hbody.markUsed name, trivial⟩

end Reads

variable {ctx : Context}

theorem isVariable_reads (name : String) : Reads (isVariable ctx name) fun vars found =>
    found = false → Variable.named? vars name = none := by
  refine Reads.get.bind fun body => .pure fun vars hbody hnot => hbody.2 ?_
  rw [Bool.or_eq_false_iff, Option.isSome_eq_false_iff, Option.isNone_iff_eq_none] at hnot
  exact hnot.1

theorem currentClass_reads (span : Span) : Reads (currentClass ctx span) fun _ _ => True := by
  unfold currentClass
  split
  · exact .pure fun _ => trivial
  · exact .fail

theorem checkOwnField_reads (name : String) (span : Span) :
    Reads (checkOwnField ctx name span) fun _ _ => True := by
  unfold checkOwnField
  refine (currentClass_reads span).bind fun c => ?_
  split
  · exact .pure fun _ _ => trivial
  · exact .fail

theorem checkArity_reads (function given : Nat) (span : Span) :
    Reads (checkArity ctx function given span) fun _ _ => True := by
  unfold checkArity
  dsimp only
  split
  · exact .pure fun _ => trivial
  · exact .fail

theorem resolveIdent_binds (name : String) (span : Span) :
    Reads (resolveIdent ctx name span) fun vars tree => Binds vars (.ident name span) tree := by
  unfold resolveIdent
  refine Reads.get.bind fun body => ?_
  split
  · rename_i l hl
    refine (Reads.markUsed name).bind fun _ => .pure fun vars _ hbody => ?_
    obtain ⟨v, hv, hslot⟩ := hbody.1 hl
    rw [← hslot]
    exact .loadLocal hv
  · rename_i hnone
    split
    · exact .pure fun vars hbody => .loadGlobal (hbody.2 hnone)
    · split <;> exact .fail

theorem bareCallee_reads (name : String) (argc : Nat) (span : Span) :
    Reads (bareCallee ctx name argc span) fun _ _ => True := by
  unfold bareCallee
  split
  · exact (checkArity_reads ..).bind fun _ => .pure fun _ _ => trivial
  · refine (isVariable_reads name).bind fun found => ?_
    split <;> exact .fail

theorem createdClass_reads (path : List String) (argc : Nat) (span : Span) :
    Reads (createdClass ctx path argc span) fun _ _ => True := by
  unfold createdClass
  dsimp only
  cases ctx.class? path with
  | none => exact .fail
  | some id =>
    dsimp only
    split
    · split
      · exact .pure fun _ => trivial
      · exact .fail
    · split
      · exact .pure fun _ => trivial
      · exact .fail

/-- What is called behind a dot is a method, unless what stands in front of the dot is a chain of
names of which the first one is no variable. -/
def Callee.Apart (vars : List Variable) (object : Expr) (method : String) : Callee → Prop
  | .host _ name => name = method ∧
    ∃ path, object.path? = some path ∧ Variable.named? vars (path.headD "") = none
  | .function _ => ∃ path, object.path? = some path ∧ Variable.named? vars (path.headD "") = none
  | .method => True

theorem dottedFunction_reads (path : List String) (object : Expr) (method : String) (argc : Nat)
    (span : Span) : Reads (dottedFunction ctx path object method argc span) fun vars callee =>
      object.path? = some path → Variable.named? vars (path.headD "") = none →
        callee.Apart vars object method := by
  unfold dottedFunction
  dsimp only
  split
  · exact (checkArity_reads ..).bind fun _ => .pure fun _ _ hpath habsent => ⟨path, hpath, habsent⟩
  · split <;> exact .fail

theorem dottedCallee_reads (path : List String) (object : Expr) (method : String) (argc : Nat)
    (span : Span) : Reads (dottedCallee ctx path object method argc span) fun vars callee =>
      object.path? = some path → Variable.named? vars (path.headD "") = none →
        callee.Apart vars object method := by
  unfold dottedCallee
  split
  · split
    · split
      · exact .pure fun _ hpath habsent => ⟨rfl, _, hpath, habsent⟩
      · exact .fail
    · exact .fail
    · exact .fail
    · exact .fail
    · exact dottedFunction_reads ..
  · exact dottedFunction_reads ..

theorem valueCallee_reads (object : Expr) (method : String) (argc : Nat) (span : Span) :
    Reads (valueCallee ctx object method argc span) fun vars callee =>
      callee.Apart vars object method := by
  unfold valueCallee
  split
  · refine (currentClass_reads _).bind fun c => ?_
    split
    · exact (checkArity_reads ..).bind fun _ => .pure fun _ _ _ => trivial
    · exact .fail
  · exact .pure fun _ => trivial

theorem callee_reads (object : Expr) (method : String) (argc : Nat) (span : Span) :
    Reads (callee ctx object method argc span) fun vars callee =>
      callee.Apart vars object method := by
  unfold callee
  split
  · rename_i path hpath
    refine (isVariable_reads _).bind fun found => ?_
    split
    · exact (valueCallee_reads ..).imp fun _ _ hfits _ => hfits
    · rename_i hnot
      refine (dottedCallee_reads path object method argc span).imp fun _ _ hfits habsent => ?_
      exact hfits hpath (habsent (Bool.eq_false_iff.mpr hnot))
  · exact valueCallee_reads ..

theorem BindsAll.append {vars : List Variable} {front rest : List Expr}
    {trees others : List Resolved.Expr} (h : BindsAll vars front trees)
    (hrest : BindsAll vars rest others) : BindsAll vars (front ++ rest) (trees ++ others) := by
  induction front generalizing trees with
  | nil =>
    cases h
    exact hrest
  | cons e front ih =>
    cases h with
    | cons first others => exact .cons first (ih others)

mutual

/-- Every name in an expression stands for the newest variable of that name. -/
theorem resolveExpr_binds : ∀ e : Expr,
    Reads (resolveExpr ctx e) fun vars tree => Binds vars e tree
  | .int _ _ => by
    rw [resolveExpr]
    exact .pure fun _ => .int
  | .float _ _ => by
    rw [resolveExpr]
    exact .pure fun _ => .float
  | .str _ _ => by
    rw [resolveExpr]
    exact .pure fun _ => .str
  | .bool _ _ => by
    rw [resolveExpr]
    exact .pure fun _ => .bool
  | .null _ => by
    rw [resolveExpr]
    exact .pure fun _ => .null
  | .this span => by
    rw [resolveExpr]
    exact (currentClass_reads span).bind fun _ => .pure fun _ _ => .this
  | .ident name span => by
    rw [resolveExpr]
    exact resolveIdent_binds name span
  | .binary op left right _ => by
    rw [resolveExpr]
    refine (resolveExpr_binds left).bind fun _ => (resolveExpr_binds right).bind fun _ => ?_
    exact .pure fun _ hright hleft => .binary hleft hright
  | .unary op operand _ => by
    rw [resolveExpr]
    exact (resolveExpr_binds operand).bind fun _ => .pure fun _ hoperand => .unary hoperand
  | .call name args span => by
    rw [resolveExpr]
    refine (bareCallee_reads name args.length span).bind fun _ =>
      (resolveArgs_binds args []).bind fun _ => .pure fun _ hargs _ => ?_
    exact .call (hargs .nil)
  | .methodCall object method args span => by
    rw [resolveExpr]
    refine (callee_reads object method args.length span).bind fun callee => ?_
    cases callee with
    | host module function =>
      refine (resolveArgs_binds args []).bind fun _ => .pure fun _ hargs hhead => ?_
      obtain ⟨rfl, path, hpath, habsent⟩ := hhead
      exact .callHost hpath habsent (hargs .nil)
    | function id =>
      refine (resolveArgs_binds args []).bind fun _ => .pure fun _ hargs hhead => ?_
      obtain ⟨path, hpath, habsent⟩ := hhead
      exact .callFree hpath habsent (hargs .nil)
    | method =>
      refine (resolveExpr_binds object).bind fun _ => (resolveArgs_binds args []).bind fun _ => ?_
      exact .pure fun _ hargs hobject _ => .callMethod hobject (hargs .nil)
  | .field object name span => by
    have hobject : Reads
        (do let object ← resolveExpr ctx object; return Resolved.Expr.getField object name)
        fun vars tree => Binds vars (.field object name span) tree :=
      (resolveExpr_binds object).bind fun _ => .pure fun _ howner => .field howner
    by_cases hthis : ∃ place, object = .this place
    · obtain ⟨place, rfl⟩ := hthis
      rw [resolveExpr]
      refine (checkOwnField_reads name span).bind fun _ =>
        (resolveExpr_binds (.this place)).bind fun _ => ?_
      exact .pure fun _ howner _ => .field howner
    · rw [resolveExpr]
      · exact hobject
      · exact fun place hplace => hthis ⟨place, hplace⟩
  | .create path args span => by
    rw [resolveExpr]
    refine (createdClass_reads path args.length span).bind fun _ =>
      (resolveArgs_binds args []).bind fun _ => .pure fun _ hargs _ => ?_
    exact .create (hargs .nil)

/-- So does every name in arguments. -/
theorem resolveArgs_binds : ∀ (args : List Expr) (found : List Resolved.Expr),
    Reads (resolveArgs ctx found args) fun vars trees =>
      ∀ {front : List Expr}, BindsAll vars front found.reverse → BindsAll vars (front ++ args) trees
  | [], found => by
    rw [resolveArgs]
    exact .pure fun _ front hfront => by rwa [List.append_nil]
  | arg :: rest, found => by
    rw [resolveArgs]
    refine (resolveExpr_binds arg).bind fun tree =>
      (resolveArgs_binds rest (tree :: found)).imp fun vars trees htrees harg front hfront => ?_
    have hall : BindsAll vars (front ++ [arg]) (tree :: found).reverse := by
      rw [List.reverse_cons]
      exact hfront.append (.cons harg .nil)
    simpa using htrees hall

end

end Scope

end ScriptHost
