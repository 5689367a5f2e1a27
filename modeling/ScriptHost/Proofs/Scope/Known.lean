import ScriptHost.Proofs.Program.Closed
import ScriptHost.Proofs.Scope.Declared
import ScriptHost.Proofs.Scope.Walk
import ScriptHost.Proofs.Scope.Within
import ScriptHost.Scope.Resolve
/-!
# Resolved trees refer to what is known

Whatever a walk without errors resolves refers to slots that the walk has counted, and to functions,
classes and global variables that the unit declares or the program has. Calls and creations pass as
many arguments as the callee takes.

The main statements are `Scope.resolveExpr_sound` and `Scope.resolveStmt_sound`.
-/

set_option autoImplicit false

namespace ScriptHost.Scope

/-- Declarations are sound, and so is the program that they are made on. -/
structure Context.Grounded (ctx : Context) : Prop where
  declared : ctx.declared.Sound ctx.env.program
  program : ctx.env.program.Indexed

namespace Context

/-- A function that the unit declares or the program has, with its number of parameters. -/
def Takes (ctx : Context) (id argc : Nat) : Prop :=
  (∃ index signature, ctx.declared.functions[index]? = some signature ∧
      id = ctx.declared.functionBase + index ∧ signature.arity = argc) ∨
    ∃ f, ctx.env.program.functions[id]? = some f ∧ f.arity = argc

/-- A class whose constructor takes so many arguments, or none if there is no constructor. -/
def Creates (ctx : Context) (id argc : Nat) : Prop :=
  ∃ c, ctx.classOf? id = some c ∧
    match c.constructor? with
    | some function => ctx.Takes function argc
    | none => argc = 0

/-- What a body of the unit may refer to. -/
def referents (ctx : Context) (wide : Prop) (slots : Nat) : Resolved.Referents where
  slot slot := wide ∨ slot < slots
  global id := id < ctx.declared.nextGlobal
  function := ctx.Takes
  created := ctx.Creates
  host module function argc :=
    ∃ arity, ctx.env.lookup module function = .found arity ∧ arity.accepts argc = true

/-- A function is of the unit or of the program. -/
def Numbers (ctx : Context) (id : Nat) : Prop :=
  (∃ index, index < ctx.declared.functions.size ∧ id = ctx.declared.functionBase + index) ∨
    id < ctx.env.program.functions.size

variable {ctx : Context}

/-- The signature of a function tells how many arguments it takes. -/
theorem Grounded.signature (h : ctx.Grounded) {id : Nat} (hid : ctx.Numbers id) :
    ctx.Takes id (ctx.signature id).arity := by
  have hbase := h.declared.functionBase
  unfold Context.signature
  obtain ⟨index, hindex, rfl⟩ | hold := hid
  · refine .inl ⟨index, ctx.declared.functions[index], Array.getElem?_eq_getElem hindex, rfl, ?_⟩
    rw [if_pos (Nat.le_add_right ..), Nat.add_sub_cancel_left, Array.getElem?_eq_getElem hindex]
    rfl
  · refine .inr ⟨_, Array.getElem?_eq_getElem hold, ?_⟩
    rw [if_neg (by omega), Array.getElem?_eq_getElem hold]
    rfl

/-- A name that is found is found in one of the two tables. -/
theorem lookupPath?_cases {unit program : Table Nat} {path : List String} {id : Nat}
    (h : ctx.lookupPath? unit program path = some id) :
    ∃ name, unit.get? name = some id ∨ program.get? name = some id := by
  obtain ⟨depth, -, hfound⟩ := List.exists_of_findSome?_eq_some h
  refine ⟨qualify (ctx.space.take depth) (".".intercalate path), ?_⟩
  dsimp only at hfound
  cases hunit : unit.get? (qualify (ctx.space.take depth) (".".intercalate path)) with
  | some found =>
    rw [hunit] at hfound
    exact .inl hfound
  | none =>
    rw [hunit] at hfound
    exact .inr hfound

/-- A name that stands for a function leads to one. -/
theorem Grounded.function (h : ctx.Grounded) {path : List String} {id : Nat}
    (hid : ctx.function? path = some id) : ctx.Takes id (ctx.signature id).arity := by
  refine h.signature ?_
  obtain ⟨name, hunit | hprogram⟩ := lookupPath?_cases hid
  · obtain ⟨index, _, hsignature, -, rfl⟩ := h.declared.functionNames name id hunit
    exact .inl ⟨index, (Array.getElem?_eq_some_iff.mp hsignature).1, rfl⟩
  · exact .inr (h.program.functionNames name id hprogram)

/-- A name that stands for a class leads to one, whose constructor is known. -/
theorem Grounded.created (h : ctx.Grounded) {path : List String} {id : Nat}
    (hid : ctx.class? path = some id) :
    ∃ c, ctx.classOf? id = some c ∧ ∀ function, c.constructor? = some function →
      ctx.Takes function (ctx.signature function).arity := by
  have hbase := h.declared.classBase
  unfold Context.classOf?
  obtain ⟨name, hunit | hprogram⟩ := lookupPath?_cases hid
  · obtain ⟨index, c, hc, -, rfl⟩ := h.declared.classNames name id hunit
    refine ⟨c, by rwa [if_pos (Nat.le_add_right ..), Nat.add_sub_cancel_left], ?_⟩
    intro function hfunction
    have hholds := h.declared.classes index c hc
    exact h.signature
      (.inl (hholds.methods constructorName function (hholds.constructor ▸ hfunction)))
  · have hold := h.program.classNames name id hprogram
    have hc := Array.getElem?_eq_getElem hold
    refine ⟨ctx.env.program.classes[id], by rw [if_neg (by omega), hc], ?_⟩
    exact fun function hfunction =>
      h.signature (.inr ((h.program.classes id _ hc).constructor_lt hfunction))

/-- A name that stands for a global variable leads to one. -/
theorem Grounded.global (h : ctx.Grounded) {name : String} {id : Nat}
    (hid : ctx.global? name = some id) : id < ctx.declared.nextGlobal := by
  have hglobals := h.declared.globals
  have hprogram : ctx.env.program.globalNames.get? name = some id →
      id < ctx.declared.nextGlobal := by
    intro hold
    have hlt := h.program.globalNames name id hold
    rw [hglobals.next]
    omega
  unfold Context.global? at hid
  cases hunit : ctx.declared.globals.get? name with
  | none =>
    rw [hunit] at hid
    exact hprogram hid
  | some found =>
    rw [hunit] at hid
    cases hid
    obtain hold | hnew := hglobals.known name id hunit
    · exact hprogram hold
    · have hslot : id ∈ ctx.declared.newGlobals.toList.map (·.2) := List.mem_map.mpr ⟨_, hnew, rfl⟩
      rw [hglobals.slots, List.mem_range'_1] at hslot
      rw [hglobals.next]
      exact hslot.2

end Context

open Context

variable {ctx : Context} {wide : Prop}

/-! ## Callees -/

/-- A number of arguments that is insisted on is right. -/
theorem checkArity_sound (function given : Nat) (span : Span) :
    Resolver.Sound wide (checkArity ctx function given span) fun _ _ =>
      (ctx.signature function).arity = given := by
  unfold checkArity
  dsimp only
  split
  · rename_i hright
    exact .pure fun _ => hright
  · exact .fail

/-- A member has a class. -/
theorem currentClass_sound (span : Span) :
    Resolver.Sound wide (currentClass ctx span) fun _ _ => True := by
  unfold currentClass
  split
  · exact .pure fun _ => trivial
  · exact .fail

/-- A field that is insisted on is none of the things that trees refer to. -/
theorem checkOwnField_sound (name : String) (span : Span) :
    Resolver.Sound wide (checkOwnField ctx name span) fun _ _ => True := by
  unfold checkOwnField
  refine (currentClass_sound span).bind fun c => ?_
  split
  · exact .pure fun _ _ => trivial
  · exact .fail

/-- The question whether a name is a variable has any answer. -/
theorem isVariable_sound (name : String) :
    Resolver.Sound wide (isVariable ctx name) fun _ _ => True :=
  Resolver.Sound.get.bind fun _ => .pure fun _ _ => trivial

/-- A name that stands for a value stands for a variable. -/
theorem resolveIdent_sound (h : ctx.Grounded) (name : String) (span : Span) :
    Resolver.Sound wide (resolveIdent ctx name span) fun slots tree =>
      tree.Within (ctx.referents wide slots) := by
  unfold resolveIdent
  refine Resolver.Sound.get.bind fun body => ?_
  split
  · rename_i l hl
    exact (Resolver.Sound.modify fun body => body.leads_markUsed name).bind fun _ =>
      .pure fun _ _ hfound => hfound name l hl
  · split
    · rename_i id hid
      exact .pure fun _ _ => h.global hid
    · split <;> exact .fail

/-- The function that a bare name stands for in a call takes the arguments. -/
theorem bareCallee_sound (h : ctx.Grounded) (name : String) (argc : Nat) (span : Span) :
    Resolver.Sound wide (bareCallee ctx name argc span) fun _ id => ctx.Takes id argc := by
  unfold bareCallee
  split
  · rename_i id hid
    refine (checkArity_sound id argc span).bind fun _ => .pure fun _ harity => ?_
    exact harity ▸ h.function hid
  · refine (isVariable_sound name).bind fun isVariable => ?_
    split <;> exact .fail

/-- What is called behind a dot is known. -/
def Callee.Known (ctx : Context) (argc : Nat) : Scope.Callee → Prop
  | .host module name =>
    ∃ arity, ctx.env.lookup module name = .found arity ∧ arity.accepts argc = true
  | .function id => ctx.Takes id argc
  | .method => True

/-- A script function that a dotted name stands for takes the arguments. -/
theorem dottedFunction_sound (h : ctx.Grounded) (path : List String) (object : ScriptHost.Expr)
    (method : String) (argc : Nat) (span : Span) :
    Resolver.Sound wide (dottedFunction ctx path object method argc span) fun _ callee =>
      callee.Known ctx argc := by
  unfold dottedFunction
  dsimp only
  split
  · rename_i id hid
    refine (checkArity_sound id argc span).bind fun _ => .pure fun _ harity => ?_
    exact show ctx.Takes id argc from harity ▸ h.function hid
  · split <;> exact .fail

/-- What a dotted name stands for in a call takes the arguments. -/
theorem dottedCallee_sound (h : ctx.Grounded) (path : List String) (object : ScriptHost.Expr)
    (method : String) (argc : Nat) (span : Span) :
    Resolver.Sound wide (dottedCallee ctx path object method argc span) fun _ callee =>
      callee.Known ctx argc := by
  unfold dottedCallee
  split
  · split
    · rename_i arity hfound
      split
      · rename_i haccepts
        exact .pure fun _ => ⟨arity, hfound, haccepts⟩
      · exact .fail
    · exact .fail
    · exact .fail
    · exact .fail
    · exact dottedFunction_sound h ..
  · exact dottedFunction_sound h ..

/-- What is called on a value is a method. -/
theorem valueCallee_sound (object : ScriptHost.Expr) (method : String) (argc : Nat) (span : Span) :
    Resolver.Sound wide (valueCallee ctx object method argc span) fun _ callee =>
      callee.Known ctx argc := by
  unfold valueCallee
  split
  · refine (currentClass_sound _).bind fun c => ?_
    split
    · exact (checkArity_sound ..).bind fun _ => .pure fun _ _ _ => trivial
    · exact .fail
  · exact .pure fun _ => trivial

/-- What is called behind a dot takes the arguments. -/
theorem callee_sound (h : ctx.Grounded) (object : ScriptHost.Expr) (method : String) (argc : Nat)
    (span : Span) :
    Resolver.Sound wide (callee ctx object method argc span) fun _ callee =>
      callee.Known ctx argc := by
  unfold callee
  split
  · rename_i path hpath
    refine (isVariable_sound _).bind fun isVariable => ?_
    split
    · exact (valueCallee_sound ..).imp fun _ _ hknown _ => hknown
    · exact (dottedCallee_sound h ..).imp fun _ _ hknown _ => hknown
  · exact valueCallee_sound ..

/-- A class that is created takes the arguments. -/
theorem createdClass_sound (h : ctx.Grounded) (path : List String) (argc : Nat) (span : Span) :
    Resolver.Sound wide (createdClass ctx path argc span) fun _ id => ctx.Creates id argc := by
  unfold createdClass
  dsimp only
  cases hid : ctx.class? path with
  | none => exact .fail
  | some id =>
    obtain ⟨c, hc, hconstructor⟩ := h.created hid
    cases hfunction : c.constructor? with
    | none =>
      simp only [hc, Option.bind_some, hfunction]
      split
      · rename_i hnone
        exact .pure fun _ => ⟨c, hc, by rw [hfunction]; exact hnone.symm⟩
      · exact .fail
    | some function =>
      simp only [hc, Option.bind_some, hfunction]
      split
      · rename_i hright
        refine .pure fun _ => ⟨c, hc, ?_⟩
        rw [hfunction]
        exact hright ▸ hconstructor function hfunction
      · exact .fail

end ScriptHost.Scope
