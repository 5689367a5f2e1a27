import ScriptHost.Proofs.Scope.Known
/-!
# What a syntax tree is resolved to

`Resolves` relates a syntax tree to the trees that it may be resolved to, node by node. It leaves
open which variable a name stands for, but says of every call and of every access to a field of
`this` what has been made sure of: a host function is one that the modules at hand have under that
name, a script function is one that a name leads to, and the current class has what is asked of
`this`.

The main statements are `resolveExpr_resolves` and `resolveStmt_resolves`.
-/

set_option autoImplicit false

namespace ScriptHost.Scope

/-- What is made sure of in a body. -/
structure Rules where
  /-- The class of which the body is a member. -/
  own : Option Class
  /-- The functions that names lead to. -/
  free : Nat → Prop
  /-- How many arguments a function takes. -/
  arity : Nat → Nat
  /-- The host functions at hand, with the numbers of arguments that they take. -/
  host : String → String → Nat → Prop

/-- The class of the body has a field. -/
def Rules.OwnField (rules : Rules) (name : String) : Prop :=
  ∃ c, rules.own = some c ∧ name ∈ c.fields

/-- The class of the body has a method that takes so many arguments. -/
def Rules.OwnMethod (rules : Rules) (name : String) (argc : Nat) : Prop :=
  ∃ c id, rules.own = some c ∧ c.methods.get? name = some id ∧ rules.arity id = argc

/-- What is made sure of in a body that stands there. -/
def Context.rules (ctx : Context) : Rules where
  own := ctx.member.bind ctx.classOf?
  free id := ∃ name, ctx.declared.functionNames.get? name = some id ∨
    ctx.env.program.functionNames.get? name = some id
  arity id := (ctx.signature id).arity
  host module function argc :=
    ∃ arity, ctx.env.lookup module function = .found arity ∧ arity.accepts argc = true

mutual

/-- An expression may be resolved to a tree. -/
inductive Resolves (rules : Rules) : Expr → Resolved.Expr → Prop
  | int {value : Int64} {span : Span} : Resolves rules (.int value span) (.const (.int value))
  | float {value : Float} {span : Span} :
      Resolves rules (.float value span) (.const (.float value))
  | str {text : String} {span : Span} : Resolves rules (.str text span) (.const (.str text))
  | bool {value : Bool} {span : Span} : Resolves rules (.bool value span) (.const (.bool value))
  | null {span : Span} : Resolves rules (.null span) (.const .null)
  | this {span : Span} : Resolves rules (.this span) .loadThis
  | loadLocal {name : String} {span : Span} {slot : Nat} :
      Resolves rules (.ident name span) (.loadLocal slot)
  | loadGlobal {name : String} {span : Span} {id : Nat} :
      Resolves rules (.ident name span) (.loadGlobal id)
  | binary {op : BinaryOp} {left right : Expr} {span : Span} {l r : Resolved.Expr}
      (first : Resolves rules left l) (second : Resolves rules right r) :
      Resolves rules (.binary op left right span) (.binary op l r)
  | unary {op : UnaryOp} {operand : Expr} {span : Span} {tree : Resolved.Expr}
      (first : Resolves rules operand tree) :
      Resolves rules (.unary op operand span) (.unary op tree)
  | call {name : String} {args : List Expr} {span : Span} {id : Nat} {trees : List Resolved.Expr}
      (free : rules.free id) (all : ResolvesAll rules args trees) :
      Resolves rules (.call name args span) (.call id trees)
  | callHost {object : Expr} {module function : String} {args : List Expr} {span : Span}
      {trees : List Resolved.Expr} (named : object.path? = some [module])
      (known : rules.host module function args.length) (all : ResolvesAll rules args trees) :
      Resolves rules (.methodCall object function args span) (.callHost module function trees)
  | callFree {object : Expr} {method : String} {args : List Expr} {span : Span} {id : Nat}
      {trees : List Resolved.Expr} (named : object.path? ≠ none) (free : rules.free id)
      (all : ResolvesAll rules args trees) :
      Resolves rules (.methodCall object method args span) (.call id trees)
  | callMethod {object : Expr} {method : String} {args : List Expr} {span : Span}
      {owner : Resolved.Expr} {trees : List Resolved.Expr} (receiver : Resolves rules object owner)
      (all : ResolvesAll rules args trees)
      (own : ∀ place, object = .this place → rules.OwnMethod method args.length) :
      Resolves rules (.methodCall object method args span) (.callMethod owner method trees)
  | field {object : Expr} {name : String} {span : Span} {owner : Resolved.Expr}
      (receiver : Resolves rules object owner)
      (own : ∀ place, object = .this place → rules.OwnField name) :
      Resolves rules (.field object name span) (.getField owner name)
  | create {path : List String} {args : List Expr} {span : Span} {classId : Nat}
      {trees : List Resolved.Expr} (all : ResolvesAll rules args trees) :
      Resolves rules (.create path args span) (.create classId trees)

/-- Expressions may be resolved to trees, each to one. -/
inductive ResolvesAll (rules : Rules) : List Expr → List Resolved.Expr → Prop
  | nil : ResolvesAll rules [] []
  | cons {e : Expr} {rest : List Expr} {tree : Resolved.Expr} {trees : List Resolved.Expr}
      (first : Resolves rules e tree) (others : ResolvesAll rules rest trees) :
      ResolvesAll rules (e :: rest) (tree :: trees)

end

mutual

/-- A statement may be resolved to a tree. -/
inductive ResolvesStmt (rules : Rules) : Stmt → Resolved.Stmt → Prop
  | letLocal {name : String} {value : Expr} {span : Span} {slot : Nat} {tree : Resolved.Expr}
      (first : Resolves rules value tree) :
      ResolvesStmt rules (.letVar name value span) (.storeLocal slot tree)
  | letGlobal {name : String} {value : Expr} {span : Span} {id : Nat} {tree : Resolved.Expr}
      (first : Resolves rules value tree) :
      ResolvesStmt rules (.letVar name value span) (.storeGlobal id tree)
  | assignLocal {name : String} {own span : Span} {value : Expr} {slot : Nat}
      {tree : Resolved.Expr} (first : Resolves rules value tree) :
      ResolvesStmt rules (.assign (.ident name own) value span) (.storeLocal slot tree)
  | assignGlobal {name : String} {own span : Span} {value : Expr} {id : Nat}
      {tree : Resolved.Expr} (first : Resolves rules value tree) :
      ResolvesStmt rules (.assign (.ident name own) value span) (.storeGlobal id tree)
  | assignField {object value : Expr} {name : String} {place span : Span}
      {owner tree : Resolved.Expr} (receiver : Resolves rules object owner)
      (first : Resolves rules value tree)
      (own : ∀ place, object = .this place → rules.OwnField name) :
      ResolvesStmt rules (.assign (.field object name place) value span)
        (.setField owner name tree)
  | ifThen {condition : Expr} {body : List Stmt} {span : Span} {tree : Resolved.Expr}
      {trees : List Resolved.Stmt} (test : Resolves rules condition tree)
      (all : ResolvesStmts rules body trees) :
      ResolvesStmt rules (.ifThen condition body span) (.branch tree trees [])
  | ifElse {condition : Expr} {body alternative : List Stmt} {span : Span} {tree : Resolved.Expr}
      {trees others : List Resolved.Stmt} (test : Resolves rules condition tree)
      (all : ResolvesStmts rules body trees)
      (rest : ResolvesStmts rules alternative others) :
      ResolvesStmt rules (.ifElse condition body alternative span) (.branch tree trees others)
  | loop {condition : Expr} {body : List Stmt} {span : Span} {tree : Resolved.Expr}
      {trees : List Resolved.Stmt} (test : Resolves rules condition tree)
      (all : ResolvesStmts rules body trees) :
      ResolvesStmt rules (.loop condition body span) (.loop tree trees)
  | retNull {span : Span} : ResolvesStmt rules (.ret none span) (.ret none)
  | ret {value : Expr} {span : Span} {tree : Resolved.Expr} (first : Resolves rules value tree) :
      ResolvesStmt rules (.ret (some value) span) (.ret (some tree))
  | block {body : List Stmt} {span : Span} {trees : List Resolved.Stmt}
      (all : ResolvesStmts rules body trees) :
      ResolvesStmt rules (.block body span) (.branch (.const (.bool true)) trees [])
  | expr {value : Expr} {tree : Resolved.Expr} (first : Resolves rules value tree) :
      ResolvesStmt rules (.expr value) (.expr tree)

/-- Statements may be resolved to trees, each to one. -/
inductive ResolvesStmts (rules : Rules) : List Stmt → List Resolved.Stmt → Prop
  | nil : ResolvesStmts rules [] []
  | cons {s : Stmt} {rest : List Stmt} {tree : Resolved.Stmt} {trees : List Resolved.Stmt}
      (first : ResolvesStmt rules s tree) (others : ResolvesStmts rules rest trees) :
      ResolvesStmts rules (s :: rest) (tree :: trees)

end

variable {rules : Rules}

theorem ResolvesAll.length_eq {args : List Expr} {trees : List Resolved.Expr}
    (h : ResolvesAll rules args trees) : trees.length = args.length := by
  induction args generalizing trees with
  | nil =>
    cases h
    rfl
  | cons e rest ih =>
    cases h with
    | cons _ others => rw [List.length_cons, List.length_cons, ih others]

theorem ResolvesAll.append {front rest : List Expr} {trees others : List Resolved.Expr}
    (h : ResolvesAll rules front trees) (hrest : ResolvesAll rules rest others) :
    ResolvesAll rules (front ++ rest) (trees ++ others) := by
  induction front generalizing trees with
  | nil =>
    cases h
    exact hrest
  | cons e front ih =>
    cases h with
    | cons first others => exact .cons first (ih others)

/-! ## Walks -/

variable {ctx : Context} {wide : Prop}

theorem currentClass_own (span : Span) :
    Resolver.Sound wide (currentClass ctx span) fun _ c => ctx.rules.own = some c := by
  unfold currentClass
  split
  · rename_i c hc
    exact .pure fun _ => hc
  · exact .fail

theorem checkOwnField_own (name : String) (span : Span) :
    Resolver.Sound wide (checkOwnField ctx name span) fun _ _ => ctx.rules.OwnField name := by
  unfold checkOwnField
  refine (currentClass_own span).bind fun c => ?_
  split
  · rename_i hfield
    exact .pure fun _ hown => ⟨c, hown, List.contains_iff_mem.mp hfield⟩
  · exact .fail

/-- A name that is found for a function is in the table of the unit or in that of the program. -/
theorem free_of_function? {path : List String} {id : Nat} (h : ctx.function? path = some id) :
    ctx.rules.free id :=
  Context.lookupPath?_cases h

theorem resolveIdent_resolves (name : String) (span : Span) :
    Resolver.Sound wide (resolveIdent ctx name span) fun _ tree =>
      Resolves ctx.rules (.ident name span) tree := by
  unfold resolveIdent
  refine Resolver.Sound.get.bind fun body => ?_
  split
  · exact (Resolver.Sound.modify fun body => body.leads_markUsed name).bind fun _ =>
      .pure fun _ _ _ => .loadLocal
  · split
    · exact .pure fun _ _ => .loadGlobal
    · split <;> exact .fail

theorem bareCallee_free (name : String) (argc : Nat) (span : Span) :
    Resolver.Sound wide (bareCallee ctx name argc span) fun _ id => ctx.rules.free id := by
  unfold bareCallee
  split
  · rename_i id hid
    exact (checkArity_sound id argc span).bind fun _ => .pure fun _ _ => free_of_function? hid
  · refine (isVariable_sound name).bind fun isVariable => ?_
    split <;> exact .fail

theorem createdClass_any (path : List String) (argc : Nat) (span : Span) :
    Resolver.Sound wide (createdClass ctx path argc span) fun _ _ => True := by
  unfold createdClass
  dsimp only
  cases ctx.class? path with
  | none => exact .fail
  | some id =>
    dsimp only
    split
    · split
      · exact .pure fun _ => trivial
      · exact .fail
    · split
      · exact .pure fun _ => trivial
      · exact .fail

/-- What may be called behind a dot. -/
def Callee.Fits (rules : Rules) (object : Expr) (method : String) (argc : Nat) :
    Callee → Prop
  | .host module name => object.path? = some [module] ∧ name = method ∧ rules.host module name argc
  | .function id => object.path? ≠ none ∧ rules.free id
  | .method => ∀ place, object = .this place → rules.OwnMethod method argc

theorem dottedFunction_fits {path : List String} {object : Expr} (hpath : object.path? = some path)
    (method : String) (argc : Nat) (span : Span) :
    Resolver.Sound wide (dottedFunction ctx path object method argc span) fun _ callee =>
      callee.Fits ctx.rules object method argc := by
  unfold dottedFunction
  dsimp only
  split
  · rename_i id hid
    refine (checkArity_sound id argc span).bind fun _ => .pure fun _ _ => ?_
    exact ⟨by simp [hpath], free_of_function? hid⟩
  · split <;> exact .fail

theorem dottedCallee_fits {path : List String} {object : Expr} (hpath : object.path? = some path)
    (method : String) (argc : Nat) (span : Span) :
    Resolver.Sound wide (dottedCallee ctx path object method argc span) fun _ callee =>
      callee.Fits ctx.rules object method argc := by
  unfold dottedCallee
  split
  · split
    · rename_i arity hfound
      split
      · rename_i haccepts
        exact .pure fun _ => ⟨hpath, rfl, arity, hfound, haccepts⟩
      · exact .fail
    · exact .fail
    · exact .fail
    · exact .fail
    · exact dottedFunction_fits hpath ..
  · exact dottedFunction_fits hpath ..

theorem valueCallee_fits (object : Expr) (method : String) (argc : Nat) (span : Span) :
    Resolver.Sound wide (valueCallee ctx object method argc span) fun _ callee =>
      callee.Fits ctx.rules object method argc := by
  unfold valueCallee
  split
  · refine (currentClass_own _).bind fun c => ?_
    split
    · rename_i id hid
      exact (checkArity_sound ..).bind fun _ => .pure fun _ harity hown _ _ =>
        ⟨c, id, hown, hid, harity⟩
    · exact .fail
  · rename_i hother
    exact .pure fun _ place hthis => absurd hthis (hother place)

theorem callee_fits (object : Expr) (method : String) (argc : Nat) (span : Span) :
    Resolver.Sound wide (callee ctx object method argc span) fun _ callee =>
      callee.Fits ctx.rules object method argc := by
  unfold callee
  split
  · rename_i path hpath
    refine (isVariable_sound _).bind fun isVariable => ?_
    split
    · exact (valueCallee_fits ..).imp fun _ _ hfits _ => hfits
    · exact (dottedCallee_fits hpath ..).imp fun _ _ hfits _ => hfits
  · exact valueCallee_fits ..

mutual

/-- Every expression is resolved to a tree that it may be resolved to. -/
theorem resolveExpr_resolves : ∀ e : Expr,
    Resolver.Sound wide (resolveExpr ctx e) fun _ tree => Resolves ctx.rules e tree
  | .int _ _ => by
    rw [resolveExpr]
    exact .pure fun _ => .int
  | .float _ _ => by
    rw [resolveExpr]
    exact .pure fun _ => .float
  | .str _ _ => by
    rw [resolveExpr]
    exact .pure fun _ => .str
  | .bool _ _ => by
    rw [resolveExpr]
    exact .pure fun _ => .bool
  | .null _ => by
    rw [resolveExpr]
    exact .pure fun _ => .null
  | .this span => by
    rw [resolveExpr]
    exact (currentClass_own span).bind fun _ => .pure fun _ _ => .this
  | .ident name span => by
    rw [resolveExpr]
    exact resolveIdent_resolves name span
  | .binary op left right _ => by
    rw [resolveExpr]
    refine (resolveExpr_resolves left).bind fun _ => (resolveExpr_resolves right).bind fun _ => ?_
    exact .pure fun _ hright hleft => .binary hleft hright
  | .unary op operand _ => by
    rw [resolveExpr]
    exact (resolveExpr_resolves operand).bind fun _ => .pure fun _ hoperand => .unary hoperand
  | .call name args span => by
    rw [resolveExpr]
    refine (bareCallee_free name args.length span).bind fun _ =>
      (resolveArgs_resolves args []).bind fun _ => .pure fun _ hargs hfree => ?_
    exact .call hfree (hargs .nil)
  | .methodCall object method args span => by
    rw [resolveExpr]
    refine (callee_fits object method args.length span).bind fun callee => ?_
    cases callee with
    | host module function =>
      refine (resolveArgs_resolves args []).bind fun _ => .pure fun _ hargs hfits => ?_
      obtain ⟨hpath, rfl, hknown⟩ := hfits
      exact .callHost hpath hknown (hargs .nil)
    | function id =>
      refine (resolveArgs_resolves args []).bind fun _ => .pure fun _ hargs hfits => ?_
      exact .callFree hfits.1 hfits.2 (hargs .nil)
    | method =>
      refine (resolveExpr_resolves object).bind fun _ => ?_
      refine (resolveArgs_resolves args []).bind fun _ => ?_
      exact .pure fun _ hargs hobject hown => .callMethod hobject (hargs .nil) hown
  | .field object name span => by
    have hobject : (∀ place, object = .this place → ctx.rules.OwnField name) →
        Resolver.Sound wide
          (do let object ← resolveExpr ctx object; return Resolved.Expr.getField object name)
          fun _ tree => Resolves ctx.rules (.field object name span) tree := fun hown =>
      (resolveExpr_resolves object).bind fun _ => .pure fun _ howner => .field howner hown
    by_cases hthis : ∃ place, object = .this place
    · obtain ⟨place, rfl⟩ := hthis
      rw [resolveExpr]
      refine (checkOwnField_own name span).bind fun _ =>
        (resolveExpr_resolves (.this place)).bind fun _ => ?_
      exact .pure fun _ howner hown => .field howner fun _ _ => hown
    · rw [resolveExpr]
      · exact hobject fun place hplace => absurd ⟨place, hplace⟩ hthis
      · exact fun place hplace => hthis ⟨place, hplace⟩
  | .create path args span => by
    rw [resolveExpr]
    refine (createdClass_any path args.length span).bind fun _ =>
      (resolveArgs_resolves args []).bind fun _ => .pure fun _ hargs _ => ?_
    exact .create (hargs .nil)

/-- Every argument is resolved to a tree that it may be resolved to. -/
theorem resolveArgs_resolves : ∀ (args : List Expr) (found : List Resolved.Expr),
    Resolver.Sound wide (resolveArgs ctx found args) fun _ trees =>
      ∀ {front : List Expr}, ResolvesAll ctx.rules front found.reverse →
        ResolvesAll ctx.rules (front ++ args) trees
  | [], found => by
    rw [resolveArgs]
    exact .pure fun _ front hfront => by rwa [List.append_nil]
  | arg :: rest, found => by
    rw [resolveArgs]
    refine (resolveExpr_resolves arg).bind fun tree =>
      (resolveArgs_resolves rest (tree :: found)).imp fun _ trees htrees harg front hfront => ?_
    have hall : ResolvesAll ctx.rules (front ++ [arg]) (tree :: found).reverse := by
      rw [List.reverse_cons]
      exact hfront.append (.cons harg .nil)
    simpa using htrees hall

end

/-! ## Statements -/

/-- An assignment is resolved to a tree that it may be resolved to. -/
theorem resolveAssign_resolves (target value : Expr) (span : Span) :
    Resolver.Sound wide (resolveAssign ctx target value span) fun _ tree =>
      ResolvesStmt ctx.rules (.assign target value span) tree := by
  unfold resolveAssign
  refine (resolveExpr_resolves value).bind fun _ => ?_
  split
  · refine Resolver.Sound.get.bind fun body => ?_
    split
    · exact .pure fun _ _ hvalue => .assignLocal hvalue
    · split
      · exact .pure fun _ _ hvalue => .assignGlobal hvalue
      · exact .fail
  · rename_i object name own
    split
    · rename_i place
      refine (checkOwnField_own name own).bind fun _ =>
        (resolveExpr_resolves (.this place)).bind fun _ => ?_
      exact .pure fun _ howner hown hvalue => .assignField howner hvalue fun _ _ => hown
    · rename_i hother
      refine (resolveExpr_resolves object).bind fun _ => .pure fun _ howner hvalue => ?_
      exact .assignField howner hvalue fun place hplace => absurd hplace (hother place)
  · exact .fail

/-- A step that is passed over if it fails has not failed where there is no error. -/
theorem Sound.recovered {α : Type} {step : Resolver α} {right : Nat → α → Prop}
    (h : Resolver.Sound wide step right) :
    Resolver.Sound wide (Resolver.recover step) fun slots found =>
      ∃ a, found = some a ∧ right slots a where
  ok := fun {body after found} hfound => by
    have hmakes := h.recover.ok hfound
    refine ⟨hmakes.leads, fun hslots final hleads hgood => ?_⟩
    have hright := hmakes.right hslots final hleads hgood
    cases found with
    | some a => exact ⟨a, rfl, hright a rfl⟩
    | none =>
      refine absurd (hleads.failed ?_) hgood
      unfold Resolver.recover at hfound
      cases hstep : step body with
      | ok a middle =>
        rw [hstep] at hfound
        cases hfound
      | error e middle =>
        rw [hstep] at hfound
        cases hfound
        exact failed_push (h.error hstep)
  error := h.recover.error

theorem ResolvesStmts.append {front rest : List Stmt} {trees others : List Resolved.Stmt}
    (h : ResolvesStmts rules front trees) (hrest : ResolvesStmts rules rest others) :
    ResolvesStmts rules (front ++ rest) (trees ++ others) := by
  induction front generalizing trees with
  | nil =>
    cases h
    exact hrest
  | cons s front ih =>
    cases h with
    | cons first others => exact .cons first (ih others)

mutual

/-- Every statement is resolved to a tree that it may be resolved to. -/
theorem resolveStmt_resolves : ∀ s : Stmt,
    Resolver.Sound wide (resolveStmt ctx s) fun _ tree => ResolvesStmt ctx.rules s tree
  | .letVar name value span => by
    rw [resolveStmt]
    refine (resolveExpr_resolves value).bind fun _ => Resolver.Sound.get.bind fun body => ?_
    split
    · split
      · exact .pure fun _ _ hvalue => .letGlobal hvalue
      · exact .fail
    · refine (Resolver.Sound.declareLocal name span).bind fun _ => ?_
      exact .pure fun _ _ _ hvalue => .letLocal hvalue
  | .assign target value span => by
    rw [resolveStmt]
    exact resolveAssign_resolves target value span
  | .ifThen condition body _ => by
    rw [resolveStmt]
    refine (resolveExpr_resolves condition).bind fun _ =>
      (Resolver.Sound.modify fun body => body.leads_enter).bind fun _ =>
      (resolveStmts_resolves body .live []).bind fun _ =>
      (Resolver.Sound.modify fun body => body.leads_leave _).bind fun _ => ?_
    exact .pure fun _ _ hbody _ hcondition => .ifThen hcondition (hbody .nil)
  | .ifElse condition body alternative _ => by
    rw [resolveStmt]
    refine (resolveExpr_resolves condition).bind fun _ =>
      (Resolver.Sound.modify fun body => body.leads_enter).bind fun _ =>
      (resolveStmts_resolves body .live []).bind fun _ =>
      (Resolver.Sound.modify fun body => body.leads_leave _).bind fun _ =>
      (Resolver.Sound.modify fun body => body.leads_enter).bind fun _ =>
      (resolveStmts_resolves alternative .live []).bind fun _ =>
      (Resolver.Sound.modify fun body => body.leads_leave _).bind fun _ => ?_
    exact .pure fun _ _ halternative _ _ hbody _ hcondition =>
      .ifElse hcondition (hbody .nil) (halternative .nil)
  | .loop condition body _ => by
    rw [resolveStmt]
    refine (resolveExpr_resolves condition).bind fun _ =>
      (Resolver.Sound.modify fun body => body.leads_enter).bind fun _ =>
      (resolveStmts_resolves body .live []).bind fun _ =>
      (Resolver.Sound.modify fun body => body.leads_leave _).bind fun _ => ?_
    exact .pure fun _ _ hbody _ hcondition => .loop hcondition (hbody .nil)
  | .ret none span => by
    rw [resolveStmt]
    split
    · exact .pure fun _ => .retNull
    · exact .fail_bind
  | .ret (some value) span => by
    rw [resolveStmt]
    split
    · exact (resolveExpr_resolves value).bind fun _ => .pure fun _ hvalue => .ret hvalue
    · exact .fail_bind
  | .block body _ => by
    rw [resolveStmt]
    refine (Resolver.Sound.modify fun body => body.leads_enter).bind fun _ =>
      (resolveStmts_resolves body .live []).bind fun _ =>
      (Resolver.Sound.modify fun body => body.leads_leave _).bind fun _ => ?_
    exact .pure fun _ _ hbody _ => .block (hbody .nil)
  | .expr value => by
    rw [resolveStmt]
    exact (resolveExpr_resolves value).bind fun _ => .pure fun _ hvalue => .expr hvalue

/-- Every statement of a block is resolved to a tree that it may be resolved to. -/
theorem resolveStmts_resolves : ∀ (body : List Stmt) (reach : Reach) (found : List Resolved.Stmt),
    Resolver.Sound wide (resolveStmts ctx reach found body) fun _ trees =>
      ∀ {front : List Stmt}, ResolvesStmts ctx.rules front found.reverse →
        ResolvesStmts ctx.rules (front ++ body) trees
  | [], reach, found => by
    rw [resolveStmts]
    exact .pure fun _ front hfront => by rwa [List.append_nil]
  | s :: rest, reach, found => by
    have hrest : Resolver.Sound wide
        (do
          let resolved ← Resolver.recover (resolveStmt ctx s)
          resolveStmts ctx (reach.after s) (resolved.toList ++ found) rest)
        fun _ trees => ∀ {front : List Stmt}, ResolvesStmts ctx.rules front found.reverse →
          ResolvesStmts ctx.rules (front ++ s :: rest) trees := by
      refine (Sound.recovered (resolveStmt_resolves s)).bind fun resolved =>
        (resolveStmts_resolves rest (reach.after s) (resolved.toList ++ found)).imp ?_
      rintro _ trees htrees ⟨tree, rfl, htree⟩ front hfront
      have hall : ResolvesStmts ctx.rules (front ++ [s])
          ((some tree).toList ++ found).reverse := by
        rw [List.reverse_append]
        exact hfront.append (.cons htree .nil)
      simpa using htrees hall
    rw [resolveStmts]
    split
    · refine (Resolver.Sound.modify fun body => body.leads_warn _ _ _).bind fun _ => ?_
      exact hrest.imp fun _ _ htrees _ => htrees
    · exact hrest

end

/-! ## Statements that stand in no body -/

/-- What becomes of a statement that stands in no body: it is refused, which is an error, or its tree
goes to the top level. -/
inductive Progress.AddsStmt (ctx : Context) (p : Progress) (s : Stmt) : Progress → Prop
  | refused {returnsValue : Bool} {top : Body} (failed : Failed top.diagnostics) :
      AddsStmt ctx p s { p with returnsValue, top }
  | added {tree : Resolved.Stmt} {top : Body} (outside : ctx.space.isEmpty = true)
      (resolved : resolveStmt ctx s p.top = .ok tree top) (leads : p.top.Leads True top) :
      AddsStmt ctx p s
        { p with returnsValue := s.isExpr, topLevel := p.topLevel.push tree, top }

theorem Progress.addsStmt (ctx : Context) (p : Progress) (s : Stmt) :
    AddsStmt ctx p s (p.addStmt ctx s) := by
  have hsound : Resolver.Sound True (resolveStmt ctx s) fun _ tree =>
      ResolvesStmt ctx.rules s tree := resolveStmt_resolves s
  unfold addStmt
  split
  · rename_i houtside
    cases hresult : resolveStmt ctx s p.top with
    | error e top =>
      have hfailed : Failed (top.diagnostics.push e) := failed_push (hsound.error hresult)
      simp only [hresult]
      exact .refused hfailed
    | ok tree top =>
      simp only [hresult]
      exact .added houtside hresult (hsound.ok hresult).leads
  · have hfailed : Failed (p.top.diagnostics.push
        (ScopeError.statementInNamespace.placed s.span)) := failed_push rfl
    exact .refused hfailed

end ScriptHost.Scope
