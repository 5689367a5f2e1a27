import ScriptHost.Proofs.Scope.Known
import ScriptHost.Proofs.Scope.Renaming
/-!
# The same names under other numbers

Where what names lead to differs only by a renaming, so do the trees that a syntax tree is resolved
to. Places in the syntax tree are of no matter.

The main statements are `resolveExpr_renamed` and `resolveStmt_renamed`.
-/

set_option autoImplicit false

namespace ScriptHost

/-- A class with new numbers. -/
def Class.rename (r : Renaming) (c : Class) : Class where
  name := c.name
  fields := c.fields
  methods := ⟨c.methods.entries.map fun entry => (entry.1, r.function entry.2)⟩
  fieldInit := r.function c.fieldInit
  constructor? := c.constructor?.map r.function

@[simp] theorem Class.name_rename (r : Renaming) (c : Class) : (c.rename r).name = c.name :=
  rfl

@[simp] theorem Class.fields_rename (r : Renaming) (c : Class) :
    (c.rename r).fields = c.fields :=
  rfl

@[simp] theorem Class.constructor?_rename (r : Renaming) (c : Class) :
    (c.rename r).constructor? = c.constructor?.map r.function :=
  rfl

theorem Class.get?_methods_rename (r : Renaming) (c : Class) (name : String) :
    (c.rename r).methods.get? name = (c.methods.get? name).map r.function := by
  unfold Class.rename Table.get?
  rw [List.find?_map, Option.map_map, Option.map_map]
  rfl

namespace Scope

namespace Context

/-- A name leads to the function, in the unit or in the program. -/
def NamesFunction (ctx : Context) (id : Nat) : Prop :=
  ∃ name, ctx.declared.functionNames.get? name = some id ∨
    ctx.env.program.functionNames.get? name = some id

/-- A name leads to the class, in the unit or in the program, or its number is one of the unit. -/
def NamesClass (ctx : Context) (id : Nat) : Prop :=
  ctx.declared.classBase ≤ id ∨ ∃ name, ctx.declared.classNames.get? name = some id ∨
    ctx.env.program.classNames.get? name = some id

/-- A function is a method of a class, or its constructor. -/
def MemberOf (c : Class) (id : Nat) : Prop :=
  c.constructor? = some id ∨ ∃ name, c.methods.get? name = some id

/-- The number that a name leads to in the table of the unit, or else in that of the program. -/
def leads? (unit program : Table Nat) (name : String) : Option Nat :=
  unit.get? name <|> program.get? name

/-- Names lead to the same in both contexts, but for the numbers. Which of the two tables they are
in is of no matter. -/
structure Renames (r : Renaming) (ctx ctx' : Context) : Prop where
  lookup : ctx'.env.lookup = ctx.env.lookup
  warningLevel : ctx'.env.warningLevel = ctx.env.warningLevel
  space : ctx'.space = ctx.space
  member : ctx'.member = ctx.member.map r.classId
  inFunction : ctx'.inFunction = ctx.inFunction
  functionNames : ∀ name,
    leads? ctx'.declared.functionNames ctx'.env.program.functionNames name =
      (leads? ctx.declared.functionNames ctx.env.program.functionNames name).map r.function
  classNames : ∀ name, leads? ctx'.declared.classNames ctx'.env.program.classNames name =
    (leads? ctx.declared.classNames ctx.env.program.classNames name).map r.classId
  globals : ∀ name, leads? ctx'.declared.globals ctx'.env.program.globalNames name =
    (leads? ctx.declared.globals ctx.env.program.globalNames name).map r.global
  signature : ∀ id, ctx.NamesFunction id → ctx'.signature (r.function id) = ctx.signature id
  classOf? : ∀ id, ctx.NamesClass id →
    ctx'.classOf? (r.classId id) = (ctx.classOf? id).map (Class.rename r)
  members : ∀ id c function, ctx.NamesClass id → ctx.classOf? id = some c → MemberOf c function →
    ctx'.signature (r.function function) = ctx.signature function
  own : ∀ id ∈ ctx.member, ctx.declared.classBase ≤ id

variable {r : Renaming} {ctx ctx' : Context}

/-- A name leads to the same number but for the renaming, if it does so in each table. -/
theorem leads?_renamed {unit unit' program program' : Table Nat} {rename : Nat → Nat}
    (hunit : ∀ name, unit'.get? name = (unit.get? name).map rename)
    (hprogram : ∀ name, program'.get? name = (program.get? name).map rename) (name : String) :
    leads? unit' program' name = (leads? unit program name).map rename := by
  unfold leads?
  rw [hunit, hprogram]
  cases unit.get? name <;> rfl

/-- A path leads to the same number but for the renaming, at every level of namespaces. -/
theorem lookupPath?_renamed (hspace : ctx'.space = ctx.space)
    {unit unit' program program' : Table Nat} {rename : Nat → Nat}
    (hleads : ∀ name, leads? unit' program' name = (leads? unit program name).map rename)
    (path : List String) :
    ctx'.lookupPath? unit' program' path = (ctx.lookupPath? unit program path).map rename := by
  unfold lookupPath?
  rw [hspace, List.map_findSome?]
  exact congrArg (List.findSome? · _) (funext fun depth => hleads _)

theorem Renames.function? (h : Renames r ctx ctx') (path : List String) :
    ctx'.function? path = (ctx.function? path).map r.function :=
  lookupPath?_renamed h.space h.functionNames path

theorem Renames.class? (h : Renames r ctx ctx') (path : List String) :
    ctx'.class? path = (ctx.class? path).map r.classId :=
  lookupPath?_renamed h.space h.classNames path

theorem Renames.global? (h : Renames r ctx ctx') (name : String) :
    ctx'.global? name = (ctx.global? name).map r.global :=
  h.globals name

theorem namesFunction_of_function? {path : List String} {id : Nat}
    (h : ctx.function? path = some id) : ctx.NamesFunction id :=
  lookupPath?_cases h

theorem namesClass_of_class? {path : List String} {id : Nat} (h : ctx.class? path = some id) :
    ctx.NamesClass id :=
  .inr (lookupPath?_cases h)

/-- The class of the body is the same but for the numbers. -/
theorem Renames.ownClass (h : Renames r ctx ctx') :
    ctx'.member.bind ctx'.classOf? = (ctx.member.bind ctx.classOf?).map (Class.rename r) := by
  rw [h.member]
  cases hmember : ctx.member with
  | none => rfl
  | some id => exact h.classOf? id (.inl (h.own id (by rw [hmember]; rfl)))

theorem Renames.own_signature (h : Renames r ctx ctx') {c : Class} {function : Nat}
    (hc : ctx.member.bind ctx.classOf? = some c) (hfunction : MemberOf c function) :
    ctx'.signature (r.function function) = ctx.signature function := by
  obtain ⟨id, hid, hclass⟩ := Option.bind_eq_some_iff.mp hc
  exact h.members id c function (.inl (h.own id hid)) hclass hfunction

end Context

open Context Resolver

variable {r : Renaming} {ctx ctx' : Context} {start start' : Body}

theorem isVariable_renamed (h : Renames r ctx ctx') (name : String) :
    Mirrors start start' (isVariable ctx name) (isVariable ctx' name) Eq := by
  unfold isVariable
  refine .get fun body body' hbody => .pure ?_
  have hlocal := congrArg Option.isSome (hbody.findLocal? name)
  rw [Option.isSome_map, Option.isSome_map] at hlocal
  rw [hlocal, h.global?, Option.isSome_map]

theorem currentClass_renamed (h : Renames r ctx ctx') (span span' : Span) :
    Mirrors start start' (currentClass ctx span) (currentClass ctx' span')
      fun c c' => ctx.member.bind ctx.classOf? = some c ∧ c' = c.rename r := by
  unfold currentClass
  rw [h.ownClass]
  cases ctx.member.bind ctx.classOf? with
  | none => exact .fail
  | some c => exact .pure ⟨rfl, rfl⟩

theorem checkOwnField_renamed (h : Renames r ctx ctx') (name : String) (span span' : Span) :
    Mirrors start start' (checkOwnField ctx name span) (checkOwnField ctx' name span')
      fun _ _ => True := by
  unfold checkOwnField
  refine (currentClass_renamed h span span').bind fun c c' ⟨_, hc⟩ => ?_
  subst hc
  rw [Class.fields_rename, Class.name_rename]
  split
  · exact .pure trivial
  · exact .fail

theorem checkArity_renamed {function function' : Nat}
    (h : ctx'.signature function' = ctx.signature function) (given : Nat) (span span' : Span) :
    Mirrors start start' (checkArity ctx function given span) (checkArity ctx' function' given span')
      fun _ _ => True := by
  unfold checkArity
  rw [h]
  dsimp only
  split
  · exact .pure trivial
  · exact .fail

theorem resolveIdent_renamed (h : Renames r ctx ctx') (name : String) (span span' : Span) :
    Mirrors start start' (resolveIdent ctx name span) (resolveIdent ctx' name span')
      fun tree tree' => tree' = tree.rename r := by
  unfold resolveIdent
  refine .get fun body body' hbody => ?_
  have hlocal := hbody.findLocal? name
  cases hfound : body.findLocal? name with
  | some l =>
    rw [hfound] at hlocal
    obtain ⟨l', hfound', hbare⟩ := Option.map_eq_some_iff.mp hlocal.symm
    rw [hfound']
    have hslot : l'.slot = l.slot := (congrArg Local.slot hbare :)
    dsimp only
    rw [hslot]
    exact .modify (fun _ _ hbody => hbody.markUsed name) (.pure rfl)
  | none =>
    rw [hfound] at hlocal
    rw [Option.map_eq_none_iff.mp hlocal.symm]
    dsimp only
    rw [h.global?, h.lookup]
    cases ctx.global? name with
    | some id => exact .pure rfl
    | none =>
      dsimp only [Option.map_none]
      split <;> exact .fail

theorem bareCallee_renamed (h : Renames r ctx ctx') (name : String) (argc : Nat)
    (span span' : Span) :
    Mirrors start start' (bareCallee ctx name argc span) (bareCallee ctx' name argc span')
      fun id id' => id' = r.function id := by
  unfold bareCallee
  rw [h.function?]
  cases hid : ctx.function? [name] with
  | some id =>
    have hsignature := h.signature id (namesFunction_of_function? hid)
    exact (checkArity_renamed hsignature argc span span').bind fun _ _ _ => .pure rfl
  | none =>
    refine (isVariable_renamed h name).bind fun found found' hfound => ?_
    subst hfound
    split <;> exact .fail

/-- What a dotted call is, with new numbers. -/
def Callee.rename (r : Renaming) : Callee → Callee
  | .host module name => .host module name
  | .function id => .function (r.function id)
  | .method => .method

/-- Two dotted calls are the same but for the numbers. -/
def SameCallee (r : Renaming) (found found' : Callee) : Prop :=
  found' = found.rename r

theorem dottedFunction_renamed (h : Renames r ctx ctx') (path : List String)
    (object object' : ScriptHost.Expr) (method : String) (argc : Nat) (span span' : Span) :
    Mirrors start start' (dottedFunction ctx path object method argc span)
      (dottedFunction ctx' path object' method argc span') (SameCallee r) := by
  unfold dottedFunction
  dsimp only
  rw [h.function?]
  cases hid : ctx.function? (path ++ [method]) with
  | some id =>
    have hsignature := h.signature id (namesFunction_of_function? hid)
    exact (checkArity_renamed hsignature argc span span').bind fun _ _ _ => .pure rfl
  | none =>
    dsimp only [Option.map_none]
    split <;> exact .fail

theorem dottedCallee_renamed (h : Renames r ctx ctx') (path : List String)
    (object object' : ScriptHost.Expr) (method : String) (argc : Nat) (span span' : Span) :
    Mirrors start start' (dottedCallee ctx path object method argc span)
      (dottedCallee ctx' path object' method argc span') (SameCallee r) := by
  unfold dottedCallee
  split
  · rw [h.lookup]
    split
    · split
      · exact .pure rfl
      · exact .fail
    · exact .fail
    · exact .fail
    · exact .fail
    · exact dottedFunction_renamed h _ object object' method argc span span'
  · exact dottedFunction_renamed h _ object object' method argc span span'

theorem valueCallee_renamed (h : Renames r ctx ctx') (object : ScriptHost.Expr) (method : String)
    (argc : Nat) (span span' : Span) :
    Mirrors start start' (valueCallee ctx object method argc span)
      (valueCallee ctx' object.bare method argc span') (SameCallee r) := by
  cases object with
  | this own =>
    refine (currentClass_renamed h own .nowhere).bind fun c c' ⟨hc, hc'⟩ => ?_
    subst hc'
    rw [Class.get?_methods_rename]
    cases hid : c.methods.get? method with
    | some id =>
      have hsignature := h.own_signature hc (.inr ⟨method, hid⟩)
      exact (checkArity_renamed hsignature argc span span').bind fun _ _ _ => .pure rfl
    | none => exact .fail
  | _ => exact .pure rfl

theorem path?_bare : ∀ e : ScriptHost.Expr, e.bare.path? = e.path?
  | .field object name _ => by
    rw [Expr.bare, Expr.path?, Expr.path?, path?_bare object]
  | .ident .. | .int .. | .float .. | .str .. | .bool .. | .null _ | .this _ | .binary .. | .unary ..
  | .call .. | .methodCall .. | .create .. => rfl

theorem this_of_bare {e : ScriptHost.Expr} {span : Span} (h : e.bare = .this span) :
    ∃ own, e = .this own := by
  cases e <;> cases h
  exact ⟨_, rfl⟩

theorem callee_renamed (h : Renames r ctx ctx') (object : ScriptHost.Expr) (method : String)
    (argc : Nat) (span span' : Span) :
    Mirrors start start' (callee ctx object method argc span)
      (callee ctx' object.bare method argc span') (SameCallee r) := by
  unfold callee
  rw [path?_bare]
  split
  · rename_i path hpath
    refine (isVariable_renamed h (path.headD "")).bind fun found found' hfound => ?_
    subst hfound
    split
    · exact valueCallee_renamed h object method argc span span'
    · exact dottedCallee_renamed h path object object.bare method argc span span'
  · exact valueCallee_renamed h object method argc span span'

theorem createdClass_renamed (h : Renames r ctx ctx') (path : List String) (argc : Nat)
    (span span' : Span) :
    Mirrors start start' (createdClass ctx path argc span) (createdClass ctx' path argc span')
      fun id id' => id' = r.classId id := by
  unfold createdClass
  dsimp only
  rw [h.class?]
  cases hid : ctx.class? path with
  | none => exact .fail
  | some id =>
    have hnames := namesClass_of_class? hid
    have hif (takes takes' : Nat) (htakes : takes' = takes) : Mirrors start start'
        (if takes = argc then pure id
          else Resolver.fail (.noConstructor (".".intercalate path) argc) span)
        (if takes' = argc then pure (r.classId id)
          else Resolver.fail (.noConstructor (".".intercalate path) argc) span')
        fun id id' => id' = r.classId id := by
      rw [htakes]
      split
      · exact .pure rfl
      · exact .fail
    refine hif _ _ ?_
    rw [h.classOf? id hnames]
    cases hclass : ctx.classOf? id with
    | none => rfl
    | some c =>
      rw [Option.map_some, Option.bind_some, Option.bind_some, Class.constructor?_rename]
      cases hconstructor : c.constructor? with
      | none => rfl
      | some function =>
        dsimp only [Option.map_some]
        rw [h.members id c function hnames hclass (.inl hconstructor)]

/-! ## Expressions -/

mutual

/-- An expression is resolved to the same tree, but for the numbers. -/
theorem resolveExpr_renamed (h : Renames r ctx ctx') : ∀ e : ScriptHost.Expr,
    Mirrors start start' (resolveExpr ctx e) (resolveExpr ctx' e.bare)
      fun tree tree' => tree' = tree.rename r
  | .int _ _ | .float _ _ | .str _ _ | .bool _ _ | .null _ => by
    rw [Expr.bare, resolveExpr, resolveExpr]
    exact .pure rfl
  | .this span => by
    rw [Expr.bare, resolveExpr, resolveExpr]
    exact (currentClass_renamed h span _).bind fun _ _ _ => .pure rfl
  | .ident name span => by
    rw [Expr.bare, resolveExpr, resolveExpr]
    exact resolveIdent_renamed h name span _
  | .binary op left right _ => by
    rw [Expr.bare, resolveExpr, resolveExpr]
    refine (resolveExpr_renamed h left).bind fun left left' hleft => ?_
    refine (resolveExpr_renamed h right).bind fun right right' hright => .pure ?_
    rw [hleft, hright, Resolved.Expr.rename]
  | .unary op operand _ => by
    rw [Expr.bare, resolveExpr, resolveExpr]
    refine (resolveExpr_renamed h operand).bind fun operand operand' hoperand => .pure ?_
    rw [hoperand, Resolved.Expr.rename]
  | .call name args span => by
    rw [Expr.bare, resolveExpr, resolveExpr, Expr.bareAll_eq, List.length_map, ← Expr.bareAll_eq]
    refine (bareCallee_renamed h name args.length span _).bind fun id id' hid => ?_
    refine (resolveArgs_renamed h args [] []  rfl).bind fun args args' hargs => .pure ?_
    rw [hid, hargs, Resolved.Expr.rename, Resolved.Expr.renameAll_eq]
  | .methodCall object method args span => by
    rw [Expr.bare, resolveExpr, resolveExpr, Expr.bareAll_eq, List.length_map, ← Expr.bareAll_eq]
    refine (callee_renamed h object method args.length span _).bind fun found found' hfound => ?_
    obtain rfl : found' = found.rename r := hfound
    cases found with
    | host module name =>
      refine (resolveArgs_renamed h args [] [] rfl).bind fun args args' hargs => .pure ?_
      rw [hargs, Resolved.Expr.rename, Resolved.Expr.renameAll_eq]
    | function id =>
      refine (resolveArgs_renamed h args [] [] rfl).bind fun args args' hargs => .pure ?_
      rw [hargs, Resolved.Expr.rename, Resolved.Expr.renameAll_eq]
    | method =>
      refine (resolveExpr_renamed h object).bind fun object object' hobject => ?_
      refine (resolveArgs_renamed h args [] [] rfl).bind fun args args' hargs => .pure ?_
      rw [hobject, hargs, Resolved.Expr.rename, Resolved.Expr.renameAll_eq]
  | .field object name span => by
    have hfield : Mirrors start start'
        (do let object ← resolveExpr ctx object; return Resolved.Expr.getField object name)
        (do let object ← resolveExpr ctx' object.bare; return Resolved.Expr.getField object name)
        fun tree tree' => tree' = tree.rename r := by
      refine (resolveExpr_renamed h object).bind fun object object' hobject => .pure ?_
      rw [hobject, Resolved.Expr.rename]
    by_cases hthis : ∃ own, object = .this own
    · obtain ⟨own, rfl⟩ := hthis
      rw [Expr.bare, Expr.bare, resolveExpr, resolveExpr]
      exact (checkOwnField_renamed h name span _).bind fun _ _ _ => hfield
    · rw [Expr.bare, resolveExpr, resolveExpr]
      · exact hfield
      · exact fun own hown => hthis (this_of_bare hown)
      · exact fun own hown => hthis ⟨own, hown⟩
  | .create path args span => by
    rw [Expr.bare, resolveExpr, resolveExpr, Expr.bareAll_eq, List.length_map, ← Expr.bareAll_eq]
    refine (createdClass_renamed h path args.length span _).bind fun id id' hid => ?_
    refine (resolveArgs_renamed h args [] [] rfl).bind fun args args' hargs => .pure ?_
    rw [hid, hargs, Resolved.Expr.rename, Resolved.Expr.renameAll_eq]

/-- Arguments are resolved to the same trees, but for the numbers. -/
theorem resolveArgs_renamed (h : Renames r ctx ctx') : ∀ (args : List ScriptHost.Expr)
    (found found' : List Resolved.Expr), found' = found.map (Resolved.Expr.rename r) →
      Mirrors start start' (resolveArgs ctx found args)
        (resolveArgs ctx' found' (ScriptHost.Expr.bareAll args))
        fun trees trees' => trees' = trees.map (Resolved.Expr.rename r)
  | [], found, found', hfound => by
    rw [Expr.bareAll, resolveArgs, resolveArgs, hfound]
    exact .pure List.map_reverse.symm
  | arg :: rest, found, found', hfound => by
    rw [Expr.bareAll, resolveArgs, resolveArgs]
    refine (resolveExpr_renamed h arg).bind fun tree tree' htree => ?_
    exact resolveArgs_renamed h rest _ _ (by rw [htree, hfound, List.map_cons])

end

/-! ## Statements -/

theorem resolveAssign_renamed (h : Renames r ctx ctx') (target value : ScriptHost.Expr)
    (span span' : Span) :
    Mirrors start start' (resolveAssign ctx target value span)
      (resolveAssign ctx' target.bare value.bare span')
      fun tree tree' => tree' = tree.rename r := by
  unfold resolveAssign
  refine (resolveExpr_renamed h value).bind fun value value' hvalue => ?_
  subst hvalue
  cases target with
  | ident name own =>
    refine .get fun body body' hbody => ?_
    have hlocal := hbody.findLocal? name
    cases hfound : body.findLocal? name with
    | some l =>
      rw [hfound] at hlocal
      obtain ⟨l', hfound', hbare⟩ := Option.map_eq_some_iff.mp hlocal.symm
      have hslot : l'.slot = l.slot := (congrArg Local.slot hbare :)
      rw [hfound']
      refine .pure ?_
      rw [hslot, Resolved.Stmt.rename]
    | none =>
      rw [hfound] at hlocal
      rw [Option.map_eq_none_iff.mp hlocal.symm, h.global?]
      cases ctx.global? name with
      | some id => exact .pure rfl
      | none => exact .fail
  | field object name own =>
    have hassign : Mirrors start start'
        (do let object ← resolveExpr ctx object; return Resolved.Stmt.setField object name value)
        (do
          let object ← resolveExpr ctx' object.bare
          return Resolved.Stmt.setField object name (value.rename r))
        fun tree tree' => tree' = tree.rename r := by
      refine (resolveExpr_renamed h object).bind fun object object' hobject => .pure ?_
      rw [hobject, Resolved.Stmt.rename]
    cases object with
    | this own' => exact (checkOwnField_renamed h name own _).bind fun _ _ _ => hassign
    | _ => exact hassign
  | _ => exact .fail

theorem isReturn_bare (s : ScriptHost.Stmt) : s.bare.isReturn = s.isReturn := by
  cases s <;> rfl

theorem isExpr_bare (s : ScriptHost.Stmt) : s.bare.isExpr = s.isExpr := by
  cases s <;> rfl

theorem after_bare (reach : Reach) (s : ScriptHost.Stmt) : reach.after s.bare = reach.after s := by
  unfold Reach.after
  rw [isReturn_bare]

theorem isEmpty_scopes {body body' : Body} (h : Body.Alike start start' body body') :
    body'.scopes.isEmpty = body.scopes.isEmpty := by
  have hlength := congrArg List.length h.scopes
  unfold Body.bareScopes at hlength
  rw [List.length_map, List.length_map] at hlength
  rw [Bool.eq_iff_iff, List.isEmpty_iff_length_eq_zero, List.isEmpty_iff_length_eq_zero, hlength]

mutual

/-- A statement is resolved to the same tree, but for the numbers. -/
theorem resolveStmt_renamed (h : Renames r ctx ctx') : ∀ s : ScriptHost.Stmt,
    Mirrors start start' (resolveStmt ctx s) (resolveStmt ctx' s.bare)
      fun tree tree' => tree' = tree.rename r
  | .letVar name value span => by
    rw [Stmt.bare, resolveStmt, resolveStmt]
    refine (resolveExpr_renamed h value).bind fun value value' hvalue => ?_
    subst hvalue
    refine .get fun body body' hbody => ?_
    rw [isEmpty_scopes hbody, h.global?]
    split
    · cases ctx.global? name with
      | some id => exact .pure rfl
      | none => exact .fail
    · refine (Mirrors.declareLocal name span _).bind fun slot slot' hslot => .pure ?_
      rw [hslot, Resolved.Stmt.rename]
  | .assign target value span => by
    rw [Stmt.bare, resolveStmt, resolveStmt]
    exact resolveAssign_renamed h target value span _
  | .ifThen condition body _ => by
    rw [Stmt.bare, resolveStmt, resolveStmt, h.warningLevel]
    refine (resolveExpr_renamed h condition).bind fun condition condition' hcondition => ?_
    refine .modify (fun _ _ hbody => hbody.enter) ?_
    refine (resolveStmts_renamed h body .live [] [] rfl).bind fun trees trees' htrees => ?_
    refine .modify (fun _ _ hbody => hbody.leave _) (.pure ?_)
    rw [hcondition, htrees, Resolved.Stmt.rename, Resolved.Stmt.renameAll_eq,
      Resolved.Stmt.renameAll]
  | .ifElse condition body alternative _ => by
    rw [Stmt.bare, resolveStmt, resolveStmt, h.warningLevel]
    refine (resolveExpr_renamed h condition).bind fun condition condition' hcondition => ?_
    refine .modify (fun _ _ hbody => hbody.enter) ?_
    refine (resolveStmts_renamed h body .live [] [] rfl).bind fun trees trees' htrees => ?_
    refine .modify (fun _ _ hbody => hbody.leave _) (.modify (fun _ _ hbody => hbody.enter) ?_)
    refine (resolveStmts_renamed h alternative .live [] [] rfl).bind fun others others' hothers => ?_
    refine .modify (fun _ _ hbody => hbody.leave _) (.pure ?_)
    rw [hcondition, htrees, hothers, Resolved.Stmt.rename, Resolved.Stmt.renameAll_eq,
      Resolved.Stmt.renameAll_eq]
  | .loop condition body _ => by
    rw [Stmt.bare, resolveStmt, resolveStmt, h.warningLevel]
    refine (resolveExpr_renamed h condition).bind fun condition condition' hcondition => ?_
    refine .modify (fun _ _ hbody => hbody.enter) ?_
    refine (resolveStmts_renamed h body .live [] [] rfl).bind fun trees trees' htrees => ?_
    refine .modify (fun _ _ hbody => hbody.leave _) (.pure ?_)
    rw [hcondition, htrees, Resolved.Stmt.rename, Resolved.Stmt.renameAll_eq]
  | .ret none span => by
    rw [Stmt.bare, Option.map_none, resolveStmt, resolveStmt, h.inFunction]
    split
    · exact .pure rfl
    · exact .fail_bind
  | .ret (some value) span => by
    have hret : Mirrors start start'
        (do let value ← resolveExpr ctx value; return Resolved.Stmt.ret (some value))
        (do let value ← resolveExpr ctx' value.bare; return Resolved.Stmt.ret (some value))
        fun tree tree' => tree' = tree.rename r := by
      refine (resolveExpr_renamed h value).bind fun tree tree' htree => .pure ?_
      rw [htree, Resolved.Stmt.rename, Option.map_some]
    rw [Stmt.bare, Option.map_some, resolveStmt, resolveStmt, h.inFunction]
    split
    · exact hret
    · exact .fail_bind
  | .block body _ => by
    rw [Stmt.bare, resolveStmt, resolveStmt, h.warningLevel]
    refine .modify (fun _ _ hbody => hbody.enter) ?_
    refine (resolveStmts_renamed h body .live [] [] rfl).bind fun trees trees' htrees => ?_
    refine .modify (fun _ _ hbody => hbody.leave _) (.pure ?_)
    rw [htrees, Resolved.Stmt.rename, Resolved.Stmt.renameAll_eq, Resolved.Stmt.renameAll,
      Resolved.Expr.rename]
  | .expr value => by
    rw [Stmt.bare, resolveStmt, resolveStmt]
    refine (resolveExpr_renamed h value).bind fun tree tree' htree => .pure ?_
    rw [htree, Resolved.Stmt.rename]

/-- Statements are resolved to the same trees, but for the numbers. -/
theorem resolveStmts_renamed (h : Renames r ctx ctx') : ∀ (body : List ScriptHost.Stmt)
    (reach : Reach) (found found' : List Resolved.Stmt),
      found' = found.map (Resolved.Stmt.rename r) →
        Mirrors start start' (resolveStmts ctx reach found body)
          (resolveStmts ctx' reach found' (ScriptHost.Stmt.bareAll body))
          fun trees trees' => trees' = trees.map (Resolved.Stmt.rename r)
  | [], reach, found, found', hfound => by
    rw [Stmt.bareAll, resolveStmts, resolveStmts, hfound]
    exact .pure List.map_reverse.symm
  | s :: rest, reach, found, found', hfound => by
    rw [Stmt.bareAll, resolveStmts, resolveStmts, after_bare, h.warningLevel]
    have hrest : Mirrors start start'
        (do
          let resolved ← Resolver.recover (resolveStmt ctx s)
          resolveStmts ctx (reach.after s) (resolved.toList ++ found) rest)
        (do
          let resolved ← Resolver.recover (resolveStmt ctx' s.bare)
          resolveStmts ctx' (reach.after s) (resolved.toList ++ found')
            (ScriptHost.Stmt.bareAll rest))
        fun trees trees' => trees' = trees.map (Resolved.Stmt.rename r) := by
      refine (resolveStmt_renamed h s).recover.bind fun tree tree' htree => ?_
      refine resolveStmts_renamed h rest _ _ _ ?_
      rw [hfound, List.map_append]
      cases htree with
      | some htree => rw [htree]; rfl
      | none => rfl
    split
    · exact .modify (fun _ _ hbody => hbody.warn ..) hrest
    · exact hrest

end

end Scope

end ScriptHost
