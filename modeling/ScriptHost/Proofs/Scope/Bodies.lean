import ScriptHost.Proofs.Scope.Resolves
import ScriptHost.Proofs.Scope.Unit
/-!
# The bodies of a unit

Source texts as a list of bodies: those of functions and methods, and for each class what its fields
start with. A unit without errors has a function for each of them, in the same order, and the trees
of the function are what the body may be resolved to: `resolve_bodies`.
-/

set_option autoImplicit false

namespace ScriptHost

/-- What a function of a unit is made from. -/
inductive Source where
  /-- The fields of a class, some of which start with a value. -/
  | fields (fields : List FieldDecl)
  | body (body : List Stmt)

/-- What a function of a unit is made from, and the class of which it is a member: its place among
the classes of the unit. -/
structure Written where
  member : Option Nat
  source : Source

/-- The bodies in a class. -/
def ClassDecl.written (c : ClassDecl) (index : Nat) : List Written :=
  ⟨some index, .fields c.fields⟩ :: c.methods.map fun method => ⟨some index, .body method.body⟩

mutual

/-- The classes in an item. -/
def Item.classes : Item → List ClassDecl
  | .space _ items _ => Item.classesAll items
  | .classDecl c => [c]
  | .function _ | .stmt _ => []

/-- The classes in several items. -/
def Item.classesAll : List Item → List ClassDecl
  | [] => []
  | item :: rest => item.classes ++ Item.classesAll rest

end

mutual

/-- The bodies in an item, where so many classes come before. -/
def Item.written (before : Nat) : Item → List Written
  | .space _ items _ => Item.writtenAll before items
  | .classDecl c => c.written before
  | .function f => [⟨none, .body f.body⟩]
  | .stmt _ => []

/-- The bodies in several items. -/
def Item.writtenAll (before : Nat) : List Item → List Written
  | [] => []
  | item :: rest => item.written before ++ Item.writtenAll (before + item.classes.length) rest

end

mutual

/-- The statements in an item that stand in no body. -/
def Item.statements : Item → List Stmt
  | .space _ items _ => Item.statementsAll items
  | .classDecl _ | .function _ => []
  | .stmt s => [s]

/-- The statements in several items that stand in no body. -/
def Item.statementsAll : List Item → List Stmt
  | [] => []
  | item :: rest => item.statements ++ Item.statementsAll rest

end

namespace Scope

/-- What a function of a unit is made from may be resolved to trees. Where a field starts with a
value, the field of `this` is assigned the value. -/
inductive Source.Resolves (rules : Rules) : Source → List Resolved.Stmt → Prop
  | fields {fields : List FieldDecl} {trees : List Resolved.Stmt}
      (each : ∀ tree ∈ trees, ∃ field ∈ fields, ∃ initial value, field.initial = some initial ∧
        Scope.Resolves rules initial value ∧ tree = .setField .loadThis field.name value) :
      Resolves rules (.fields fields) trees
  | body {body : List Stmt} {trees : List Resolved.Stmt} (all : ResolvesStmts rules body trees) :
      Resolves rules (.body body) trees

/-- What is made sure of in a member of a class of the unit, or in a body that is no member. -/
def Context.rulesOf (ctx : Context) (member : Option Nat) : Rules :=
  { ctx with member := member.map (ctx.declared.classBase + ·) }.rules

namespace Progress

/-- The walk through a unit has met these bodies and statements, and so many classes. As long as it
has found no error, they have been resolved to what they may be resolved to. -/
structure Follows (ctx : Context) (classes : Nat) (written : List Written)
    (statements : List Stmt) (p : Progress) : Prop where
  count : p.bodies.size = written.length
  classes : p.classes = classes
  bodies : ¬ Failed p.top.diagnostics → ∀ (index : Nat) (body : List Resolved.Stmt × Nat)
    (w : Written), p.bodies[index]? = some body → written[index]? = some w →
      Source.Resolves (ctx.rulesOf w.member) w.source body.1
  topLevel : ¬ Failed p.top.diagnostics →
    ResolvesStmts (ctx.rulesOf none) statements p.topLevel.toList

variable {ctx : Context} {classes : Nat} {written : List Written} {statements : List Stmt}
  {p : Progress}

theorem Follows.addBody (h : p.Follows ctx classes written statements) (w : Written)
    (params : List String) {walk : Resolver (List Resolved.Stmt)}
    (hwalk : Resolver.Sound True walk fun _ trees =>
      Source.Resolves (ctx.rulesOf w.member) w.source trees) :
    (p.addBody params walk).Follows ctx classes (written ++ [w]) statements := by
  have hcount : p.bodies.size + 1 = (written ++ [w]).length := by
    rw [h.count, List.length_append]
    rfl
  unfold Progress.addBody
  dsimp only
  cases hresult : walk (.ofParams params p.top.diagnostics) with
  | error e body =>
    have hfailed : Failed (body.diagnostics.push e) := failed_push (hwalk.error hresult)
    exact ⟨(Array.size_push ..).trans hcount, h.classes, fun hgood => absurd hfailed hgood,
      fun hgood => absurd hfailed hgood⟩
  | ok stmts body =>
    have hmakes := hwalk.ok hresult
    have hbefore : ¬ Failed body.diagnostics → ¬ Failed p.top.diagnostics :=
      fun hgood hfailed => hgood (hmakes.leads.failed hfailed)
    refine ⟨(Array.size_push ..).trans hcount, h.classes, fun hgood => ?_,
      fun hgood => h.topLevel (hbefore hgood)⟩
    have hbody := hmakes.right (.inl trivial) body (.refl body) hgood
    intro index other w' hother hw'
    rw [Array.getElem?_push] at hother
    split at hother
    · rename_i hlast
      rw [hlast, h.count, List.getElem?_concat_length, Option.some.injEq] at hw'
      rw [Option.some.injEq] at hother
      exact hw' ▸ hother ▸ hbody
    · have hinside := (Array.getElem?_eq_some_iff.mp hother).1
      rw [List.getElem?_append_left (h.count ▸ hinside)] at hw'
      exact h.bodies (hbefore hgood) index other w' hother hw'

/-- The body of a function or method is resolved in a context that has its class. -/
theorem Follows.addFunction (h : p.Follows ctx classes written statements) {inner : Context}
    {member : Option Nat} (hrules : inner.rules = ctx.rulesOf member) (f : FunctionDecl) :
    (p.addFunction inner f).Follows ctx classes (written ++ [⟨member, .body f.body⟩])
      statements := by
  refine h.addBody ⟨member, .body f.body⟩ f.params ?_
  refine (resolveStmts_resolves f.body .live []).bind fun _ =>
    (Resolver.Sound.modify fun body => body.leads_leave _).bind fun _ => ?_
  refine .pure fun _ _ hbody => ?_
  rw [← hrules]
  exact .body (hbody .nil)

theorem fieldAssignment_resolves {inner : Context} (field : FieldDecl) :
    Resolver.Sound True (fieldAssignment inner field) fun _ found =>
      ∀ tree, found = some tree → ∃ initial value, field.initial = some initial ∧
        Scope.Resolves inner.rules initial value ∧
          tree = .setField .loadThis field.name value := by
  unfold fieldAssignment
  split
  · refine .pure fun _ tree htree => ?_
    cases htree
  · rename_i initial hinitial
    refine ((resolveExpr_resolves initial).bind fun value =>
      .pure fun _ hvalue => ?_).recover
    exact ⟨initial, value, hinitial, hvalue, rfl⟩

theorem fields_resolve {inner : Context} (fields : List FieldDecl) :
    Resolver.Sound True
      (do let assignments ← fields.mapM (fieldAssignment inner); return assignments.filterMap id)
      fun _ trees => Source.Resolves inner.rules (.fields fields) trees := by
  have heach : ∀ field ∈ fields, Resolver.Sound True (fieldAssignment inner field)
      fun _ found => ∀ tree, found = some tree → ∃ field ∈ fields, ∃ initial value,
        field.initial = some initial ∧ Scope.Resolves inner.rules initial value ∧
          tree = .setField .loadThis field.name value := fun field hfield =>
    (fieldAssignment_resolves field).imp fun _ found hfound tree htree =>
      ⟨field, hfield, hfound tree htree⟩
  refine (mapM_sound fields heach).bind fun assignments => .pure fun _ hall =>
    .fields fun tree htree => ?_
  obtain ⟨found, hfound, rfl⟩ := List.mem_filterMap.mp htree
  exact hall _ hfound tree rfl

theorem Follows.addClass (h : p.Follows ctx classes written statements) {outer : Context}
    (hrules : ∀ member, outer.rulesOf member = ctx.rulesOf member) (c : ClassDecl) :
    (p.addClass outer c).Follows ctx (classes + 1) (written ++ c.written classes) statements := by
  unfold Progress.addClass
  dsimp only
  generalize hinner : ({ outer with
    member := some (outer.declared.classBase + p.classes), inFunction := true } : Context) = inner
  have hmember : inner.rules = ctx.rulesOf (some classes) := by
    rw [← hrules, ← h.classes, ← hinner]
    rfl
  have hcounted : Follows ctx (classes + 1) written statements
      { p with classes := p.classes + 1 } :=
    ⟨h.count, congrArg (· + 1) h.classes, h.bodies, h.topLevel⟩
  have hfields := hcounted.addBody ⟨some classes, .fields c.fields⟩ []
    (hmember ▸ fields_resolve c.fields)
  have hall := Progress.foldl_addFunction
    (fun p written => p.Follows ctx (classes + 1) written statements)
    (fun method => [⟨some classes, .body method.body⟩])
    (fun h method => h.addFunction hmember method) c.methods hfields
  rw [← List.map_eq_flatMap, List.append_assoc] at hall
  exact hall

theorem Follows.addStmt (h : p.Follows ctx classes written statements) {outer : Context}
    (hrules : outer.rules = ctx.rulesOf none) (s : Stmt) :
    (p.addStmt outer s).Follows ctx classes written (statements ++ [s]) := by
  have hadds := p.addsStmt outer s
  generalize p.addStmt outer s = q at hadds ⊢
  cases hadds with
  | refused hfailed =>
    exact ⟨h.count, h.classes, fun hgood => absurd hfailed hgood,
      fun hgood => absurd hfailed hgood⟩
  | @added tree top _ hresult hleads =>
    have hsound : Resolver.Sound True (resolveStmt outer s) fun _ tree =>
        ResolvesStmt outer.rules s tree := resolveStmt_resolves s
    refine ⟨h.count, h.classes, fun hgood => h.bodies (mt hleads.failed hgood), fun hgood => ?_⟩
    rw [Array.toList_push]
    refine (h.topLevel (mt hleads.failed hgood)).append (.cons ?_ .nil)
    exact hrules ▸ (hsound.ok hresult).right (.inl trivial) top (.refl top) hgood

mutual

/-- An item adds its classes, bodies and statements. -/
theorem Follows.addItem : ∀ (item : Item) {outer : Context}
    (_ : ∀ member, outer.rulesOf member = ctx.rulesOf member) (_ : outer.member = none)
    {classes : Nat} {written : List Written} {statements : List Stmt} {p : Progress},
    p.Follows ctx classes written statements →
      (Progress.addItem outer p item).Follows ctx (classes + item.classes.length)
        (written ++ item.written classes) (statements ++ item.statements)
  | .space path items _, outer, hrules, hfree, _, _, _, p, h => by
    rw [Progress.addItem, Item.classes, Item.written, Item.statements]
    have hinner : ∀ member, Context.rulesOf { outer with space := outer.space ++ path } member =
        ctx.rulesOf member := hrules
    exact Follows.addItems items hinner hfree h
  | .classDecl c, outer, hrules, _, _, _, _, p, h => by
    rw [Progress.addItem, Item.written, Item.statements, List.append_nil]
    exact h.addClass hrules c
  | .function f, outer, hrules, hfree, _, _, _, p, h => by
    rw [Progress.addItem, Item.written, Item.statements, List.append_nil]
    have hnone : outer.rules = ctx.rulesOf none := by
      rw [← hrules, Context.rulesOf, Option.map_none, ← hfree]
    exact h.addFunction hnone f
  | .stmt s, outer, hrules, hfree, _, _, _, p, h => by
    rw [Progress.addItem, Item.written, Item.statements, List.append_nil]
    have hnone : outer.rules = ctx.rulesOf none := by
      rw [← hrules, Context.rulesOf, Option.map_none, ← hfree]
    exact h.addStmt hnone s

/-- Several items add their classes, bodies and statements. -/
theorem Follows.addItems : ∀ (items : List Item) {outer : Context}
    (_ : ∀ member, outer.rulesOf member = ctx.rulesOf member) (_ : outer.member = none)
    {classes : Nat} {written : List Written} {statements : List Stmt} {p : Progress},
    p.Follows ctx classes written statements →
      (Progress.addItems outer p items).Follows ctx (classes + (Item.classesAll items).length)
        (written ++ Item.writtenAll classes items) (statements ++ Item.statementsAll items)
  | [], outer, _, _, _, _, _, p, h => by
    rw [Progress.addItems, Item.writtenAll, Item.statementsAll, List.append_nil, List.append_nil]
    exact h
  | item :: rest, outer, hrules, hfree, _, _, _, p, h => by
    rw [Progress.addItems, Item.classesAll, Item.writtenAll, Item.statementsAll,
      List.length_append, ← Nat.add_assoc, ← List.append_assoc, ← List.append_assoc]
    exact Follows.addItems rest hrules hfree (Follows.addItem item hrules hfree h)

end

theorem addItems_append (outer : Context) (front rest : List Item) (p : Progress) :
    addItems outer p (front ++ rest) = addItems outer (addItems outer p front) rest := by
  induction front generalizing p with
  | nil => rfl
  | cons item front ih => rw [List.cons_append, addItems, addItems, ih]

/-- The walk through source texts is the walk through their items. -/
theorem foldl_addItems (outer : Context) (texts : List (List Item)) (p : Progress) :
    texts.foldl (fun p items => addItems outer p items) p = addItems outer p texts.flatten := by
  induction texts generalizing p with
  | nil => rfl
  | cons items rest ih => rw [List.foldl_cons, ih, List.flatten_cons, addItems_append]

end Progress

end Scope

/-- A unit without errors has a function for each body of its texts, made of what the body may be
resolved to, and so is its top level. -/
theorem resolve_bodies {texts : List (List Item)} {env : Env}
    (hclean : (resolve texts env).2.any Diagnostic.isError = false) :
    let ctx : Scope.Context := { env, declared := Declarations.ofTexts env.program texts }
    (∀ (index : Nat) (f : Resolved.Function), (resolve texts env).1.functions[index]? = some f →
        ∃ w, (Item.writtenAll 0 texts.flatten)[index]? = some w ∧
          Scope.Source.Resolves (ctx.rulesOf w.member) w.source f.body) ∧
      Scope.ResolvesStmts (ctx.rulesOf none) (Item.statementsAll texts.flatten)
        (resolve texts env).1.topLevel := by
  intro ctx
  have hstart : Scope.Progress.Follows ctx 0 [] []
      { top := { diagnostics := ctx.declared.diagnostics } } :=
    ⟨rfl, rfl, fun _ index body w hbody => by simp at hbody, fun _ => .nil⟩
  have hall := Scope.Progress.Follows.addItems texts.flatten (fun _ => rfl) rfl hstart
  rw [← Scope.Progress.foldl_addItems ctx texts] at hall
  have hgood : ¬ Failed (texts.foldl (fun p items => Scope.Progress.addItems ctx p items)
      { top := { diagnostics := ctx.declared.diagnostics } }).top.diagnostics := by
    rintro ⟨e, he, herror⟩
    exact List.any_eq_false.mp hclean e (Array.mem_toList_iff.mpr he) herror
  refine ⟨fun index f hf => ?_, hall.topLevel hgood⟩
  obtain ⟨signature, body, -, hbody, rfl⟩ := Array.getElem?_zipWith_eq_some.mp hf
  have hinside := (Array.getElem?_eq_some_iff.mp hbody).1
  rw [hall.count] at hinside
  exact ⟨_, List.getElem?_eq_getElem hinside,
    hall.bodies hgood index body _ hbody (List.getElem?_eq_getElem hinside)⟩

end ScriptHost
