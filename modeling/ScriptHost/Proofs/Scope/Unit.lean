import ScriptHost.Proofs.Scope.Resolved
import ScriptHost.Proofs.Scope.Resolves
/-!
# Resolved units

The walk through a unit meets the functions in the order in which they were declared, so every
function gets its own body: `resolve_functions`. If no error is found, all bodies and the top level
refer to what is known.
-/

set_option autoImplicit false

namespace ScriptHost

mutual

/-- The numbers of parameters of the functions in an item, in order. A class has one function that
initialises its fields, and its methods. -/
def Item.arities : Item → List Nat
  | .space _ items _ => Item.aritiesAll items
  | .classDecl c => 0 :: c.methods.map (·.params.length)
  | .function f => [f.params.length]
  | .stmt _ => []

/-- The numbers of parameters of the functions in several items. -/
def Item.aritiesAll : List Item → List Nat
  | [] => []
  | item :: rest => item.arities ++ Item.aritiesAll rest

end

namespace Declarations

/-- The numbers of parameters of the functions declared. -/
def arities (d : Declarations) : List Nat :=
  d.functions.toList.map (·.arity)

mutual

/-- The functions in an item are declared in order. -/
theorem addItem_arities (program : Program) : ∀ (item : Item) (space : List String)
    (d : Declarations), (addItem program space d item).arities = d.arities ++ item.arities
  | .space path items _, space, d => by
    rw [addItem, Item.arities]
    exact addItems_arities program items (space ++ path) d
  | .classDecl c, space, d => by
    obtain ⟨made, hadds⟩ := d.addClass_adds space c
    rw [addItem, Item.arities, arities, arities, hadds.functions]
    simp [methodSignatures]
  | .function f, space, d => by
    have hpush : (d.pushFunction (qualify space f.name) f.params.length).arities =
        d.arities ++ [f.params.length] := by
      simp [arities, pushFunction]
    rw [addItem, Item.arities, addFunction, ← hpush]
    split <;> rfl
  | .stmt s, space, d => by
    have hsame : (addItem program space d (.stmt s)).functions = d.functions := by
      cases s with
      | letVar name value span =>
        rw [addItem]
        split
        · exact (d.addGlobal_frame program name span).2.2.1
        · rfl
      | _ =>
        rw [addItem]
        nofun
    rw [Item.arities, List.append_nil, arities, arities, hsame]

/-- The functions in several items are declared in order. -/
theorem addItems_arities (program : Program) : ∀ (items : List Item) (space : List String)
    (d : Declarations), (addItems program space d items).arities =
      d.arities ++ Item.aritiesAll items
  | [], _, d => by rw [addItems, Item.aritiesAll, List.append_nil]
  | item :: rest, space, d => by
    rw [addItems, Item.aritiesAll, addItems_arities program rest, addItem_arities program item,
      List.append_assoc]

end

/-- The functions in source texts are declared in order. -/
theorem ofTexts_arities (program : Program) (texts : List (List Item)) :
    (ofTexts program texts).arities = texts.flatMap Item.aritiesAll := by
  have general : ∀ d : Declarations,
      (texts.foldl (fun d items => addItems program [] d items) d).arities =
        d.arities ++ texts.flatMap Item.aritiesAll := by
    induction texts with
    | nil => exact fun d => (List.append_nil _).symm
    | cons items rest ih =>
      intro d
      rw [List.foldl_cons, ih, addItems_arities, List.flatMap_cons, List.append_assoc]
  exact general (start program)

end Declarations

namespace Scope

/-- The body of a function with so many parameters, and the number of its slots: it refers to what
is known. -/
def BodySound (known : Prop → Nat → Resolved.Referents) (body : List Resolved.Stmt × Nat)
    (arity : Nat) : Prop :=
  Resolved.Stmt.WithinAll (known (maxLocals < arity) body.2) body.1

namespace Progress

/-- The walk through a unit has met functions with so many parameters. As long as it has found no
error, all that it has resolved refers to what is known, and there was none before. -/
structure Sound (before : Array Diagnostic) (known : Prop → Nat → Resolved.Referents)
    (p : Progress) (arities : List Nat) : Prop where
  count : p.bodies.size = arities.length
  before : Failed before → Failed p.top.diagnostics
  slotted : ¬ Failed p.top.diagnostics → p.top.Slotted False
  bodies : ¬ Failed p.top.diagnostics → ∀ (index : Nat) (body : List Resolved.Stmt × Nat)
    (arity : Nat), p.bodies[index]? = some body → arities[index]? = some arity →
      BodySound known body arity
  topLevel : ¬ Failed p.top.diagnostics →
    Resolved.Stmt.WithinAll (known False p.top.maxSlot) p.topLevel.toList

variable {before : Array Diagnostic} {known : Prop → Nat → Resolved.Referents} {p : Progress}
  {arities : List Nat}

/-- Parameters have slots that are counted, unless there are too many. -/
theorem slotted_ofParams (params : List String) (diagnostics : Array Diagnostic) :
    (Body.ofParams params diagnostics).Slotted (maxLocals < params.length) := by
  by_cases hwide : maxLocals < params.length
  · exact .inl hwide
  · refine .inr fun scope hscope l hl => ?_
    obtain rfl := List.mem_singleton.mp hscope
    rw [List.mem_reverse] at hl
    obtain ⟨index, hindex, rfl⟩ := List.mem_mapIdx.mp hl
    simp only [Body.ofParams]
    omega

/-- A body is added for a function with these parameters. -/
theorem Sound.addBody (h : p.Sound before known arities) (params : List String)
    {walk : Resolver (List Resolved.Stmt)}
    (hwalk : Resolver.Sound (maxLocals < params.length) walk fun slots trees =>
      Resolved.Stmt.WithinAll (known (maxLocals < params.length) slots) trees) :
    (p.addBody params walk).Sound before known (arities ++ [params.length]) := by
  have hcount : p.bodies.size + 1 = (arities ++ [params.length]).length := by
    rw [h.count, List.length_append]
    rfl
  unfold Progress.addBody
  dsimp only
  cases hresult : walk (.ofParams params p.top.diagnostics) with
  | error e body =>
    dsimp only
    have hfailed : Failed (body.diagnostics.push e) := failed_push (hwalk.error hresult)
    exact ⟨(Array.size_push ..).trans hcount, fun _ => hfailed,
      fun hgood => absurd hfailed hgood, fun hgood => absurd hfailed hgood,
      fun hgood => absurd hfailed hgood⟩
  | ok stmts body =>
    dsimp only
    have hmakes := hwalk.ok hresult
    have hbefore : ¬ Failed body.diagnostics → ¬ Failed p.top.diagnostics :=
      fun hgood hfailed => hgood (hmakes.leads.failed hfailed)
    refine ⟨(Array.size_push ..).trans hcount,
      fun hfailed => hmakes.leads.failed (h.before hfailed),
      fun hgood => h.slotted (hbefore hgood), fun hgood => ?_,
      fun hgood => h.topLevel (hbefore hgood)⟩
    have hbody : BodySound known (stmts, body.maxSlot) params.length :=
      hmakes.right (slotted_ofParams params _) body (.refl body) hgood
    intro index other arity hother harity
    rw [Array.getElem?_push] at hother
    split at hother
    · rename_i hlast
      rw [hlast, h.count, List.getElem?_concat_length, Option.some.injEq] at harity
      rw [Option.some.injEq] at hother
      exact harity ▸ hother ▸ hbody
    · have hinside := (Array.getElem?_eq_some_iff.mp hother).1
      rw [List.getElem?_append_left (h.count ▸ hinside)] at harity
      exact h.bodies (hbefore hgood) index other arity hother harity

variable {ctx : Context}

/-- A function or method is added. -/
theorem Sound.addFunction (hctx : ctx.Grounded) (h : p.Sound before ctx.referents arities)
    (f : FunctionDecl) :
    (p.addFunction ctx f).Sound before ctx.referents (arities ++ [f.params.length]) := by
  have hinner : Context.Grounded { ctx with inFunction := true } := ⟨hctx.declared, hctx.program⟩
  refine h.addBody f.params ((resolveStmts_sound hinner f.body .live []).bind fun _ =>
    (Resolver.Sound.modify fun body => body.leads_leave _).bind fun _ => ?_)
  exact .pure fun _ _ hbody => hbody trivial

/-- The assignment of what a field starts with refers to what is known. -/
theorem fieldAssignment_sound (hctx : ctx.Grounded) {wide : Prop} (field : FieldDecl) :
    Resolver.Sound wide (fieldAssignment ctx field) fun slots found =>
      ∀ tree, found = some tree → tree.Within (ctx.referents wide slots) := by
  unfold fieldAssignment
  split
  · refine .pure fun slots tree htree => ?_
    cases htree
  · rename_i initial _
    exact ((resolveExpr_sound hctx initial).bind fun _ =>
      .pure fun _ hvalue => ⟨trivial, hvalue⟩).recover

/-- A step for each member of a list. -/
theorem mapM_sound {α β : Type} {wide : Prop} {step : α → Resolver β} {right : Nat → β → Prop}
    (list : List α) (hstep : ∀ a ∈ list, Resolver.Sound wide (step a) right) :
    Resolver.Sound wide (list.mapM step) fun slots found => ∀ b ∈ found, right slots b := by
  induction list with
  | nil =>
    rw [List.mapM_nil]
    exact .pure fun _ => nofun
  | cons a rest ih =>
    obtain ⟨hfirst, hrest⟩ := List.forall_mem_cons.mp hstep
    rw [List.mapM_cons]
    refine hfirst.bind fun b => (ih hrest).bind fun others => .pure fun slots hothers hb => ?_
    exact List.forall_mem_cons.mpr ⟨hb, hothers⟩

/-- The functions of a class are added. -/
theorem Sound.addClass (hctx : ctx.Grounded) (h : p.Sound before ctx.referents arities)
    (c : ClassDecl) :
    (p.addClass ctx c).Sound before ctx.referents
      (arities ++ 0 :: c.methods.map (·.params.length)) := by
  unfold Progress.addClass
  dsimp only
  generalize hinner : ({ ctx with
    member := some (ctx.declared.classBase + p.classes), inFunction := true } : Context) = inner
  have hgrounded : inner.Grounded := hinner ▸ ⟨hctx.declared, hctx.program⟩
  have hreferents : inner.referents = ctx.referents := hinner ▸ rfl
  have hcounted :
      Progress.Sound before inner.referents { p with classes := p.classes + 1 } arities :=
    hreferents ▸ ⟨h.count, h.before, h.slotted, h.bodies, h.topLevel⟩
  have hfields := hcounted.addBody []
    ((mapM_sound c.fields fun field _ => fieldAssignment_sound hgrounded field).bind
      fun _ => .pure fun _ hall => Resolved.Stmt.withinAll_iff.mpr fun tree htree => by
        obtain ⟨found, hfound, htree⟩ := List.mem_filterMap.mp htree
        exact hall found hfound tree htree)
  have hall := Progress.foldl_addFunction (Sound before inner.referents)
    (fun method => [method.params.length]) (fun h method => h.addFunction hgrounded method)
    c.methods hfields
  rw [← List.map_eq_flatMap, List.append_assoc, hreferents] at hall
  exact hall

/-- A statement of the top level is added. -/
theorem Sound.addStmt (hctx : ctx.Grounded) (h : p.Sound before ctx.referents arities)
    (s : ScriptHost.Stmt) : (p.addStmt ctx s).Sound before ctx.referents arities := by
  have hsound : Resolver.Sound False (resolveStmt ctx s) fun slots tree =>
      tree.Within (ctx.referents False slots) := resolveStmt_sound hctx s
  have hadds := p.addsStmt ctx s
  generalize p.addStmt ctx s = q at hadds ⊢
  cases hadds with
  | refused hfailed =>
    exact ⟨h.count, fun _ => hfailed, fun hgood => absurd hfailed hgood,
      fun hgood => absurd hfailed hgood, fun hgood => absurd hfailed hgood⟩
  | @added tree top _ hresult _ =>
    have hmakes := hsound.ok hresult
    have hbefore : ¬ Failed top.diagnostics → ¬ Failed p.top.diagnostics := mt hmakes.leads.failed
    refine ⟨h.count, fun hfailed => hmakes.leads.failed (h.before hfailed),
      fun hgood => hmakes.leads.slotted hgood (h.slotted (hbefore hgood)),
      fun hgood => h.bodies (hbefore hgood), fun hgood => ?_⟩
    have hgrown := hmakes.leads.maxSlot hgood
    have hsub : (ctx.referents False p.top.maxSlot).Sub (ctx.referents False top.maxSlot) :=
      ⟨fun hslot => hslot.imp_right fun hlt => Nat.lt_of_lt_of_le hlt hgrown, id, id, id, id⟩
    simp only [Array.toList_push]
    refine Resolved.Stmt.withinAll_append.mpr ⟨(h.topLevel (hbefore hgood)).mono hsub, ?_⟩
    exact ⟨hmakes.right (h.slotted (hbefore hgood)) top (.refl top) hgood, trivial⟩

mutual

/-- An item is added. -/
theorem Sound.addItem : ∀ (item : Item) {ctx : Context} (_ : ctx.Grounded) {p : Progress}
    {arities : List Nat}, p.Sound before ctx.referents arities →
      (Progress.addItem ctx p item).Sound before ctx.referents (arities ++ item.arities)
  | .space path items _, ctx, hctx, p, arities, h => by
    rw [Progress.addItem, Item.arities]
    have hinner : Context.Grounded { ctx with space := ctx.space ++ path } :=
      ⟨hctx.declared, hctx.program⟩
    exact Sound.addItems items hinner h
  | .classDecl c, ctx, hctx, p, arities, h => by
    rw [Progress.addItem, Item.arities]
    exact h.addClass hctx c
  | .function f, ctx, hctx, p, arities, h => by
    rw [Progress.addItem, Item.arities]
    exact h.addFunction hctx f
  | .stmt s, ctx, hctx, p, arities, h => by
    rw [Progress.addItem, Item.arities, List.append_nil]
    exact h.addStmt hctx s

/-- Several items are added. -/
theorem Sound.addItems : ∀ (items : List Item) {ctx : Context} (_ : ctx.Grounded) {p : Progress}
    {arities : List Nat}, p.Sound before ctx.referents arities →
      (Progress.addItems ctx p items).Sound before ctx.referents (arities ++ Item.aritiesAll items)
  | [], ctx, hctx, p, arities, h => by
    rw [Progress.addItems, Item.aritiesAll, List.append_nil]
    exact h
  | item :: rest, ctx, hctx, p, arities, h => by
    rw [Progress.addItems, Item.aritiesAll, ← List.append_assoc]
    exact Sound.addItems rest hctx (Sound.addItem item hctx h)

end

end Progress

end Scope

/-- A resolved unit has the numbers and names that have been declared without an error, and all its
bodies refer to what is known. -/
structure Resolved.Unit.Sound (unit : Resolved.Unit) (d : Declarations)
    (known : Prop → Nat → Resolved.Referents) : Prop where
  functionBase : unit.functionBase = d.functionBase
  classBase : unit.classBase = d.classBase
  classes : unit.classes = d.classes
  functionNames : unit.functionNames = d.functionNames.entries
  globals : unit.globals = d.newGlobals.toList
  size : unit.functions.size = d.functions.size
  functions : ∀ (index : Nat) (f : Resolved.Function), unit.functions[index]? = some f →
    (∃ signature, d.functions[index]? = some signature ∧ f.name = signature.name ∧
        f.arity = signature.arity) ∧
      Resolved.Stmt.WithinAll (known (maxLocals < f.arity) f.localCount) f.body
  topLevel : Resolved.Stmt.WithinAll (known False unit.topLevelLocals) unit.topLevel
  clean : ¬ Failed d.diagnostics

/-- A unit in which no error has been found is sound. -/
theorem resolve_sound {texts : List (List Item)} {env : Env} (hprogram : env.program.Indexed)
    (hclean : (resolve texts env).2.any Diagnostic.isError = false) :
    let d := Declarations.ofTexts env.program texts
    (resolve texts env).1.Sound d (Scope.Context.referents { env, declared := d }) := by
  intro d
  let ctx : Scope.Context := { env, declared := d }
  have hgrounded : ctx.Grounded := ⟨Declarations.sound_ofTexts env.program texts, hprogram⟩
  have hwalk : ∀ (texts : List (List Item)) {p : Scope.Progress} {arities : List Nat},
      p.Sound d.diagnostics ctx.referents arities →
        (texts.foldl (fun p items => Scope.Progress.addItems ctx p items) p).Sound d.diagnostics
          ctx.referents (arities ++ texts.flatMap Item.aritiesAll) := by
    intro texts
    induction texts with
    | nil => exact fun h => by simpa using h
    | cons items rest ih =>
      intro p arities h
      rw [List.foldl_cons, List.flatMap_cons, ← List.append_assoc]
      exact ih (Scope.Progress.Sound.addItems items hgrounded h)
  have hstart : Scope.Progress.Sound d.diagnostics ctx.referents
      { top := { diagnostics := d.diagnostics } } [] :=
    ⟨rfl, id, fun _ => .inr nofun, fun _ index body arity hbody => by simp at hbody,
      fun _ => trivial⟩
  have hall := hwalk texts hstart
  rw [List.nil_append, ← Declarations.ofTexts_arities env.program texts] at hall
  have hgood : ¬ Failed (texts.foldl (fun p items => Scope.Progress.addItems ctx p items)
      { top := { diagnostics := d.diagnostics } }).top.diagnostics := by
    rintro ⟨e, he, herror⟩
    have hnone := List.any_eq_false.mp hclean e (Array.mem_toList_iff.mpr he)
    exact hnone herror
  have hcount : d.functions.size = d.arities.length := by
    rw [Declarations.arities, List.length_map, Array.length_toList]
  refine ⟨rfl, rfl, rfl, rfl, rfl, ?_, fun index f hf => ?_, hall.topLevel hgood,
    fun hfailed => hgood (hall.before hfailed)⟩
  · have hsize := hall.count
    rw [← hcount] at hsize
    exact (Array.size_zipWith ..).trans (by rw [hsize]; exact Nat.min_self _)
  · obtain ⟨signature, body, hsignature, hbody, rfl⟩ := Array.getElem?_zipWith_eq_some.mp hf
    refine ⟨⟨signature, hsignature, rfl, rfl⟩, hall.bodies hgood index body _ hbody ?_⟩
    rw [Declarations.arities, List.getElem?_map, Array.getElem?_toList, hsignature]
    rfl

end ScriptHost
