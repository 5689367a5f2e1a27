import ScriptHost.Proofs.Scope.Blocks
/-!
# Lexical scope in a unit

Source texts as a list of routines: functions, methods, and for each class what its fields start
with, which is as good as assignments to the fields of `this`. In a unit without errors every
routine has a function, in the same order, and all of them and the top level are resolved by the
rule of lexical scope: `resolve_scoped`.
-/

set_option autoImplicit false

namespace ScriptHost

/-- What a function of a unit is made from. -/
structure Routine where
  params : List String
  body : List Stmt

/-- What a field starts with, as an assignment. -/
def FieldDecl.assignment (field : FieldDecl) : Option Stmt :=
  field.initial.map fun initial =>
    .assign (.field (.this field.span) field.name field.span) initial field.span

/-- The routines in a class. -/
def ClassDecl.routines (c : ClassDecl) : List Routine :=
  ⟨[], c.fields.filterMap (·.assignment)⟩ :: c.methods.map fun method =>
    ⟨method.params, method.body⟩

mutual

/-- The routines in an item. -/
def Item.routines : Item → List Routine
  | .space _ items _ => Item.routinesAll items
  | .classDecl c => c.routines
  | .function f => [⟨f.params, f.body⟩]
  | .stmt _ => []

/-- The routines in several items. -/
def Item.routinesAll : List Item → List Routine
  | [] => []
  | item :: rest => item.routines ++ Item.routinesAll rest

end

mutual

/-- The routines in an item have the parameters of its functions. -/
theorem Item.routines_arities : ∀ item : Item,
    item.routines.map (·.params.length) = item.arities
  | .space _ items _ => by rw [Item.routines, Item.arities, Item.routinesAll_arities items]
  | .classDecl c => by simp [Item.routines, Item.arities, ClassDecl.routines]
  | .function f => by simp [Item.routines, Item.arities]
  | .stmt _ => by simp [Item.routines, Item.arities]

/-- The routines in several items have the parameters of their functions. -/
theorem Item.routinesAll_arities : ∀ items : List Item,
    (Item.routinesAll items).map (·.params.length) = Item.aritiesAll items
  | [] => rfl
  | item :: rest => by
    rw [Item.routinesAll, Item.aritiesAll, List.map_append, Item.routines_arities item,
      Item.routinesAll_arities rest]

end

/-- What is listed item by item may be listed text by text. -/
theorem Item.listed_flatten {τ : Type} {listed : List Item → List τ} {part : Item → List τ}
    (hnil : listed [] = [])
    (hcons : ∀ item rest, listed (item :: rest) = part item ++ listed rest)
    (texts : List (List Item)) : listed texts.flatten = texts.flatMap listed := by
  have happend (front rest : List Item) : listed (front ++ rest) = listed front ++ listed rest := by
    induction front with
    | nil => rw [hnil, List.nil_append, List.nil_append]
    | cons item front ih => rw [List.cons_append, hcons, hcons, ih, List.append_assoc]
  induction texts with
  | nil => exact hnil
  | cons items rest ih => rw [List.flatten_cons, happend, ih, List.flatMap_cons]

theorem Item.aritiesAll_flatten (texts : List (List Item)) :
    Item.aritiesAll texts.flatten = texts.flatMap Item.aritiesAll :=
  listed_flatten rfl (fun _ _ => by rw [Item.aritiesAll]) texts

theorem Item.routinesAll_flatten (texts : List (List Item)) :
    Item.routinesAll texts.flatten = texts.flatMap Item.routinesAll :=
  listed_flatten rfl (fun _ _ => by rw [Item.routinesAll]) texts

theorem Item.statementsAll_flatten (texts : List (List Item)) :
    Item.statementsAll texts.flatten = texts.flatMap Item.statementsAll :=
  listed_flatten rfl (fun _ _ => by rw [Item.statementsAll]) texts

namespace Scope

variable {ctx : Context} {count : Nat}

theorem StmtsScoped.append {top : Bool} {vars next last : List Variable} {start : Nat}
    {front rest : List Stmt} {trees others : List Resolved.Stmt}
    {places more : List (List Variable)}
    (h : StmtsScoped count top vars start front trees places next)
    (hrest : StmtsScoped count top next (start + places.length) rest others more last) :
    StmtsScoped count top vars start (front ++ rest) (trees ++ others) (places ++ more) last := by
  induction front generalizing vars start trees places with
  | nil =>
    cases h
    exact hrest
  | cons s front ih =>
    cases h with
    | @cons _ _ middle _ _ _ _ tree trees here places first behind =>
      rw [List.length_append, ← Nat.add_assoc] at hrest
      rw [List.append_assoc]
      exact .cons first (ih behind hrest)

/-- Statements are resolved one by one. -/
theorem StmtsScoped.same_length {start : Nat} {top : Bool} {vars last : List Variable}
    {body : List Stmt} {trees : List Resolved.Stmt} {places : List (List Variable)}
    (h : StmtsScoped count top vars start body trees places last) :
    trees.length = body.length := by
  induction body generalizing vars start trees places with
  | nil =>
    cases h
    rfl
  | cons s rest ih =>
    cases h with
    | cons first behind => rw [List.length_cons, List.length_cons, ih behind]

/-- A routine has been resolved to trees that need so many slots. The parameters must not be more
than there can be slots. -/
def RoutineScoped (r : Routine) (trees : List Resolved.Stmt) (slots : Nat) : Prop :=
  r.params.length ≤ maxLocals → r.params.length ≤ slots ∧
    ∃ places last,
      StmtsScoped slots false (Variable.ofParams r.params) 0 r.body trees places last

namespace Progress

/-- The walk through a unit has met these routines and these statements. As long as it has found no
error, it has resolved them by the rule of lexical scope, and no scope is open. -/
structure Scoped (routines : List Routine) (statements : List Stmt) (p : Progress) : Prop where
  count : p.bodies.size = routines.length
  bodies : ¬ Failed p.top.diagnostics → ∀ (index : Nat) (body : List Resolved.Stmt × Nat)
    (r : Routine), p.bodies[index]? = some body → routines[index]? = some r →
      RoutineScoped r body.1 body.2
  closed : ¬ Failed p.top.diagnostics → Holds [] p.top
  topLevel : ¬ Failed p.top.diagnostics → ∀ count, p.top.maxSlot ≤ count →
    ∃ places, StmtsScoped count true [] 0 statements p.topLevel.toList places []

variable {routines : List Routine} {statements : List Stmt} {p : Progress}

theorem Scoped.addBody (h : p.Scoped routines statements) (r : Routine)
    {walk : Resolver (List Resolved.Stmt)} (hwalk : Resolver.Sound True walk fun _ _ => True)
    (hscoped : ∀ {trees : List Resolved.Stmt} {after : Body},
      walk (.ofParams r.params p.top.diagnostics) = .ok trees after →
        ¬ Failed after.diagnostics → RoutineScoped r trees after.maxSlot) :
    (p.addBody r.params walk).Scoped (routines ++ [r]) statements := by
  have hcount : p.bodies.size + 1 = (routines ++ [r]).length := by
    rw [h.count, List.length_append]
    rfl
  unfold Progress.addBody
  dsimp only
  cases hresult : walk (.ofParams r.params p.top.diagnostics) with
  | error e body =>
    have hfailed : Failed (body.diagnostics.push e) := failed_push (hwalk.error hresult)
    exact ⟨(Array.size_push ..).trans hcount, fun hgood => absurd hfailed hgood,
      fun hgood => absurd hfailed hgood, fun hgood => absurd hfailed hgood⟩
  | ok stmts body =>
    have hbefore : ¬ Failed body.diagnostics → ¬ Failed p.top.diagnostics :=
      fun hgood hfailed => hgood ((hwalk.ok hresult).leads.failed hfailed)
    refine ⟨(Array.size_push ..).trans hcount, fun hgood => ?_,
      fun hgood => (h.closed (hbefore hgood)).diagnostics _,
      fun hgood => h.topLevel (hbefore hgood)⟩
    intro index other r' hother hr'
    rw [Array.getElem?_push] at hother
    split at hother
    · rename_i hlast
      rw [hlast, h.count, List.getElem?_concat_length, Option.some.injEq] at hr'
      rw [Option.some.injEq] at hother
      exact hr' ▸ hother ▸ hscoped hresult hgood
    · have hinside := (Array.getElem?_eq_some_iff.mp hother).1
      rw [List.getElem?_append_left (h.count ▸ hinside)] at hr'
      exact h.bodies (hbefore hgood) index other r' hother hr'

/-- The body of a function or method starts with its parameters in scope. -/
theorem Scoped.addFunction (h : p.Scoped routines statements) (ctx : Context) (f : FunctionDecl) :
    (p.addFunction ctx f).Scoped (routines ++ [⟨f.params, f.body⟩]) statements := by
  refine h.addBody ⟨f.params, f.body⟩ ?_ ?_
  · refine (resolveStmts_resolves f.body .live []).bind fun _ =>
      (Resolver.Sound.modify fun body => body.leads_leave _).bind fun _ => ?_
    exact .pure fun _ _ _ => trivial
  · intro trees after hok hgood hparams
    simp only [bind_eq_ok, modify_eq_ok, pure_eq_ok] at hok
    obtain ⟨found, inside, hbody, -, _, rfl, rfl, rfl⟩ := hok
    have hwalk := resolveStmts_leads hbody
    have hleads : inside.Leads True (inside.leave ctx.env.warningLevel) :=
      inside.leads_leave ctx.env.warningLevel
    have hgood' : ¬ Failed inside.diagnostics := fun hfailed => hgood (hleads.failed hfailed)
    obtain ⟨made, places, next, rfl, hscoped, -, -⟩ := resolveStmts_scoped f.body hbody hgood'
      (hleads.maxSlot hgood) (Holds.ofParams hparams _) 0
    refine ⟨?_, places, next.flatten, by simpa using hscoped⟩
    show f.params.length ≤ (inside.leave ctx.env.warningLevel).maxSlot
    have hslots := Nat.le_trans (hwalk.maxSlot hgood') (hleads.maxSlot hgood)
    rwa [Body.ofParams, Nat.min_eq_left hparams] at hslots

theorem fieldAssignment_scoped {field : FieldDecl} {found : Option Resolved.Stmt}
    {before after : Body} {frames : List (List Variable)}
    (h : fieldAssignment ctx field before = .ok found after) (hgood : ¬ Failed after.diagnostics)
    (hbefore : Holds frames before) (start : Nat) :
    Holds frames after ∧ ∃ places, StmtsScoped count false frames.flatten start
      field.assignment.toList found.toList places frames.flatten := by
  unfold fieldAssignment at h
  unfold FieldDecl.assignment
  cases hinitial : field.initial with
  | none =>
    simp only [hinitial] at h
    obtain ⟨rfl, rfl⟩ := pure_eq_ok.mp h
    exact ⟨hbefore, _, .nil⟩
  | some initial =>
    simp only [hinitial] at h
    have hreads : Reads (do
        let value ← resolveExpr ctx initial
        return Resolved.Stmt.setField .loadThis field.name value)
        fun vars tree => ∃ value, tree = .setField .loadThis field.name value ∧
          Binds vars initial value :=
      (resolveExpr_binds initial).bind fun value => .pure fun _ hvalue => ⟨value, rfl, hvalue⟩
    have hsound : Resolver.Sound True (do
        let value ← resolveExpr ctx initial
        return Resolved.Stmt.setField .loadThis field.name value) fun _ _ => True :=
      (resolveExpr_resolves initial).bind fun _ => .pure fun _ _ => trivial
    obtain ⟨tree, rfl, htree⟩ := recover_ok hsound h hgood
    obtain ⟨hafter, value, rfl, hvalue⟩ := hreads.ok htree hbefore
    exact ⟨hafter, _, .cons (.assignField .this hvalue) .nil⟩

theorem fields_scoped {fields : List FieldDecl} {found : List (Option Resolved.Stmt)}
    {before after : Body} {frames : List (List Variable)}
    (h : fields.mapM (fieldAssignment ctx) before = .ok found after)
    (hgood : ¬ Failed after.diagnostics) (hbefore : Holds frames before) (start : Nat) :
    ∃ places, StmtsScoped count false frames.flatten start (fields.filterMap (·.assignment))
      (found.filterMap id) places frames.flatten := by
  induction fields generalizing found before start with
  | nil =>
    rw [List.mapM_nil] at h
    obtain ⟨rfl, rfl⟩ := pure_eq_ok.mp h
    exact ⟨_, .nil⟩
  | cons field rest ih =>
    rw [List.mapM_cons] at h
    simp only [bind_eq_ok, pure_eq_ok] at h
    obtain ⟨first, middle, hfirst, others, _, hothers, rfl, rfl⟩ := h
    have hsound : Resolver.Sound True (rest.mapM (fieldAssignment ctx)) fun _ _ => True :=
      (mapM_sound rest fun field _ =>
        (@fieldAssignment_resolves ctx field).imp fun _ _ _ => trivial).imp fun _ _ _ => trivial
    obtain ⟨hmiddle, places, hscoped⟩ := fieldAssignment_scoped hfirst
      (fun hfailed => hgood ((hsound.ok hothers).leads.failed hfailed)) hbefore start
    obtain ⟨more, hrest⟩ := ih hothers hmiddle (start + places.length)
    refine ⟨places ++ more, ?_⟩
    have hall := hscoped.append hrest
    cases hassignment : field.assignment <;> cases first <;>
      simpa [hassignment] using hall

theorem Scoped.addClass (h : p.Scoped routines statements) (outer : Context) (c : ClassDecl) :
    (p.addClass outer c).Scoped (routines ++ c.routines) statements := by
  unfold Progress.addClass
  dsimp only
  generalize ({ outer with
    member := some (outer.declared.classBase + p.classes), inFunction := true } : Context) = inner
  have hcounted : Scoped routines statements { p with classes := p.classes + 1 } :=
    ⟨h.count, h.bodies, h.closed, h.topLevel⟩
  have hfields := hcounted.addBody ⟨[], c.fields.filterMap (·.assignment)⟩
    ((@fields_resolve inner c.fields).imp fun _ _ _ => trivial) (by
      intro trees after hok hgood hparams
      simp only [bind_eq_ok, pure_eq_ok] at hok
      obtain ⟨found, _, hfound, rfl, rfl⟩ := hok
      obtain ⟨places, hscoped⟩ := fields_scoped hfound hgood (Holds.ofParams hparams _) 0
      exact ⟨Nat.zero_le _, places, _, hscoped⟩)
  have hall := Progress.foldl_addFunction (fun p routines => p.Scoped routines statements)
    (fun method => [⟨method.params, method.body⟩]) (fun h method => h.addFunction inner method)
    c.methods hfields
  rw [← List.map_eq_flatMap, List.append_assoc] at hall
  exact hall

/-- A statement of the top level opens no scope that is not closed again. -/
theorem Scoped.addStmt (h : p.Scoped routines statements) (outer : Context) (s : Stmt) :
    (p.addStmt outer s).Scoped routines (statements ++ [s]) := by
  have hadds := p.addsStmt outer s
  generalize p.addStmt outer s = q at hadds ⊢
  cases hadds with
  | refused hfailed =>
    exact ⟨h.count, fun hgood => absurd hfailed hgood, fun hgood => absurd hfailed hgood,
      fun hgood => absurd hfailed hgood⟩
  | @added tree top _ hresult hleads =>
    have hbefore : ¬ Failed top.diagnostics → ¬ Failed p.top.diagnostics := mt hleads.failed
    have hone (hgood : ¬ Failed top.diagnostics) {count : Nat} (hcount : top.maxSlot ≤ count)
        (start : Nat) : Holds [] top ∧
          ∃ places, StmtScoped count true [] start s tree places [] := by
      obtain ⟨places, next, hscoped, hafter, hgrown⟩ :=
        resolveStmt_scoped s hresult hgood hcount (h.closed (hbefore hgood)) start
      obtain rfl := List.isEmpty_iff.mp hgrown.isEmpty
      exact ⟨hafter, places, hscoped⟩
    refine ⟨h.count, fun hgood => h.bodies (hbefore hgood),
      fun hgood => (hone hgood (Nat.le_refl _) 0).1, fun hgood count hcount => ?_⟩
    obtain ⟨places, hfront⟩ := h.topLevel (hbefore hgood) count
      (Nat.le_trans (hleads.maxSlot hgood) hcount)
    obtain ⟨-, more, hlast⟩ := hone hgood hcount (0 + places.length)
    rw [Array.toList_push]
    exact ⟨_, hfront.append (.cons hlast .nil)⟩

mutual

/-- An item adds its routines and statements. -/
theorem Scoped.addItem : ∀ (item : Item) (outer : Context) {routines : List Routine}
    {statements : List Stmt} {p : Progress}, p.Scoped routines statements →
      (Progress.addItem outer p item).Scoped (routines ++ item.routines)
        (statements ++ item.statements)
  | .space path items _, outer, _, _, _, h => by
    rw [Progress.addItem, Item.routines, Item.statements]
    exact Scoped.addItems items _ h
  | .classDecl c, outer, _, _, _, h => by
    rw [Progress.addItem, Item.routines, Item.statements, List.append_nil]
    exact h.addClass outer c
  | .function f, outer, _, _, _, h => by
    rw [Progress.addItem, Item.routines, Item.statements, List.append_nil]
    exact h.addFunction outer f
  | .stmt s, outer, _, _, _, h => by
    rw [Progress.addItem, Item.routines, Item.statements, List.append_nil]
    exact h.addStmt outer s

/-- Several items add their routines and statements. -/
theorem Scoped.addItems : ∀ (items : List Item) (outer : Context) {routines : List Routine}
    {statements : List Stmt} {p : Progress}, p.Scoped routines statements →
      (Progress.addItems outer p items).Scoped (routines ++ Item.routinesAll items)
        (statements ++ Item.statementsAll items)
  | [], outer, _, _, _, h => by
    rw [Progress.addItems, Item.routinesAll, Item.statementsAll, List.append_nil, List.append_nil]
    exact h
  | item :: rest, outer, _, _, _, h => by
    rw [Progress.addItems, Item.routinesAll, Item.statementsAll, ← List.append_assoc,
      ← List.append_assoc]
    exact Scoped.addItems rest outer (Scoped.addItem item outer h)

end

/-- The walk through source texts meets all of their routines and statements. -/
theorem Scoped.ofTexts (texts : List (List Item)) (ctx : Context) (diagnostics : Array Diagnostic) :
    (texts.foldl (fun p items => Progress.addItems ctx p items) { top := { diagnostics } }).Scoped
      (Item.routinesAll texts.flatten) (Item.statementsAll texts.flatten) := by
  have hstart : Progress.Scoped [] [] { top := { diagnostics } } :=
    ⟨rfl, fun _ index body r hbody => by simp at hbody, fun _ => ⟨rfl, rfl, Nat.zero_le _⟩,
      fun _ _ _ => ⟨[], .nil⟩⟩
  rw [foldl_addItems]
  exact Scoped.addItems texts.flatten ctx hstart

end Progress

end Scope

/-- A unit without errors has a function for each routine of its texts, with as many parameters.
Routines and top level are resolved by the rule of lexical scope. -/
theorem resolve_scoped {texts : List (List Item)} {env : Env}
    (hclean : (resolve texts env).2.any Diagnostic.isError = false) :
    (∀ (index : Nat) (r : Routine), (Item.routinesAll texts.flatten)[index]? = some r →
        ∃ f, (resolve texts env).1.functions[index]? = some f ∧ f.arity = r.params.length ∧
          Scope.RoutineScoped r f.body f.localCount) ∧
      ∃ places, Scope.StmtsScoped (resolve texts env).1.topLevelLocals true [] 0
        (Item.statementsAll texts.flatten) (resolve texts env).1.topLevel places [] := by
  let d := Declarations.ofTexts env.program texts
  let ctx : Scope.Context := { env, declared := d }
  have hall := Scope.Progress.Scoped.ofTexts texts ctx d.diagnostics
  have hgood : ¬ Failed (texts.foldl (fun p items => Scope.Progress.addItems ctx p items)
      { top := { diagnostics := d.diagnostics } }).top.diagnostics := by
    rintro ⟨e, he, herror⟩
    exact List.any_eq_false.mp hclean e (Array.mem_toList_iff.mpr he) herror
  have harities : d.functions.toList.map (·.arity) =
      (Item.routinesAll texts.flatten).map (·.params.length) := by
    rw [Item.routinesAll_arities, Item.aritiesAll_flatten]
    exact Declarations.ofTexts_arities env.program texts
  refine ⟨fun index r hr => ?_, hall.topLevel hgood _ (Nat.le_refl _)⟩
  have hbound := (List.getElem?_eq_some_iff.mp hr).1
  have hsize : d.functions.size = (Item.routinesAll texts.flatten).length := by
    simpa using congrArg List.length harities
  have hbody := Array.getElem?_eq_getElem (Nat.lt_of_lt_of_eq hbound hall.count.symm)
  have hsignature := Array.getElem?_eq_getElem (Nat.lt_of_lt_of_eq hbound hsize.symm)
  refine ⟨_, Array.getElem?_zipWith_eq_some.mpr ⟨_, _, hsignature, hbody, rfl⟩, ?_,
    hall.bodies hgood index _ r hbody hr⟩
  have harity := congrArg (·[index]?) harities
  simp only [List.getElem?_map, Array.getElem?_toList, hsignature, hr, Option.map_some] at harity
  exact Option.some.inj harity

end ScriptHost
