import ScriptHost.Proofs.Scope.Listed
import ScriptHost.Proofs.Scope.Marks
import ScriptHost.Proofs.Scope.Routines
/-!
# Names that are declared twice

Which names must be different in a unit without errors. What the unit declares is compared in the
first pass, and what a block declares when the block is walked through. The parameters of a function
are compared with the variables of its body, but never with each other: `resolve_distinct`.
-/

set_option autoImplicit false

namespace ScriptHost

/-- The name that a statement declares in the scope it stands in. -/
def Stmt.declares : Stmt → List String
  | .letVar name _ _ => [name]
  | _ => []

mutual

/-- In every block inside a statement, the names declared in its scope are different. -/
def Stmt.BlocksDistinct : Stmt → Prop
  | .ifThen _ body _ => (body.flatMap Stmt.declares).Nodup ∧ Stmt.BlocksDistinctAll body
  | .ifElse _ body alternative _ =>
    ((body.flatMap Stmt.declares).Nodup ∧ Stmt.BlocksDistinctAll body) ∧
      (alternative.flatMap Stmt.declares).Nodup ∧ Stmt.BlocksDistinctAll alternative
  | .loop _ body _ => (body.flatMap Stmt.declares).Nodup ∧ Stmt.BlocksDistinctAll body
  | .block body _ => (body.flatMap Stmt.declares).Nodup ∧ Stmt.BlocksDistinctAll body
  | .letVar .. | .assign .. | .ret .. | .expr _ => True

/-- In every block inside several statements, the names declared in its scope are different. -/
def Stmt.BlocksDistinctAll : List Stmt → Prop
  | [] => True
  | s :: rest => s.BlocksDistinct ∧ Stmt.BlocksDistinctAll rest

end

theorem Stmt.blocksDistinctAll_iff {body : List Stmt} :
    Stmt.BlocksDistinctAll body ↔ ∀ s ∈ body, s.BlocksDistinct := by
  induction body with
  | nil => simp [Stmt.BlocksDistinctAll]
  | cons s rest ih => simp [Stmt.BlocksDistinctAll, ih]

/-- The variables of a body have names of their own in each of its scopes, and the outermost ones
are not named like a parameter. -/
structure Routine.Separate (r : Routine) : Prop where
  outermost : (r.body.flatMap Stmt.declares).Nodup
  params : r.params.Disjoint (r.body.flatMap Stmt.declares)
  blocks : Stmt.BlocksDistinctAll r.body

/-- The names declared directly in each scope of a body are different, those of its parameters among
them. -/
def Routine.Distinct (r : Routine) : Prop :=
  (r.params ++ r.body.flatMap Stmt.declares).Nodup ∧ Stmt.BlocksDistinctAll r.body

theorem Routine.Separate.distinct_iff {r : Routine} (h : r.Separate) :
    r.Distinct ↔ r.params.Nodup := by
  rw [Routine.Distinct, List.nodup_append', and_iff_left h.blocks]
  exact and_iff_left ⟨h.outermost, h.params⟩

namespace Body

/-- The names in scope, innermost scope first and newest name first. -/
def names (body : Body) : List (List String) :=
  body.scopes.map (·.map (·.name))

theorem names_markFirst (name : String) (scope : List Local) :
    (markFirst name scope).map (·.name) = scope.map (·.name) := by
  induction scope with
  | nil => rfl
  | cons l rest ih =>
    rw [markFirst]
    split
    · rfl
    · rw [List.map_cons, ih, List.map_cons]

theorem names_markIn (name : String) (scopes : List (List Local)) :
    (markIn name scopes).map (·.map (·.name)) = scopes.map (·.map (·.name)) := by
  induction scopes with
  | nil => rfl
  | cons scope rest ih =>
    rw [markIn]
    split
    · rw [List.map_cons, names_markFirst, List.map_cons]
    · rw [List.map_cons, ih, List.map_cons]

/-- To use variables brings no name into scope. -/
theorem Marked.names {before after : Body} (h : before.Marked after) :
    after.names = before.names :=
  h.induction (motive := fun body => body.names = before.names) rfl
    fun body name hbody => (names_markIn name body.scopes).trans hbody

theorem names_enter (body : Body) : body.enter.names = [] :: body.names :=
  rfl

theorem names_warn (body : Body) (level : Nat) (warning : ScopeWarning) (span : Span) :
    (body.warn level warning span).names = body.names := by
  unfold warn
  split <;> rfl

theorem names_leave (body : Body) (level : Nat) : (body.leave level).names = body.names.tail := by
  rw [leave_eq, names]
  cases hscopes : body.scopes with
  | nil => simp [names, hscopes]
  | cons scope rest => simp [names, hscopes]

theorem names_ofParams (params : List String) (diagnostics : Array Diagnostic) :
    (ofParams params diagnostics).names = [params.reverse] := by
  simp [names, ofParams, List.mapIdx_eq_zipIdx_map, Function.comp_def]

end Body

namespace Scope

/-- The names in scope once some more have been declared, one after the other. -/
def declare (names : List String) : List (List String) → List (List String)
  | [] => []
  | scope :: rest => (names.reverse ++ scope) :: rest

/-- Names that can be declared in the innermost scope, one after the other. -/
def Fresh (names : List String) : List (List String) → Prop
  | [] => True
  | scope :: _ => names.Nodup ∧ scope.Disjoint names

theorem declare_nil (frames : List (List String)) : declare [] frames = frames := by
  cases frames <;> rfl

theorem fresh_nil (frames : List (List String)) : Fresh [] frames := by
  cases frames <;> simp [Fresh]

theorem declare_append (front rest : List String) (frames : List (List String)) :
    declare (front ++ rest) frames = declare rest (declare front frames) := by
  cases frames <;> simp [declare]

theorem fresh_append {front rest : List String} {frames : List (List String)}
    (h : Fresh front frames) (hrest : Fresh rest (declare front frames)) :
    Fresh (front ++ rest) frames := by
  cases frames with
  | nil => trivial
  | cons scope outer =>
    obtain ⟨hfront, hscope⟩ := h
    obtain ⟨hnodup, hdisjoint⟩ := hrest
    rw [List.disjoint_append_left] at hdisjoint
    refine ⟨List.nodup_append'.mpr ⟨hfront, hnodup, ?_⟩, ?_⟩
    · exact List.disjoint_reverse_left.mp hdisjoint.1
    · exact List.disjoint_append_right.mpr ⟨hscope, hdisjoint.2⟩

variable {ctx : Context}

/-- A name that is declared is new to the innermost scope. -/
theorem declareLocal_fresh {name : String} {span : Span} {before after : Body} {slot : Nat}
    (h : Resolver.declareLocal name span before = .ok slot after) :
    Fresh [name] before.names ∧ after.names = declare [name] before.names := by
  rw [Resolver.declareLocal, Resolver.get_bind] at h
  cases hscopes : before.scopes with
  | nil =>
    rw [hscopes] at h
    cases h
  | cons scope rest =>
    simp only [hscopes] at h
    split at h
    · cases h
    · rename_i hnew
      split at h
      · cases h
        have hfresh : name ∉ scope.map (·.name) := by
          rintro hname
          obtain ⟨l, hl, rfl⟩ := List.mem_map.mp hname
          exact hnew (List.any_eq_true.mpr ⟨l, hl, beq_self_eq_true l.name⟩)
        simp only [Body.names, hscopes, List.map_cons, Fresh, declare]
        exact ⟨⟨List.nodup_singleton name, List.disjoint_singleton.mpr hfresh⟩, rfl⟩
      · cases h

/-- Without an error, statements declare names that are new to the innermost scope, and in each
block inside them the names are different. -/
def Separates (ctx : Context) (body : List Stmt) : Prop :=
  ∀ {reach : Reach} {found trees : List Resolved.Stmt} {before after : Body},
    resolveStmts ctx reach found body before = .ok trees after → ¬ Failed after.diagnostics →
      Stmt.BlocksDistinctAll body ∧ Fresh (body.flatMap Stmt.declares) before.names ∧
        after.names = declare (body.flatMap Stmt.declares) before.names

/-- A block declares names that are different, and none outside. -/
theorem Separates.block {body : List Stmt} (h : Separates ctx body) {trees : List Resolved.Stmt}
    {before inside : Body} {level : Nat}
    (hok : resolveStmts ctx .live [] body before.enter = .ok trees inside)
    (hgood : ¬ Failed (inside.leave level).diagnostics) :
    ((body.flatMap Stmt.declares).Nodup ∧ Stmt.BlocksDistinctAll body) ∧
      (inside.leave level).names = before.names := by
  have hleads : inside.Leads True (inside.leave level) := inside.leads_leave level
  obtain ⟨hblocks, hfresh, hnames⟩ := h hok fun hfailed => hgood (hleads.failed hfailed)
  rw [Body.names_enter] at hfresh hnames
  refine ⟨⟨hfresh.1, hblocks⟩, ?_⟩
  rw [Body.names_leave, hnames]
  rfl

/-- A statement that declares nothing. -/
theorem declares_nothing {s : Stmt} {before after : Body} (h : s.declares = [])
    (hnames : after.names = before.names) :
    Fresh s.declares before.names ∧ after.names = declare s.declares before.names := by
  rw [h, declare_nil]
  exact ⟨fresh_nil _, hnames⟩

/-- To look at what is in scope declares nothing. -/
theorem names_of_looks {α : Type} {step : Resolver α} {a : α} {before after : Body}
    (hlooks : Resolver.Looks (fun _ => True) step) (h : step before = .ok a after) :
    after.names = before.names :=
  (hlooks.ok h).names

theorem names_resolveExpr {e : Expr} {tree : Resolved.Expr} {before after : Body}
    (h : resolveExpr ctx e before = .ok tree after) : after.names = before.names :=
  names_of_looks (resolveExpr_looks fun _ _ => trivial) h

mutual

/-- Without an error, a statement declares a name that is new to the innermost scope, and in each
block inside it the names are different. -/
theorem resolveStmt_separates : ∀ (s : Stmt) {tree : Resolved.Stmt} {before after : Body},
    resolveStmt ctx s before = .ok tree after → ¬ Failed after.diagnostics →
      s.BlocksDistinct ∧ Fresh s.declares before.names ∧
        after.names = declare s.declares before.names
  | .letVar name value span, tree, before, after, h, hgood => by
    simp only [resolveStmt, bind_eq_ok] at h
    obtain ⟨v, middle, hv, body, _, hget, h⟩ := h
    obtain ⟨rfl, rfl⟩ := get_eq_ok.mp hget
    have hmiddle := names_resolveExpr hv
    rw [Stmt.BlocksDistinct, Stmt.declares, ← hmiddle]
    refine ⟨trivial, ?_⟩
    split at h
    · rename_i htop
      have hnone : middle.names = [] := by rw [Body.names, List.isEmpty_iff.mp htop, List.map_nil]
      cases hglobal : ctx.global? name with
      | some id =>
        simp only [hglobal] at h
        obtain ⟨rfl, rfl⟩ := pure_eq_ok.mp h
        rw [hnone]
        exact ⟨trivial, rfl⟩
      | none =>
        simp only [hglobal] at h
        cases h
    · obtain ⟨slot, _, hslot, h⟩ := bind_eq_ok.mp h
      obtain ⟨rfl, rfl⟩ := pure_eq_ok.mp h
      exact declareLocal_fresh hslot
  | .assign target value span, _, before, _, h, _ => by
    rw [resolveStmt] at h
    have hlooks : Resolver.Looks (fun _ => True) (resolveAssign ctx target value span) :=
      resolveAssign_looks trivial (fun _ _ => trivial) fun _ _ => trivial
    exact ⟨trivial, declares_nothing rfl (names_of_looks hlooks h)⟩
  | .ifThen condition body span, _, before, _, h, hgood => by
    simp only [resolveStmt, bind_eq_ok, modify_eq_ok, pure_eq_ok] at h
    obtain ⟨test, _, htest, -, _, rfl, trees, _, hbody, -, _, rfl, rfl, rfl⟩ := h
    obtain ⟨hblock, hnames⟩ := Separates.block (resolveStmts_separates body) hbody hgood
    exact ⟨hblock, declares_nothing rfl (hnames.trans (names_resolveExpr htest))⟩
  | .ifElse condition body alternative span, _, before, _, h, hgood => by
    simp only [resolveStmt, bind_eq_ok, modify_eq_ok, pure_eq_ok] at h
    obtain ⟨test, _, htest, -, _, rfl, trees, inside, hbody, -, _, rfl, -, _, rfl, others, inside',
      halternative, -, _, rfl, rfl, rfl⟩ := h
    have hleads := (resolveStmts_leads halternative).trans
      (inside'.leads_leave ctx.env.warningLevel)
    obtain ⟨hblock, hnames⟩ := Separates.block (resolveStmts_separates body) hbody
      fun hfailed => hgood (hleads.failed hfailed)
    obtain ⟨hblock', hnames'⟩ :=
      Separates.block (resolveStmts_separates alternative) halternative hgood
    exact ⟨⟨hblock, hblock'⟩,
      declares_nothing rfl ((hnames'.trans hnames).trans (names_resolveExpr htest))⟩
  | .loop condition body span, _, before, _, h, hgood => by
    simp only [resolveStmt, bind_eq_ok, modify_eq_ok, pure_eq_ok] at h
    obtain ⟨test, _, htest, -, _, rfl, trees, _, hbody, -, _, rfl, rfl, rfl⟩ := h
    obtain ⟨hblock, hnames⟩ := Separates.block (resolveStmts_separates body) hbody hgood
    exact ⟨hblock, declares_nothing rfl (hnames.trans (names_resolveExpr htest))⟩
  | .ret value span, _, before, _, h, _ => by
    refine ⟨trivial, declares_nothing rfl ?_⟩
    cases value with
    | none =>
      rw [resolveStmt] at h
      split at h
      · obtain ⟨rfl, rfl⟩ := pure_eq_ok.mp h
        rfl
      · cases h
    | some value =>
      rw [resolveStmt] at h
      split at h
      · obtain ⟨v, _, hv, h⟩ := bind_eq_ok.mp h
        obtain ⟨rfl, rfl⟩ := pure_eq_ok.mp h
        exact names_resolveExpr hv
      · cases h
  | .block body span, _, before, _, h, hgood => by
    simp only [resolveStmt, bind_eq_ok, modify_eq_ok, pure_eq_ok] at h
    obtain ⟨-, _, rfl, trees, _, hbody, -, _, rfl, rfl, rfl⟩ := h
    obtain ⟨hblock, hnames⟩ := Separates.block (resolveStmts_separates body) hbody hgood
    exact ⟨hblock, declares_nothing rfl hnames⟩
  | .expr value, _, before, _, h, _ => by
    simp only [resolveStmt, bind_eq_ok, pure_eq_ok] at h
    obtain ⟨v, _, hv, rfl, rfl⟩ := h
    exact ⟨trivial, declares_nothing rfl (names_resolveExpr hv)⟩

/-- So it is with several statements. -/
theorem resolveStmts_separates : ∀ body : List Stmt, Separates ctx body
  | [], reach, found, trees, before, after, h, _ => by
    rw [resolveStmts] at h
    obtain ⟨rfl, rfl⟩ := pure_eq_ok.mp h
    rw [List.flatMap_nil, declare_nil]
    exact ⟨trivial, fresh_nil _, rfl⟩
  | s :: rest, reach, found, trees, before, after, h, hgood => by
    have hwarned : (reach.warned ctx.env.warningLevel s before).names = before.names := by
      unfold Reach.warned
      split
      · exact Body.names_warn ..
      · rfl
    obtain ⟨tree, middle, htree, hgood', hothers⟩ := resolveStmts_cons h hgood
    obtain ⟨hblocks, hfresh, hmiddle⟩ := resolveStmt_separates s htree hgood'
    obtain ⟨hblocks', hfresh', hafter⟩ := resolveStmts_separates rest hothers hgood
    rw [hmiddle, hwarned] at hfresh' hafter
    rw [hwarned] at hfresh
    rw [List.flatMap_cons, declare_append]
    exact ⟨⟨hblocks, hblocks'⟩, fresh_append hfresh hfresh', hafter⟩

end

namespace Progress

/-- The walk through a unit has met these routines and statements, where all that is declared in
the items is this. As long as no error is known, the variables of the routines are separate, the
statements that declare anything declare global variables, and blocks in them declare different
names. What the walk started with is not forgotten. -/
structure Separates (first : Array Diagnostic) (ds : List Declaration) (routines : List Routine)
    (statements : List Stmt) (p : Progress) : Prop where
  failed : Failed first → Failed p.top.diagnostics
  globals : ¬ Failed p.top.diagnostics →
    ds.filterMap Declaration.globalName? = statements.flatMap Stmt.declares
  routines : ¬ Failed p.top.diagnostics → ∀ r ∈ routines, r.Separate
  blocks : ¬ Failed p.top.diagnostics → Stmt.BlocksDistinctAll statements

variable {first : Array Diagnostic} {ds : List Declaration} {routines : List Routine}
  {statements : List Stmt} {p : Progress}

theorem Separates.addBody (h : p.Separates first ds routines statements) (r : Routine)
    {walk : Resolver (List Resolved.Stmt)} (hwalk : Resolver.Sound True walk fun _ _ => True)
    (hseparate : ∀ {trees : List Resolved.Stmt} {after : Body},
      walk (.ofParams r.params p.top.diagnostics) = .ok trees after →
        ¬ Failed after.diagnostics → r.Separate) :
    (p.addBody r.params walk).Separates first ds (routines ++ [r]) statements := by
  unfold Progress.addBody
  dsimp only
  cases hresult : walk (.ofParams r.params p.top.diagnostics) with
  | error e body =>
    have hfailed : Failed (body.diagnostics.push e) := failed_push (hwalk.error hresult)
    exact ⟨fun _ => hfailed, fun hgood => absurd hfailed hgood, fun hgood => absurd hfailed hgood,
      fun hgood => absurd hfailed hgood⟩
  | ok trees body =>
    have hleads : Failed p.top.diagnostics → Failed body.diagnostics :=
      (hwalk.ok hresult).leads.failed
    refine ⟨fun hfirst => hleads (h.failed hfirst), fun hgood => h.globals (mt hleads hgood),
      fun hgood => ?_, fun hgood => h.blocks (mt hleads hgood)⟩
    rw [List.forall_mem_append]
    exact ⟨h.routines (mt hleads hgood), List.forall_mem_singleton.mpr (hseparate hresult hgood)⟩

/-- The variables of a function are compared with its parameters. -/
theorem Separates.addFunction (h : p.Separates first ds routines statements) (ctx : Context)
    (f : FunctionDecl) :
    (p.addFunction ctx f).Separates first ds (routines ++ [⟨f.params, f.body⟩]) statements := by
  refine h.addBody ⟨f.params, f.body⟩ ?_ ?_
  · refine (resolveStmts_resolves f.body .live []).bind fun _ =>
      (Resolver.Sound.modify fun body => body.leads_leave _).bind fun _ => ?_
    exact .pure fun _ _ _ => trivial
  · intro trees after hok hgood
    simp only [bind_eq_ok, modify_eq_ok, pure_eq_ok] at hok
    obtain ⟨found, inside, hbody, -, _, rfl, rfl, rfl⟩ := hok
    have hleads : inside.Leads True (inside.leave ctx.env.warningLevel) :=
      inside.leads_leave ctx.env.warningLevel
    obtain ⟨hblocks, hfresh, -⟩ :=
      resolveStmts_separates f.body hbody fun hfailed => hgood (hleads.failed hfailed)
    rw [Body.names_ofParams] at hfresh
    exact ⟨hfresh.1, List.disjoint_reverse_left.mp hfresh.2, hblocks⟩

/-- What fields start with declares no variable. -/
theorem separate_fields (fields : List FieldDecl) :
    Routine.Separate ⟨[], fields.filterMap (·.assignment)⟩ := by
  have hassigns : ∀ s ∈ fields.filterMap (·.assignment), s.declares = [] ∧ s.BlocksDistinct := by
    intro s hs
    obtain ⟨field, -, hfield⟩ := List.mem_filterMap.mp hs
    obtain ⟨initial, -, rfl⟩ := Option.map_eq_some_iff.mp hfield
    exact ⟨rfl, trivial⟩
  have hnames : (fields.filterMap (·.assignment)).flatMap Stmt.declares = [] :=
    List.flatMap_eq_nil_iff.mpr fun s hs => (hassigns s hs).1
  refine ⟨hnames ▸ List.nodup_nil, List.disjoint_nil_left _, ?_⟩
  exact Stmt.blocksDistinctAll_iff.mpr fun s hs => (hassigns s hs).2

theorem Separates.addClass (h : p.Separates first ds routines statements) (outer : Context)
    (c : ClassDecl) :
    (p.addClass outer c).Separates first ds (routines ++ c.routines) statements := by
  unfold Progress.addClass
  dsimp only
  generalize ({ outer with
    member := some (outer.declared.classBase + p.classes), inFunction := true } : Context) = inner
  have hcounted : Separates first ds routines statements { p with classes := p.classes + 1 } :=
    ⟨h.failed, h.globals, h.routines, h.blocks⟩
  have hfields := hcounted.addBody ⟨[], c.fields.filterMap (·.assignment)⟩
    ((@fields_resolve inner c.fields).imp fun _ _ _ => trivial)
    fun _ _ => separate_fields c.fields
  have hall := Progress.foldl_addFunction
    (fun p routines => p.Separates first ds routines statements)
    (fun method => [⟨method.params, method.body⟩]) (fun h method => h.addFunction inner method)
    c.methods hfields
  rw [← List.map_eq_flatMap, List.append_assoc] at hall
  exact hall

/-- A statement that stands in no body may declare a global variable, but not in a namespace. -/
theorem Separates.addStmt (h : p.Separates first ds routines statements) (outer : Context)
    (s : Stmt) :
    (p.addStmt outer s).Separates first (ds ++ (Item.stmt s).declarations outer.space) routines
      (statements ++ [s]) := by
  have hadds := p.addsStmt outer s
  generalize p.addStmt outer s = q at hadds ⊢
  cases hadds with
  | refused hfailed =>
    exact ⟨fun _ => hfailed, fun hgood => absurd hfailed hgood, fun hgood => absurd hfailed hgood,
      fun hgood => absurd hfailed hgood⟩
  | added htop hresult hleads =>
    have hdeclares : ((Item.stmt s).declarations outer.space).filterMap
        Declaration.globalName? = s.declares := by
      cases s <;> simp [Item.declarations, htop, Declaration.globalName?, Stmt.declares]
    refine ⟨fun hfirst => hleads.failed (h.failed hfirst), fun hgood => ?_,
      fun hgood => h.routines (mt hleads.failed hgood), fun hgood => ?_⟩
    · rw [List.filterMap_append, List.flatMap_append, h.globals (mt hleads.failed hgood), hdeclares]
      simp
    · obtain ⟨hblocks, -, -⟩ := resolveStmt_separates s hresult hgood
      have hbefore := Stmt.blocksDistinctAll_iff.mp (h.blocks (mt hleads.failed hgood))
      refine Stmt.blocksDistinctAll_iff.mpr (List.forall_mem_append.mpr ⟨hbefore, ?_⟩)
      exact List.forall_mem_singleton.mpr hblocks

/-- A declaration that is no global variable. -/
theorem Separates.declare (h : p.Separates first ds routines statements) {d : Declaration}
    (hd : d.globalName? = none) : p.Separates first (ds ++ [d]) routines statements := by
  refine ⟨h.failed, fun hgood => ?_, h.routines, h.blocks⟩
  rw [List.filterMap_append, List.filterMap_cons_none hd, List.filterMap_nil, List.append_nil]
  exact h.globals hgood

mutual

/-- An item adds its declarations, routines and statements. -/
theorem Separates.addItem : ∀ (item : Item) (outer : Context) {ds : List Declaration}
    {routines : List Routine} {statements : List Stmt} {p : Progress},
    p.Separates first ds routines statements →
      (Progress.addItem outer p item).Separates first (ds ++ item.declarations outer.space)
        (routines ++ item.routines) (statements ++ item.statements)
  | .space path items _, outer, _, _, _, _, h => by
    rw [Progress.addItem, Item.declarations, Item.routines, Item.statements]
    exact Separates.addItems items { outer with space := outer.space ++ path } h
  | .classDecl c, outer, _, _, _, _, h => by
    rw [Progress.addItem, Item.declarations, Item.routines, Item.statements, List.append_nil]
    exact (h.addClass outer c).declare rfl
  | .function f, outer, _, _, _, _, h => by
    rw [Progress.addItem, Item.declarations, Item.routines, Item.statements, List.append_nil]
    exact (h.addFunction outer f).declare rfl
  | .stmt s, outer, _, _, _, _, h => by
    rw [Progress.addItem, Item.routines, Item.statements, List.append_nil]
    exact h.addStmt outer s

/-- Several items add their declarations, routines and statements. -/
theorem Separates.addItems : ∀ (items : List Item) (outer : Context) {ds : List Declaration}
    {routines : List Routine} {statements : List Stmt} {p : Progress},
    p.Separates first ds routines statements →
      (Progress.addItems outer p items).Separates first
        (ds ++ Item.declarationsAll outer.space items) (routines ++ Item.routinesAll items)
        (statements ++ Item.statementsAll items)
  | [], outer, _, _, _, _, h => by
    rw [Progress.addItems, Item.declarationsAll, Item.routinesAll, Item.statementsAll,
      List.append_nil, List.append_nil, List.append_nil]
    exact h
  | item :: rest, outer, _, _, _, _, h => by
    rw [Progress.addItems, Item.declarationsAll, Item.routinesAll, Item.statementsAll,
      ← List.append_assoc, ← List.append_assoc, ← List.append_assoc]
    exact Separates.addItems rest outer (Separates.addItem item outer h)

end

end Progress

end Scope

/-- The names that source texts declare in one scope are different: functions, classes and global
variables under their qualified names, across all texts and the reopened namespaces, the members of
each class, and the variables of every block. What is asked of a body is said by `sound`. -/
structure DeclaredOnce (sound : Routine → Prop) (texts : List (List Item)) : Prop where
  declarations : Declaration.Distinct (Item.declarationsAll [] texts.flatten)
  globals : ((Item.statementsAll texts.flatten).flatMap Stmt.declares).Nodup
  bodies : ∀ r ∈ Item.routinesAll texts.flatten, sound r
  blocks : Stmt.BlocksDistinctAll (Item.statementsAll texts.flatten)

/-- In a unit without errors nothing is declared twice in one scope, but that two parameters of a
function may have one name: nothing is declared twice if and only if there are no such functions. -/
theorem resolve_distinct {texts : List (List Item)} {env : Env}
    (hclean : (resolve texts env).2.any Diagnostic.isError = false) :
    DeclaredOnce Routine.Separate texts ∧
      (DeclaredOnce Routine.Distinct texts ↔
        ∀ r ∈ Item.routinesAll texts.flatten, r.params.Nodup) := by
  let ctx : Scope.Context := { env, declared := Declarations.ofTexts env.program texts }
  have hstart : Scope.Progress.Separates ctx.declared.diagnostics [] [] []
      { top := { diagnostics := ctx.declared.diagnostics } } :=
    ⟨id, fun _ => rfl, by simp, fun _ => trivial⟩
  have hall := Scope.Progress.Separates.addItems texts.flatten ctx hstart
  rw [← Scope.Progress.foldl_addItems ctx texts] at hall
  have hgood : ¬ Failed (texts.foldl (fun p items => Scope.Progress.addItems ctx p items)
      { top := { diagnostics := ctx.declared.diagnostics } }).top.diagnostics := by
    rintro ⟨e, he, herror⟩
    exact List.any_eq_false.mp hclean e (Array.mem_toList_iff.mpr he) herror
  have hdistinct : Declaration.Distinct (Item.declarationsAll [] texts.flatten) := by
    obtain ⟨hdistinct, -, -⟩ | ⟨-, hbad⟩ :=
      Declarations.outcome_addItems env.program texts.flatten
    · exact hdistinct
    · rw [← Declarations.foldl_addItems] at hbad
      exact absurd (hall.failed hbad) hgood
  have hseparate : DeclaredOnce Routine.Separate texts :=
    ⟨hdistinct, hall.globals hgood ▸ hdistinct.globals, hall.routines hgood, hall.blocks hgood⟩
  refine ⟨hseparate, fun h r hr => ?_, fun h => ?_⟩
  · exact (hseparate.bodies r hr).distinct_iff.mp (h.bodies r hr)
  · exact ⟨hdistinct, hseparate.globals,
      fun r hr => (hseparate.bodies r hr).distinct_iff.mpr (h r hr), hseparate.blocks⟩

/-- A function whose two parameters have one name. -/
def twoOfOneName : Item :=
  .function {
    name := "f"
    params := ["a", "a"]
    body := [.ret (some (.ident "a" .nowhere)) .nowhere]
    span := .nowhere }

/-- A unit of one such function has no errors, and not even a warning. -/
theorem parameters_of_one_name_are_accepted :
    let env : Env := { program := {}, lookup := fun _ _ => .notAModule, warningLevel := 2 }
    (resolve [[twoOfOneName]] env).2 = [] ∧ DeclaredOnce Routine.Separate [[twoOfOneName]] ∧
      ¬ DeclaredOnce Routine.Distinct [[twoOfOneName]] := by
  intro env
  have hclean : (resolve [[twoOfOneName]] env).2 = [] := List.isEmpty_iff.mp (by decide +kernel)
  have hgood : (resolve [[twoOfOneName]] env).2.any Diagnostic.isError = false := by
    rw [hclean]
    rfl
  obtain ⟨hseparate, hiff⟩ := resolve_distinct hgood
  refine ⟨hclean, hseparate, fun h => ?_⟩
  have hnodup : ["a", "a"].Nodup := hiff.mp h ⟨["a", "a"], _⟩ List.mem_cons_self
  exact absurd hnodup (by decide)

end ScriptHost
