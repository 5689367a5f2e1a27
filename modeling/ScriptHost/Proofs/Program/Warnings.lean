import ScriptHost.Proofs.Engine.Blame
import ScriptHost.Proofs.Scope.Unit
import ScriptHost.Proofs.Scope.Warnings
/-!
# Warnings of a build

A warning level decides which warnings are told, and nothing else: whether a unit is built, its code
and the errors are the same at every level. What is told at level 2 of a unit that is built are the
warnings of its lists of statements, each of them once: `warnings_exact`.
-/

set_option autoImplicit false

namespace ScriptHost

/-- The lists of statements in a function. -/
def FunctionDecl.lists (f : FunctionDecl) : List (List Stmt) :=
  f.body :: Stmt.listsAll f.body

mutual

/-- The lists of statements in an item whose variables are local ones: the bodies of functions and
methods, and the blocks. -/
def Item.lists : Item → List (List Stmt)
  | .space _ items _ => Item.listsAll items
  | .classDecl c => c.methods.flatMap FunctionDecl.lists
  | .function f => f.lists
  | .stmt s => s.lists

/-- The lists of statements in several items. -/
def Item.listsAll : List Item → List (List Stmt)
  | [] => []
  | item :: rest => item.lists ++ Item.listsAll rest

end

/-! ## Units -/

namespace Body

theorem unusedOf_append (front rest : List Local) :
    unusedOf (front ++ rest) = unusedOf front ++ unusedOf rest := by
  simp [unusedOf]

theorem unusedOf_used {locals : List Local} (h : ∀ l ∈ locals, l.used = true) :
    unusedOf locals = [] := by
  have hnone : locals.filter (fun l => !l.used) = [] :=
    List.filter_eq_nil_iff.mpr fun l hl => by simp [h l hl]
  rw [unusedOf, hnone, List.map_nil]

/-- The parameters make up the only scope where a function starts, and count as used. -/
theorem ofParams_scopes (params : List String) (diagnostics : Array Diagnostic) :
    ∃ scope, (ofParams params diagnostics).scopes = [scope] ∧ ∀ l ∈ scope, l.used = true := by
  refine ⟨_, rfl, fun l hl => ?_⟩
  obtain ⟨index, hindex, rfl⟩ := List.mem_mapIdx.mp (List.mem_reverse.mp hl)
  rfl

end Body

namespace Scope

variable {ctx : Context}

/-- A function is warned of like a block, as its parameters never are. -/
theorem function_tells (hloud : 2 ≤ ctx.env.warningLevel) (f : FunctionDecl)
    {diagnostics : Array Diagnostic} {trees : List Resolved.Stmt} {inside : Body}
    (hok : resolveStmts ctx .live [] f.body (.ofParams f.params diagnostics) = .ok trees inside)
    (hgood : ¬ Failed (inside.leave ctx.env.warningLevel).diagnostics) :
    (Body.ofParams f.params diagnostics).Tells (f.lists.flatMap warningsIn)
      (inside.leave ctx.env.warningLevel) := by
  have hleads : inside.Leads True (inside.leave ctx.env.warningLevel) := inside.leads_leave _
  obtain ⟨⟨news, hscopes, hunused⟩, htells⟩ :=
    resolveStmts_tells hloud f.body hok fun hfailed => hgood (hleads.failed hfailed)
  obtain ⟨scope, hstart, hused⟩ := Body.ofParams_scopes f.params diagnostics
  rw [hstart, Body.markAll_used hused, Body.bring] at hscopes
  have hall := htells.trans (Body.tells_leave hloud hscopes)
  have hparams : Body.unusedOf scope.reverse = [] :=
    Body.unusedOf_used fun l hl => hused l (List.mem_reverse.mp hl)
  rw [List.reverse_append, Body.unusedOf_append, hparams, hunused, List.nil_append] at hall
  refine Body.Tells.perm hall ?_
  rw [FunctionDecl.lists, List.flatMap_cons, warningsIn, Reach.warnings, List.perm_iff_count]
  intro d
  simp only [List.count_append]
  omega

namespace Progress

/-- There is nothing to warn of in what fields start with. -/
theorem fields_tell (fields : List FieldDecl) {before after : Body}
    {found : List (Option Resolved.Stmt)}
    (h : fields.mapM (fieldAssignment ctx) before = .ok found after)
    (hgood : ¬ Failed after.diagnostics) : before.Tells [] after := by
  induction fields generalizing before found with
  | nil =>
    rw [List.mapM_nil] at h
    obtain ⟨-, rfl⟩ := pure_eq_ok.mp h
    exact .of_eq rfl
  | cons field rest ih =>
    rw [List.mapM_cons] at h
    obtain ⟨assignment, middle, hfirst, h⟩ := bind_eq_ok.mp h
    obtain ⟨others, _, hrest, h⟩ := bind_eq_ok.mp h
    obtain ⟨-, rfl⟩ := pure_eq_ok.mp h
    have heach : ∀ field ∈ rest, Resolver.Sound True (fieldAssignment ctx field) fun _ _ => True :=
      fun field _ => (fieldAssignment_resolves field).imp fun _ _ _ => trivial
    have hgood' : ¬ Failed middle.diagnostics :=
      fun hfailed => hgood (((mapM_sound rest heach).ok hrest).leads.failed hfailed)
    suffices htells : before.Tells [] middle from htells.trans (ih hrest)
    unfold fieldAssignment at hfirst
    cases hinitial : field.initial with
    | none =>
      simp only [hinitial] at hfirst
      obtain ⟨-, rfl⟩ := pure_eq_ok.mp hfirst
      exact .of_eq rfl
    | some initial =>
      simp only [hinitial] at hfirst
      have hsound : Resolver.Sound True
          (do return Resolved.Stmt.setField .loadThis field.name (← resolveExpr ctx initial))
          fun _ _ => True :=
        (resolveExpr_resolves initial).bind fun _ => .pure fun _ _ => trivial
      obtain ⟨tree, -, htree⟩ := recover_ok hsound hfirst hgood'
      exact (tells_of_marks ((resolveExpr_marks initial).map _) htree).2

/-- The walk through a unit has met these lists of statements. As long as no error is known, no
scope is open at the top level, and what has been said since the start are the warnings of these
lists. -/
structure Told (first : Array Diagnostic) (lists : List (List Stmt)) (p : Progress) : Prop where
  failed : Failed first → Failed p.top.diagnostics
  closed : ¬ Failed p.top.diagnostics → p.top.scopes = []
  said : ¬ Failed p.top.diagnostics →
    p.top.diagnostics.toList.Perm (first.toList ++ lists.flatMap warningsIn)

variable {first : Array Diagnostic} {lists : List (List Stmt)} {p : Progress}

theorem Told.more (h : p.Told first lists) {lists' : List (List Stmt)} {q : Progress}
    (hfailed : Failed p.top.diagnostics → Failed q.top.diagnostics)
    (hclosed : ¬ Failed q.top.diagnostics → q.top.scopes = [])
    (htells : ¬ Failed q.top.diagnostics → p.top.Tells (lists'.flatMap warningsIn) q.top) :
    q.Told first (lists ++ lists') where
  failed := fun hfirst => hfailed (h.failed hfirst)
  closed := hclosed
  said := fun hgood => by
    have hbefore : p.top.diagnostics.toList.Perm _ := h.said (mt hfailed hgood)
    rw [List.flatMap_append, ← List.append_assoc]
    exact List.Perm.trans (htells hgood) (hbefore.append_right _)

/-- A failed unit is told nothing of. -/
theorem told_of_failed (hfailed : Failed p.top.diagnostics) : p.Told first lists :=
  ⟨fun _ => hfailed, fun hgood => absurd hfailed hgood, fun hgood => absurd hfailed hgood⟩

theorem Told.addBody (h : p.Told first lists) (params : List String)
    {walk : Resolver (List Resolved.Stmt)} (hwalk : Resolver.Sound True walk fun _ _ => True)
    {lists' : List (List Stmt)}
    (htells : ∀ {trees : List Resolved.Stmt} {after : Body},
      walk (.ofParams params p.top.diagnostics) = .ok trees after → ¬ Failed after.diagnostics →
        (Body.ofParams params p.top.diagnostics).Tells (lists'.flatMap warningsIn) after) :
    (p.addBody params walk).Told first (lists ++ lists') := by
  unfold Progress.addBody
  dsimp only
  cases hresult : walk (.ofParams params p.top.diagnostics) with
  | error e body => exact told_of_failed (failed_push (hwalk.error hresult))
  | ok trees body =>
    have hleads : Failed p.top.diagnostics → Failed body.diagnostics :=
      (hwalk.ok hresult).leads.failed
    have htold (hgood : ¬ Failed body.diagnostics) :
        (Body.ofParams params p.top.diagnostics).Tells (lists'.flatMap warningsIn) body :=
      htells hresult hgood
    exact h.more hleads (fun hgood => h.closed (mt hleads hgood)) htold

theorem Told.addFunction (h : p.Told first lists) (hloud : 2 ≤ ctx.env.warningLevel)
    (f : FunctionDecl) : (p.addFunction ctx f).Told first (lists ++ f.lists) := by
  let inner : Context := { ctx with inFunction := true }
  have hinner : 2 ≤ inner.env.warningLevel := hloud
  refine h.addBody f.params ?_ ?_
  · refine (resolveStmts_resolves f.body .live []).bind fun _ =>
      (Resolver.Sound.modify fun body => body.leads_leave _).bind fun _ => ?_
    exact .pure fun _ _ _ => trivial
  · intro trees after hok hgood
    simp only [bind_eq_ok, modify_eq_ok, pure_eq_ok] at hok
    obtain ⟨found, inside, hbody, -, _, rfl, rfl, rfl⟩ := hok
    exact function_tells hinner f hbody hgood

theorem Told.addClass (h : p.Told first lists) (hloud : 2 ≤ ctx.env.warningLevel) (c : ClassDecl) :
    (p.addClass ctx c).Told first (lists ++ c.methods.flatMap FunctionDecl.lists) := by
  let inner : Context := { ctx with
    member := some (ctx.declared.classBase + p.classes), inFunction := true }
  have hinner : 2 ≤ inner.env.warningLevel := hloud
  have hcounted : Told first lists { p with classes := p.classes + 1 } :=
    ⟨h.failed, h.closed, h.said⟩
  have hfields : Told first lists
      (Progress.addBody { p with classes := p.classes + 1 } [] do
        let assignments ← c.fields.mapM (fieldAssignment inner)
        return assignments.filterMap id) := by
    rw [← List.append_nil lists]
    refine hcounted.addBody [] ((@fields_resolve inner c.fields).imp fun _ _ _ => trivial) ?_
    intro trees after hok hgood
    obtain ⟨found, _, hfound, hok⟩ := bind_eq_ok.mp hok
    obtain ⟨-, rfl⟩ := pure_eq_ok.mp hok
    exact fields_tell c.fields hfound hgood
  exact Progress.foldl_addFunction (fun p lists => p.Told first lists) FunctionDecl.lists
    (fun h method => h.addFunction hinner method) c.methods hfields

theorem Told.addStmt (h : p.Told first lists) (hloud : 2 ≤ ctx.env.warningLevel) (s : Stmt) :
    (p.addStmt ctx s).Told first (lists ++ s.lists) := by
  have hadds := p.addsStmt ctx s
  generalize p.addStmt ctx s = q at hadds ⊢
  cases hadds with
  | refused hfailed => exact told_of_failed hfailed
  | added _ hresult hleads =>
    refine h.more hleads.failed (fun hgood => ?_) fun hgood =>
      (resolveStmt_tells hloud s hresult hgood).2
    obtain ⟨⟨slot, hscopes⟩, -⟩ := resolveStmt_tells hloud s hresult hgood
    rw [h.closed (mt hleads.failed hgood), Body.markAll_nil] at hscopes
    exact hscopes

mutual

/-- An item adds its lists. -/
theorem Told.addItem : ∀ (item : Item) (ctx : Context), 2 ≤ ctx.env.warningLevel →
    ∀ {lists : List (List Stmt)} {p : Progress}, p.Told first lists →
      (Progress.addItem ctx p item).Told first (lists ++ item.lists)
  | .space path items _, ctx, hloud, _, _, h => by
    rw [Progress.addItem, Item.lists]
    exact Told.addItems items { ctx with space := ctx.space ++ path } hloud h
  | .classDecl c, _, hloud, _, _, h => by
    rw [Progress.addItem, Item.lists]
    exact h.addClass hloud c
  | .function f, _, hloud, _, _, h => by
    rw [Progress.addItem, Item.lists]
    exact h.addFunction hloud f
  | .stmt s, _, hloud, _, _, h => by
    rw [Progress.addItem, Item.lists]
    exact h.addStmt hloud s

/-- Several items add their lists. -/
theorem Told.addItems : ∀ (items : List Item) (ctx : Context), 2 ≤ ctx.env.warningLevel →
    ∀ {lists : List (List Stmt)} {p : Progress}, p.Told first lists →
      (Progress.addItems ctx p items).Told first (lists ++ Item.listsAll items)
  | [], _, _, _, _, h => by
    rw [Progress.addItems, Item.listsAll, List.append_nil]
    exact h
  | item :: rest, ctx, hloud, _, _, h => by
    rw [Progress.addItems, Item.listsAll, ← List.append_assoc]
    exact Told.addItems rest ctx hloud (Told.addItem item ctx hloud h)

end

end Progress

end Scope

/-- What is said of the names of a unit without errors, where all warnings are told, are the
warnings of its lists of statements. -/
theorem resolve_warns {texts : List (List Item)} {env : Env} (hloud : 2 ≤ env.warningLevel)
    (hclean : (resolve texts env).2.any Diagnostic.isError = false) :
    (resolve texts env).2.Perm ((Item.listsAll texts.flatten).flatMap warningsIn) := by
  let ctx : Scope.Context := { env, declared := Declarations.ofTexts env.program texts }
  have hstart : Scope.Progress.Told ctx.declared.diagnostics []
      { top := { diagnostics := ctx.declared.diagnostics } } :=
    ⟨id, fun _ => rfl, fun _ => by simp⟩
  have hall := Scope.Progress.Told.addItems texts.flatten ctx hloud hstart
  rw [← Scope.Progress.foldl_addItems ctx texts] at hall
  have hgood : ¬ Failed (texts.foldl (fun p items => Scope.Progress.addItems ctx p items)
      { top := { diagnostics := ctx.declared.diagnostics } }).top.diagnostics := by
    rintro ⟨e, he, herror⟩
    exact List.any_eq_false.mp hclean e (Array.mem_toList_iff.mpr he) herror
  have hdeclared : ctx.declared.diagnostics.toList = [] := by
    refine List.eq_nil_iff_forall_not_mem.mpr fun e he => hgood (hall.failed ?_)
    rw [Array.mem_toList_iff] at he
    exact ⟨e, he, Declarations.onlyErrors_ofTexts env.program texts e he⟩
  have hsaid := hall.said hgood
  rw [hdeclared, List.nil_append] at hsaid
  exact hsaid

/-! ## Builds -/

/-- From the diagnostics of a build at a level at which all warnings are told, another level only
leaves some out. The unit is the same. -/
theorem build_warnedAt (sources : List String) {env : Env} (hloud : 2 ≤ env.warningLevel)
    (level : Nat) :
    build sources (env.warnedAt level) =
      ((build sources env).1, (build sources env).2.filter (Diagnostic.heard level)) := by
  have hread := errors_readTexts sources 0 {} nofun
  unfold build
  dsimp only
  generalize readTexts {} 0 sources = found at hread ⊢
  rw [resolve_warnedAt found.texts.reverse hloud level]
  split
  · generalize resolve found.texts.reverse env = resolved
    obtain ⟨unit, diagnostics⟩ := resolved
    have hany : (diagnostics.filter (Diagnostic.heard level)).any Diagnostic.isError =
        diagnostics.any Diagnostic.isError := by
      rw [List.any_filter]
      congr 1
      funext d
      cases herror : d.isError with
      | true => simp [Diagnostic.heard_of_isError level herror]
      | false => simp
    dsimp only
    rw [hany]
    split
    · rfl
    · have hbindings : (env.warnedAt level).program.bindings.size = env.program.bindings.size := rfl
      rw [hbindings]
      cases unit.compile env.program.bindings.size with
      | ok compiled => rfl
      | error e =>
        have herror : e.diagnostic.isError = true := rfl
        simp [Diagnostic.heard_of_isError level herror]
  · have hall : found.diagnostics.toList.filter (Diagnostic.heard level) =
        found.diagnostics.toList :=
      List.filter_eq_self.mpr fun d hd =>
        Diagnostic.heard_of_isError level (hread d (Array.mem_toList_iff.mp hd))
    rw [hall]

theorem count_of_readTexts {sources : List String} {found : ReadTexts} {file : Nat}
    (hfile : file ≤ maxSourceTexts) (hclean : (readTexts found file sources).diagnostics = #[]) :
    file + sources.length ≤ maxSourceTexts := by
  induction sources generalizing found file with
  | nil => exact hfile
  | cons source rest ih =>
    rw [readTexts] at hclean
    split at hclean
    · rename_i hroom
      have hrest := ih hroom hclean
      rw [List.length_cons]
      omega
    · simp at hclean

/-- The texts of a unit that is built have been read, and there are no errors in their names. -/
theorem build_reads {sources : List String} {env : Env} {unit : CompiledUnit}
    {diagnostics : List Diagnostic} (h : build sources env = (some unit, diagnostics)) :
    ∃ texts, ReadAs 0 sources texts ∧ (resolve texts env).2 = diagnostics ∧
      diagnostics.any Diagnostic.isError = false := by
  unfold build at h
  dsimp only at h
  split at h
  · rename_i hclean
    have hclean' := Array.isEmpty_iff.mp hclean
    obtain ⟨-, texts, hread, htexts⟩ :=
      readAs_of_readTexts (count_of_readTexts (Nat.zero_le _) hclean') hclean'
    refine ⟨texts, hread, ?_⟩
    rw [htexts, List.reverse_nil, List.nil_append] at h
    split at h
    · cases h
    · rename_i hnone
      split at h
      · cases h
        exact ⟨rfl, by simpa using hnone⟩
      · cases h
  · cases h

theorem Diagnostic.not_warnsOfUnused_of_isError {d : Diagnostic} (h : d.isError = true) :
    d.warnsOfUnused = false := by
  have hseverity : d.severity = .error := beq_iff_eq.mp h
  rw [warnsOfUnused, hseverity]
  rfl

theorem Diagnostic.heard_one (d : Diagnostic) : d.heard 1 = !d.warnsOfUnused := by
  cases herror : d.isError with
  | true => rw [heard_of_isError 1 herror, not_warnsOfUnused_of_isError herror, Bool.not_false]
  | false => cases hunused : d.warnsOfUnused <;> simp [heard, herror, hunused]

theorem Diagnostic.heard_zero (d : Diagnostic) : d.heard 0 = d.isError := by
  cases hunused : d.warnsOfUnused <;> simp [heard, hunused]

theorem filter_unusedIn (body : List Stmt) :
    (warningsIn body).filter Diagnostic.warnsOfUnused = unusedIn body ∧
      (warningsIn body).filter (fun d => !d.warnsOfUnused) = unreachableIn body := by
  have hunused : ∀ d ∈ unusedIn body, d.warnsOfUnused = true := by
    fun_induction unusedIn body with
    | case1 => exact nofun
    | case2 _ _ _ _ _ ih => exact ih
    | case3 name _ span _ _ ih =>
      exact List.forall_mem_cons.mpr
        ⟨Diagnostic.warnsOfUnused_warning (.unusedVariable name) span, ih⟩
    | case4 _ _ _ ih => exact ih
  have hunreachable : ∀ d ∈ unreachableIn body, d.warnsOfUnused = false := by
    intro d hd
    obtain ⟨s, -, rfl⟩ := List.mem_map.mp hd
    exact Diagnostic.warnsOfUnused_warning .unreachable s.span
  rw [warningsIn, List.filter_append, List.filter_append]
  constructor
  · rw [List.filter_eq_self.mpr hunused, List.filter_eq_nil_iff.mpr fun d hd => by
      simp [hunreachable d hd], List.append_nil]
  · rw [List.filter_eq_nil_iff.mpr fun d hd => by simp [hunused d hd],
      List.filter_eq_self.mpr fun d hd => by simp [hunreachable d hd], List.nil_append]

/-- Warnings never influence code, and they are exact. The unit and the errors are the same at every
warning level. At level 1 all is told that is told at level 2 but the warnings of unused variables,
and at level 0 the errors alone. Of a unit that is built, at level 2 every variable that is not used
is warned of, and so is the first statement behind a `return` in every list of statements, and that
is all. (At the top level, where there is no function to return from, a `return` is an error.) -/
theorem warnings_exact (sources : List String) (env : Env) :
    (∀ level, (build sources (env.warnedAt level)).1 = (build sources env).1 ∧
      (build sources (env.warnedAt level)).2.filter Diagnostic.isError =
        (build sources env).2.filter Diagnostic.isError) ∧
    (build sources (env.warnedAt 1)).2 =
      (build sources (env.warnedAt 2)).2.filter (fun d => !d.warnsOfUnused) ∧
    (build sources (env.warnedAt 0)).2 =
      (build sources (env.warnedAt 2)).2.filter Diagnostic.isError ∧
    ∀ unit diagnostics, build sources (env.warnedAt 2) = (some unit, diagnostics) →
      ∃ texts, ReadAs 0 sources texts ∧
        (diagnostics.filter Diagnostic.warnsOfUnused).Perm
          ((Item.listsAll texts.flatten).flatMap unusedIn) ∧
        (diagnostics.filter fun d => !d.warnsOfUnused).Perm
          ((Item.listsAll texts.flatten).flatMap unreachableIn) := by
  have hloud : 2 ≤ (env.warnedAt 2).warningLevel := Nat.le_refl 2
  have hlevel (level : Nat) : build sources (env.warnedAt level) =
      ((build sources (env.warnedAt 2)).1,
        (build sources (env.warnedAt 2)).2.filter (Diagnostic.heard level)) :=
    build_warnedAt sources hloud level
  have herrors (level : Nat) : (build sources (env.warnedAt level)).2.filter Diagnostic.isError =
      (build sources (env.warnedAt 2)).2.filter Diagnostic.isError := by
    rw [hlevel level, List.filter_filter]
    congr 1
    funext d
    cases herror : d.isError with
    | true => simp [Diagnostic.heard_of_isError level herror]
    | false => simp
  refine ⟨fun level => ?_, ?_, ?_, fun unit diagnostics h => ?_⟩
  · have hown := hlevel env.warningLevel
    have hownErrors := herrors env.warningLevel
    exact ⟨(congrArg Prod.fst (hlevel level)).trans (congrArg Prod.fst hown).symm,
      (herrors level).trans hownErrors.symm⟩
  · rw [hlevel 1, funext Diagnostic.heard_one]
  · rw [hlevel 0, funext Diagnostic.heard_zero]
  · obtain ⟨texts, hread, rfl, hclean⟩ := build_reads h
    have hwarns := resolve_warns hloud hclean
    refine ⟨texts, hread, ?_, ?_⟩
    · have hfilter := hwarns.filter Diagnostic.warnsOfUnused
      rwa [List.filter_flatMap, funext fun body => (filter_unusedIn body).1] at hfilter
    · have hfilter := hwarns.filter fun d => !d.warnsOfUnused
      rwa [List.filter_flatMap, funext fun body => (filter_unusedIn body).2] at hfilter

/-- A variable that is only assigned to, another one that is read, and a call that is not
reached. -/
def wastefulFunction : String :=
  "fn f() { let a = 1; let b = 2; b = 3; return a; f(); }"

/-- A unit of this function is built, and warned of twice. -/
theorem wasteful_function_is_warned_of :
    let built := build [wastefulFunction] (bareEnv.warnedAt 2)
    built.1.isSome = true ∧
      built.2 = [.warning ScopeWarning.unreachable.message ⟨0, 48, 51⟩,
        .warning (ScopeWarning.unusedVariable "b").message ⟨0, 20, 29⟩] ∧
      ∃ texts, ReadAs 0 [wastefulFunction] texts ∧
        (built.2.filter Diagnostic.warnsOfUnused).Perm
          ((Item.listsAll texts.flatten).flatMap unusedIn) ∧
        (built.2.filter fun d => !d.warnsOfUnused).Perm
          ((Item.listsAll texts.flatten).flatMap unreachableIn) := by
  intro built
  have hsome : built.1.isSome = true := by decide +kernel
  have hwarnings : built.2 = [.warning ScopeWarning.unreachable.message ⟨0, 48, 51⟩,
      .warning (ScopeWarning.unusedVariable "b").message ⟨0, 20, 29⟩] := by decide +kernel
  obtain ⟨unit, hunit⟩ := Option.isSome_iff_exists.mp hsome
  exact ⟨hsome, hwarnings, (warnings_exact [wastefulFunction] bareEnv).2.2.2 unit built.2
    (Prod.ext hunit rfl)⟩

end ScriptHost
