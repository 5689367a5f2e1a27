import Mathlib.Algebra.GroupWithZero.Nat
import ScriptHost.Proofs.Scope.Later
/-!
# Scopes are closed again

Every step of a walk leaves as many scopes open as there were before it, whether it fails or not.
So there are none between the items of a unit, and no slot is taken there: what an item adds does
not depend on what stands in front of it.
-/

set_option autoImplicit false

namespace ScriptHost

namespace Body

/-- So many scopes are open, and no more slots are taken than there are variables in them. -/
structure Nested (depth : Nat) (body : Body) : Prop where
  scopes : body.scopes.length = depth
  nextSlot : body.nextSlot ≤ (body.scopes.map fun scope => min scope.length maxLocals).sum

/-- As many scopes are open afterwards as before. -/
def Stays (before after : Body) : Prop :=
  ∀ depth, before.Nested depth → after.Nested depth

theorem Stays.refl (body : Body) : body.Stays body :=
  fun _ h => h

theorem Stays.trans {a b c : Body} (hab : a.Stays b) (hbc : b.Stays c) : a.Stays c :=
  fun depth h => hbc depth (hab depth h)

theorem stays_diagnostics (body : Body) (diagnostics : Array Diagnostic) :
    body.Stays { body with diagnostics } :=
  fun _ h => ⟨h.scopes, h.nextSlot⟩

theorem stays_warn (body : Body) (level : Nat) (warning : ScopeWarning) (span : Span) :
    body.Stays (body.warn level warning span) := by
  unfold Body.warn
  split
  · exact stays_diagnostics body _
  · exact .refl body

theorem length_markFirst (name : String) (scope : List Local) :
    (markFirst name scope).length = scope.length := by
  induction scope with
  | nil => rfl
  | cons l rest ih =>
    rw [markFirst]
    split
    · rfl
    · rw [List.length_cons, ih, List.length_cons]

theorem lengths_markIn (name : String) (scopes : List (List Local)) :
    (markIn name scopes).map List.length = scopes.map List.length := by
  induction scopes with
  | nil => rfl
  | cons scope rest ih =>
    rw [markIn]
    split
    · rw [List.map_cons, length_markFirst, List.map_cons]
    · rw [List.map_cons, ih, List.map_cons]

/-- Only the lengths of the scopes count. -/
theorem Nested.of_lengths {depth : Nat} {body after : Body} (h : body.Nested depth)
    (hscopes : after.scopes.map List.length = body.scopes.map List.length)
    (hnextSlot : after.nextSlot = body.nextSlot) : after.Nested depth where
  scopes := by
    have hlength := congrArg List.length hscopes
    rw [List.length_map, List.length_map] at hlength
    exact hlength.trans h.scopes
  nextSlot := by
    have hsum := h.nextSlot
    have hmap (scopes : List (List Local)) : (scopes.map fun scope => min scope.length maxLocals) =
        (scopes.map List.length).map (min · maxLocals) := by simp
    rw [hmap] at hsum ⊢
    rw [hscopes, hnextSlot]
    exact hsum

theorem stays_markUsed (body : Body) (name : String) : body.Stays (body.markUsed name) :=
  fun _ h => h.of_lengths (lengths_markIn name body.scopes) rfl

theorem Nested.enter {depth : Nat} {body : Body} (h : body.Nested depth) :
    body.enter.Nested (depth + 1) where
  scopes := congrArg (· + 1) h.scopes
  nextSlot := by
    have hsum := h.nextSlot
    simpa [Body.enter] using hsum

theorem leaveAll_eq (level : Nat) (scope : List Local) (body : Body) :
    ∃ diagnostics, scope.foldl (leaveOne level) body = { body with diagnostics } := by
  induction scope generalizing body with
  | nil => exact ⟨_, rfl⟩
  | cons l rest ih =>
    have hone : ∃ diagnostics, leaveOne level body l = { body with diagnostics } := by
      unfold leaveOne Body.warn
      split_ifs <;> exact ⟨_, rfl⟩
    obtain ⟨_, hone⟩ := hone
    rw [List.foldl_cons, hone]
    exact ih _

/-- The scope that is closed gives back the slots of its variables. -/
theorem Nested.leave {depth : Nat} {body : Body} (h : body.Nested (depth + 1)) (level : Nat) :
    (body.leave level).Nested depth := by
  have hlength := h.scopes
  have hsum := h.nextSlot
  rw [leave_eq]
  cases hscopes : body.scopes with
  | nil =>
    rw [hscopes] at hlength
    cases hlength
  | cons scope rest =>
    rw [hscopes, List.length_cons] at hlength
    rw [hscopes, List.map_cons, List.sum_cons] at hsum
    obtain ⟨diagnostics, hleft⟩ := leaveAll_eq level scope.reverse body
    dsimp only
    rw [hleft]
    refine ⟨Nat.succ_injective hlength, ?_⟩
    dsimp only
    omega

end Body

namespace Resolver

variable {α β : Type}

/-- A step leaves as many scopes open as there were, and so it does if it fails. -/
structure Steady (step : Resolver α) : Prop where
  ok : ∀ {body after : Body} {a : α}, step body = .ok a after → body.Stays after
  error : ∀ {body after : Body} {e : Diagnostic}, step body = .error e after → body.Stays after

/-- A step that never fails. -/
structure Calm (step : Resolver α) : Prop extends Steady step where
  total : ∀ body, ∃ a after, step body = .ok a after

namespace Steady

theorem pure (a : α) : Steady (Pure.pure a : Resolver α) where
  ok := fun {body _ _} h => by
    cases h
    exact .refl body
  error := fun h => by cases h

theorem bind {step : Resolver α} {next : α → Resolver β} (h : Steady step)
    (hnext : ∀ a, Steady (next a)) : Steady (step >>= next) where
  ok := fun hrun => by
    obtain ⟨a, middle, hstep, hlast⟩ := bind_eq_ok.mp hrun
    exact (h.ok hstep).trans ((hnext a).ok hlast)
  error := fun hrun => by
    obtain hstep | ⟨a, middle, hstep, hlast⟩ := bind_eq_error.mp hrun
    · exact h.error hstep
    · exact (h.ok hstep).trans ((hnext a).error hlast)

theorem fail (e : ScopeError) (span : Span) : Steady (Resolver.fail e span : Resolver α) where
  ok := fun h => by cases h
  error := fun {body _ _} h => by
    cases h
    exact .refl body

theorem get : Steady (MonadState.get : Resolver Body) where
  ok := fun {body _ _} h => by
    cases h
    exact .refl body
  error := fun h => by cases h

theorem modify {f : Body → Body} (h : ∀ body : Body, body.Stays (f body)) :
    Steady (modify f : Resolver PUnit) where
  ok := fun {body _ _} hrun => by
    cases hrun
    exact h body
  error := fun hrun => by cases hrun

/-- A variable that is declared takes a slot, if there is one. -/
theorem declareLocal (name : String) (span : Span) : Steady (Resolver.declareLocal name span) := by
  have hgrown (body : Body) {scope : List Local} {rest : List (List Local)}
      (hscopes : body.scopes = scope :: rest) (l : Local) {nextSlot : Nat} (maxSlot : Nat)
      (hslot : nextSlot ≤ body.nextSlot + 1) (hroom : nextSlot ≤ max body.nextSlot maxLocals) :
      body.Stays { body with scopes := (l :: scope) :: rest, nextSlot, maxSlot } := by
    intro depth h
    have hlength := h.scopes
    have hsum := h.nextSlot
    rw [hscopes] at hlength
    rw [hscopes, List.map_cons, List.sum_cons] at hsum
    refine ⟨hlength, ?_⟩
    dsimp only
    rw [List.map_cons, List.sum_cons, List.length_cons]
    omega
  unfold Resolver.declareLocal
  refine ⟨fun {body after slot} hrun => ?_, fun {body after e} hrun => ?_⟩
  all_goals
    rw [get_bind] at hrun
    cases hscopes : body.scopes with
    | nil =>
      rw [hscopes] at hrun
      cases hrun
      try exact .refl body
    | cons scope rest =>
      rw [hscopes] at hrun
      dsimp only at hrun
      split_ifs at hrun with hknown hroom
      all_goals
        cases hrun
        try first
          | exact .refl body
          | exact hgrown body hscopes _ _ (by omega) (by omega)

end Steady

/-- A failure that is passed over is none. -/
theorem Steady.recover {step : Resolver α} (h : Steady step) : Calm (Resolver.recover step) := by
  have hrecover (body : Body) : ∃ found after, Resolver.recover step body = .ok found after ∧
      body.Stays after := by
    unfold Resolver.recover
    cases hstep : step body with
    | ok a after => exact ⟨_, _, rfl, h.ok hstep⟩
    | error e after => exact ⟨_, _, rfl, (h.error hstep).trans (after.stays_diagnostics _)⟩
  refine ⟨⟨fun {body after a} hrun => ?_, fun {body after e} hrun => ?_⟩, fun body => ?_⟩
  · obtain ⟨_, _, hfound, hstays⟩ := hrecover body
    rw [hfound] at hrun
    cases hrun
    exact hstays
  · obtain ⟨_, _, hfound, -⟩ := hrecover body
    rw [hfound] at hrun
    cases hrun
  · obtain ⟨found, after, hfound, -⟩ := hrecover body
    exact ⟨found, after, hfound⟩

theorem Calm.pure (a : α) : Calm (Pure.pure a : Resolver α) :=
  ⟨.pure a, fun body => ⟨a, body, rfl⟩⟩

theorem Calm.bind {step : Resolver α} {next : α → Resolver β} (h : Calm step)
    (hnext : ∀ a, Calm (next a)) : Calm (step >>= next) := by
  refine ⟨h.toSteady.bind fun a => (hnext a).toSteady, fun body => ?_⟩
  obtain ⟨a, middle, hstep⟩ := h.total body
  obtain ⟨b, after, hrest⟩ := (hnext a).total middle
  exact ⟨b, after, (bind_of_ok hstep).trans hrest⟩

theorem Calm.modify {f : Body → Body} (h : ∀ body : Body, body.Stays (f body)) :
    Calm (modify f : Resolver PUnit) :=
  ⟨.modify h, fun _ => ⟨_, _, rfl⟩⟩

/-- A scope is opened for a walk that does not fail, and closed behind it. -/
theorem steady_block {walk : Resolver α} (h : Calm walk) (level : Nat) {next : α → Resolver β}
    (hnext : ∀ a, Steady (next a)) :
    Steady (do
      modify Body.enter
      let a ← walk
      modify fun body => body.leave level
      next a) := by
  have hblock (body : Body) : ∃ a after, body.Stays after ∧
      (do
        modify Body.enter
        let a ← walk
        modify fun body => body.leave level
        next a : Resolver β) body = next a after := by
    obtain ⟨a, inner, hwalk⟩ := h.total body.enter
    refine ⟨a, inner.leave level, fun depth hdepth => ?_, ?_⟩
    · exact (h.ok hwalk _ hdepth.enter).leave level
    · exact bind_of_ok hwalk
  refine ⟨fun {body after b} hrun => ?_, fun {body after e} hrun => ?_⟩
  · obtain ⟨a, inner, hstays, hnext'⟩ := hblock body
    rw [hnext'] at hrun
    exact hstays.trans ((hnext a).ok hrun)
  · obtain ⟨a, inner, hstays, hnext'⟩ := hblock body
    rw [hnext'] at hrun
    exact hstays.trans ((hnext a).error hrun)

end Resolver

namespace Scope

open Resolver

variable {ctx : Context}

/-! ## Expressions -/

theorem isVariable_steady (name : String) : Steady (isVariable ctx name) :=
  Steady.get.bind fun _ => .pure _

theorem currentClass_steady (span : Span) : Steady (currentClass ctx span) := by
  unfold currentClass
  split
  · exact .pure _
  · exact .fail _ _

theorem checkOwnField_steady (name : String) (span : Span) :
    Steady (checkOwnField ctx name span) := by
  refine (currentClass_steady span).bind fun c => ?_
  split
  · exact .pure _
  · exact .fail _ _

theorem checkArity_steady (function given : Nat) (span : Span) :
    Steady (checkArity ctx function given span) := by
  unfold checkArity
  dsimp only
  split
  · exact .pure _
  · exact .fail _ _

theorem resolveIdent_steady (name : String) (span : Span) :
    Steady (resolveIdent ctx name span) := by
  refine Steady.get.bind fun body => ?_
  split
  · exact (Steady.modify fun body => body.stays_markUsed name).bind fun _ => .pure _
  · split
    · exact .pure _
    · split <;> exact .fail _ _

theorem bareCallee_steady (name : String) (argc : Nat) (span : Span) :
    Steady (bareCallee ctx name argc span) := by
  unfold bareCallee
  split
  · exact (checkArity_steady _ argc span).bind fun _ => .pure _
  · refine (isVariable_steady name).bind fun known => ?_
    split <;> exact .fail _ _

theorem dottedFunction_steady (path : List String) (object : ScriptHost.Expr) (method : String)
    (argc : Nat) (span : Span) : Steady (dottedFunction ctx path object method argc span) := by
  unfold dottedFunction
  dsimp only
  split
  · exact (checkArity_steady _ argc span).bind fun _ => .pure _
  · split <;> exact .fail _ _

theorem dottedCallee_steady (path : List String) (object : ScriptHost.Expr) (method : String)
    (argc : Nat) (span : Span) : Steady (dottedCallee ctx path object method argc span) := by
  unfold dottedCallee
  split
  · split
    · split
      · exact .pure _
      · exact .fail _ _
    · exact .fail _ _
    · exact .fail _ _
    · exact .fail _ _
    · exact dottedFunction_steady _ object method argc span
  · exact dottedFunction_steady _ object method argc span

theorem valueCallee_steady (object : ScriptHost.Expr) (method : String) (argc : Nat)
    (span : Span) : Steady (valueCallee ctx object method argc span) := by
  unfold valueCallee
  split
  · refine (currentClass_steady _).bind fun c => ?_
    split
    · exact (checkArity_steady _ argc span).bind fun _ => .pure _
    · exact .fail _ _
  · exact .pure _

theorem callee_steady (object : ScriptHost.Expr) (method : String) (argc : Nat) (span : Span) :
    Steady (callee ctx object method argc span) := by
  unfold callee
  split
  · refine (isVariable_steady _).bind fun known => ?_
    split
    · exact valueCallee_steady object method argc span
    · exact dottedCallee_steady _ object method argc span
  · exact valueCallee_steady object method argc span

theorem createdClass_steady (path : List String) (argc : Nat) (span : Span) :
    Steady (createdClass ctx path argc span) := by
  have hchecked (id takes : Nat) : Steady
      (if takes = argc then Pure.pure id
        else Resolver.fail (.noConstructor (".".intercalate path) argc) span) := by
    split
    · exact .pure _
    · exact .fail _ _
  unfold createdClass
  cases ctx.class? path with
  | none => exact .fail _ _
  | some id => exact hchecked id _

mutual

theorem resolveExpr_steady : ∀ e : ScriptHost.Expr, Steady (resolveExpr ctx e)
  | .int _ _ | .float _ _ | .str _ _ | .bool _ _ | .null _ => by
    rw [resolveExpr]
    exact .pure _
  | .this span => by
    rw [resolveExpr]
    exact (currentClass_steady span).bind fun _ => .pure _
  | .ident name span => by
    rw [resolveExpr]
    exact resolveIdent_steady name span
  | .binary op left right _ => by
    rw [resolveExpr]
    exact (resolveExpr_steady left).bind fun _ => (resolveExpr_steady right).bind fun _ => .pure _
  | .unary op operand _ => by
    rw [resolveExpr]
    exact (resolveExpr_steady operand).bind fun _ => .pure _
  | .call name args span => by
    rw [resolveExpr]
    refine (bareCallee_steady name args.length span).bind fun _ => ?_
    exact (resolveArgs_steady args []).bind fun _ => .pure _
  | .methodCall object method args span => by
    rw [resolveExpr]
    refine (callee_steady object method args.length span).bind fun found => ?_
    cases found with
    | host | function => exact (resolveArgs_steady args []).bind fun _ => .pure _
    | method =>
      refine (resolveExpr_steady object).bind fun _ => ?_
      exact (resolveArgs_steady args []).bind fun _ => .pure _
  | .field object name span => by
    have hobject : Steady (do
        let object ← resolveExpr ctx object
        return Resolved.Expr.getField object name) :=
      (resolveExpr_steady object).bind fun _ => .pure _
    by_cases hthis : ∃ own, object = .this own
    · obtain ⟨own, rfl⟩ := hthis
      rw [resolveExpr]
      exact (checkOwnField_steady name span).bind fun _ => hobject
    · rw [resolveExpr]
      · exact hobject
      · exact fun own hown => hthis ⟨own, hown⟩
  | .create path args span => by
    rw [resolveExpr]
    refine (createdClass_steady path args.length span).bind fun _ => ?_
    exact (resolveArgs_steady args []).bind fun _ => .pure _

theorem resolveArgs_steady : ∀ (args : List ScriptHost.Expr) (found : List Resolved.Expr),
    Steady (resolveArgs ctx found args)
  | [], found => by
    rw [resolveArgs]
    exact .pure _
  | arg :: rest, found => by
    rw [resolveArgs]
    exact (resolveExpr_steady arg).bind fun _ => resolveArgs_steady rest _

end

/-! ## Statements -/

theorem resolveAssign_steady (target value : ScriptHost.Expr) (span : Span) :
    Steady (resolveAssign ctx target value span) := by
  unfold resolveAssign
  refine (resolveExpr_steady value).bind fun value => ?_
  split
  · refine Steady.get.bind fun body => ?_
    split
    · exact .pure _
    · split
      · exact .pure _
      · exact .fail _ _
  · rename_i object name own
    have hobject : Steady (do
        let object ← resolveExpr ctx object
        return Resolved.Stmt.setField object name value) :=
      (resolveExpr_steady object).bind fun _ => .pure _
    split
    · exact (checkOwnField_steady name own).bind fun _ => hobject
    · exact hobject
  · exact .fail _ _

mutual

/-- A statement closes the scopes that it opens. -/
theorem resolveStmt_steady : ∀ s : ScriptHost.Stmt, Steady (resolveStmt ctx s)
  | .letVar name value span => by
    rw [resolveStmt]
    refine (resolveExpr_steady value).bind fun _ => Steady.get.bind fun body => ?_
    split
    · split
      · exact .pure _
      · exact .fail _ _
    · exact (Steady.declareLocal name span).bind fun _ => .pure _
  | .assign target value span => by
    rw [resolveStmt]
    exact resolveAssign_steady target value span
  | .ifThen condition body _ => by
    rw [resolveStmt]
    refine (resolveExpr_steady condition).bind fun _ => ?_
    exact steady_block (resolveStmts_calm body .live []) _ fun _ => .pure _
  | .ifElse condition body alternative _ => by
    rw [resolveStmt]
    refine (resolveExpr_steady condition).bind fun _ => ?_
    refine steady_block (resolveStmts_calm body .live []) _ fun _ => ?_
    exact steady_block (resolveStmts_calm alternative .live []) _ fun _ => .pure _
  | .loop condition body _ => by
    rw [resolveStmt]
    refine (resolveExpr_steady condition).bind fun _ => ?_
    exact steady_block (resolveStmts_calm body .live []) _ fun _ => .pure _
  | .ret none span => by
    rw [resolveStmt]
    split
    · exact .pure _
    · exact (Steady.fail _ _).bind fun _ => .pure _
  | .ret (some value) span => by
    have hvalue : Steady (do
        let value ← resolveExpr ctx value
        return Resolved.Stmt.ret (some value)) :=
      (resolveExpr_steady value).bind fun _ => .pure _
    rw [resolveStmt]
    split
    · exact hvalue
    · exact (Steady.fail _ _).bind fun _ => hvalue
  | .block body _ => by
    rw [resolveStmt]
    exact steady_block (resolveStmts_calm body .live []) _ fun _ => .pure _
  | .expr value => by
    rw [resolveStmt]
    exact (resolveExpr_steady value).bind fun _ => .pure _

/-- A list of statements is always resolved, and leaves no scope open. -/
theorem resolveStmts_calm : ∀ (body : List ScriptHost.Stmt) (reach : Reach)
    (found : List Resolved.Stmt), Calm (resolveStmts ctx reach found body)
  | [], reach, found => by
    rw [resolveStmts]
    exact .pure _
  | s :: rest, reach, found => by
    have hrest : Calm (do
        let resolved ← Resolver.recover (resolveStmt ctx s)
        resolveStmts ctx (reach.after s) (resolved.toList ++ found) rest) :=
      (resolveStmt_steady s).recover.bind fun _ => resolveStmts_calm rest _ _
    rw [resolveStmts]
    split
    · exact (Calm.modify fun body => body.stays_warn _ _ _).bind fun _ => hrest
    · exact hrest

end

/-! ## Units -/

namespace Progress

theorem nested_addBody {p : Progress} {depth : Nat} (h : p.top.Nested depth)
    (params : List String) (walk : Resolver (List Resolved.Stmt)) :
    (p.addBody params walk).top.Nested depth :=
  p.top.stays_diagnostics _ depth h

theorem nested_methods (ctx : Context) (methods : List FunctionDecl) {p : Progress} {depth : Nat}
    (h : p.top.Nested depth) :
    (methods.foldl (fun p method => p.addFunction ctx method) p).top.Nested depth := by
  induction methods generalizing p with
  | nil => exact h
  | cons method rest ih => exact ih (nested_addBody h _ _)

theorem nested_addStmt {p : Progress} {depth : Nat} (h : p.top.Nested depth) (ctx : Context)
    (s : ScriptHost.Stmt) : (p.addStmt ctx s).top.Nested depth := by
  unfold Progress.addStmt
  split
  · dsimp only
    cases hrun : resolveStmt ctx s p.top with
    | ok tree top => exact (resolveStmt_steady s).ok hrun depth h
    | error e top =>
      exact top.stays_diagnostics _ depth ((resolveStmt_steady s).error hrun depth h)
  · exact p.top.stays_diagnostics _ depth h

mutual

theorem nested_addItem {depth : Nat} : ∀ (item : Item) (ctx : Context) {p : Progress},
    p.top.Nested depth → (addItem ctx p item).top.Nested depth
  | .space path items _, ctx, p, h => by
    rw [addItem]
    exact nested_addItems items _ h
  | .classDecl c, ctx, p, h => by
    rw [addItem]
    have hcounted : ({ p with classes := p.classes + 1 } : Progress).top.Nested depth := h
    exact nested_methods _ c.methods (nested_addBody hcounted _ _)
  | .function f, ctx, p, h => by
    rw [addItem]
    exact nested_addBody h _ _
  | .stmt s, ctx, p, h => by
    rw [addItem]
    exact nested_addStmt h ctx s

/-- Items leave as many scopes open as there were. -/
theorem nested_addItems {depth : Nat} : ∀ (items : List Item) (ctx : Context) {p : Progress},
    p.top.Nested depth → (addItems ctx p items).top.Nested depth
  | [], _, _, h => h
  | item :: rest, ctx, p, h => by
    rw [addItems]
    exact nested_addItems rest ctx (nested_addItem item ctx h)

end

/-- Where no scope is open, it does not matter what came before. -/
theorem level_of_nested {p q : Progress} (hp : p.top.Nested 0) (hq : q.top.Nested 0) :
    Level p q := by
  have hnone {body : Body} (h : body.Nested 0) : body.scopes = [] ∧ body.nextSlot = 0 := by
    have hscopes := List.eq_nil_of_length_eq_zero h.scopes
    have hsum := h.nextSlot
    rw [hscopes, List.map_nil, List.sum_nil] at hsum
    exact ⟨hscopes, Nat.le_zero.mp hsum⟩
  obtain ⟨hscopes, hslot⟩ := hnone hp
  obtain ⟨hscopes', hslot'⟩ := hnone hq
  exact Body.alike_refl _ _ (by rw [hscopes, hscopes']) (by rw [hslot, hslot'])

end Progress

end Scope

end ScriptHost
