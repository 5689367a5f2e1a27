import ScriptHost.Proofs.Program.Build
import ScriptHost.Proofs.Scope.Bodies
import ScriptHost.Proofs.Scope.Marks
import ScriptHost.Proofs.Scope.Renaming
/-!
# Warning levels

What a unit is built from decides what it is and what is wrong with it, and the warning level only
decides which warnings are told. Two walks go through the same trees, a loud one that tells all
warnings and a quiet one at some other level. The quiet walk is the loud one with what its level
leaves out taken away, at every step: `Resolver.Hushes`. The main statement is `build_warnedAt`.
-/

set_option autoImplicit false

namespace ScriptHost

/-! ## What a level leaves out -/

/-- Whether a diagnostic is the warning of a variable that is not used. -/
def Diagnostic.warnsOfUnused (d : Diagnostic) : Bool :=
  d.severity == .warning && "The variable '".toList.isPrefixOf d.message.toList

/-- Whether a diagnostic is told at a warning level. Errors always are. -/
def Diagnostic.heard (level : Nat) (d : Diagnostic) : Bool :=
  d.isError || decide ((if d.warnsOfUnused then 2 else 1) ≤ level)

theorem ScopeWarning.level_le_two (warning : ScopeWarning) : warning.level ≤ 2 := by
  cases warning
  · exact Nat.le_refl 2
  · exact Nat.le_succ 1

theorem Diagnostic.warnsOfUnused_warning (warning : ScopeWarning) (span : Span) :
    (Diagnostic.warning warning.message span).warnsOfUnused = decide (warning.level = 2) := by
  cases warning with
  | unusedVariable name =>
    have hprefix : "The variable '".toList <+:
        (ScopeWarning.unusedVariable name).message.toList :=
      ⟨_, (String.toList_append ..).symm.trans (congrArg String.toList (String.append_assoc ..).symm)⟩
    simpa [warnsOfUnused, Diagnostic.warning, ScopeWarning.level] using hprefix
  | unreachable =>
    have hother : "The variable '".toList.isPrefixOf
        ScopeWarning.unreachable.message.toList = false := by decide +kernel
    rw [warnsOfUnused]
    exact (congrArg (_ && ·) hother).trans (Bool.and_false _)

theorem Diagnostic.heard_warning (level : Nat) (warning : ScopeWarning) (span : Span) :
    (Diagnostic.warning warning.message span).heard level = decide (warning.level ≤ level) := by
  have hlevel : (if warning.level = 2 then 2 else 1) = warning.level := by
    cases warning <;> rfl
  rw [heard, warnsOfUnused_warning]
  simp [isError, Diagnostic.warning, hlevel]

theorem Diagnostic.heard_of_isError (level : Nat) {d : Diagnostic} (h : d.isError = true) :
    d.heard level = true := by
  rw [heard, h, Bool.true_or]

namespace Body

/-- A body at a quieter level. -/
def hush (level : Nat) (body : Body) : Body :=
  { body with diagnostics := body.diagnostics.filter (Diagnostic.heard level) }

variable {level loud : Nat}

/-- An error is never left out. -/
theorem hush_push (level : Nat) (body : Body) {d : Diagnostic} (h : d.isError = true) :
    hush level { body with diagnostics := body.diagnostics.push d } =
      { body.hush level with diagnostics := (body.hush level).diagnostics.push d } := by
  simp [hush, Diagnostic.heard_of_isError level h]

/-- A warning is told where its level asks for it. -/
theorem warn_hush (hloud : 2 ≤ loud) (body : Body) (warning : ScopeWarning) (span : Span) :
    (body.hush level).warn level warning span = (body.warn loud warning span).hush level := by
  have htold : warning.level ≤ loud := Nat.le_trans warning.level_le_two hloud
  rw [warn, warn, if_pos htold]
  split
  · rename_i hlevel
    simp [hush, Diagnostic.heard_warning, hlevel]
  · rename_i hlevel
    simp [hush, Diagnostic.heard_warning, hlevel]

theorem leaveOne_hush (hloud : 2 ≤ loud) (body : Body) (l : Local) :
    leaveOne level (body.hush level) l = (leaveOne loud body l).hush level := by
  unfold leaveOne
  split
  · rfl
  · exact warn_hush hloud body _ _

theorem leave_hush (hloud : 2 ≤ loud) (body : Body) :
    (body.hush level).leave level = (body.leave loud).hush level := by
  have hall (scope : List Local) : ∀ body : Body,
      scope.foldl (leaveOne level) (body.hush level) =
        (scope.foldl (leaveOne loud) body).hush level := by
    induction scope with
    | nil => exact fun body => rfl
    | cons l rest ih =>
      intro body
      rw [List.foldl_cons, List.foldl_cons, leaveOne_hush hloud, ih]
  have hscopes : (body.hush level).scopes = body.scopes := rfl
  rw [leave_eq, leave_eq, hscopes]
  cases body.scopes with
  | nil => rfl
  | cons scope rest =>
    simp only [hall]
    rfl

end Body

/-! ## Steps -/

namespace Resolver

variable {α β : Type} {level : Nat}

/-- A step that only asks what is in scope. It changes nothing, and what has been said so far makes
no difference to it. -/
def Asks (step : Resolver α) : Prop :=
  ∀ body : Body,
    (∃ a, ∀ diagnostics, step { body with diagnostics } = .ok a { body with diagnostics }) ∨
      ∃ e span, ∀ diagnostics,
        step { body with diagnostics } = .error (ScopeError.placed e span) { body with diagnostics }

namespace Asks

theorem pure (a : α) : Asks (Pure.pure a : Resolver α) :=
  fun _ => .inl ⟨a, fun _ => rfl⟩

theorem fail (e : ScopeError) (span : Span) : Asks (Resolver.fail e span : Resolver α) :=
  fun _ => .inr ⟨e, span, fun _ => rfl⟩

theorem bind {step : Resolver α} {next : α → Resolver β} (hstep : Asks step)
    (hnext : ∀ a, Asks (next a)) : Asks (step >>= next) := by
  intro body
  obtain ⟨a, ha⟩ | ⟨e, span, he⟩ := hstep body
  · have hgo (diagnostics : Array Diagnostic) : (step >>= next) { body with diagnostics } =
        next a { body with diagnostics } := bind_of_ok (ha diagnostics)
    simp only [hgo]
    exact hnext a body
  · exact .inr ⟨e, span, fun diagnostics => bind_of_error (he diagnostics)⟩

theorem ok {step : Resolver α} (h : Asks step) {before after : Body} {a : α}
    (hok : step before = .ok a after) : after = before := by
  obtain ⟨b, hb⟩ | ⟨e, span, he⟩ := h before
  · have := (hb before.diagnostics).symm.trans hok
    cases this
    rfl
  · have := (he before.diagnostics).symm.trans hok
    cases this

end Asks

/-- The outcome of a step at a quieter level. -/
def hushed (level : Nat) :
    EStateM.Result Diagnostic Body α → EStateM.Result Diagnostic Body α
  | .ok a body => .ok a (body.hush level)
  | .error e body => .error e (body.hush level)

/-- A quiet step comes to what the loud step comes to, but for the warnings that its level leaves
out. They fail together, and then with an error. -/
structure Hushes (level : Nat) (loud quiet : Resolver α) : Prop where
  same : ∀ body : Body, quiet (body.hush level) = hushed level (loud body)
  error : ∀ {body after : Body} {e : Diagnostic}, loud body = .error e after → e.isError = true

theorem Asks.hushes {step : Resolver α} (h : Asks step) : Hushes level step step where
  same := fun body => by
    obtain ⟨a, ha⟩ | ⟨e, span, he⟩ := h body
    · exact (ha _).trans (congrArg (hushed level) (ha body.diagnostics)).symm
    · exact (he _).trans (congrArg (hushed level) (he body.diagnostics)).symm
  error := fun {body after d} herror => by
    obtain ⟨a, ha⟩ | ⟨e, span, he⟩ := h body
    · have := (ha body.diagnostics).symm.trans herror
      cases this
    · have := (he body.diagnostics).symm.trans herror
      cases this
      rfl

namespace Hushes

theorem pure (a : α) : Hushes level (Pure.pure a) (Pure.pure a) :=
  (Asks.pure a).hushes

theorem fail (e : ScopeError) (span : Span) :
    Hushes level (Resolver.fail e span : Resolver α) (Resolver.fail e span) :=
  (Asks.fail e span).hushes

theorem bind {loud quiet : Resolver α} {next next' : α → Resolver β}
    (h : Hushes level loud quiet) (hnext : ∀ a, Hushes level (next a) (next' a)) :
    Hushes level (loud >>= next) (quiet >>= next') where
  same := fun body => by
    have hfirst := h.same body
    cases hloud : loud body with
    | ok a after =>
      rw [hloud] at hfirst
      rw [bind_of_ok hloud, bind_of_ok hfirst]
      exact (hnext a).same after
    | error e after =>
      rw [hloud] at hfirst
      rw [bind_of_error hloud, bind_of_error hfirst]
      rfl
  error := fun herror => by
    obtain hfirst | ⟨a, middle, -, hsecond⟩ := bind_eq_error.mp herror
    · exact h.error hfirst
    · exact (hnext a).error hsecond

/-- Two steps that look at the body first. -/
theorem look {next next' : Body → Resolver α}
    (h : ∀ body : Body, Hushes level (next body) (next' (body.hush level))) :
    Hushes level (MonadState.get >>= next) (MonadState.get >>= next') where
  same := fun body => (h body).same body
  error := fun {body _ _} herror => (h body).error herror

/-- A change of the body that what is left out has no part in. -/
theorem change {f f' : Body → Body} (h : ∀ body : Body, f' (body.hush level) = (f body).hush level) :
    Hushes level (modify f : Resolver PUnit) (modify f') where
  same := fun body => congrArg (EStateM.Result.ok PUnit.unit) (h body)
  error := fun herror => by cases herror

theorem markUsed (name : String) :
    Hushes level (modify (·.markUsed name) : Resolver PUnit) (modify (·.markUsed name)) :=
  .change fun _ => rfl

theorem enter : Hushes level (modify Body.enter : Resolver PUnit) (modify Body.enter) :=
  .change fun _ => rfl

theorem leave {loud : Nat} (hloud : 2 ≤ loud) :
    Hushes level (modify fun body => body.leave loud : Resolver PUnit)
      (modify fun body => body.leave level) :=
  .change (Body.leave_hush hloud)

theorem warn {loud : Nat} (hloud : 2 ≤ loud) (warning : ScopeWarning) (span : Span) :
    Hushes level (modify fun body => body.warn loud warning span : Resolver PUnit)
      (modify fun body => body.warn level warning span) :=
  .change fun body => body.warn_hush hloud warning span

theorem put (body : Body) :
    Hushes level (set body : Resolver PUnit) (set (body.hush level)) where
  same := fun _ => rfl
  error := fun herror => by cases herror

theorem recover {loud quiet : Resolver α} (h : Hushes level loud quiet) :
    Hushes level (Resolver.recover loud) (Resolver.recover quiet) where
  same := fun body => by
    unfold Resolver.recover
    rw [h.same]
    cases hloud : loud body with
    | ok a after => rfl
    | error e after =>
      exact congrArg (EStateM.Result.ok none) (after.hush_push level (h.error hloud)).symm
  error := fun {body after e} herror => by
    unfold Resolver.recover at herror
    cases hloud : loud body with
    | ok a middle =>
      rw [hloud] at herror
      cases herror
    | error d middle =>
      rw [hloud] at herror
      cases herror

theorem mapM {step step' : α → Resolver β} (h : ∀ a, Hushes level (step a) (step' a)) :
    ∀ list : List α, Hushes level (list.mapM step) (list.mapM step')
  | [] => by
    rw [List.mapM_nil, List.mapM_nil]
    exact .pure _
  | a :: rest => by
    rw [List.mapM_cons, List.mapM_cons]
    exact (h a).bind fun _ => (mapM h rest).bind fun _ => .pure _

theorem declareLocal (name : String) (span : Span) :
    Hushes level (Resolver.declareLocal name span) (Resolver.declareLocal name span) := by
  refine .look fun body => ?_
  have hscopes : (body.hush level).scopes = body.scopes := rfl
  simp only [hscopes]
  cases body.scopes with
  | nil => exact .fail _ _
  | cons scope rest =>
    dsimp only
    split
    · exact .fail _ _
    · change Hushes level _ (if body.nextSlot < maxLocals then _ else _)
      split
      · exact (Hushes.put _).bind fun _ => .pure _
      · exact (Hushes.put _).bind fun _ => .fail _ _

end Hushes

end Resolver

/-- The same environment with another warning level. -/
def Env.warnedAt (env : Env) (warningLevel : Nat) : Env :=
  { env with warningLevel }

namespace Scope

open Resolver

/-- The same context with another warning level. -/
def Context.warnedAt (ctx : Context) (level : Nat) : Context :=
  { ctx with env := ctx.env.warnedAt level }

/-! ## What only asks -/

section Asking

variable (ctx : Context)

theorem isVariable_asks (name : String) : Asks (isVariable ctx name) :=
  fun body => .inl ⟨(body.findLocal? name).isSome || (ctx.global? name).isSome, fun _ => rfl⟩

theorem currentClass_asks (span : Span) : Asks (currentClass ctx span) := by
  unfold currentClass
  split
  · exact .pure _
  · exact .fail _ _

theorem checkOwnField_asks (name : String) (span : Span) : Asks (checkOwnField ctx name span) := by
  unfold checkOwnField
  refine (currentClass_asks ctx span).bind fun c => ?_
  split
  · exact .pure _
  · exact .fail _ _

theorem checkArity_asks (function given : Nat) (span : Span) :
    Asks (checkArity ctx function given span) := by
  unfold checkArity
  dsimp only
  split
  · exact .pure _
  · exact .fail _ _

theorem bareCallee_asks (name : String) (argc : Nat) (span : Span) :
    Asks (bareCallee ctx name argc span) := by
  unfold bareCallee
  split
  · exact (checkArity_asks ctx _ argc span).bind fun _ => .pure _
  · refine (isVariable_asks ctx name).bind fun found => ?_
    split <;> exact .fail _ _

theorem dottedFunction_asks (path : List String) (object : Expr) (method : String) (argc : Nat)
    (span : Span) : Asks (dottedFunction ctx path object method argc span) := by
  unfold dottedFunction
  dsimp only
  split
  · exact (checkArity_asks ctx _ argc span).bind fun _ => .pure _
  · split <;> exact .fail _ _

theorem dottedCallee_asks (path : List String) (object : Expr) (method : String) (argc : Nat)
    (span : Span) : Asks (dottedCallee ctx path object method argc span) := by
  unfold dottedCallee
  split
  · split
    · split
      · exact .pure _
      · exact .fail _ _
    · exact .fail _ _
    · exact .fail _ _
    · exact .fail _ _
    · exact dottedFunction_asks ctx _ object method argc span
  · exact dottedFunction_asks ctx _ object method argc span

theorem valueCallee_asks (object : Expr) (method : String) (argc : Nat) (span : Span) :
    Asks (valueCallee ctx object method argc span) := by
  unfold valueCallee
  split
  · refine (currentClass_asks ctx _).bind fun c => ?_
    split
    · exact (checkArity_asks ctx _ argc span).bind fun _ => .pure _
    · exact .fail _ _
  · exact .pure _

theorem callee_asks (object : Expr) (method : String) (argc : Nat) (span : Span) :
    Asks (callee ctx object method argc span) := by
  unfold callee
  split
  · refine (isVariable_asks ctx _).bind fun found => ?_
    split
    · exact valueCallee_asks ctx object method argc span
    · exact dottedCallee_asks ctx _ object method argc span
  · exact valueCallee_asks ctx object method argc span

theorem createdClass_asks (path : List String) (argc : Nat) (span : Span) :
    Asks (createdClass ctx path argc span) := by
  unfold createdClass
  dsimp only
  cases ctx.class? path with
  | none => exact .fail _ _
  | some id =>
    dsimp only
    split
    · split
      · exact .pure _
      · exact .fail _ _
    · split
      · exact .pure _
      · exact .fail _ _

end Asking

/-! ## Expressions and statements -/

variable {ctx : Context} {level : Nat}

theorem resolveIdent_hushes (name : String) (span : Span) :
    Hushes level (resolveIdent ctx name span) (resolveIdent (ctx.warnedAt level) name span) := by
  refine .look fun body => ?_
  have hfound : (body.hush level).findLocal? name = body.findLocal? name := rfl
  rw [hfound]
  cases body.findLocal? name with
  | some l => exact (Hushes.markUsed name).bind fun _ => .pure _
  | none =>
    refine Asks.hushes ?_
    dsimp only
    split
    · exact .pure _
    · split <;> exact .fail _ _

mutual

/-- No expression is a reason to warn. -/
theorem resolveExpr_hushes : ∀ e : Expr,
    Hushes level (resolveExpr ctx e) (resolveExpr (ctx.warnedAt level) e)
  | .int _ _ | .float _ _ | .str _ _ | .bool _ _ | .null _ => by
    rw [resolveExpr, resolveExpr]
    exact .pure _
  | .this span => by
    rw [resolveExpr, resolveExpr]
    exact (currentClass_asks ctx span).hushes.bind fun _ => .pure _
  | .ident name span => by
    rw [resolveExpr, resolveExpr]
    exact resolveIdent_hushes name span
  | .binary op left right _ => by
    rw [resolveExpr, resolveExpr]
    exact (resolveExpr_hushes left).bind fun _ => (resolveExpr_hushes right).bind fun _ => .pure _
  | .unary op operand _ => by
    rw [resolveExpr, resolveExpr]
    exact (resolveExpr_hushes operand).bind fun _ => .pure _
  | .call name args span => by
    rw [resolveExpr, resolveExpr]
    exact (bareCallee_asks ctx name args.length span).hushes.bind fun _ =>
      (resolveArgs_hushes args []).bind fun _ => .pure _
  | .methodCall object method args span => by
    rw [resolveExpr, resolveExpr]
    refine (callee_asks ctx object method args.length span).hushes.bind fun callee => ?_
    cases callee with
    | host module function => exact (resolveArgs_hushes args []).bind fun _ => .pure _
    | function id => exact (resolveArgs_hushes args []).bind fun _ => .pure _
    | method =>
      exact (resolveExpr_hushes object).bind fun _ =>
        (resolveArgs_hushes args []).bind fun _ => .pure _
  | .field object name span => by
    have hobject : Hushes level
        (do let object ← resolveExpr ctx object; return Resolved.Expr.getField object name)
        (do
          let object ← resolveExpr (ctx.warnedAt level) object
          return Resolved.Expr.getField object name) :=
      (resolveExpr_hushes object).bind fun _ => .pure _
    by_cases hthis : ∃ place, object = .this place
    · obtain ⟨place, rfl⟩ := hthis
      rw [resolveExpr, resolveExpr]
      exact (checkOwnField_asks ctx name span).hushes.bind fun _ => hobject
    · rw [resolveExpr, resolveExpr]
      · exact hobject
      all_goals exact fun place hplace => hthis ⟨place, hplace⟩
  | .create path args span => by
    rw [resolveExpr, resolveExpr]
    exact (createdClass_asks ctx path args.length span).hushes.bind fun _ =>
      (resolveArgs_hushes args []).bind fun _ => .pure _

/-- No argument is. -/
theorem resolveArgs_hushes : ∀ (args : List Expr) (found : List Resolved.Expr),
    Hushes level (resolveArgs ctx found args) (resolveArgs (ctx.warnedAt level) found args)
  | [], found => by
    rw [resolveArgs, resolveArgs]
    exact .pure _
  | arg :: rest, found => by
    rw [resolveArgs, resolveArgs]
    exact (resolveExpr_hushes arg).bind fun tree => resolveArgs_hushes rest (tree :: found)

end

theorem resolveAssign_hushes (target value : Expr) (span : Span) :
    Hushes level (resolveAssign ctx target value span)
      (resolveAssign (ctx.warnedAt level) target value span) := by
  unfold resolveAssign
  refine (resolveExpr_hushes value).bind fun value => ?_
  split
  · rename_i name own
    refine .look fun body => ?_
    refine Asks.hushes ?_
    split
    · exact .pure _
    · split
      · exact .pure _
      · exact .fail _ _
  · rename_i object name own
    have hobject : Hushes level
        (do let object ← resolveExpr ctx object; return Resolved.Stmt.setField object name value)
        (do
          let object ← resolveExpr (ctx.warnedAt level) object
          return Resolved.Stmt.setField object name value) :=
      (resolveExpr_hushes object).bind fun _ => .pure _
    split
    · exact (checkOwnField_asks ctx name own).hushes.bind fun _ => hobject
    · exact hobject
  · exact .fail _ _

/-- A block, where the loud walk tells all warnings. -/
theorem block_hushes {α β : Type} (hloud : 2 ≤ ctx.env.warningLevel) {walk walk' : Resolver α}
    (h : Hushes level walk walk') {next next' : α → Resolver β}
    (hnext : ∀ a, Hushes level (next a) (next' a)) :
    Hushes level
      (do
        modify Body.enter
        let a ← walk
        modify fun body => body.leave ctx.env.warningLevel
        next a)
      (do
        modify Body.enter
        let a ← walk'
        modify fun body => body.leave (ctx.warnedAt level).env.warningLevel
        next' a) :=
  Hushes.enter.bind fun _ => h.bind fun a => (Hushes.leave hloud).bind fun _ => hnext a

mutual

/-- A statement comes to the same at every level. -/
theorem resolveStmt_hushes (hloud : 2 ≤ ctx.env.warningLevel) : ∀ s : Stmt,
    Hushes level (resolveStmt ctx s) (resolveStmt (ctx.warnedAt level) s)
  | .letVar name value span => by
    rw [resolveStmt, resolveStmt]
    refine (resolveExpr_hushes value).bind fun _ => .look fun body => ?_
    change Hushes level _ (if body.scopes.isEmpty = true then _ else _)
    split
    · refine Asks.hushes ?_
      split
      · exact .pure _
      · exact .fail _ _
    · exact (Hushes.declareLocal name span).bind fun _ => .pure _
  | .assign target value span => by
    rw [resolveStmt, resolveStmt]
    exact resolveAssign_hushes target value span
  | .ifThen condition body _ => by
    rw [resolveStmt, resolveStmt]
    exact (resolveExpr_hushes condition).bind fun _ =>
      block_hushes hloud (resolveStmts_hushes hloud body .live []) fun _ => .pure _
  | .ifElse condition body alternative _ => by
    rw [resolveStmt, resolveStmt]
    exact (resolveExpr_hushes condition).bind fun _ =>
      block_hushes hloud (resolveStmts_hushes hloud body .live []) fun _ =>
        block_hushes hloud (resolveStmts_hushes hloud alternative .live []) fun _ => .pure _
  | .loop condition body _ => by
    rw [resolveStmt, resolveStmt]
    exact (resolveExpr_hushes condition).bind fun _ =>
      block_hushes hloud (resolveStmts_hushes hloud body .live []) fun _ => .pure _
  | .ret none span => by
    rw [resolveStmt, resolveStmt]
    change Hushes level _ (if ctx.inFunction = true then _ else _)
    split
    · exact .pure _
    · exact (Hushes.fail _ _).bind fun _ => .pure _
  | .ret (some value) span => by
    have hvalue : Hushes level
        (do return Resolved.Stmt.ret (some (← resolveExpr ctx value)))
        (do return Resolved.Stmt.ret (some (← resolveExpr (ctx.warnedAt level) value))) :=
      (resolveExpr_hushes value).bind fun _ => .pure _
    rw [resolveStmt, resolveStmt]
    change Hushes level _ (if ctx.inFunction = true then _ else _)
    split
    · exact hvalue
    · exact (Hushes.fail _ _).bind fun _ => hvalue
  | .block body _ => by
    rw [resolveStmt, resolveStmt]
    exact block_hushes hloud (resolveStmts_hushes hloud body .live []) fun _ => .pure _
  | .expr value => by
    rw [resolveStmt, resolveStmt]
    exact (resolveExpr_hushes value).bind fun _ => .pure _

/-- So do several statements. -/
theorem resolveStmts_hushes (hloud : 2 ≤ ctx.env.warningLevel) :
    ∀ (body : List Stmt) (reach : Reach) (found : List Resolved.Stmt),
      Hushes level (resolveStmts ctx reach found body)
        (resolveStmts (ctx.warnedAt level) reach found body)
  | [], reach, found => by
    rw [resolveStmts, resolveStmts]
    exact .pure _
  | s :: rest, reach, found => by
    have hrest : Hushes level
        (do
          let resolved ← Resolver.recover (resolveStmt ctx s)
          resolveStmts ctx (reach.after s) (resolved.toList ++ found) rest)
        (do
          let resolved ← Resolver.recover (resolveStmt (ctx.warnedAt level) s)
          resolveStmts (ctx.warnedAt level) (reach.after s) (resolved.toList ++ found) rest) :=
      (resolveStmt_hushes hloud s).recover.bind fun _ => resolveStmts_hushes hloud rest _ _
    rw [resolveStmts, resolveStmts]
    split
    · exact (Hushes.warn hloud .unreachable s.span).bind fun _ => hrest
    · exact hrest

end

/-! ## Units -/

namespace Progress

/-- How far the walk through a unit has come, at a quieter level. -/
def hush (level : Nat) (p : Progress) : Progress :=
  { p with top := p.top.hush level }

theorem addBody_hush (p : Progress) (params : List String)
    {loud quiet : Resolver (List Resolved.Stmt)} (h : Hushes level loud quiet) :
    (p.hush level).addBody params quiet = (p.addBody params loud).hush level := by
  have hstart : Body.ofParams params (p.hush level).top.diagnostics =
      (Body.ofParams params p.top.diagnostics).hush level := rfl
  unfold Progress.addBody
  dsimp only
  rw [hstart, h.same]
  cases hloud : loud (Body.ofParams params p.top.diagnostics) with
  | ok stmts body => rfl
  | error e body =>
    have hpush := congrArg Body.diagnostics (body.hush_push level (h.error hloud))
    simp only [hushed, hush, Body.hush] at hpush ⊢
    rw [hpush]

theorem addFunction_hush (hloud : 2 ≤ ctx.env.warningLevel) (p : Progress) (f : FunctionDecl) :
    (p.hush level).addFunction (ctx.warnedAt level) f = (p.addFunction ctx f).hush level := by
  let inner : Context := { ctx with inFunction := true }
  have hinner : 2 ≤ inner.env.warningLevel := hloud
  have hbody : Hushes level (resolveStmts inner .live [] f.body)
      (resolveStmts (inner.warnedAt level) .live [] f.body) :=
    resolveStmts_hushes hinner f.body .live []
  exact p.addBody_hush f.params (hbody.bind fun _ => (Hushes.leave hloud).bind fun _ => .pure _)

theorem fieldAssignment_hushes (field : FieldDecl) :
    Hushes level (fieldAssignment ctx field) (fieldAssignment (ctx.warnedAt level) field) := by
  unfold fieldAssignment
  split
  · exact .pure _
  · exact ((resolveExpr_hushes _).bind fun _ => .pure _).recover

theorem addMethods_hush (level : Nat) (hloud : 2 ≤ ctx.env.warningLevel) (methods : List FunctionDecl) :
    ∀ p : Progress,
      methods.foldl (fun p method => p.addFunction (ctx.warnedAt level) method) (p.hush level) =
        (methods.foldl (fun p method => p.addFunction ctx method) p).hush level := by
  induction methods with
  | nil => exact fun p => rfl
  | cons method rest ih =>
    intro p
    rw [List.foldl_cons, List.foldl_cons, addFunction_hush hloud, ih]

theorem addClass_hush (hloud : 2 ≤ ctx.env.warningLevel) (p : Progress) (c : ClassDecl) :
    (p.hush level).addClass (ctx.warnedAt level) c = (p.addClass ctx c).hush level := by
  let inner : Context := { ctx with
    member := some (ctx.declared.classBase + p.classes), inFunction := true }
  have hfields : Hushes level
      (do
        let assignments ← c.fields.mapM (fieldAssignment inner)
        return assignments.filterMap id)
      (do
        let assignments ← c.fields.mapM (fieldAssignment (inner.warnedAt level))
        return assignments.filterMap id) :=
    (Hushes.mapM fieldAssignment_hushes c.fields).bind fun _ => .pure _
  have hbody := addBody_hush { p with classes := p.classes + 1 } [] hfields
  have hinner : 2 ≤ inner.env.warningLevel := hloud
  have hmethods := addMethods_hush level hinner c.methods
    (Progress.addBody { p with classes := p.classes + 1 } [] do
      let assignments ← c.fields.mapM (fieldAssignment inner)
      return assignments.filterMap id)
  rw [← hbody] at hmethods
  exact hmethods

theorem addStmt_hush (hloud : 2 ≤ ctx.env.warningLevel) (p : Progress) (s : Stmt) :
    (p.hush level).addStmt (ctx.warnedAt level) s = (p.addStmt ctx s).hush level := by
  have hwalk : Hushes level (resolveStmt ctx s) (resolveStmt (ctx.warnedAt level) s) :=
    resolveStmt_hushes hloud s
  unfold Progress.addStmt
  change (if ctx.space.isEmpty = true then _ else _) = _
  split
  · dsimp only
    rw [show (p.hush level).top = p.top.hush level from rfl, hwalk.same]
    cases hresult : resolveStmt ctx s p.top with
    | ok tree top => rfl
    | error e top =>
      have hpush := top.hush_push level (hwalk.error hresult)
      simp only [hushed, hush]
      rw [hpush]
  · have herror : (ScopeError.statementInNamespace.placed s.span).isError = true := rfl
    have hpush := p.top.hush_push level herror
    simp only [hush]
    rw [hpush]

mutual

/-- An item comes to the same at every level. -/
theorem addItem_hush (level : Nat) : ∀ (item : Item) (ctx : Context), 2 ≤ ctx.env.warningLevel →
    ∀ p : Progress, addItem (ctx.warnedAt level) (p.hush level) item =
      (addItem ctx p item).hush level
  | .space path items _, ctx, hloud, p => by
    rw [addItem, addItem]
    exact addItems_hush level items { ctx with space := ctx.space ++ path } hloud p
  | .classDecl c, _, hloud, p => by
    rw [addItem, addItem]
    exact addClass_hush hloud p c
  | .function f, _, hloud, p => by
    rw [addItem, addItem]
    exact addFunction_hush hloud p f
  | .stmt s, _, hloud, p => by
    rw [addItem, addItem]
    exact addStmt_hush hloud p s

/-- So do several items. -/
theorem addItems_hush (level : Nat) : ∀ (items : List Item) (ctx : Context),
    2 ≤ ctx.env.warningLevel → ∀ p : Progress,
      addItems (ctx.warnedAt level) (p.hush level) items = (addItems ctx p items).hush level
  | [], _, _, _ => by
    rw [addItems, addItems]
  | item :: rest, ctx, hloud, p => by
    rw [addItems, addItems, addItem_hush level item ctx hloud, addItems_hush level rest ctx hloud]

end

end Progress

end Scope

/-! ## Declarations -/

namespace Declarations

/-- All that is said of what is declared are errors. -/
def OnlyErrors (d : Declarations) : Prop :=
  ∀ e ∈ d.diagnostics, e.isError = true

namespace OnlyErrors

variable {d : Declarations}

theorem report (h : d.OnlyErrors) (e : ScopeError) (span : Span) : (d.report e span).OnlyErrors := by
  intro other hother
  obtain hother | rfl := Array.mem_push.mp hother
  · exact h other hother
  · rfl

theorem addFunction (h : d.OnlyErrors) (space : List String) (f : FunctionDecl) :
    (d.addFunction space f).OnlyErrors := by
  unfold Declarations.addFunction
  dsimp only
  split
  · exact OnlyErrors.report h _ _
  · exact h

theorem addFields (h : d.OnlyErrors) (className : String) (fields : List FieldDecl) :
    (d.addFields className fields).2.OnlyErrors := by
  refine List.foldlRecOn (motive := fun found : List String × Declarations => found.2.OnlyErrors)
    fields _ h ?_
  intro found hfound field _
  dsimp only
  split
  · exact hfound.report _ _
  · exact hfound

theorem addMethods (h : d.OnlyErrors) (className : String) (fields : List String)
    (methods : List FunctionDecl) : (d.addMethods className fields methods).2.OnlyErrors := by
  refine List.foldlRecOn (motive := fun found : Table Nat × Declarations => found.2.OnlyErrors)
    methods _ h ?_
  intro found hfound method _
  dsimp only
  split
  · exact OnlyErrors.report hfound _ _
  · exact hfound

theorem addClass (h : d.OnlyErrors) (space : List String) (c : ClassDecl) :
    (d.addClass space c).OnlyErrors := by
  have hpushed (name : String) : (d.pushFunction (name ++ ".<fields>") 0).OnlyErrors := h
  have hfields (name : String) := (hpushed name).addFields name c.fields
  unfold Declarations.addClass
  dsimp only
  split
  · exact OnlyErrors.report ((hfields _).addMethods _ _ c.methods) _ _
  · exact (hfields _).addMethods _ _ c.methods

theorem addGlobal (h : d.OnlyErrors) (program : Program) (name : String) (span : Span) :
    (d.addGlobal program name span).OnlyErrors := by
  unfold Declarations.addGlobal
  split
  · exact h.report _ _
  · split <;> exact h

mutual

theorem addItem (program : Program) : ∀ (item : Item) (space : List String) {d : Declarations},
    d.OnlyErrors → (Declarations.addItem program space d item).OnlyErrors
  | .space path items _, space, _, h => by
    rw [Declarations.addItem]
    exact addItems program items (space ++ path) h
  | .classDecl c, space, _, h => by
    rw [Declarations.addItem]
    exact h.addClass space c
  | .function f, space, _, h => by
    rw [Declarations.addItem]
    exact h.addFunction space f
  | .stmt s, space, _, h => by
    cases s with
    | letVar name value span =>
      rw [Declarations.addItem]
      split
      · exact h.addGlobal program name span
      · exact h
    | _ => exact h

theorem addItems (program : Program) : ∀ (items : List Item) (space : List String)
    {d : Declarations}, d.OnlyErrors → (Declarations.addItems program space d items).OnlyErrors
  | [], _, _, h => h
  | item :: rest, space, _, h => by
    rw [Declarations.addItems]
    exact addItems program rest space (addItem program item space h)

end

end OnlyErrors

theorem onlyErrors_ofTexts (program : Program) (texts : List (List Item)) :
    (ofTexts program texts).OnlyErrors := by
  refine List.foldlRecOn (motive := OnlyErrors) texts _ (by exact nofun) ?_
  exact fun d hd items _ => hd.addItems program items []

end Declarations

/-- Names are resolved alike at every level: from the diagnostics at a level at which all warnings
are told, another level only leaves some out. -/
theorem resolve_warnedAt (texts : List (List Item)) {env : Env} (hloud : 2 ≤ env.warningLevel)
    (level : Nat) :
    resolve texts (env.warnedAt level) =
      ((resolve texts env).1, (resolve texts env).2.filter (Diagnostic.heard level)) := by
  let ctx : Scope.Context := { env, declared := Declarations.ofTexts env.program texts }
  let start : Scope.Progress := { top := { diagnostics := ctx.declared.diagnostics } }
  have hstart : start.hush level = start := by
    have hall : ctx.declared.diagnostics.filter (Diagnostic.heard level) =
        ctx.declared.diagnostics :=
      Array.filter_eq_self.mpr fun d hd => Diagnostic.heard_of_isError level
        (Declarations.onlyErrors_ofTexts env.program texts d hd)
    simp only [start, Scope.Progress.hush, Body.hush, hall]
  have hwalk : texts.foldl (fun p items => Scope.Progress.addItems (ctx.warnedAt level) p items)
      start = (texts.foldl (fun p items => Scope.Progress.addItems ctx p items) start).hush
        level := by
    rw [Scope.Progress.foldl_addItems, Scope.Progress.foldl_addItems]
    exact (congrArg (Scope.Progress.addItems _ · _) hstart.symm).trans
      (Scope.Progress.addItems_hush level texts.flatten ctx hloud start)
  unfold resolve
  dsimp only
  erw [hwalk]
  refine Prod.ext rfl ?_
  exact Array.toList_filter

end ScriptHost
