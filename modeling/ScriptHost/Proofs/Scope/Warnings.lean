import ScriptHost.Proofs.Scope.Distinct
import ScriptHost.Proofs.Scope.Levels
/-!
# What is warned of

Which variables are never used, and which statements are never reached, said of the syntax alone. A
variable is used if its name is read where it is in scope and means it: `Stmt.readsAll` are the
names that statements read of variables that they do not declare themselves. An assignment is no
reading. A walk without errors warns of exactly the variables that are not used and of the first
statement behind a `return` of each list: `Scope.resolveStmts_tells`.
-/

set_option autoImplicit false

namespace ScriptHost

/-! ## What is read -/

mutual

/-- The names that are read in an expression. What is called by its name alone is a function, and
what is created is a class, so these names are not among them. -/
def Expr.reads : Expr → List String
  | .ident name _ => [name]
  | .binary _ left right _ => left.reads ++ right.reads
  | .unary _ operand _ => operand.reads
  | .call _ args _ => Expr.readsAll args
  | .methodCall object _ args _ => object.reads ++ Expr.readsAll args
  | .field object _ _ => object.reads
  | .create _ args _ => Expr.readsAll args
  | .int .. | .float .. | .str .. | .bool .. | .null _ | .this _ => []

/-- The names that are read in several expressions. -/
def Expr.readsAll : List Expr → List String
  | [] => []
  | e :: rest => e.reads ++ Expr.readsAll rest

end

/-- The names that are read where something is assigned to an expression: those of the object, if it
is a field. A variable that is assigned is not read. -/
def Expr.targetReads : Expr → List String
  | .field object _ _ => object.reads
  | _ => []

mutual

/-- The names that a statement reads of variables that are declared outside of it. -/
def Stmt.reads : Stmt → List String
  | .letVar _ value _ => value.reads
  | .assign target value _ => value.reads ++ target.targetReads
  | .ifThen condition body _ => condition.reads ++ Stmt.readsAll body
  | .ifElse condition body alternative _ =>
    condition.reads ++ (Stmt.readsAll body ++ Stmt.readsAll alternative)
  | .loop condition body _ => condition.reads ++ Stmt.readsAll body
  | .ret none _ => []
  | .ret (some value) _ => value.reads
  | .block body _ => Stmt.readsAll body
  | .expr value => value.reads

/-- The names that statements read of variables that are declared outside of them. What one of them
declares is in scope behind it. -/
def Stmt.readsAll : List Stmt → List String
  | [] => []
  | s :: rest => s.reads ++ (Stmt.readsAll rest).filter (· ∉ s.declares)

end

/-! ## What is warned of -/

mutual

/-- The lists of statements in a statement, each of which is a scope. -/
def Stmt.lists : Stmt → List (List Stmt)
  | .ifThen _ body _ => body :: Stmt.listsAll body
  | .ifElse _ body alternative _ =>
    (body :: Stmt.listsAll body) ++ (alternative :: Stmt.listsAll alternative)
  | .loop _ body _ => body :: Stmt.listsAll body
  | .block body _ => body :: Stmt.listsAll body
  | .letVar .. | .assign .. | .ret .. | .expr _ => []

/-- The lists of statements in several statements. -/
def Stmt.listsAll : List Stmt → List (List Stmt)
  | [] => []
  | s :: rest => s.lists ++ Stmt.listsAll rest

end

/-- The warnings of the variables of a list of statements, one for each that is declared in the list
itself and not read behind its declaration. -/
def unusedIn : List Stmt → List Diagnostic
  | [] => []
  | .letVar name _ span :: rest =>
    if name ∈ Stmt.readsAll rest then unusedIn rest
    else .warning (ScopeWarning.unusedVariable name).message span :: unusedIn rest
  | _ :: rest => unusedIn rest

/-- The warning of the first statement behind a `return`, if there is one. -/
def unreachableIn (body : List Stmt) : List Diagnostic :=
  (body.dropWhile fun s => !s.isReturn).tail.head?.toList.map fun s =>
    .warning ScopeWarning.unreachable.message s.span

/-- The warnings of a list of statements, but not of the lists inside its statements. -/
def warningsIn (body : List Stmt) : List Diagnostic :=
  unusedIn body ++ unreachableIn body

/-! ## Marking -/

namespace Body

/-- Notes that the variables of names are used. -/
def markAll (names : List String) (scopes : List (List Local)) : List (List Local) :=
  names.foldl (fun scopes name => markIn name scopes) scopes

/-- Brings variables into the innermost scope, the newest of which comes first. -/
def bring (news : List Local) : List (List Local) → List (List Local)
  | [] => []
  | scope :: rest => (news ++ scope) :: rest

theorem bring_nil (scopes : List (List Local)) : bring [] scopes = scopes := by
  cases scopes <;> rfl

theorem bring_bring (news olds : List Local) (scopes : List (List Local)) :
    bring news (bring olds scopes) = bring (news ++ olds) scopes := by
  cases scopes with
  | nil => rfl
  | cons scope rest => rw [bring, bring, bring, List.append_assoc]

theorem markAll_append (front rest : List String) (scopes : List (List Local)) :
    markAll (front ++ rest) scopes = markAll rest (markAll front scopes) :=
  List.foldl_append

/-- A name that stands for no variable marks none. -/
theorem markIn_eq_self {name : String} {body : Body} (h : body.findLocal? name = none) :
    markIn name body.scopes = body.scopes := by
  unfold findLocal? at h
  generalize body.scopes = scopes at h ⊢
  induction scopes with
  | nil => rfl
  | cons scope rest ih =>
    rw [List.findSome?_cons] at h
    cases hfirst : scope.find? (·.name == name) with
    | some l =>
      rw [hfirst] at h
      cases h
    | none =>
      rw [hfirst] at h
      have hany : scope.any (·.name == name) = false := by
        rw [List.find?_eq_none] at hfirst
        exact List.any_eq_false.mpr hfirst
      rw [markIn, hany, if_neg Bool.false_ne_true, ih h]

theorem markIn_bring (name : String) (l : Local) (scopes : List (List Local)) :
    markIn name (bring [l] scopes) =
      if l.name = name then bring [{ l with used := true }] scopes
      else bring [l] (markIn name scopes) := by
  cases scopes with
  | nil => simp [bring, markIn]
  | cons scope rest =>
    simp only [bring, markIn, List.singleton_append, List.any_cons, markFirst]
    by_cases hname : l.name = name
    · simp [hname]
    · simp only [beq_eq_false_iff_ne.mpr hname, Bool.false_or, if_neg hname]
      split <;> rfl

/-- A new variable takes the readings of its name, and leaves the others to what was there. -/
theorem markAll_bring (names : List String) (l : Local) (scopes : List (List Local)) :
    markAll names (bring [l] scopes) =
      bring [{ l with used := l.used || decide (l.name ∈ names) }]
        (markAll (names.filter (· ≠ l.name)) scopes) := by
  induction names generalizing l scopes with
  | nil => simp [markAll]
  | cons name rest ih =>
    rw [markAll, List.foldl_cons, markIn_bring]
    by_cases hname : l.name = name
    · rw [if_pos hname, ← markAll, ih]
      simp [hname]
    · rw [if_neg hname, ← markAll, ih]
      have hother : name ≠ l.name := Ne.symm hname
      simp [hname, hother, markAll]

theorem markAll_enter (names : List String) (scopes : List (List Local)) :
    markAll names ([] :: scopes) = [] :: markAll names scopes := by
  induction names generalizing scopes with
  | nil => rfl
  | cons name rest ih => exact ih (markIn name scopes)

theorem markAll_nil (names : List String) : markAll names [] = [] := by
  induction names with
  | nil => rfl
  | cons name rest ih => exact ih

/-- Where all variables count as used already, nothing changes. -/
theorem markFirst_used {scope : List Local} (h : ∀ l ∈ scope, l.used = true) (name : String) :
    markFirst name scope = scope := by
  induction scope with
  | nil => rfl
  | cons l rest ih =>
    obtain ⟨hl, hrest⟩ := List.forall_mem_cons.mp h
    rw [markFirst, ih hrest, ← hl]
    split <;> rfl

theorem markAll_used {scope : List Local} (h : ∀ l ∈ scope, l.used = true) (names : List String) :
    markAll names [scope] = [scope] := by
  induction names with
  | nil => rfl
  | cons name rest ih =>
    rw [markAll, List.foldl_cons, markIn, markFirst_used h]
    change markAll rest (if _ then [scope] else [scope]) = _
    rw [ite_self, ih]

end Body

/-! ## Expressions -/

namespace Resolver

variable {α β : Type}

/-- A step that does nothing but note that the variables of certain names are used. -/
structure Marks (names : List String) (step : Resolver α) : Prop where
  ok : ∀ {before after : Body} {a : α}, step before = .ok a after →
    after = { before with scopes := Body.markAll names before.scopes }

theorem Asks.marks {step : Resolver α} (h : Asks step) : Marks [] step :=
  ⟨h.ok⟩

namespace Marks

theorem pure (a : α) : Marks [] (Pure.pure a : Resolver α) :=
  (Asks.pure a).marks

theorem fail (names : List String) (e : ScopeError) (span : Span) :
    Marks names (Resolver.fail e span : Resolver α) :=
  ⟨fun h => by cases h⟩

theorem bind {front rest : List String} {step : Resolver α} {next : α → Resolver β}
    (hstep : Marks front step) (hnext : ∀ a, Marks rest (next a)) :
    Marks (front ++ rest) (step >>= next) where
  ok := fun h => by
    obtain ⟨a, middle, ha, hb⟩ := bind_eq_ok.mp h
    rw [(hnext a).ok hb, hstep.ok ha, Body.markAll_append]

/-- A step that looks at the body first. -/
theorem look {names : List String} {next : Body → Resolver α}
    (h : ∀ body, Marks names (next body)) : Marks names (MonadState.get >>= next) :=
  ⟨fun {before _ _} hok => (h before).ok hok⟩

/-- What only asks may go in front. -/
theorem behind {names : List String} {step : Resolver α} {next : α → Resolver β}
    (hstep : Asks step) (hnext : ∀ a, Marks names (next a)) : Marks names (step >>= next) :=
  hstep.marks.bind hnext

/-- What only answers may go behind. -/
theorem map {names : List String} {step : Resolver α} (h : Marks names step) (f : α → β) :
    Marks names (step >>= fun a => Pure.pure (f a)) := by
  have hall : Marks (names ++ []) (step >>= fun a => Pure.pure (f a)) := h.bind fun a => .pure (f a)
  rwa [List.append_nil] at hall

end Marks

end Resolver

namespace Scope

open Resolver

variable {ctx : Context}

theorem resolveIdent_marks (name : String) (span : Span) :
    Marks [name] (resolveIdent ctx name span) := by
  refine ⟨fun {before after tree} h => ?_⟩
  obtain ⟨body, _, hget, h⟩ := bind_eq_ok.mp h
  obtain ⟨rfl, rfl⟩ := get_eq_ok.mp hget
  cases hfound : before.findLocal? name with
  | some l =>
    simp only [hfound, bind_eq_ok, modify_eq_ok, pure_eq_ok] at h
    obtain ⟨-, _, rfl, rfl, rfl⟩ := h
    rfl
  | none =>
    have hsame : Body.markAll [name] before.scopes = before.scopes := Body.markIn_eq_self hfound
    rw [hsame]
    simp only [hfound] at h
    cases hglobal : ctx.global? name with
    | some id =>
      simp only [hglobal] at h
      obtain ⟨rfl, rfl⟩ := pure_eq_ok.mp h
      rfl
    | none =>
      simp only [hglobal] at h
      cases hlookup : ctx.env.lookup name "" <;> simp only [hlookup] at h <;> cases h

/-- The names of a chain are read by its first name. -/
theorem reads_of_path? : ∀ {e : Expr} {path : List String}, e.path? = some path →
    e.reads = [path.headD ""]
  | .ident name _, _, h => by
    cases h
    rfl
  | .field object name _, _, h => by
    obtain ⟨path, hpath, rfl⟩ := Option.map_eq_some_iff.mp h
    rw [Expr.reads, reads_of_path? hpath]
    cases path with
    | nil => cases object <;> simp [Expr.path?] at hpath
    | cons head rest => rfl

/-- What is called on a value is a method. -/
theorem valueCallee_method {object : Expr} {method : String} {argc : Nat} {span : Span}
    {found : Callee} {before after : Body}
    (h : valueCallee ctx object method argc span before = .ok found after) : found = .method := by
  unfold valueCallee at h
  cases object with
  | this own =>
    obtain ⟨c, middle, -, h⟩ := bind_eq_ok.mp h
    cases hmember : c.methods.get? method with
    | some id =>
      simp only [hmember] at h
      obtain ⟨_, _, -, h⟩ := bind_eq_ok.mp h
      exact (pure_eq_ok.mp h).1.symm
    | none =>
      simp only [hmember] at h
      cases h
  | _ => exact (pure_eq_ok.mp h).1.symm

/-- What is called is a method, or what stands in front of the dot reads no variable. -/
theorem callee_marks {object : Expr} {method : String} {argc : Nat} {span : Span} {found : Callee}
    {before after : Body} (h : callee ctx object method argc span before = .ok found after) :
    found = .method ∨ Body.markAll object.reads before.scopes = before.scopes := by
  unfold callee at h
  cases hpath : object.path? with
  | some path =>
    simp only [hpath] at h
    obtain ⟨asked, middle, hasked, h⟩ := bind_eq_ok.mp h
    obtain ⟨body, _, hget, hasked⟩ := bind_eq_ok.mp hasked
    obtain ⟨rfl, rfl⟩ := get_eq_ok.mp hget
    obtain ⟨rfl, rfl⟩ := pure_eq_ok.mp hasked
    split at h
    · exact .inl (valueCallee_method h)
    · rename_i hnone
      rw [Bool.or_eq_true, not_or, Option.not_isSome_iff_eq_none] at hnone
      rw [reads_of_path? hpath]
      exact .inr (Body.markIn_eq_self hnone.1)
  | none =>
    simp only [hpath] at h
    exact .inl (valueCallee_method h)

mutual

/-- To resolve an expression is to note what it reads. -/
theorem resolveExpr_marks : ∀ e : Expr, Marks e.reads (resolveExpr ctx e)
  | .int _ _ | .float _ _ | .str _ _ | .bool _ _ | .null _ => by
    rw [resolveExpr]
    exact .pure _
  | .this span => by
    rw [resolveExpr]
    exact .behind (currentClass_asks ctx span) fun _ => .pure _
  | .ident name span => by
    rw [resolveExpr]
    exact resolveIdent_marks name span
  | .binary op left right _ => by
    rw [resolveExpr, Expr.reads]
    exact (resolveExpr_marks left).bind fun l => (resolveExpr_marks right).map _
  | .unary op operand _ => by
    rw [resolveExpr, Expr.reads]
    exact (resolveExpr_marks operand).map _
  | .call name args span => by
    rw [resolveExpr, Expr.reads]
    exact .behind (bareCallee_asks ctx name args.length span) fun function =>
      (resolveArgs_marks args []).map _
  | .methodCall object method args span => by
    rw [resolveExpr, Expr.reads]
    refine ⟨fun {before after tree} h => ?_⟩
    obtain ⟨found, middle, hcallee, h⟩ := bind_eq_ok.mp h
    obtain rfl := (callee_asks ctx object method args.length span).ok hcallee
    have hargs (make : List Resolved.Expr → Resolved.Expr) :
        Marks (Expr.readsAll args) (do
          let args ← resolveArgs ctx [] args
          return make args) := (resolveArgs_marks args []).map make
    have hmethod := callee_marks hcallee
    cases found with
    | host module function =>
      rw [Body.markAll_append, hmethod.resolve_left nofun]
      exact (hargs _).ok h
    | function id =>
      rw [Body.markAll_append, hmethod.resolve_left nofun]
      exact (hargs _).ok h
    | method => exact ((resolveExpr_marks object).bind fun owner => hargs _).ok h
  | .field object name span => by
    have hobject : Marks object.reads
        (do let object ← resolveExpr ctx object; return Resolved.Expr.getField object name) :=
      (resolveExpr_marks object).map _
    rw [Expr.reads]
    by_cases hthis : ∃ place, object = .this place
    · obtain ⟨place, rfl⟩ := hthis
      rw [resolveExpr]
      exact .behind (checkOwnField_asks ctx name span) fun _ => hobject
    · rw [resolveExpr]
      · exact hobject
      · exact fun place hplace => hthis ⟨place, hplace⟩
  | .create path args span => by
    rw [resolveExpr, Expr.reads]
    exact .behind (createdClass_asks ctx path args.length span) fun classId =>
      (resolveArgs_marks args []).map _

/-- To resolve arguments is to note what they read. -/
theorem resolveArgs_marks : ∀ (args : List Expr) (found : List Resolved.Expr),
    Marks (Expr.readsAll args) (resolveArgs ctx found args)
  | [], found => by
    rw [resolveArgs]
    exact .pure _
  | arg :: rest, found => by
    rw [resolveArgs, Expr.readsAll]
    exact (resolveExpr_marks arg).bind fun tree => resolveArgs_marks rest (tree :: found)

end

/-- An assignment reads its value, but no variable that it assigns to. -/
theorem resolveAssign_marks (target value : Expr) (span : Span) :
    Marks (value.reads ++ target.targetReads) (resolveAssign ctx target value span) := by
  unfold resolveAssign
  refine (resolveExpr_marks value).bind fun tree => ?_
  split
  · rename_i name own
    refine .look fun body => Asks.marks ?_
    split
    · exact .pure _
    · split
      · exact .pure _
      · exact .fail _ _
  · rename_i object name own
    have hobject : Marks object.reads
        (do let object ← resolveExpr ctx object; return Resolved.Stmt.setField object name tree) :=
      (resolveExpr_marks object).map _
    split
    · exact .behind (checkOwnField_asks ctx name own) fun _ => hobject
    · exact hobject
  · exact .fail _ _ _

end Scope

/-! ## What has been said -/

namespace Body

/-- The warnings of variables that are not used. -/
def unusedOf (locals : List Local) : List Diagnostic :=
  (locals.filter fun l => !l.used).map fun l =>
    .warning (ScopeWarning.unusedVariable l.name).message l.span

/-- Between two points of a walk these things have been said, in whatever order. -/
def Tells (told : List Diagnostic) (before after : Body) : Prop :=
  after.diagnostics.toList.Perm (before.diagnostics.toList ++ told)

namespace Tells

variable {told more : List Diagnostic} {a b c : Body}

theorem of_eq (h : b.diagnostics = a.diagnostics) : a.Tells [] b := by
  rw [Tells, h, List.append_nil]

theorem trans (hab : a.Tells told b) (hbc : b.Tells more c) : a.Tells (told ++ more) c := by
  rw [Tells, ← List.append_assoc]
  exact List.Perm.trans hbc (List.Perm.append_right more hab)

theorem perm (h : a.Tells told b) (hperm : told.Perm more) : a.Tells more b :=
  List.Perm.trans h (hperm.append_left _)

end Tells

/-- A warning is given where all are. -/
theorem tells_warn {level : Nat} (hloud : 2 ≤ level) (body : Body) (warning : ScopeWarning)
    (span : Span) : body.Tells [.warning warning.message span] (body.warn level warning span) := by
  rw [warn, if_pos (Nat.le_trans warning.level_le_two hloud), Tells, Array.toList_push]

theorem warn_scopes (body : Body) (level : Nat) (warning : ScopeWarning) (span : Span) :
    (body.warn level warning span).scopes = body.scopes := by
  unfold warn
  split <;> rfl

/-- A scope that ends is told of its unused variables, the oldest first. -/
theorem tells_leave {level : Nat} (hloud : 2 ≤ level) {body : Body} {scope : List Local}
    {rest : List (List Local)} (hscopes : body.scopes = scope :: rest) :
    body.Tells (unusedOf scope.reverse) (body.leave level) := by
  have hall (locals : List Local) : ∀ body : Body,
      body.Tells (unusedOf locals) (locals.foldl (leaveOne level) body) := by
    induction locals with
    | nil => exact fun body => .of_eq rfl
    | cons l rest ih =>
      intro body
      rw [List.foldl_cons]
      cases hused : l.used with
      | true =>
        have hnone : unusedOf (l :: rest) = unusedOf rest := by simp [unusedOf, hused]
        rw [leaveOne, if_pos hused, hnone]
        exact ih body
      | false =>
        have hone : unusedOf (l :: rest) =
            [.warning (ScopeWarning.unusedVariable l.name).message l.span] ++ unusedOf rest := by
          simp [unusedOf, hused]
        rw [leaveOne, hused, if_neg Bool.false_ne_true, hone]
        exact (tells_warn hloud body _ _).trans (ih _)
  rw [leave_eq, hscopes]
  exact hall scope.reverse body

theorem leave_scopes {level : Nat} {body : Body} {scope : List Local} {rest : List (List Local)}
    (hscopes : body.scopes = scope :: rest) : (body.leave level).scopes = rest := by
  rw [leave_eq, hscopes]

end Body

namespace Scope

open Resolver

/-- The warning of statements that are not reached, where a part of the list has been passed. -/
def Reach.warnings : Reach → List Stmt → List Diagnostic
  | .live, body => unreachableIn body
  | .dead, body => body.head?.toList.map fun s => .warning ScopeWarning.unreachable.message s.span
  | .reported, _ => []

theorem Reach.warnings_nil (reach : Reach) : reach.warnings [] = [] := by
  cases reach <;> rfl

theorem Reach.warnings_cons (reach : Reach) (s : Stmt) (rest : List Stmt) :
    reach.warnings (s :: rest) =
      (if reach = .dead then [.warning ScopeWarning.unreachable.message s.span] else []) ++
        (reach.after s).warnings rest := by
  cases reach with
  | live =>
    rw [if_neg (by decide), Reach.after]
    cases hreturn : s.isReturn <;> simp [Reach.warnings, unreachableIn, hreturn]
  | dead => rfl
  | reported => rfl

theorem tells_warned {level : Nat} (hloud : 2 ≤ level) (reach : Reach) (s : Stmt) (body : Body) :
    (reach.warned level s body).scopes = body.scopes ∧
      body.Tells (if reach = .dead then [.warning ScopeWarning.unreachable.message s.span] else [])
        (reach.warned level s body) := by
  unfold Reach.warned
  split
  · exact ⟨body.warn_scopes level _ _, body.tells_warn hloud _ _⟩
  · exact ⟨rfl, .of_eq rfl⟩

variable {ctx : Context}

/-- The variable that a statement declares in the scope it stands in. -/
def brought (slot : Nat) : Stmt → List Local
  | .letVar name _ span => [⟨name, slot, false, span⟩]
  | _ => []

/-- Statements are walked through: what they declare is brought into scope, where it counts as used
if a statement behind reads it, what they read of the variables outside counts as used, and they
are warned of as they should. -/
def TellsAll (ctx : Context) (body : List Stmt) : Prop :=
  ∀ {reach : Reach} {found trees : List Resolved.Stmt} {before after : Body},
    resolveStmts ctx reach found body before = .ok trees after → ¬ Failed after.diagnostics →
      (∃ news, after.scopes = Body.bring news (Body.markAll (Stmt.readsAll body) before.scopes) ∧
        Body.unusedOf news.reverse = unusedIn body) ∧
      before.Tells (reach.warnings body ++ (Stmt.listsAll body).flatMap warningsIn) after

/-- A block reads what its statements read of the variables outside, and it is warned of. -/
theorem TellsAll.block {body : List Stmt} (h : TellsAll ctx body)
    (hloud : 2 ≤ ctx.env.warningLevel) {trees : List Resolved.Stmt} {before inside : Body}
    (hok : resolveStmts ctx .live [] body before.enter = .ok trees inside)
    (hgood : ¬ Failed (inside.leave ctx.env.warningLevel).diagnostics) :
    (inside.leave ctx.env.warningLevel).scopes =
        Body.markAll (Stmt.readsAll body) before.scopes ∧
      before.Tells ((body :: Stmt.listsAll body).flatMap warningsIn)
        (inside.leave ctx.env.warningLevel) := by
  have hleads : inside.Leads True (inside.leave ctx.env.warningLevel) := inside.leads_leave _
  obtain ⟨⟨news, hscopes, hunused⟩, htells⟩ := h hok fun hfailed => hgood (hleads.failed hfailed)
  have hinside : inside.scopes = news :: Body.markAll (Stmt.readsAll body) before.scopes := by
    rw [hscopes, Body.enter, Body.markAll_enter, Body.bring, List.append_nil]
  refine ⟨Body.leave_scopes hinside, ?_⟩
  have hall := htells.trans (Body.tells_leave hloud hinside)
  rw [hunused] at hall
  refine Body.Tells.perm hall ?_
  rw [List.flatMap_cons, warningsIn, Reach.warnings, List.perm_iff_count]
  intro d
  simp only [List.count_append]
  omega

/-- What a statement declares is used by those behind it, if they read it. -/
theorem brought_behind (slot : Nat) (s : Stmt) {rest : List Stmt} {news : List Local}
    (scopes : List (List Local)) (h : Body.unusedOf news.reverse = unusedIn rest) :
    ∃ all, Body.bring news (Body.markAll (Stmt.readsAll rest)
        (Body.bring (brought slot s) (Body.markAll s.reads scopes))) =
          Body.bring all (Body.markAll (Stmt.readsAll (s :: rest)) scopes) ∧
      Body.unusedOf all.reverse = unusedIn (s :: rest) := by
  rw [Stmt.readsAll, Body.markAll_append]
  cases s with
  | letVar name value span =>
    rw [brought, Body.markAll_bring, Body.bring_bring]
    refine ⟨news ++ [⟨name, slot, decide (name ∈ Stmt.readsAll rest), span⟩], ?_, ?_⟩
    · simp [Stmt.declares]
    · rw [unusedIn, List.reverse_append]
      split
      · rename_i hread
        simpa [Body.unusedOf, hread] using h
      · rename_i hread
        simpa [Body.unusedOf, hread] using h
  | _ => exact ⟨news, by simp [brought, Body.bring_nil, Stmt.declares], h⟩

/-- A step that only notes what is read says nothing. -/
theorem tells_of_marks {α : Type} {names : List String} {step : Resolver α} {a : α}
    {before after : Body} (hmarks : Marks names step) (h : step before = .ok a after) :
    after.scopes = Body.markAll names before.scopes ∧ before.Tells [] after := by
  rw [hmarks.ok h]
  exact ⟨rfl, .of_eq rfl⟩

mutual

/-- A statement brings what it declares into scope, where nothing has used it yet. -/
theorem resolveStmt_tells (hloud : 2 ≤ ctx.env.warningLevel) :
    ∀ (s : Stmt) {tree : Resolved.Stmt} {before after : Body},
      resolveStmt ctx s before = .ok tree after → ¬ Failed after.diagnostics →
        (∃ slot, after.scopes = Body.bring (brought slot s) (Body.markAll s.reads before.scopes)) ∧
          before.Tells (s.lists.flatMap warningsIn) after
  | .letVar name value span, tree, before, after, h, hgood => by
    simp only [resolveStmt, bind_eq_ok] at h
    obtain ⟨v, middle, hv, body, _, hget, h⟩ := h
    obtain ⟨rfl, rfl⟩ := get_eq_ok.mp hget
    obtain ⟨hmiddle, htells⟩ := tells_of_marks (resolveExpr_marks value) hv
    rw [Stmt.reads, ← hmiddle]
    split at h
    · rename_i htop
      have hnone : middle.scopes = [] := List.isEmpty_iff.mp htop
      cases hglobal : ctx.global? name with
      | some id =>
        simp only [hglobal] at h
        obtain ⟨rfl, rfl⟩ := pure_eq_ok.mp h
        rw [hnone]
        exact ⟨⟨0, rfl⟩, htells⟩
      | none =>
        simp only [hglobal] at h
        cases h
    · obtain ⟨slot, _, hslot, h⟩ := bind_eq_ok.mp h
      obtain ⟨rfl, rfl⟩ := pure_eq_ok.mp h
      obtain ⟨_, _, herror, -⟩ | ⟨scope, rest, hscopes, -, hok⟩ :=
        Resolver.declareLocal_cases name span middle
      · rw [herror] at hslot
        cases hslot
      · rw [hok] at hslot
        cases hslot
        rw [hscopes]
        exact ⟨⟨middle.nextSlot, rfl⟩, htells⟩
  | .assign target value span, _, before, _, h, _ => by
    rw [resolveStmt] at h
    obtain ⟨hscopes, htells⟩ := tells_of_marks (resolveAssign_marks target value span) h
    rw [Stmt.reads, ← hscopes]
    exact ⟨⟨0, (Body.bring_nil _).symm⟩, htells⟩
  | .ifThen condition body span, _, before, _, h, hgood => by
    simp only [resolveStmt, bind_eq_ok, modify_eq_ok, pure_eq_ok] at h
    obtain ⟨test, _, htest, -, _, rfl, trees, _, hbody, -, _, rfl, rfl, rfl⟩ := h
    obtain ⟨htestScopes, htestTells⟩ := tells_of_marks (resolveExpr_marks condition) htest
    obtain ⟨hscopes, htells⟩ := TellsAll.block (resolveStmts_tells hloud body) hloud hbody hgood
    rw [Stmt.reads, Body.markAll_append, ← htestScopes, ← hscopes]
    exact ⟨⟨0, (Body.bring_nil _).symm⟩, htestTells.trans htells⟩
  | .ifElse condition body alternative span, _, before, _, h, hgood => by
    simp only [resolveStmt, bind_eq_ok, modify_eq_ok, pure_eq_ok] at h
    obtain ⟨test, _, htest, -, _, rfl, trees, inside, hbody, -, _, rfl, -, _, rfl, others, inside',
      halternative, -, _, rfl, rfl, rfl⟩ := h
    have hleads := (resolveStmts_leads halternative).trans
      (inside'.leads_leave ctx.env.warningLevel)
    obtain ⟨htestScopes, htestTells⟩ := tells_of_marks (resolveExpr_marks condition) htest
    obtain ⟨hscopes, htells⟩ := TellsAll.block (resolveStmts_tells hloud body) hloud hbody
      fun hfailed => hgood (hleads.failed hfailed)
    obtain ⟨hscopes', htells'⟩ :=
      TellsAll.block (resolveStmts_tells hloud alternative) hloud halternative hgood
    rw [Stmt.reads, Body.markAll_append, Body.markAll_append, ← htestScopes, ← hscopes, ← hscopes',
      Stmt.lists, List.flatMap_append]
    exact ⟨⟨0, (Body.bring_nil _).symm⟩, htestTells.trans (htells.trans htells')⟩
  | .loop condition body span, _, before, _, h, hgood => by
    simp only [resolveStmt, bind_eq_ok, modify_eq_ok, pure_eq_ok] at h
    obtain ⟨test, _, htest, -, _, rfl, trees, _, hbody, -, _, rfl, rfl, rfl⟩ := h
    obtain ⟨htestScopes, htestTells⟩ := tells_of_marks (resolveExpr_marks condition) htest
    obtain ⟨hscopes, htells⟩ := TellsAll.block (resolveStmts_tells hloud body) hloud hbody hgood
    rw [Stmt.reads, Body.markAll_append, ← htestScopes, ← hscopes]
    exact ⟨⟨0, (Body.bring_nil _).symm⟩, htestTells.trans htells⟩
  | .ret none span, _, before, _, h, _ => by
    rw [resolveStmt] at h
    split at h
    · obtain ⟨rfl, rfl⟩ := pure_eq_ok.mp h
      exact ⟨⟨0, (Body.bring_nil _).symm⟩, .of_eq rfl⟩
    · cases h
  | .ret (some value) span, _, before, _, h, _ => by
    rw [resolveStmt] at h
    split at h
    · obtain ⟨v, _, hv, h⟩ := bind_eq_ok.mp h
      obtain ⟨rfl, rfl⟩ := pure_eq_ok.mp h
      obtain ⟨hscopes, htells⟩ := tells_of_marks (resolveExpr_marks value) hv
      rw [Stmt.reads, ← hscopes]
      exact ⟨⟨0, (Body.bring_nil _).symm⟩, htells⟩
    · cases h
  | .block body span, _, before, _, h, hgood => by
    simp only [resolveStmt, bind_eq_ok, modify_eq_ok, pure_eq_ok] at h
    obtain ⟨-, _, rfl, trees, _, hbody, -, _, rfl, rfl, rfl⟩ := h
    obtain ⟨hscopes, htells⟩ := TellsAll.block (resolveStmts_tells hloud body) hloud hbody hgood
    rw [Stmt.reads, ← hscopes]
    exact ⟨⟨0, (Body.bring_nil _).symm⟩, htells⟩
  | .expr value, _, before, _, h, _ => by
    simp only [resolveStmt, bind_eq_ok, pure_eq_ok] at h
    obtain ⟨v, _, hv, rfl, rfl⟩ := h
    obtain ⟨hscopes, htells⟩ := tells_of_marks (resolveExpr_marks value) hv
    rw [Stmt.reads, ← hscopes]
    exact ⟨⟨0, (Body.bring_nil _).symm⟩, htells⟩

/-- Statements are walked through and warned of one after the other. -/
theorem resolveStmts_tells (hloud : 2 ≤ ctx.env.warningLevel) : ∀ body : List Stmt,
    TellsAll ctx body
  | [], reach, found, trees, before, after, h, _ => by
    rw [resolveStmts] at h
    obtain ⟨rfl, rfl⟩ := pure_eq_ok.mp h
    rw [Reach.warnings_nil]
    exact ⟨⟨[], (Body.bring_nil _).symm, rfl⟩, .of_eq rfl⟩
  | s :: rest, reach, found, trees, before, after, h, hgood => by
    obtain ⟨hscopes, hwarned⟩ := tells_warned hloud reach s before
    obtain ⟨tree, middle, htree, hgood', hothers⟩ := resolveStmts_cons h hgood
    obtain ⟨⟨slot, hmiddle⟩, hfirst⟩ := resolveStmt_tells hloud s htree hgood'
    obtain ⟨⟨news, hafter, hunused⟩, hbehind⟩ := resolveStmts_tells hloud rest hothers hgood
    constructor
    · rw [hafter, hmiddle, hscopes]
      exact brought_behind slot s before.scopes hunused
    · refine Body.Tells.perm (hwarned.trans (hfirst.trans hbehind)) ?_
      rw [Reach.warnings_cons, Stmt.listsAll, List.flatMap_append, List.perm_iff_count]
      intro d
      simp only [List.count_append]
      omega

end

end Scope

end ScriptHost
