import ScriptHost.Proofs.Scope.Bodies
import ScriptHost.Proofs.Scope.Lexical
/-!
# Blocks

A block opens a scope, and what is declared in it is in scope up to its end. Statements are walked
through one after the other, so each finds in scope what those before it have declared.

The main statement is `resolveStmts_scoped`.
-/

set_option autoImplicit false

namespace ScriptHost

namespace Scope

/-- The same scopes are open, and nothing has been declared but in the innermost one. -/
structure Grown (frames next : List (List Variable)) : Prop where
  isEmpty : next.isEmpty = frames.isEmpty
  tail : next.tail = frames.tail

namespace Grown

theorem refl (frames : List (List Variable)) : Grown frames frames :=
  ⟨rfl, rfl⟩

theorem trans {a b c : List (List Variable)} (hab : Grown a b) (hbc : Grown b c) : Grown a c :=
  ⟨hbc.isEmpty.trans hab.isEmpty, hbc.tail.trans hab.tail⟩

/-- Under the scope of a block stands what was open before the block. -/
theorem opened {scope : List Variable} {frames next : List (List Variable)}
    (h : Grown (scope :: frames) next) : ∃ inner, next = inner :: frames := by
  obtain ⟨hisEmpty, htail⟩ := h
  cases next with
  | nil => cases hisEmpty
  | cons inner rest => exact ⟨inner, congrArg (inner :: ·) htail⟩

end Grown

variable {ctx : Context} {count : Nat}

/-- To resolve statements keeps what a walk keeps. -/
theorem resolveStmts_leads {body : List Stmt} {reach : Reach} {found trees : List Resolved.Stmt}
    {before after : Body} (h : resolveStmts ctx reach found body before = .ok trees after) :
    before.Leads True after :=
  (Resolver.Sound.ok (resolveStmts_resolves body reach found) h).leads

/-- Statements are resolved in such a way that, if no error comes to light, they are in order:
whatever is in scope in front of them, and wherever their code starts. -/
def InOrder (ctx : Context) (count : Nat) (body : List Stmt) : Prop :=
  ∀ {reach : Reach} {found trees : List Resolved.Stmt} {before after : Body}
    {frames : List (List Variable)}, resolveStmts ctx reach found body before = .ok trees after →
    ¬ Failed after.diagnostics → after.maxSlot ≤ count → Holds frames before → ∀ start,
      ∃ made places next, trees = found.reverse ++ made ∧
        StmtsScoped count frames.isEmpty frames.flatten start body made places next.flatten ∧
        Holds next after ∧ Grown frames next

/-- What is resolved between the start and the end of a block. -/
theorem InOrder.block {body : List Stmt} (h : InOrder ctx count body) {trees : List Resolved.Stmt}
    {before inside : Body} {level : Nat} {frames : List (List Variable)}
    (hok : resolveStmts ctx .live [] body before.enter = .ok trees inside)
    (hgood : ¬ Failed (inside.leave level).diagnostics)
    (hcount : (inside.leave level).maxSlot ≤ count) (hbefore : Holds frames before) (start : Nat) :
    ∃ places last, StmtsScoped count false frames.flatten start body trees places last ∧
      Holds frames (inside.leave level) := by
  have hleads : inside.Leads True (inside.leave level) := inside.leads_leave level
  have hslots := hleads.maxSlot hgood
  obtain ⟨made, places, next, rfl, hscoped, hinside, hgrown⟩ := h hok
    (fun hfailed => hgood (hleads.failed hfailed)) (by omega) hbefore.enter start
  obtain ⟨inner, rfl⟩ := hgrown.opened
  exact ⟨places, _, hscoped, hinside.leave level⟩

/-- A step that is passed over if it fails has not failed where there is no error. -/
theorem recover_ok {α : Type} {step : Resolver α} {right : Nat → α → Prop} {found : Option α}
    {before after : Body} (hsound : Resolver.Sound True step right)
    (h : Resolver.recover step before = .ok found after) (hgood : ¬ Failed after.diagnostics) :
    ∃ a, found = some a ∧ step before = .ok a after := by
  unfold Resolver.recover at h
  cases hstep : step before with
  | ok a middle =>
    rw [hstep] at h
    cases h
    exact ⟨a, rfl, rfl⟩
  | error e middle =>
    rw [hstep] at h
    cases h
    exact absurd (failed_push (hsound.error hstep)) hgood

/-- A statement that is the first one behind a `return` is warned of before it is resolved. -/
def Reach.warned (reach : Reach) (level : Nat) (s : Stmt) (body : Body) : Body :=
  if reach = .dead then body.warn level .unreachable s.span else body

/-- Without an error, the first statement of a list is resolved, and the others from where it left
off. -/
theorem resolveStmts_cons {s : Stmt} {rest : List Stmt} {reach : Reach}
    {found trees : List Resolved.Stmt} {before after : Body}
    (h : resolveStmts ctx reach found (s :: rest) before = .ok trees after)
    (hgood : ¬ Failed after.diagnostics) :
    ∃ tree middle,
      resolveStmt ctx s (reach.warned ctx.env.warningLevel s before) = .ok tree middle ∧
        ¬ Failed middle.diagnostics ∧
          resolveStmts ctx (reach.after s) (tree :: found) rest middle = .ok trees after := by
  have hrest : (do
      let resolved ← Resolver.recover (resolveStmt ctx s)
      resolveStmts ctx (reach.after s) (resolved.toList ++ found) rest)
        (reach.warned ctx.env.warningLevel s before) = .ok trees after := by
    rw [resolveStmts] at h
    unfold Reach.warned
    split at h
    · rename_i hdead
      obtain ⟨_, warned, hmodify, h⟩ := bind_eq_ok.mp h
      rw [← modify_eq_ok.mp hmodify] at h
      rwa [if_pos hdead]
    · rename_i hlive
      rwa [if_neg hlive]
  obtain ⟨resolved, middle, hresolved, hothers⟩ := bind_eq_ok.mp hrest
  have hgood' : ¬ Failed middle.diagnostics :=
    fun hfailed => hgood ((resolveStmts_leads hothers).failed hfailed)
  obtain ⟨tree, rfl, htree⟩ := recover_ok (resolveStmt_resolves s) hresolved hgood'
  exact ⟨tree, middle, htree, hgood', hothers⟩

/-- An assignment stores into the newest variable of the name. -/
theorem resolveAssign_scoped {target value : Expr} {span : Span} {tree : Resolved.Stmt}
    {before after : Body} {frames : List (List Variable)}
    (h : resolveAssign ctx target value span before = .ok tree after)
    (hbefore : Holds frames before) (start : Nat) : ∃ places,
      StmtScoped count frames.isEmpty frames.flatten start (.assign target value span) tree places
        frames.flatten ∧ Holds frames after := by
  unfold resolveAssign at h
  obtain ⟨v, middle, hv, h⟩ := bind_eq_ok.mp h
  obtain ⟨hmiddle, hvalue⟩ := (resolveExpr_binds value).ok hv hbefore
  cases target with
  | ident name own =>
    obtain ⟨body, _, hget, h⟩ := bind_eq_ok.mp h
    obtain ⟨rfl, rfl⟩ := get_eq_ok.mp hget
    cases hfound : middle.findLocal? name with
    | some l =>
      simp only [hfound] at h
      obtain ⟨rfl, rfl⟩ := pure_eq_ok.mp h
      obtain ⟨newest, hnewest, hslot⟩ := hmiddle.found hfound
      rw [← hslot]
      exact ⟨_, .assignLocal hvalue hnewest, hmiddle⟩
    | none =>
      simp only [hfound] at h
      cases hglobal : ctx.global? name with
      | some id =>
        simp only [hglobal] at h
        obtain ⟨rfl, rfl⟩ := pure_eq_ok.mp h
        exact ⟨_, .assignGlobal hvalue (hmiddle.absent hfound), hmiddle⟩
      | none =>
        simp only [hglobal] at h
        cases h
  | field object name own =>
    have hobject (e : Expr) : Reads
        (do let object ← resolveExpr ctx e; return Resolved.Stmt.setField object name v)
        fun vars tree => ∃ owner, tree = .setField owner name v ∧ Binds vars e owner :=
      (resolveExpr_binds e).bind fun owner => .pure fun _ howner => ⟨owner, rfl, howner⟩
    obtain ⟨hafter, owner, rfl, howner⟩ : Holds frames after ∧
        ∃ owner, tree = .setField owner name v ∧ Binds frames.flatten object owner := by
      cases object with
      | this place =>
        obtain ⟨_, _, hown, h⟩ := bind_eq_ok.mp h
        exact (hobject _).ok h ((checkOwnField_reads name own).ok hown hmiddle).1
      | _ => exact (hobject _).ok h hmiddle
    exact ⟨_, .assignField howner hvalue, hafter⟩
  | _ => cases h

mutual

/-- A statement is resolved by the rule of lexical scope. -/
theorem resolveStmt_scoped : ∀ (s : Stmt) {tree : Resolved.Stmt} {before after : Body}
    {frames : List (List Variable)}, resolveStmt ctx s before = .ok tree after →
    ¬ Failed after.diagnostics → after.maxSlot ≤ count → Holds frames before → ∀ start,
      ∃ places next,
        StmtScoped count frames.isEmpty frames.flatten start s tree places next.flatten ∧
        Holds next after ∧ Grown frames next
  | .letVar name value span, tree, before, after, frames, h, hgood, hcount, hbefore, start => by
    simp only [resolveStmt, bind_eq_ok] at h
    obtain ⟨v, middle, hv, body, _, hget, h⟩ := h
    obtain ⟨rfl, rfl⟩ := get_eq_ok.mp hget
    obtain ⟨hmiddle, hvalue⟩ := (resolveExpr_binds value).ok hv hbefore
    have hopen : middle.scopes.isEmpty = frames.isEmpty := by
      have hlengths := congrArg List.isEmpty hmiddle.scopes
      rwa [List.isEmpty_map, List.isEmpty_map] at hlengths
    split at h
    · rename_i htop
      rw [hopen] at htop
      cases hglobal : ctx.global? name with
      | some id =>
        simp only [hglobal] at h
        obtain ⟨rfl, rfl⟩ := pure_eq_ok.mp h
        rw [htop]
        exact ⟨_, frames, .letGlobal hvalue, hmiddle, .refl frames⟩
      | none =>
        simp only [hglobal] at h
        cases h
    · rename_i hinner
      rw [hopen, Bool.not_eq_true] at hinner
      obtain ⟨slot, _, hslot, h⟩ := bind_eq_ok.mp h
      obtain ⟨rfl, rfl⟩ := pure_eq_ok.mp h
      obtain ⟨scope, rest, rfl, rfl, hroom, hafter⟩ := hmiddle.declareLocal hslot
      refine ⟨_, _, .letLocal hvalue (by omega), hafter _, rfl, rfl⟩
  | .assign target value span, _, _, _, frames, h, _, _, hbefore, start => by
    rw [resolveStmt] at h
    obtain ⟨places, hscoped, hafter⟩ := resolveAssign_scoped h hbefore start
    exact ⟨places, frames, hscoped, hafter, .refl frames⟩
  | .ifThen condition body span, _, _, _, frames, h, hgood, hcount, hbefore, start => by
    simp only [resolveStmt, bind_eq_ok, modify_eq_ok, pure_eq_ok] at h
    obtain ⟨test, _, htest, -, _, rfl, trees, _, hbody, -, _, rfl, rfl, rfl⟩ := h
    obtain ⟨hmiddle, hcondition⟩ := (resolveExpr_binds condition).ok htest hbefore
    obtain ⟨places, last, hscoped, hafter⟩ :=
      InOrder.block (resolveStmts_scoped body) hbody hgood hcount hmiddle (start + test.width + 1)
    exact ⟨_, frames, .ifThen hcondition hscoped, hafter, .refl frames⟩
  | .ifElse condition body alternative span, _, _, _, frames, h, hgood, hcount, hbefore,
      start => by
    simp only [resolveStmt, bind_eq_ok, modify_eq_ok, pure_eq_ok] at h
    obtain ⟨test, _, htest, -, _, rfl, trees, inside, hbody, -, _, rfl, -, _, rfl, others, inside',
      halternative, -, _, rfl, rfl, rfl⟩ := h
    obtain ⟨hmiddle, hcondition⟩ := (resolveExpr_binds condition).ok htest hbefore
    have hleads := (resolveStmts_leads halternative).trans
      (inside'.leads_leave ctx.env.warningLevel)
    have hgood' : ¬ Failed (inside.leave ctx.env.warningLevel).diagnostics :=
      fun hfailed => hgood (hleads.failed hfailed)
    have hcount' : (inside.leave ctx.env.warningLevel).maxSlot ≤ count :=
      Nat.le_trans (hleads.maxSlot hgood) hcount
    obtain ⟨places, last, hscoped, hbetween⟩ := InOrder.block (resolveStmts_scoped body) hbody
      hgood' hcount' hmiddle (start + test.width + 1)
    obtain ⟨places', last', hscoped', hafter⟩ := InOrder.block (resolveStmts_scoped alternative)
      halternative hgood hcount hbetween (start + test.width + 1 + places.length + 1)
    cases others with
    | nil =>
      cases hscoped'
      exact ⟨_, frames, .ifElseNil hcondition hscoped, hafter, .refl frames⟩
    | cons first rest =>
      have hsome : first :: rest ≠ [] := List.cons_ne_nil first rest
      exact ⟨_, frames, .ifElse hsome hcondition hscoped hscoped', hafter, .refl frames⟩
  | .loop condition body span, _, _, _, frames, h, hgood, hcount, hbefore, start => by
    simp only [resolveStmt, bind_eq_ok, modify_eq_ok, pure_eq_ok] at h
    obtain ⟨test, _, htest, -, _, rfl, trees, _, hbody, -, _, rfl, rfl, rfl⟩ := h
    obtain ⟨hmiddle, hcondition⟩ := (resolveExpr_binds condition).ok htest hbefore
    obtain ⟨places, last, hscoped, hafter⟩ :=
      InOrder.block (resolveStmts_scoped body) hbody hgood hcount hmiddle (start + test.width + 1)
    exact ⟨_, frames, .loop hcondition hscoped, hafter, .refl frames⟩
  | .ret none span, _, _, _, frames, h, _, _, hbefore, start => by
    rw [resolveStmt] at h
    split at h
    · obtain ⟨rfl, rfl⟩ := pure_eq_ok.mp h
      exact ⟨_, frames, .retNull, hbefore, .refl frames⟩
    · cases h
  | .ret (some value) span, _, _, _, frames, h, _, _, hbefore, start => by
    rw [resolveStmt] at h
    split at h
    · obtain ⟨v, _, hv, h⟩ := bind_eq_ok.mp h
      obtain ⟨rfl, rfl⟩ := pure_eq_ok.mp h
      obtain ⟨hafter, hvalue⟩ := (resolveExpr_binds value).ok hv hbefore
      exact ⟨_, frames, .ret hvalue, hafter, .refl frames⟩
    · cases h
  | .block body span, _, _, _, frames, h, hgood, hcount, hbefore, start => by
    simp only [resolveStmt, bind_eq_ok, modify_eq_ok, pure_eq_ok] at h
    obtain ⟨-, _, rfl, trees, _, hbody, -, _, rfl, rfl, rfl⟩ := h
    obtain ⟨places, last, hscoped, hafter⟩ :=
      InOrder.block (resolveStmts_scoped body) hbody hgood hcount hbefore (start + 2)
    exact ⟨_, frames, .block hscoped, hafter, .refl frames⟩
  | .expr value, _, _, _, frames, h, _, _, hbefore, start => by
    simp only [resolveStmt, bind_eq_ok, pure_eq_ok] at h
    obtain ⟨v, _, hv, rfl, rfl⟩ := h
    obtain ⟨hafter, hvalue⟩ := (resolveExpr_binds value).ok hv hbefore
    exact ⟨_, frames, .expr hvalue, hafter, .refl frames⟩

/-- Statements are resolved by the rule of lexical scope. -/
theorem resolveStmts_scoped : ∀ body : List Stmt, InOrder ctx count body
  | [], reach, found, trees, before, after, frames, h, _, _, hbefore, start => by
    rw [resolveStmts] at h
    obtain ⟨rfl, rfl⟩ := pure_eq_ok.mp h
    exact ⟨[], [], frames, (List.append_nil _).symm, .nil, hbefore, .refl frames⟩
  | s :: rest, reach, found, trees, before, after, frames, h, hgood, hcount, hbefore, start => by
    have hwarned : Holds frames (reach.warned ctx.env.warningLevel s before) := by
      unfold Reach.warned
      split
      · exact hbefore.warn ..
      · exact hbefore
    obtain ⟨tree, middle, htree, hgood', hothers⟩ := resolveStmts_cons h hgood
    have hleads := resolveStmts_leads hothers
    obtain ⟨here, next, hfirst, hmiddle, hgrown⟩ := resolveStmt_scoped s htree hgood'
      (Nat.le_trans (hleads.maxSlot hgood) hcount) hwarned start
    obtain ⟨made, more, last, rfl, hscoped, hafter, hgrown'⟩ :=
      resolveStmts_scoped rest hothers hgood hcount hmiddle (start + here.length)
    rw [hgrown.isEmpty] at hscoped
    refine ⟨tree :: made, here ++ more, last, ?_, .cons hfirst hscoped, hafter,
      hgrown.trans hgrown'⟩
    simp

end

end Scope

end ScriptHost
