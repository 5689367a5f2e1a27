import ScriptHost.Proofs.Code.Layout
import ScriptHost.Scope.Resolve
import ScriptHost.Tree.Spans
/-!
# What it takes to resolve an expression

To resolve an expression changes nothing about the walk through a body but that some variables now
count as used. If it fails, then with an error at the place of a part of the expression:
`Scope.resolveExpr_looks`.
-/

set_option autoImplicit false

namespace ScriptHost

namespace Body

/-- Some variables count as used that did not before. -/
def Marked (before after : Body) : Prop :=
  ∃ names : List String, after = names.foldl markUsed before

theorem Marked.refl (body : Body) : body.Marked body :=
  ⟨[], rfl⟩

theorem Marked.trans {a b c : Body} (hab : a.Marked b) (hbc : b.Marked c) : a.Marked c := by
  obtain ⟨front, rfl⟩ := hab
  obtain ⟨rest, rfl⟩ := hbc
  exact ⟨front ++ rest, List.foldl_append.symm⟩

/-- What marking one variable keeps is kept. -/
theorem Marked.induction {motive : Body → Prop} {before after : Body} (h : before.Marked after)
    (hbefore : motive before) (hstep : ∀ body name, motive body → motive (body.markUsed name)) :
    motive after := by
  obtain ⟨names, rfl⟩ := h
  induction names generalizing before with
  | nil => exact hbefore
  | cons name rest ih => exact ih (hstep before name hbefore)

end Body

namespace Resolver

/-- A step that only looks: some variables may count as used afterwards, and it fails with nothing
but an error at one of certain places. -/
structure Looks {α : Type} (places : Span → Prop) (step : Resolver α) : Prop where
  ok : ∀ {before after : Body} {a : α}, step before = .ok a after → before.Marked after
  error : ∀ {before after : Body} {d : Diagnostic}, step before = .error d after →
    before.Marked after ∧ ∃ e span, places span ∧ d = ScopeError.placed e span

namespace Looks

variable {α β : Type} {places : Span → Prop}

theorem pure {a : α} : Looks places (Pure.pure a : Resolver α) where
  ok := fun h => by
    cases h
    exact .refl _
  error := fun h => by cases h

theorem bind {step : Resolver α} {next : α → Resolver β} (hstep : Looks places step)
    (hnext : ∀ a, Looks places (next a)) : Looks places (step >>= next) where
  ok := fun h => by
    obtain ⟨a, middle, ha, hb⟩ := bind_eq_ok.mp h
    exact (hstep.ok ha).trans ((hnext a).ok hb)
  error := fun h => by
    obtain h | ⟨a, middle, ha, hb⟩ := bind_eq_error.mp h
    · exact hstep.error h
    · obtain ⟨hmarked, herror⟩ := (hnext a).error hb
      exact ⟨(hstep.ok ha).trans hmarked, herror⟩

theorem fail {e : ScopeError} {span : Span} (h : places span) :
    Looks places (Resolver.fail e span : Resolver α) where
  ok := fun hfail => by cases hfail
  error := fun hfail => by
    cases hfail
    exact ⟨.refl _, e, span, h, rfl⟩

theorem get : Looks places (MonadState.get : Resolver Body) where
  ok := fun h => by
    cases h
    exact .refl _
  error := fun h => by cases h

theorem markUsed (name : String) :
    Looks places (modify (·.markUsed name) : Resolver PUnit) where
  ok := fun h => by
    cases h
    exact ⟨[name], rfl⟩
  error := fun h => by cases h

end Looks

end Resolver

namespace Scope

open Resolver

variable {ctx : Context} {places : Span → Prop}

theorem isVariable_looks (name : String) : Looks places (isVariable ctx name) :=
  Looks.get.bind fun _ => .pure

theorem currentClass_looks {span : Span} (h : places span) :
    Looks places (currentClass ctx span) := by
  unfold currentClass
  split
  · exact .pure
  · exact .fail h

theorem checkOwnField_looks (name : String) {span : Span} (h : places span) :
    Looks places (checkOwnField ctx name span) := by
  unfold checkOwnField
  refine (currentClass_looks h).bind fun c => ?_
  split
  · exact .pure
  · exact .fail h

theorem checkArity_looks (function given : Nat) {span : Span} (h : places span) :
    Looks places (checkArity ctx function given span) := by
  unfold checkArity
  dsimp only
  split
  · exact .pure
  · exact .fail h

theorem resolveIdent_looks (name : String) {span : Span} (h : places span) :
    Looks places (resolveIdent ctx name span) := by
  unfold resolveIdent
  refine Looks.get.bind fun body => ?_
  split
  · exact (Looks.markUsed name).bind fun _ => .pure
  · split
    · exact .pure
    · split <;> exact .fail h

theorem bareCallee_looks (name : String) (argc : Nat) {span : Span} (h : places span) :
    Looks places (bareCallee ctx name argc span) := by
  unfold bareCallee
  split
  · exact (checkArity_looks _ argc h).bind fun _ => .pure
  · refine (isVariable_looks name).bind fun found => ?_
    split <;> exact .fail h

theorem dottedFunction_looks (path : List String) {object : Expr} (method : String) (argc : Nat)
    {span : Span} (hobject : places object.span) (h : places span) :
    Looks places (dottedFunction ctx path object method argc span) := by
  unfold dottedFunction
  dsimp only
  split
  · exact (checkArity_looks _ argc h).bind fun _ => .pure
  · split
    · exact .fail hobject
    · exact .fail h

theorem dottedCallee_looks (path : List String) {object : Expr} (method : String) (argc : Nat)
    {span : Span} (hobject : places object.span) (h : places span) :
    Looks places (dottedCallee ctx path object method argc span) := by
  unfold dottedCallee
  split
  · split
    · split
      · exact .pure
      · exact .fail h
    · exact .fail h
    · exact .fail hobject
    · exact .fail hobject
    · exact dottedFunction_looks _ method argc hobject h
  · exact dottedFunction_looks _ method argc hobject h

theorem valueCallee_looks {object : Expr} (method : String) (argc : Nat) {span : Span}
    (hobject : places object.span) (h : places span) :
    Looks places (valueCallee ctx object method argc span) := by
  unfold valueCallee
  split
  · refine (currentClass_looks hobject).bind fun c => ?_
    split
    · exact (checkArity_looks _ argc h).bind fun _ => .pure
    · exact .fail h
  · exact .pure

theorem callee_looks {object : Expr} (method : String) (argc : Nat) {span : Span}
    (hobject : places object.span) (h : places span) :
    Looks places (callee ctx object method argc span) := by
  unfold callee
  split
  · refine (isVariable_looks _).bind fun found => ?_
    split
    · exact valueCallee_looks method argc hobject h
    · exact dottedCallee_looks _ method argc hobject h
  · exact valueCallee_looks method argc hobject h

theorem createdClass_looks (path : List String) (argc : Nat) {span : Span} (h : places span) :
    Looks places (createdClass ctx path argc span) := by
  unfold createdClass
  dsimp only
  cases ctx.class? path with
  | none => exact .fail h
  | some id =>
    dsimp only
    split
    · split
      · exact .pure
      · exact .fail h
    · split
      · exact .pure
      · exact .fail h

mutual

/-- To resolve an expression is only to look at what is in scope. -/
theorem resolveExpr_looks : ∀ {e : Expr}, (∀ span ∈ e.spans, places span) →
    Looks places (resolveExpr ctx e)
  | .int _ _, _ => by
    rw [resolveExpr]
    exact .pure
  | .float _ _, _ => by
    rw [resolveExpr]
    exact .pure
  | .str _ _, _ => by
    rw [resolveExpr]
    exact .pure
  | .bool _ _, _ => by
    rw [resolveExpr]
    exact .pure
  | .null _, _ => by
    rw [resolveExpr]
    exact .pure
  | .this span, h => by
    rw [resolveExpr]
    exact (currentClass_looks (h span (by simp [Expr.spans]))).bind fun _ => .pure
  | .ident name span, h => by
    rw [resolveExpr]
    exact resolveIdent_looks name (h span (by simp [Expr.spans]))
  | .binary op left right span, h => by
    rw [Expr.spans, List.forall_mem_cons, List.forall_mem_append] at h
    rw [resolveExpr]
    exact (resolveExpr_looks h.2.1).bind fun _ => (resolveExpr_looks h.2.2).bind fun _ => .pure
  | .unary op operand span, h => by
    rw [Expr.spans, List.forall_mem_cons] at h
    rw [resolveExpr]
    exact (resolveExpr_looks h.2).bind fun _ => .pure
  | .call name args span, h => by
    rw [Expr.spans, List.forall_mem_cons] at h
    rw [resolveExpr]
    exact (bareCallee_looks name args.length h.1).bind fun _ =>
      (resolveArgs_looks h.2 []).bind fun _ => .pure
  | .methodCall object method args span, h => by
    rw [Expr.spans, List.forall_mem_cons, List.forall_mem_append] at h
    obtain ⟨hspan, hobject, hargs⟩ := h
    rw [resolveExpr]
    refine (callee_looks method args.length (hobject _ object.span_mem_spans) hspan).bind
      fun callee => ?_
    cases callee with
    | host module function => exact (resolveArgs_looks hargs []).bind fun _ => .pure
    | function id => exact (resolveArgs_looks hargs []).bind fun _ => .pure
    | method =>
      exact (resolveExpr_looks hobject).bind fun _ =>
        (resolveArgs_looks hargs []).bind fun _ => .pure
  | .field object name span, h => by
    rw [Expr.spans, List.forall_mem_cons] at h
    have hobject : Looks places
        (do let object ← resolveExpr ctx object; return Resolved.Expr.getField object name) :=
      (resolveExpr_looks h.2).bind fun _ => .pure
    by_cases hthis : ∃ place, object = .this place
    · obtain ⟨place, rfl⟩ := hthis
      rw [resolveExpr]
      exact (checkOwnField_looks name h.1).bind fun _ => hobject
    · rw [resolveExpr]
      · exact hobject
      · exact fun place hplace => hthis ⟨place, hplace⟩
  | .create path args span, h => by
    rw [Expr.spans, List.forall_mem_cons] at h
    rw [resolveExpr]
    exact (createdClass_looks path args.length h.1).bind fun _ =>
      (resolveArgs_looks h.2 []).bind fun _ => .pure

/-- So it is to resolve arguments. -/
theorem resolveArgs_looks : ∀ {args : List Expr}, (∀ span ∈ Expr.spansAll args, places span) →
    ∀ found : List Resolved.Expr, Looks places (resolveArgs ctx found args)
  | [], _, found => by
    rw [resolveArgs]
    exact .pure
  | arg :: rest, h, found => by
    rw [Expr.spansAll, List.forall_mem_append] at h
    rw [resolveArgs]
    exact (resolveExpr_looks h.1).bind fun tree => resolveArgs_looks h.2 (tree :: found)

end

/-- To resolve an assignment is only to look at what is in scope: it declares nothing. -/
theorem resolveAssign_looks {target value : Expr} {span : Span} (h : places span)
    (htarget : ∀ span ∈ target.spans, places span) (hvalue : ∀ span ∈ value.spans, places span) :
    Looks places (resolveAssign ctx target value span) := by
  unfold resolveAssign
  refine (resolveExpr_looks hvalue).bind fun value => ?_
  split
  · rename_i name own
    refine Looks.get.bind fun body => ?_
    split
    · exact .pure
    · split
      · exact .pure
      · exact .fail (htarget own (by simp [Expr.spans]))
  · rename_i object name own
    rw [Expr.spans, List.forall_mem_cons] at htarget
    have hobject : Looks places
        (do let object ← resolveExpr ctx object; return Resolved.Stmt.setField object name value) :=
      (resolveExpr_looks htarget.2).bind fun _ => .pure
    split
    · exact (checkOwnField_looks name htarget.1).bind fun _ => hobject
    · exact hobject
  · exact .fail h

end Scope

end ScriptHost
