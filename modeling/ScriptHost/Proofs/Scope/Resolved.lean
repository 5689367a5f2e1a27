import ScriptHost.Proofs.Scope.Known
/-!
# Resolved trees refer to what is known

The walk through the expressions and statements of a body: what comes of it without an error is
within what the unit knows (`Scope.Context.referents`), once all slots are counted.
-/

set_option autoImplicit false

namespace ScriptHost.Scope

variable {ctx : Context} {wide : Prop}

mutual

/-- An expression is resolved to what is known. -/
theorem resolveExpr_sound (h : ctx.Grounded) : ∀ e : ScriptHost.Expr,
    Resolver.Sound wide (resolveExpr ctx e) fun slots tree => tree.Within (ctx.referents wide slots)
  | .int _ _ | .float _ _ | .str _ _ | .bool _ _ | .null _ => by
    rw [resolveExpr]
    exact .pure fun _ => nofun
  | .this span => by
    rw [resolveExpr]
    exact (currentClass_sound span).bind fun _ => .pure fun _ _ => trivial
  | .ident name span => by
    rw [resolveExpr]
    exact resolveIdent_sound h name span
  | .binary op left right _ => by
    rw [resolveExpr]
    refine (resolveExpr_sound h left).bind fun _ => (resolveExpr_sound h right).bind fun _ => ?_
    exact .pure fun _ hright hleft => ⟨hleft, hright⟩
  | .unary op operand _ => by
    rw [resolveExpr]
    exact (resolveExpr_sound h operand).bind fun _ => .pure fun _ hoperand => hoperand
  | .call name args span => by
    rw [resolveExpr]
    refine (bareCallee_sound h name args.length span).bind fun _ =>
      (resolveArgs_sound h args []).bind fun _ => .pure fun _ hargs hcallee => ?_
    obtain ⟨hlength, hwithin⟩ := hargs trivial
    exact ⟨by rw [hlength]; exact hcallee, hwithin⟩
  | .methodCall object method args span => by
    rw [resolveExpr]
    refine (callee_sound h object method args.length span).bind fun callee => ?_
    cases callee with
    | host module function =>
      refine (resolveArgs_sound h args []).bind fun _ => .pure fun _ hargs hcallee => ?_
      obtain ⟨hlength, hwithin⟩ := hargs trivial
      exact ⟨by rw [hlength]; exact hcallee, hwithin⟩
    | function id =>
      refine (resolveArgs_sound h args []).bind fun _ => .pure fun _ hargs hcallee => ?_
      obtain ⟨hlength, hwithin⟩ := hargs trivial
      exact ⟨by rw [hlength]; exact hcallee, hwithin⟩
    | method =>
      refine (resolveExpr_sound h object).bind fun _ => ?_
      refine (resolveArgs_sound h args []).bind fun _ => ?_
      exact .pure fun _ hargs hobject _ => ⟨hobject, (hargs trivial).2⟩
  | .field object name span => by
    have hobject : Resolver.Sound wide
        (do let object ← resolveExpr ctx object; return Resolved.Expr.getField object name)
        fun slots tree => tree.Within (ctx.referents wide slots) :=
      (resolveExpr_sound h object).bind fun _ => .pure fun _ howner => howner
    by_cases hthis : ∃ own, object = .this own
    · obtain ⟨own, rfl⟩ := hthis
      rw [resolveExpr]
      exact (checkOwnField_sound name span).bind fun _ => hobject.imp fun _ _ hwithin _ => hwithin
    · rw [resolveExpr]
      · exact hobject
      · exact fun own hown => hthis ⟨own, hown⟩
  | .create path args span => by
    rw [resolveExpr]
    refine (createdClass_sound h path args.length span).bind fun _ =>
      (resolveArgs_sound h args []).bind fun _ => .pure fun _ hargs hclass => ?_
    obtain ⟨hlength, hwithin⟩ := hargs trivial
    exact ⟨by rw [hlength]; exact hclass, hwithin⟩

/-- Arguments are resolved to what is known, each to one. -/
theorem resolveArgs_sound (h : ctx.Grounded) : ∀ (args : List ScriptHost.Expr)
    (found : List Resolved.Expr),
    Resolver.Sound wide (resolveArgs ctx found args) fun slots trees =>
      Resolved.Expr.WithinAll (ctx.referents wide slots) found.reverse →
        trees.length = args.length + found.length ∧
          Resolved.Expr.WithinAll (ctx.referents wide slots) trees
  | [], found => by
    rw [resolveArgs]
    exact .pure fun _ hfound => ⟨by simp, hfound⟩
  | arg :: rest, found => by
    rw [resolveArgs]
    refine (resolveExpr_sound h arg).bind fun tree =>
      (resolveArgs_sound h rest (tree :: found)).imp fun slots trees htrees harg hfound => ?_
    obtain ⟨hlength, hwithin⟩ := htrees (by
      rw [List.reverse_cons]
      exact Resolved.Expr.withinAll_append.mpr ⟨hfound, harg, trivial⟩)
    rw [List.length_cons] at hlength
    exact ⟨by rw [hlength, List.length_cons]; omega, hwithin⟩

end

/-- An assignment is resolved to what is known. -/
theorem resolveAssign_sound (h : ctx.Grounded) (target value : ScriptHost.Expr) (span : Span) :
    Resolver.Sound wide (resolveAssign ctx target value span) fun slots tree =>
      tree.Within (ctx.referents wide slots) := by
  unfold resolveAssign
  refine (resolveExpr_sound h value).bind fun _ => ?_
  split
  · rename_i name own
    refine Resolver.Sound.get.bind fun body => ?_
    split
    · rename_i l hl
      exact .pure fun _ hfound hvalue => ⟨hfound name l hl, hvalue⟩
    · split
      · rename_i id hid
        exact .pure fun _ _ hvalue => ⟨h.global hid, hvalue⟩
      · exact .fail
  · rename_i object name own
    have hassign : ∀ value, Resolver.Sound wide
        (do let object ← resolveExpr ctx object; return Resolved.Stmt.setField object name value)
        fun slots tree => value.Within (ctx.referents wide slots) →
          tree.Within (ctx.referents wide slots) := fun _ =>
      (resolveExpr_sound h object).bind fun _ => .pure fun _ howner hvalue => ⟨howner, hvalue⟩
    split
    · exact (checkOwnField_sound name own).bind fun _ =>
        (hassign _).imp fun _ _ hwithin _ hvalue => hwithin hvalue
    · exact hassign _
  · exact .fail

mutual

/-- A statement is resolved to what is known. -/
theorem resolveStmt_sound (h : ctx.Grounded) : ∀ s : ScriptHost.Stmt,
    Resolver.Sound wide (resolveStmt ctx s) fun slots tree => tree.Within (ctx.referents wide slots)
  | .letVar name value span => by
    rw [resolveStmt]
    refine (resolveExpr_sound h value).bind fun _ => Resolver.Sound.get.bind fun body => ?_
    split
    · split
      · rename_i id hid
        exact .pure fun _ _ hvalue => ⟨h.global hid, hvalue⟩
      · exact .fail
    · refine (Resolver.Sound.declareLocal name span).bind fun _ => ?_
      exact .pure fun _ hslot _ hvalue => ⟨.inr hslot, hvalue⟩
  | .assign target value span => by
    rw [resolveStmt]
    exact resolveAssign_sound h target value span
  | .ifThen condition body _ => by
    rw [resolveStmt]
    refine (resolveExpr_sound h condition).bind fun _ =>
      (Resolver.Sound.modify fun body => body.leads_enter).bind fun _ =>
      (resolveStmts_sound h body .live []).bind fun _ =>
      (Resolver.Sound.modify fun body => body.leads_leave _).bind fun _ => ?_
    exact .pure fun _ _ hbody _ hcondition => ⟨hcondition, hbody trivial, trivial⟩
  | .ifElse condition body alternative _ => by
    rw [resolveStmt]
    refine (resolveExpr_sound h condition).bind fun _ =>
      (Resolver.Sound.modify fun body => body.leads_enter).bind fun _ =>
      (resolveStmts_sound h body .live []).bind fun _ =>
      (Resolver.Sound.modify fun body => body.leads_leave _).bind fun _ =>
      (Resolver.Sound.modify fun body => body.leads_enter).bind fun _ =>
      (resolveStmts_sound h alternative .live []).bind fun _ =>
      (Resolver.Sound.modify fun body => body.leads_leave _).bind fun _ => ?_
    exact .pure fun _ _ halternative _ _ hbody _ hcondition =>
      ⟨hcondition, hbody trivial, halternative trivial⟩
  | .loop condition body _ => by
    rw [resolveStmt]
    refine (resolveExpr_sound h condition).bind fun _ =>
      (Resolver.Sound.modify fun body => body.leads_enter).bind fun _ =>
      (resolveStmts_sound h body .live []).bind fun _ =>
      (Resolver.Sound.modify fun body => body.leads_leave _).bind fun _ => ?_
    exact .pure fun _ _ hbody _ hcondition => ⟨hcondition, hbody trivial⟩
  | .ret none span => by
    rw [resolveStmt]
    split
    · exact .pure fun _ => trivial
    · exact .fail_bind
  | .ret (some value) span => by
    rw [resolveStmt]
    split
    · exact (resolveExpr_sound h value).bind fun _ => .pure fun _ hvalue => hvalue
    · exact .fail_bind
  | .block body _ => by
    rw [resolveStmt]
    refine (Resolver.Sound.modify fun body => body.leads_enter).bind fun _ =>
      (resolveStmts_sound h body .live []).bind fun _ =>
      (Resolver.Sound.modify fun body => body.leads_leave _).bind fun _ => ?_
    exact .pure fun _ _ hbody _ => ⟨nofun, hbody trivial, trivial⟩
  | .expr value => by
    rw [resolveStmt]
    exact (resolveExpr_sound h value).bind fun _ => .pure fun _ hvalue => hvalue

/-- Statements are resolved to what is known. -/
theorem resolveStmts_sound (h : ctx.Grounded) : ∀ (body : List ScriptHost.Stmt) (reach : Reach)
    (found : List Resolved.Stmt),
    Resolver.Sound wide (resolveStmts ctx reach found body) fun slots trees =>
      Resolved.Stmt.WithinAll (ctx.referents wide slots) found.reverse →
        Resolved.Stmt.WithinAll (ctx.referents wide slots) trees
  | [], reach, found => by
    rw [resolveStmts]
    exact .pure fun _ hfound => hfound
  | s :: rest, reach, found => by
    have hrest : Resolver.Sound wide
        (do
          let resolved ← Resolver.recover (resolveStmt ctx s)
          resolveStmts ctx (reach.after s) (resolved.toList ++ found) rest)
        fun slots trees =>
          Resolved.Stmt.WithinAll (ctx.referents wide slots) found.reverse →
            Resolved.Stmt.WithinAll (ctx.referents wide slots) trees := by
      refine (resolveStmt_sound h s).recover.bind fun resolved => ?_
      refine (resolveStmts_sound h rest (reach.after s) (resolved.toList ++ found)).imp ?_
      intro slots trees htrees hresolved hfound
      refine htrees ?_
      rw [List.reverse_append]
      refine Resolved.Stmt.withinAll_append.mpr ⟨hfound, Resolved.Stmt.withinAll_iff.mpr ?_⟩
      intro tree htree
      exact hresolved tree (by simpa using htree)
    rw [resolveStmts]
    split
    · refine (Resolver.Sound.modify fun body => body.leads_warn _ _ _).bind fun _ => ?_
      exact hrest.imp fun _ _ htrees _ => htrees
    · exact hrest

end

/-- Functions are added one after the other: what each of them adds to a list, all of them add in
order. -/
theorem Progress.foldl_addFunction {γ : Type} (holds : Progress → List γ → Prop)
    (added : FunctionDecl → List γ)
    (hadd : ∀ {p : Progress} {done : List γ}, holds p done → ∀ f : FunctionDecl,
      holds (p.addFunction ctx f) (done ++ added f))
    (fs : List FunctionDecl) {p : Progress} {done : List γ} (h : holds p done) :
    holds (fs.foldl (fun p f => p.addFunction ctx f) p) (done ++ fs.flatMap added) := by
  induction fs generalizing p done with
  | nil =>
    rw [List.flatMap_nil, List.append_nil]
    exact h
  | cons f rest ih =>
    rw [List.flatMap_cons, ← List.append_assoc]
    exact ih (hadd h f)

end ScriptHost.Scope
