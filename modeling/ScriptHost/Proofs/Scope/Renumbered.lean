import ScriptHost.Proofs.Scope.Bodies
import ScriptHost.Proofs.Scope.Members
import ScriptHost.Proofs.Scope.Renamed
/-!
# The bodies of a unit under other numbers

The walk through some items adds the same, but for the numbers, wherever in a unit the items stand:
`Progress.Adds` compares two walks by what they have added. It depends neither on how source texts
are cut into files nor on the places in them: `resolve_bare`.
-/

set_option autoImplicit false

namespace ScriptHost

namespace Scope

namespace Progress

/-- A body and its slots, with new numbers. -/
def renameBody (r : Renaming) (body : List Resolved.Stmt × Nat) : List Resolved.Stmt × Nat :=
  (body.1.map (Resolved.Stmt.rename r), body.2)

/-- From `p` to `q` a walk has added what another has added from `p'` to `q'`, but for the numbers,
and both have passed so many classes. -/
structure Adds (r : Renaming) (classes : Nat) (p p' q q' : Progress) : Prop where
  bodies : ∃ more, q.bodies = p.bodies ++ more ∧ q'.bodies = p'.bodies ++ more.map (renameBody r)
  classes : q.classes = p.classes + classes ∧ q'.classes = p'.classes + classes
  topLevel : ∃ more, q.topLevel = p.topLevel ++ more ∧
    q'.topLevel = p'.topLevel ++ more.map (Resolved.Stmt.rename r)
  returnsValue : ∃ last : Option Bool, q.returnsValue = last.getD p.returnsValue ∧
    q'.returnsValue = last.getD p'.returnsValue
  top : Body.Alike p.top p'.top q.top q'.top

variable {r : Renaming} {ctx ctx' : Context} {p p' q q' : Progress}

/-- Two walks are at the same point of their top levels. -/
def Level (p p' : Progress) : Prop :=
  Body.Alike p.top p'.top p.top p'.top

theorem Adds.level {classes : Nat} (h : Adds r classes p p' q q') : Level q q' :=
  Body.alike_refl _ _ h.top.scopes h.top.nextSlot

theorem adds_nothing (h : Level p p') : Adds r 0 p p' p p' where
  bodies := ⟨#[], by simp, by simp⟩
  classes := ⟨rfl, rfl⟩
  topLevel := ⟨#[], by simp, by simp⟩
  returnsValue := ⟨none, rfl, rfl⟩
  top := h

/-- What is added in two steps is added. -/
theorem Adds.trans {first second : Nat} {s s' : Progress} (h : Adds r first p p' q q')
    (h' : Adds r second q q' s s') : Adds r (first + second) p p' s s' := by
  obtain ⟨bodies, hbodies, hbodies'⟩ := h.bodies
  obtain ⟨bodies₂, hbodies₂, hbodies₂'⟩ := h'.bodies
  obtain ⟨stmts, hstmts, hstmts'⟩ := h.topLevel
  obtain ⟨stmts₂, hstmts₂, hstmts₂'⟩ := h'.topLevel
  obtain ⟨last, hlast, hlast'⟩ := h.returnsValue
  obtain ⟨last₂, hlast₂, hlast₂'⟩ := h'.returnsValue
  refine ⟨⟨bodies ++ bodies₂, ?_, ?_⟩, ⟨?_, ?_⟩, ⟨stmts ++ stmts₂, ?_, ?_⟩,
    ⟨last₂ <|> last, ?_, ?_⟩, h.top.trans h'.top⟩
  · rw [hbodies₂, hbodies, Array.append_assoc]
  · rw [hbodies₂', hbodies', Array.append_assoc, Array.map_append]
  · rw [h'.classes.1, h.classes.1, Nat.add_assoc]
  · rw [h'.classes.2, h.classes.2, Nat.add_assoc]
  · rw [hstmts₂, hstmts, Array.append_assoc]
  · rw [hstmts₂', hstmts', Array.append_assoc, Array.map_append]
  · rw [hlast₂, hlast]
    cases last₂ <;> rfl
  · rw [hlast₂', hlast']
    cases last₂ <;> rfl

/-- The body that a walk makes of a function. -/
theorem adds_body (h : Level p p') (params : List String)
    {walk walk' : Resolver (List Resolved.Stmt)}
    (hwalk : ∀ start start', Resolver.Mirrors start start' walk walk'
      fun trees trees' => trees' = trees.map (Resolved.Stmt.rename r)) :
    Adds r 0 p p' (p.addBody params walk) (p'.addBody params walk') := by
  have hbegin : Body.Alike (Body.ofParams params p.top.diagnostics)
      (Body.ofParams params p'.top.diagnostics) (Body.ofParams params p.top.diagnostics)
      (Body.ofParams params p'.top.diagnostics) := Body.alike_refl _ _ rfl rfl
  have hagree := hwalk _ _ _ _ hbegin
  have hadds (stmts : List Resolved.Stmt) {body body' : Body}
      (hbody : Body.Alike (Body.ofParams params p.top.diagnostics)
        (Body.ofParams params p'.top.diagnostics) body body') :
      Adds r 0 p p'
        { p with
          bodies := p.bodies.push (stmts, body.maxSlot)
          top := { p.top with diagnostics := body.diagnostics } }
        { p' with
          bodies := p'.bodies.push (stmts.map (Resolved.Stmt.rename r), body'.maxSlot)
          top := { p'.top with diagnostics := body'.diagnostics } } := by
    obtain ⟨peak, hpeak, hpeak'⟩ := hbody.maxSlot
    have hslots : body'.maxSlot = body.maxSlot := by
      rw [hpeak, hpeak']
      rfl
    refine ⟨⟨#[(stmts, body.maxSlot)], by simp, ?_⟩, ⟨rfl, rfl⟩, ⟨#[], by simp, by simp⟩,
      ⟨none, rfl, rfl⟩, { h with diagnostics := hbody.diagnostics }⟩
    simp [renameBody, hslots]
  unfold Progress.addBody
  dsimp only
  cases hrun : walk (Body.ofParams params p.top.diagnostics) with
  | ok stmts body =>
    cases hrun' : walk' (Body.ofParams params p'.top.diagnostics) with
    | ok stmts' body' =>
      rw [hrun, hrun'] at hagree
      obtain ⟨rfl, hbody⟩ := hagree
      exact hadds stmts hbody
    | error e' body' =>
      rw [hrun, hrun'] at hagree
      exact hagree.elim
  | error e body =>
    cases hrun' : walk' (Body.ofParams params p'.top.diagnostics) with
    | ok stmts' body' =>
      rw [hrun, hrun'] at hagree
      exact hagree.elim
    | error e' body' =>
      rw [hrun, hrun'] at hagree
      exact hadds [] (hagree.2.push hagree.1)

theorem adds_function (hctx : Context.Renames r ctx ctx') (h : Level p p') (f : FunctionDecl) :
    Adds r 0 p p' (p.addFunction ctx f) (p'.addFunction ctx' f.bare) := by
  have hinner : Context.Renames r { ctx with inFunction := true } { ctx' with inFunction := true } :=
    { hctx with inFunction := rfl }
  unfold Progress.addFunction
  refine adds_body h f.params fun start start' => ?_
  rw [FunctionDecl.bare, ← ScriptHost.Stmt.bareAll_eq]
  refine (resolveStmts_renamed hinner f.body .live [] [] rfl).bind fun trees trees' htrees => ?_
  refine .modify (fun _ _ hbody => ?_) (.pure htrees)
  rw [hctx.warningLevel]
  exact hbody.leave _

theorem fieldAssignment_renamed {start start' : Body} (hctx : Context.Renames r ctx ctx')
    (field : FieldDecl) :
    Resolver.Mirrors start start' (fieldAssignment ctx field) (fieldAssignment ctx' field.bare)
      (Option.Rel fun tree tree' => tree' = tree.rename r) := by
  unfold fieldAssignment FieldDecl.bare
  cases field.initial with
  | none => exact .pure .none
  | some initial =>
    refine Resolver.Mirrors.recover ?_
    refine (resolveExpr_renamed hctx initial).bind fun tree tree' htree => .pure ?_
    rw [htree, Resolved.Stmt.rename, Resolved.Expr.rename]

theorem filterMap_renamed {found found' : List (Option Resolved.Stmt)}
    (h : List.Forall₂ (Option.Rel fun tree tree' => tree' = tree.rename r) found found') :
    found'.filterMap id = (found.filterMap id).map (Resolved.Stmt.rename r) := by
  induction h with
  | nil => rfl
  | cons hfirst _ ih =>
    cases hfirst with
    | some htree =>
      subst htree
      exact congrArg (_ :: ·) ih
    | none => exact ih

theorem adds_methods (hctx : Context.Renames r ctx ctx') (methods : List FunctionDecl)
    (h : Level p p') :
    Adds r 0 p p' (methods.foldl (fun p method => p.addFunction ctx method) p)
      ((methods.map FunctionDecl.bare).foldl (fun p method => p.addFunction ctx' method) p') := by
  induction methods generalizing p p' with
  | nil => exact adds_nothing h
  | cons method rest ih =>
    have hfirst := adds_function hctx h method
    exact hfirst.trans (ih hfirst.level)

/-- The bodies of a class, whose number is renamed as it should. -/
theorem adds_class (hctx : Context.Renames r ctx ctx') (h : Level p p') (c : ClassDecl)
    (hid : r.classId (ctx.declared.classBase + p.classes) =
      ctx'.declared.classBase + p'.classes) :
    Adds r 1 p p' (p.addClass ctx c) (p'.addClass ctx' c.bare) := by
  have hinner : Context.Renames r
      { ctx with member := some (ctx.declared.classBase + p.classes), inFunction := true }
      { ctx' with member := some (ctx'.declared.classBase + p'.classes), inFunction := true } :=
    { hctx with
      member := by
        rw [Option.map_some, hid]
      inFunction := rfl
      own := by
        rintro id (h : some _ = some id)
        cases h
        exact Nat.le_add_right _ _ }
  have hcount : Adds r 1 p p' { p with classes := p.classes + 1 }
      { p' with classes := p'.classes + 1 } :=
    { adds_nothing h with classes := ⟨rfl, rfl⟩ }
  have hfields := adds_body hcount.level [] fun start start' =>
    (Resolver.Mirrors.mapM FieldDecl.bare (fieldAssignment_renamed hinner) c.fields).bind
      fun found found' hfound => .pure (filterMap_renamed hfound)
  exact hcount.trans (hfields.trans (adds_methods hinner c.methods hfields.level))

theorem adds_stmt (hctx : Context.Renames r ctx ctx') (h : Level p p') (stmt : ScriptHost.Stmt) :
    Adds r 0 p p' (p.addStmt ctx stmt) (p'.addStmt ctx' stmt.bare) := by
  unfold Progress.addStmt
  rw [hctx.space, isExpr_bare]
  split
  · have hagree := resolveStmt_renamed hctx stmt p.top p'.top h
    dsimp only
    cases hrun : resolveStmt ctx stmt p.top with
    | ok tree top =>
      cases hrun' : resolveStmt ctx' stmt.bare p'.top with
      | ok tree' top' =>
        rw [hrun, hrun'] at hagree
        obtain ⟨rfl, htop⟩ := hagree
        exact ⟨⟨#[], by simp, by simp⟩, ⟨rfl, rfl⟩, ⟨#[tree], by simp, by simp⟩,
          ⟨some stmt.isExpr, rfl, rfl⟩, htop⟩
      | error e' top' =>
        rw [hrun, hrun'] at hagree
        exact hagree.elim
    | error e top =>
      cases hrun' : resolveStmt ctx' stmt.bare p'.top with
      | ok tree' top' =>
        rw [hrun, hrun'] at hagree
        exact hagree.elim
      | error e' top' =>
        rw [hrun, hrun'] at hagree
        exact ⟨⟨#[], by simp, by simp⟩, ⟨rfl, rfl⟩, ⟨#[], by simp, by simp⟩,
          ⟨some stmt.isExpr, rfl, rfl⟩, hagree.2.push hagree.1⟩
  · exact { adds_nothing h with top := h.push rfl }

mutual

/-- What an item adds, where the numbers of its classes are renamed as they should. -/
theorem adds_item : ∀ (item : Item) {ctx ctx' : Context} {p p' : Progress},
    Context.Renames r ctx ctx' → Level p p' →
      (∀ i < item.classes.length, r.classId (ctx.declared.classBase + (p.classes + i)) =
        ctx'.declared.classBase + (p'.classes + i)) →
          Adds r item.classes.length p p' (addItem ctx p item) (addItem ctx' p' item.bare)
  | .space path items _, ctx, ctx', p, p', hctx, h, hids => by
    rw [addItem, Item.bare, addItem]
    have hinner : Context.Renames r { ctx with space := ctx.space ++ path }
        { ctx' with space := ctx'.space ++ path } :=
      { hctx with space := by rw [hctx.space] }
    exact adds_items items hinner h hids
  | .classDecl c, ctx, ctx', p, p', hctx, h, hids => by
    rw [addItem, Item.bare, addItem]
    exact adds_class hctx h c (hids 0 Nat.one_pos)
  | .function f, ctx, ctx', p, p', hctx, h, _ => by
    rw [addItem, Item.bare, addItem]
    exact adds_function hctx h f
  | .stmt stmt, ctx, ctx', p, p', hctx, h, _ => by
    rw [addItem, Item.bare, addItem]
    exact adds_stmt hctx h stmt

/-- What the items of a namespace add. -/
theorem adds_items : ∀ (items : List Item) {ctx ctx' : Context} {p p' : Progress},
    Context.Renames r ctx ctx' → Level p p' →
      (∀ i < (Item.classesAll items).length,
        r.classId (ctx.declared.classBase + (p.classes + i)) =
          ctx'.declared.classBase + (p'.classes + i)) →
            Adds r (Item.classesAll items).length p p' (addItems ctx p items)
              (addItems ctx' p' (Item.bareAll items))
  | [], ctx, ctx', p, p', _, h, _ => adds_nothing h
  | item :: rest, ctx, ctx', p, p', hctx, h, hids => by
    rw [Item.classesAll, List.length_append] at hids ⊢
    rw [addItems, Item.bareAll, addItems]
    have hfirst := adds_item item hctx h fun i hi => hids i (by omega)
    refine hfirst.trans (adds_items rest hctx hfirst.level fun i hi => ?_)
    rw [hfirst.classes.1, hfirst.classes.2, Nat.add_assoc, Nat.add_assoc]
    exact hids (item.classes.length + i) (by omega)

end

end Progress

end Scope

end ScriptHost
