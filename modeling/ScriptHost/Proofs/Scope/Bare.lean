import ScriptHost.Proofs.Scope.Renumbered
/-!
# Places and files do not matter to what names stand for

A unit is resolved to the same trees, with diagnostics that say the same, whatever the places in its
source texts are and however the texts are cut into files: `resolve_bare`.
-/

set_option autoImplicit false

namespace ScriptHost

namespace Declarations

/-- The same is declared, and the diagnostics say the same. -/
def Matches (d d' : Declarations) : Prop :=
  ∃ diagnostics, d' = { d with diagnostics } ∧ SaySame d.diagnostics.toList diagnostics.toList

variable {d d' : Declarations}

theorem Matches.refl (d : Declarations) : Matches d d :=
  ⟨d.diagnostics, rfl, .refl _⟩

theorem Matches.report (h : Matches d d') (e : ScopeError) (span span' : Span) :
    Matches (d.report e span) (d'.report e span') := by
  obtain ⟨diagnostics, rfl, hsame⟩ := h
  have hone : SaySame [e.placed span] [e.placed span'] := rfl
  refine ⟨diagnostics.push (e.placed span'), rfl, ?_⟩
  unfold Declarations.report
  rw [Array.toList_push, Array.toList_push]
  exact hsame.append hone

theorem Matches.pushFunction (h : Matches d d') (name : String) (arity : Nat) :
    Matches (d.pushFunction name arity) (d'.pushFunction name arity) := by
  obtain ⟨diagnostics, rfl, hsame⟩ := h
  exact ⟨diagnostics, rfl, hsame⟩

theorem Matches.nextFunction (h : Matches d d') : d'.nextFunction = d.nextFunction := by
  obtain ⟨diagnostics, rfl, -⟩ := h
  rfl

/-- A name that is new leads to a function, and one that is not is an error. -/
theorem Matches.nameFunction (h : Matches d d') (name : String) (id : Nat) (e : ScopeError)
    (span span' : Span) :
    Matches
      (if d.functionNames.contains name then d.report e span
        else { d with functionNames := d.functionNames.insert name id })
      (if d'.functionNames.contains name then d'.report e span'
        else { d' with functionNames := d'.functionNames.insert name id }) := by
  obtain ⟨diagnostics, rfl, hsame⟩ := h
  have hmatch : Matches d { d with diagnostics } := ⟨diagnostics, rfl, hsame⟩
  dsimp only
  split
  · exact hmatch.report ..
  · exact ⟨diagnostics, rfl, hsame⟩

/-- A name that is new leads to a class, and one that is not is an error. -/
theorem Matches.nameClass (h : Matches d d') (name : String) (id : Nat) (e : ScopeError)
    (span span' : Span) :
    Matches
      (if d.classNames.contains name then d.report e span
        else { d with classNames := d.classNames.insert name id })
      (if d'.classNames.contains name then d'.report e span'
        else { d' with classNames := d'.classNames.insert name id }) := by
  obtain ⟨diagnostics, rfl, hsame⟩ := h
  have hmatch : Matches d { d with diagnostics } := ⟨diagnostics, rfl, hsame⟩
  dsimp only
  split
  · exact hmatch.report ..
  · exact ⟨diagnostics, rfl, hsame⟩

theorem Matches.addFunction (h : Matches d d') (space : List String) (f : FunctionDecl) :
    Matches (d.addFunction space f) (d'.addFunction space f.bare) := by
  unfold Declarations.addFunction
  dsimp only [FunctionDecl.bare]
  rw [h.nextFunction]
  exact (h.pushFunction _ _).nameFunction ..

/-- The same has been found besides. -/
def MatchesWith {α : Type} (found found' : α × Declarations) : Prop :=
  found'.1 = found.1 ∧ Matches found.2 found'.2

/-- One thing after the other is declared. -/
theorem MatchesWith.foldl {α γ : Type} {step : α × Declarations → γ → α × Declarations} {g : γ → γ}
    (hstep : ∀ found found' c, MatchesWith found found' →
      MatchesWith (step found c) (step found' (g c))) (cs : List γ)
    {found found' : α × Declarations} (h : MatchesWith found found') :
    MatchesWith (cs.foldl step found) ((cs.map g).foldl step found') := by
  induction cs generalizing found found' with
  | nil => exact h
  | cons c rest ih => exact ih (hstep _ _ c h)

theorem MatchesWith.addField (className : String) {found found' : List String × Declarations}
    (h : MatchesWith found found') (field : FieldDecl) :
    MatchesWith (addField className found field) (addField className found' field.bare) := by
  obtain ⟨hnames, hmatch⟩ := h
  unfold Declarations.addField
  rw [hnames, FieldDecl.name_bare]
  split
  · exact ⟨rfl, hmatch.report ..⟩
  · exact ⟨rfl, hmatch⟩

theorem MatchesWith.addMethod (className : String) (fields : List String)
    {found found' : Table Nat × Declarations} (h : MatchesWith found found')
    (method : FunctionDecl) :
    MatchesWith (addMethod className fields found method)
      (addMethod className fields found' method.bare) := by
  obtain ⟨htable, hmatch⟩ := h
  have hpushed := hmatch.pushFunction (className ++ "." ++ method.name) method.params.length
  unfold Declarations.addMethod
  rw [htable, hmatch.nextFunction, FunctionDecl.name_bare]
  split
  · exact ⟨rfl, hpushed.report ..⟩
  · exact ⟨rfl, hpushed⟩

theorem Matches.addFields (h : Matches d d') (className : String) (fields : List FieldDecl) :
    MatchesWith (d.addFields className fields)
      (d'.addFields className (fields.map FieldDecl.bare)) :=
  MatchesWith.foldl (fun _ _ field h => h.addField className field) fields ⟨rfl, h⟩

theorem Matches.addMethods (h : Matches d d') (className : String) (fields : List String)
    (methods : List FunctionDecl) :
    MatchesWith (d.addMethods className fields methods)
      (d'.addMethods className fields (methods.map FunctionDecl.bare)) :=
  MatchesWith.foldl (fun _ _ method h => h.addMethod className fields method) methods ⟨rfl, h⟩

theorem Matches.addClass (h : Matches d d') (space : List String) (c : ClassDecl) :
    Matches (d.addClass space c) (d'.addClass space c.bare) := by
  have hid : d'.classBase + d'.classes.size = d.classBase + d.classes.size := by
    obtain ⟨diagnostics, rfl, -⟩ := h
    rfl
  unfold Declarations.addClass
  dsimp only [ClassDecl.bare]
  rw [h.nextFunction, hid]
  generalize qualify space c.name = name
  have hfields := (h.pushFunction (name ++ ".<fields>") 0).addFields name c.fields
  generalize (d.pushFunction (name ++ ".<fields>") 0).addFields name c.fields = found at hfields ⊢
  generalize (d'.pushFunction (name ++ ".<fields>") 0).addFields name
    (c.fields.map FieldDecl.bare) = found' at hfields ⊢
  obtain ⟨fields, fielded⟩ := found
  obtain ⟨fields', fielded'⟩ := found'
  obtain ⟨hnames, hfielded⟩ := hfields
  change fields' = fields at hnames
  subst hnames
  have hmethods := hfielded.addMethods name fields' c.methods
  generalize fielded.addMethods name fields' c.methods = found at hmethods ⊢
  generalize fielded'.addMethods name fields' (c.methods.map FunctionDecl.bare) = found'
    at hmethods ⊢
  obtain ⟨methods, methoded⟩ := found
  obtain ⟨methods', methoded'⟩ := found'
  obtain ⟨htable, hmethoded⟩ := hmethods
  change methods' = methods at htable
  subst htable
  have hmade (made : Class) : Matches { methoded with classes := methoded.classes.push made }
      { methoded' with classes := methoded'.classes.push made } := by
    obtain ⟨diagnostics, htables, hsame⟩ := hmethoded
    change methoded' = { methoded with diagnostics } at htables
    subst htables
    exact ⟨diagnostics, rfl, hsame⟩
  exact (hmade _).nameClass ..

theorem Matches.addGlobal (h : Matches d d') (program : Program) (name : String)
    (span span' : Span) :
    Matches (d.addGlobal program name span) (d'.addGlobal program name span') := by
  obtain ⟨diagnostics, rfl, hsame⟩ := h
  have hmatch : Matches d { d with diagnostics } := ⟨diagnostics, rfl, hsame⟩
  unfold Declarations.addGlobal
  dsimp only
  split
  · exact hmatch.report ..
  · split <;> exact ⟨diagnostics, rfl, hsame⟩

mutual

theorem Matches.addItem (program : Program) : ∀ (item : Item) (space : List String)
    {d d' : Declarations}, Matches d d' →
      Matches (Declarations.addItem program space d item)
        (Declarations.addItem program space d' item.bare)
  | .space path items _, space, _, _, h => by
    rw [Item.bare, Declarations.addItem, Declarations.addItem]
    exact Matches.addItems program items (space ++ path) h
  | .classDecl c, space, _, _, h => by
    rw [Item.bare, Declarations.addItem, Declarations.addItem]
    exact h.addClass space c
  | .function f, space, _, _, h => by
    rw [Item.bare, Declarations.addItem, Declarations.addItem]
    exact h.addFunction space f
  | .stmt s, space, _, _, h => by
    cases s with
    | letVar name value span =>
      rw [Item.bare, Stmt.bare, Declarations.addItem, Declarations.addItem]
      split
      · exact h.addGlobal program name ..
      · exact h
    | _ => exact h

theorem Matches.addItems (program : Program) : ∀ (items : List Item) (space : List String)
    {d d' : Declarations}, Matches d d' →
      Matches (Declarations.addItems program space d items)
        (Declarations.addItems program space d' (Item.bareAll items))
  | [], _, _, _, h => by
    rw [Item.bareAll, Declarations.addItems, Declarations.addItems]
    exact h
  | item :: rest, space, _, _, h => by
    rw [Item.bareAll, Declarations.addItems, Declarations.addItems]
    exact Matches.addItems program rest space (Matches.addItem program item space h)

end

end Declarations

/-! ## Renaming nothing -/

namespace Resolved

mutual

theorem Expr.rename_refl : ∀ e : Expr, e.rename .refl = e
  | .const _ | .loadLocal _ | .loadGlobal _ | .loadThis => rfl
  | .getField object name => by rw [Expr.rename, Expr.rename_refl object]
  | .binary op left right => by rw [Expr.rename, Expr.rename_refl left, Expr.rename_refl right]
  | .unary op operand => by rw [Expr.rename, Expr.rename_refl operand]
  | .call function args | .create function args => by
    rw [Expr.rename, Expr.renameAll_refl args]
    rfl
  | .callHost module function args => by rw [Expr.rename, Expr.renameAll_refl args]
  | .callMethod object method args => by
    rw [Expr.rename, Expr.rename_refl object, Expr.renameAll_refl args]

theorem Expr.renameAll_refl : ∀ es : List Expr, Expr.renameAll .refl es = es
  | [] => rfl
  | e :: rest => by rw [Expr.renameAll, Expr.rename_refl e, Expr.renameAll_refl rest]

end

mutual

theorem Stmt.rename_refl : ∀ s : Stmt, s.rename .refl = s
  | .storeLocal slot value => by rw [Stmt.rename, Expr.rename_refl]
  | .storeGlobal id value => by
    rw [Stmt.rename, Expr.rename_refl]
    rfl
  | .setField object name value => by rw [Stmt.rename, Expr.rename_refl, Expr.rename_refl]
  | .branch condition body alternative => by
    rw [Stmt.rename, Expr.rename_refl, Stmt.renameAll_refl body, Stmt.renameAll_refl alternative]
  | .loop condition body => by rw [Stmt.rename, Expr.rename_refl, Stmt.renameAll_refl body]
  | .ret none => rfl
  | .ret (some value) => by rw [Stmt.rename, Option.map_some, Expr.rename_refl]
  | .expr value => by rw [Stmt.rename, Expr.rename_refl]

theorem Stmt.renameAll_refl : ∀ body : List Stmt, Stmt.renameAll .refl body = body
  | [] => rfl
  | s :: rest => by rw [Stmt.renameAll, Stmt.rename_refl s, Stmt.renameAll_refl rest]

end

end Resolved

theorem Class.rename_refl (c : Class) : c.rename .refl = c := by
  obtain ⟨name, fields, ⟨entries⟩, fieldInit, constructor?⟩ := c
  unfold Class.rename Renaming.refl
  simp

theorem Scope.Progress.renameBody_refl (body : List Resolved.Stmt × Nat) :
    renameBody .refl body = body := by
  unfold renameBody
  rw [show Resolved.Stmt.rename .refl = id from funext Resolved.Stmt.rename_refl, List.map_id]

/-! ## Units -/

/-- Which text an item stands in is nothing to what a unit is resolved to. -/
theorem resolve_flatten (texts : List (List Item)) (env : Env) :
    resolve texts env = resolve [texts.flatten] env := by
  unfold resolve Declarations.ofTexts
  rw [Declarations.foldl_addItems]
  dsimp only
  rw [Scope.Progress.foldl_addItems]
  rfl

/-- Declarations that differ in their diagnostics only make no difference. -/
theorem renames_of_matches (env : Env) {d d' : Declarations} (h : Declarations.Matches d d') :
    Scope.Context.Renames .refl { env, declared := d } { env, declared := d' } := by
  obtain ⟨diagnostics, rfl, -⟩ := h
  have hid (found : Option Nat) : found = found.map id := Option.map_id.symm ▸ rfl
  refine ⟨rfl, rfl, rfl, rfl, rfl, fun _ => hid _, fun _ => hid _, fun _ => hid _,
    fun _ _ => rfl, fun number _ => ?_, fun _ _ _ _ _ _ => rfl, nofun⟩
  rw [show Class.rename .refl = id from funext Class.rename_refl, Option.map_id]
  rfl

/-- What the bare items of a unit are resolved to. -/
theorem resolve_bareAll (items : List Item) (env : Env) :
    (resolve [items] env).1 = (resolve [Item.bareAll items] env).1 ∧
      SaySame (resolve [items] env).2 (resolve [Item.bareAll items] env).2 := by
  have hmatches := Declarations.Matches.addItems env.program items []
    (.refl (Declarations.start env.program))
  have hctx := renames_of_matches env hmatches
  unfold resolve Declarations.ofTexts
  dsimp only [List.foldl_cons, List.foldl_nil]
  generalize Declarations.addItems env.program [] (.start env.program) items = d at hmatches hctx ⊢
  generalize Declarations.addItems env.program [] (.start env.program) (Item.bareAll items) = d'
    at hmatches hctx ⊢
  obtain ⟨diagnostics, rfl, hsame⟩ := hmatches
  have hlevel : Scope.Progress.Level { top := { diagnostics := d.diagnostics } }
      { top := { diagnostics } } := Body.alike_refl _ _ rfl rfl
  have hadds := Scope.Progress.adds_items items hctx hlevel fun _ _ => rfl
  obtain ⟨bodies, hbodies, hbodies'⟩ := hadds.bodies
  obtain ⟨stmts, hstmts, hstmts'⟩ := hadds.topLevel
  obtain ⟨last, hlast, hlast'⟩ := hadds.returnsValue
  obtain ⟨peak, hpeak, hpeak'⟩ := hadds.top.maxSlot
  obtain ⟨more, more', hmore, hmore', hsameMore⟩ := hadds.top.diagnostics
  rw [show Scope.Progress.renameBody .refl = id from funext Scope.Progress.renameBody_refl,
    Array.map_id] at hbodies'
  rw [show Resolved.Stmt.rename .refl = id from funext Resolved.Stmt.rename_refl,
    Array.map_id] at hstmts'
  dsimp only at *
  rw [hbodies, hbodies', hstmts, hstmts', hlast, hlast', hpeak, hpeak', hmore, hmore']
  exact ⟨rfl, hsame.append hsameMore⟩

/-- A unit is resolved to the same if its texts are the same but for places, however they are cut
into files. -/
theorem resolve_bare {texts texts' : List (List Item)}
    (h : texts.flatten.map Item.bare = texts'.flatten.map Item.bare) (env : Env) :
    (resolve texts env).1 = (resolve texts' env).1 ∧
      SaySame (resolve texts env).2 (resolve texts' env).2 := by
  obtain ⟨hunit, hsame⟩ := resolve_bareAll texts.flatten env
  obtain ⟨hunit', hsame'⟩ := resolve_bareAll texts'.flatten env
  rw [Item.bareAll_eq, h, ← Item.bareAll_eq] at hunit hsame
  rw [resolve_flatten texts, resolve_flatten texts']
  exact ⟨hunit.trans hunit'.symm, hsame.trans hsame'.symm⟩

end ScriptHost
