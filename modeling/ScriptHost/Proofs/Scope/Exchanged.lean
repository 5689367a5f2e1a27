import ScriptHost.Proofs.Scope.Balanced
import ScriptHost.Proofs.Scope.Swapped
/-!
# Items in another order

A walk through items in which two stretches have changed places finds the same bodies and the same
statements, but for the numbers and for their places, and it finds an error if and only if the walk
in the first order does: `Scope.Progress.exchanged_addItems`.
-/

set_option autoImplicit false

namespace ScriptHost

open Declaration

/-! ## How much there is in items -/

mutual

theorem Item.total_classCount : ∀ (item : Item) (outer : List String),
    total classCount (item.declarations outer) = item.classes.length
  | .space path items _, outer => Item.total_classCount_all items (outer ++ path)
  | .classDecl _, _ | .function _, _ => rfl
  | .stmt s, outer => by
    cases s with
    | letVar name value span =>
      rw [Item.declarations]
      split <;> rfl
    | _ => rfl

/-- As many classes are declared as there are class declarations. -/
theorem Item.total_classCount_all : ∀ (items : List Item) (outer : List String),
    total classCount (Item.declarationsAll outer items) = (Item.classesAll items).length
  | [], _ => rfl
  | item :: rest, outer => by
    rw [Item.declarationsAll, total_append, Item.classesAll, List.length_append,
      Item.total_classCount item, Item.total_classCount_all rest]

end

namespace Scope.Progress

/-- From `p` to `q` a walk has added so many bodies and classes. -/
structure Counts (bodies classes : Nat) (p q : Progress) : Prop where
  bodies : q.bodies.size = p.bodies.size + bodies
  classes : q.classes = p.classes + classes

variable {p q s : Progress} {r : Renaming} {ctx ctx' : Context}

theorem Counts.trans {bodies classes bodies' classes' : Nat} (h : Counts bodies classes p q)
    (h' : Counts bodies' classes' q s) : Counts (bodies + bodies') (classes + classes') p s where
  bodies := by rw [h'.bodies, h.bodies, Nat.add_assoc]
  classes := by rw [h'.classes, h.classes, Nat.add_assoc]

theorem counts_addBody (p : Progress) (params : List String)
    (walk : Resolver (List Resolved.Stmt)) : Counts 1 0 p (p.addBody params walk) :=
  ⟨Array.size_push .., rfl⟩

theorem counts_methods (ctx : Context) (methods : List FunctionDecl) (p : Progress) :
    Counts methods.length 0 p (methods.foldl (fun p method => p.addFunction ctx method) p) := by
  induction methods generalizing p with
  | nil => exact ⟨rfl, rfl⟩
  | cons method rest ih =>
    have hall := (counts_addBody p method.params _).trans (ih (p.addFunction ctx method))
    rwa [Nat.add_comm 1] at hall

theorem counts_addStmt (p : Progress) (ctx : Context) (s : ScriptHost.Stmt) :
    Counts 0 0 p (p.addStmt ctx s) := by
  unfold Progress.addStmt
  split
  · dsimp only
    cases resolveStmt ctx s p.top <;> exact ⟨rfl, rfl⟩
  · exact ⟨rfl, rfl⟩

mutual

theorem counts_addItem : ∀ (item : Item) (ctx : Context) (p : Progress) (space : List String),
    Counts (total functionCount (item.declarations space)) item.classes.length p
      (addItem ctx p item)
  | .space path items _, ctx, p, space => by
    rw [addItem]
    exact counts_addItems items _ p (space ++ path)
  | .classDecl c, ctx, p, space => by
    have hcounted : Counts 0 1 p { p with classes := p.classes + 1 } := ⟨rfl, rfl⟩
    have hfunctions : total functionCount ((Item.classDecl c).declarations space) =
        0 + (1 + c.methods.length) := by
      simp [Item.declarations, ClassDecl.declaration, total, functionCount, signatures]
      omega
    rw [addItem, hfunctions]
    exact hcounted.trans ((counts_addBody _ [] _).trans (counts_methods _ c.methods _))
  | .function f, ctx, p, space => by
    rw [addItem]
    exact counts_addBody p f.params _
  | .stmt s, ctx, p, space => by
    have hfunctions : total functionCount ((Item.stmt s).declarations space) = 0 := by
      cases s with
      | letVar name value span =>
        rw [Item.declarations]
        split <;> rfl
      | _ => rfl
    rw [addItem, hfunctions]
    exact counts_addStmt p ctx s

/-- A walk adds a body for each function that is declared. -/
theorem counts_addItems : ∀ (items : List Item) (ctx : Context) (p : Progress)
    (space : List String),
    Counts (total functionCount (Item.declarationsAll space items)) (Item.classesAll items).length p
      (addItems ctx p items)
  | [], _, _, _ => ⟨rfl, rfl⟩
  | item :: rest, ctx, p, space => by
    rw [addItems, Item.declarationsAll, total_append, Item.classesAll, List.length_append]
    exact (counts_addItem item ctx p space).trans (counts_addItems rest ctx _ space)

end

/-! ## Two orders -/

/-- From `p'` to `q'` a walk has added what another has added from `p` to `q`, but for the numbers,
and two stretches of so many bodies behind the first ones have changed places. -/
structure Exchanged (r : Renaming) (front first second : Nat) (p p' q q' : Progress) : Prop where
  bodies : ∃ a b c d : List (List Resolved.Stmt × Nat), a.length = front ∧ b.length = first ∧
    c.length = second ∧ q.bodies.toList = p.bodies.toList ++ (a ++ (b ++ (c ++ d))) ∧
      q'.bodies.toList = p'.bodies.toList ++ (a ++ (c ++ (b ++ d))).map (renameBody r)
  topLevel : ∃ more more' : List Resolved.Stmt, q.topLevel.toList = p.topLevel.toList ++ more ∧
    q'.topLevel.toList = p'.topLevel.toList ++ more' ∧
      (more.map (Resolved.Stmt.rename r)).Perm more'
  errors : ∃ more more', q.top.diagnostics.toList = p.top.diagnostics.toList ++ more ∧
    q'.top.diagnostics.toList = p'.top.diagnostics.toList ++ more' ∧
      more.any Diagnostic.isError = more'.any Diagnostic.isError

/-- The places of bodies are those of the functions that are declared. -/
theorem Adds.more_length {classes bodies classes' : Nat} {p' q' : Progress}
    (h : Adds r classes p p' q q') (hcounts : Counts bodies classes' p q) :
    ∃ more : List (List Resolved.Stmt × Nat), more.length = bodies ∧
      q.bodies.toList = p.bodies.toList ++ more ∧
        q'.bodies.toList = p'.bodies.toList ++ more.map (renameBody r) := by
  obtain ⟨more, hmore, hmore'⟩ := h.bodies
  refine ⟨more.toList, ?_, by rw [hmore, Array.toList_append], ?_⟩
  · have hsize := hcounts.bodies
    rw [hmore, Array.size_append] at hsize
    rw [Array.length_toList]
    omega
  · rw [hmore', Array.toList_append, Array.toList_map]

theorem bareAll_append (front rest : List Item) :
    Item.bareAll (front ++ rest) = Item.bareAll front ++ Item.bareAll rest := by
  rw [Item.bareAll_eq, List.map_append, Item.bareAll_eq, Item.bareAll_eq]

/-- What four stretches add, when the second and the third one have changed places in the second
walk. -/
theorem exchanged_of_adds {classes classes₁ classes₂ classes₃ front first second rest : Nat}
    {p₁ p₂ p₃ p₄ p' q₁ q₂ q₃ q₄ : Progress} (hfront : Adds r classes p p' p₁ q₁)
    (hfirst : Adds r classes₁ p₁ q₂ p₂ q₃) (hsecond : Adds r classes₂ p₂ q₁ p₃ q₂)
    (hrest : Adds r classes₃ p₃ q₃ p₄ q₄) (hcounts : Counts front classes p p₁)
    (hcounts₁ : Counts first classes₁ p₁ p₂) (hcounts₂ : Counts second classes₂ p₂ p₃)
    (hcounts₃ : Counts rest classes₃ p₃ p₄) : Exchanged r front first second p p' p₄ q₄ := by
  obtain ⟨a, ha, hbodies, hbodies'⟩ := hfront.more_length hcounts
  obtain ⟨b, hb, hbodies₁, hbodies₁'⟩ := hfirst.more_length hcounts₁
  obtain ⟨c, hc, hbodies₂, hbodies₂'⟩ := hsecond.more_length hcounts₂
  obtain ⟨d, -, hbodies₃, hbodies₃'⟩ := hrest.more_length hcounts₃
  refine ⟨⟨a, b, c, d, ha, hb, hc, ?_, ?_⟩, ?_, ?_⟩
  · rw [hbodies₃, hbodies₂, hbodies₁, hbodies]
    simp only [List.append_assoc]
  · rw [hbodies₃', hbodies₁', hbodies₂', hbodies']
    simp only [List.map_append, List.append_assoc]
  · obtain ⟨s, hs, hs'⟩ := hfront.topLevel
    obtain ⟨s₁, hs₁, hs₁'⟩ := hfirst.topLevel
    obtain ⟨s₂, hs₂, hs₂'⟩ := hsecond.topLevel
    obtain ⟨s₃, hs₃, hs₃'⟩ := hrest.topLevel
    refine ⟨s.toList ++ (s₁.toList ++ (s₂.toList ++ s₃.toList)),
      (s.toList ++ (s₂.toList ++ (s₁.toList ++ s₃.toList))).map (Resolved.Stmt.rename r), ?_, ?_, ?_⟩
    · rw [hs₃, hs₂, hs₁, hs]
      simp only [Array.toList_append, List.append_assoc]
    · rw [hs₃', hs₁', hs₂', hs']
      simp only [Array.toList_append, Array.toList_map, List.map_append, List.append_assoc]
    · exact (perm_swapped ..).map _
  · obtain ⟨m, m', hm, hm', hsame⟩ := hfront.top.diagnostics
    obtain ⟨m₁, m₁', hm₁, hm₁', hsame₁⟩ := hfirst.top.diagnostics
    obtain ⟨m₂, m₂', hm₂, hm₂', hsame₂⟩ := hsecond.top.diagnostics
    obtain ⟨m₃, m₃', hm₃, hm₃', hsame₃⟩ := hrest.top.diagnostics
    refine ⟨m ++ (m₁ ++ (m₂ ++ m₃)), m' ++ (m₂' ++ (m₁' ++ m₃')), ?_, ?_, ?_⟩
    · rw [hm₃, hm₂, hm₁, hm]
      simp only [List.append_assoc]
    · rw [hm₃', hm₁', hm₂', hm']
      simp only [List.append_assoc]
    · simp only [List.any_append, hsame.any_isError, hsame₁.any_isError, hsame₂.any_isError,
        hsame₃.any_isError, Bool.or_left_comm]

/-- A walk through items in another order finds the same. -/
theorem exchanged_addItems {p' : Progress} (hctx : Context.Renames r ctx ctx')
    (hp : p.top.Nested 0) (hp' : p'.top.Nested 0) (hclasses : p.classes = 0)
    (hclasses' : p'.classes = 0) (front first second rest : List Item)
    (hids : ∀ place, r.classId (ctx.declared.classBase + place) = ctx'.declared.classBase +
      swapPlaces (Item.classesAll front).length (Item.classesAll first).length
        (Item.classesAll second).length place) :
    Exchanged r (total functionCount (Item.declarationsAll [] front))
      (total functionCount (Item.declarationsAll [] first))
      (total functionCount (Item.declarationsAll [] second)) p p'
      (addItems ctx p (front ++ (first ++ (second ++ rest))))
      (addItems ctx' p' (Item.bareAll (front ++ (second ++ (first ++ rest))))) := by
  rw [bareAll_append, bareAll_append, bareAll_append]
  simp only [addItems_append]
  -- The walk in the first order.
  have hcounts := counts_addItems front ctx p []
  have hnested := nested_addItems front ctx hp
  generalize hp₁ : addItems ctx p front = p₁ at hcounts hnested
  have hcounts₁ := counts_addItems first ctx p₁ []
  have hnested₁ := nested_addItems first ctx hnested
  generalize hp₂ : addItems ctx p₁ first = p₂ at hcounts₁ hnested₁
  have hcounts₂ := counts_addItems second ctx p₂ []
  have hnested₂ := nested_addItems second ctx hnested₁
  generalize hp₃ : addItems ctx p₂ second = p₃ at hcounts₂ hnested₂
  have hclasses₁ : p₁.classes = (Item.classesAll front).length := by
    rw [hcounts.classes, hclasses, Nat.zero_add]
  have hclasses₂ := hcounts₁.classes
  have hclasses₃ := hcounts₂.classes
  rw [hclasses₁] at hclasses₂
  rw [hclasses₂] at hclasses₃
  -- The walk in the second order, one stretch after the other.
  have hfront := adds_items front hctx (level_of_nested hp hp') fun i hi => by
    rw [hclasses, hclasses', hids, Nat.zero_add, swapPlaces_of_lt hi]
  rw [hp₁] at hfront
  have hnested' := nested_addItems (Item.bareAll front) ctx' hp'
  generalize hq₁ : addItems ctx' p' (Item.bareAll front) = q₁ at hfront hnested'
  have hclasses₁' := hfront.classes.2
  rw [hclasses', Nat.zero_add] at hclasses₁'
  have hsecond := adds_items second hctx (level_of_nested hnested₁ hnested') fun i hi => by
    rw [hclasses₂, hclasses₁', hids, swapPlaces_second hi]
  rw [hp₃] at hsecond
  have hnested₂' := nested_addItems (Item.bareAll second) ctx' hnested'
  generalize hq₂ : addItems ctx' q₁ (Item.bareAll second) = q₂ at hsecond hnested₂'
  have hclasses₂' := hsecond.classes.2
  rw [hclasses₁'] at hclasses₂'
  have hfirst := adds_items first hctx (level_of_nested hnested hnested₂') fun i hi => by
    rw [hclasses₁, hclasses₂', hids, swapPlaces_first hi]
  rw [hp₂] at hfirst
  have hnested₃' := nested_addItems (Item.bareAll first) ctx' hnested₂'
  generalize hq₃ : addItems ctx' q₂ (Item.bareAll first) = q₃ at hfirst hnested₃'
  have hclasses₃' := hfirst.classes.2
  rw [hclasses₂'] at hclasses₃'
  have hrest := adds_items rest hctx (level_of_nested hnested₂ hnested₃') fun i hi => by
    rw [hclasses₃, hclasses₃', hids, swapPlaces_of_ge (by omega), Nat.add_right_comm _ _ i]
    omega
  exact exchanged_of_adds hfront hfirst hsecond hrest hcounts hcounts₁ hcounts₂
    (counts_addItems rest ctx p₃ [])

end Scope.Progress

end ScriptHost
