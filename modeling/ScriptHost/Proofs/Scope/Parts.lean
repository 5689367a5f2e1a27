import ScriptHost.Proofs.Code.Places
import ScriptHost.Proofs.Scope.Bodies
/-!
# Which part of a source text an instruction is there for

`Expr.parts` and `Stmt.parts` list all that a body is put together from. Every call and every access
to a field that the trees of a body tell of is there for one of its parts, and for a part that may
be resolved to just that: `Scope.Source.Resolves.origins`.
-/

set_option autoImplicit false

namespace ScriptHost

open Resolved (Origin Spot)

/-- A part of a body: an expression, a statement, or a field that starts with a value. -/
inductive Part where
  | expr (e : Expr)
  | stmt (s : Stmt)
  | field (decl : FieldDecl)

mutual

/-- An expression and all expressions in it. -/
def Expr.parts : Expr → List Part
  | .int value span => [.expr (.int value span)]
  | .float value span => [.expr (.float value span)]
  | .str text span => [.expr (.str text span)]
  | .bool value span => [.expr (.bool value span)]
  | .null span => [.expr (.null span)]
  | .this span => [.expr (.this span)]
  | .ident name span => [.expr (.ident name span)]
  | .binary op left right span => .expr (.binary op left right span) :: (left.parts ++ right.parts)
  | .unary op operand span => .expr (.unary op operand span) :: operand.parts
  | .call name args span => .expr (.call name args span) :: Expr.partsAll args
  | .methodCall object method args span =>
    .expr (.methodCall object method args span) :: (object.parts ++ Expr.partsAll args)
  | .field object name span => .expr (.field object name span) :: object.parts
  | .create path args span => .expr (.create path args span) :: Expr.partsAll args

/-- The parts of several expressions. -/
def Expr.partsAll : List Expr → List Part
  | [] => []
  | e :: rest => e.parts ++ Expr.partsAll rest

end

mutual

/-- A statement and all statements and expressions in it. -/
def Stmt.parts : Stmt → List Part
  | .letVar name value span => .stmt (.letVar name value span) :: value.parts
  | .assign target value span => .stmt (.assign target value span) :: (target.parts ++ value.parts)
  | .ifThen condition body span =>
    .stmt (.ifThen condition body span) :: (condition.parts ++ Stmt.partsAll body)
  | .ifElse condition body alternative span =>
    .stmt (.ifElse condition body alternative span) ::
      (condition.parts ++ Stmt.partsAll body ++ Stmt.partsAll alternative)
  | .loop condition body span =>
    .stmt (.loop condition body span) :: (condition.parts ++ Stmt.partsAll body)
  | .ret none span => [.stmt (.ret none span)]
  | .ret (some value) span => .stmt (.ret (some value) span) :: value.parts
  | .block body span => .stmt (.block body span) :: Stmt.partsAll body
  | .expr value => .stmt (.expr value) :: value.parts

/-- The parts of several statements. -/
def Stmt.partsAll : List Stmt → List Part
  | [] => []
  | s :: rest => s.parts ++ Stmt.partsAll rest

end

/-- The parts of what a function is made from. -/
def Source.parts : Source → List Part
  | .fields decls => decls.flatMap fun decl =>
    match decl.initial with
    | some initial => .field decl :: initial.parts
    | none => []
  | .body statements => Stmt.partsAll statements

namespace Scope

variable {rules : Rules}

/-- A part is what an instruction is there for: it may be resolved to what the instruction does. -/
inductive Gives (rules : Rules) : Part → Origin → Prop
  | expr {e : Expr} {tree : Resolved.Expr} (resolved : Resolves rules e tree) :
      Gives rules (.expr e) (.expr tree)
  | stmt {s : Stmt} {tree : Resolved.Stmt} (resolved : ResolvesStmt rules s tree) :
      Gives rules (.stmt s) (.stmt tree)
  | field {decl : FieldDecl} {initial : Expr} {tree : Resolved.Expr}
      (starts : decl.initial = some initial) (resolved : Resolves rules initial tree) :
      Gives rules (.field decl) (.stmt (.setField .loadThis decl.name tree))

/-- A place of code is explained if it does not call anything and has to do with no field, or is
there for one of these parts. -/
def Explains (rules : Rules) (parts : List Part) (p : Spot) : Prop :=
  p.origin = .plain ∨ ∃ part ∈ parts, Gives rules part p.origin

theorem Explains.mono {few many : List Part} {p : Spot} (h : Explains rules few p)
    (hsub : ∀ part ∈ few, part ∈ many) : Explains rules many p :=
  h.imp_right fun ⟨part, hpart, hgives⟩ => ⟨part, hsub part hpart, hgives⟩

theorem Explains.left {few more : List Part} {p : Spot} (h : Explains rules few p) (part : Part) :
    Explains rules (part :: (few ++ more)) p :=
  h.mono fun _ hfew => List.mem_cons_of_mem _ (List.mem_append_left _ hfew)

theorem Explains.right {few more : List Part} {p : Spot} (h : Explains rules more p)
    (part : Part) : Explains rules (part :: (few ++ more)) p :=
  h.mono fun _ hmore => List.mem_cons_of_mem _ (List.mem_append_right _ hmore)

theorem Explains.cons {few : List Part} {p : Spot} (h : Explains rules few p) (part : Part) :
    Explains rules (part :: few) p :=
  h.mono fun _ hfew => List.mem_cons_of_mem _ hfew

theorem Resolves.parts {e : Expr} {tree : Resolved.Expr} (h : Resolves rules e tree)
    (marks : List Bool) : Explains rules e.parts ⟨.expr tree, marks⟩ := by
  refine .inr ⟨.expr e, ?_, .expr h⟩
  cases e <;> simp [Expr.parts]

theorem ResolvesStmt.parts {s : Stmt} {tree : Resolved.Stmt} (h : ResolvesStmt rules s tree)
    (marks : List Bool) : Explains rules s.parts ⟨.stmt tree, marks⟩ := by
  refine .inr ⟨.stmt s, ?_, .stmt h⟩
  cases s with
  | ret value span => cases value <;> simp [Stmt.parts]
  | _ => simp [Stmt.parts]

/-- The places of an operator are those of its operands and some where nothing is called. -/
theorem mem_places_binary {op : BinaryOp} {left right : Resolved.Expr} {marks : List Bool}
    {p : Spot} (h : p ∈ (Resolved.Expr.binary op left right).places marks) :
    p.origin = .plain ∨ p ∈ left.places marks ∨ ∃ others, p ∈ right.places others := by
  by_cases hand : op = .and
  · subst hand
    simp only [Resolved.Expr.places, List.mem_append, List.mem_cons, List.not_mem_nil, or_false]
      at h
    obtain (h | rfl | h) | rfl | rfl := h
    · exact .inr (.inl h)
    · exact .inl rfl
    · exact .inr (.inr ⟨_, h⟩)
    · exact .inl rfl
    · exact .inl rfl
  · by_cases hor : op = .or
    · subst hor
      simp only [Resolved.Expr.places, List.mem_append, List.mem_cons] at h
      obtain h | rfl | rfl | rfl | h := h
      · exact .inr (.inl h)
      · exact .inl rfl
      · exact .inl rfl
      · exact .inl rfl
      · exact .inr (.inr ⟨_, h⟩)
    · rw [Resolved.Expr.places] at h
      · simp only [List.mem_append, List.mem_singleton] at h
        obtain (h | h) | rfl := h
        · exact .inr (.inl h)
        · exact .inr (.inr ⟨_, h⟩)
        · exact .inl rfl
      · exact hand
      · exact hor

mutual

/-- The places of an expression are there for its parts. -/
theorem Resolves.origins : ∀ {e : Expr} {tree : Resolved.Expr}, Resolves rules e tree →
    ∀ (marks : List Bool), ∀ p ∈ tree.places marks, Explains rules e.parts p
  | _, _, .int, _, p, hp | _, _, .float, _, p, hp | _, _, .str, _, p, hp | _, _, .bool, _, p, hp
  | _, _, .null, _, p, hp | _, _, .this, _, p, hp | _, _, .loadLocal, _, p, hp
  | _, _, .loadGlobal, _, p, hp => by
    rw [Resolved.Expr.places, List.mem_singleton] at hp
    exact .inl (congrArg Spot.origin hp)
  | _, _, .binary first second, marks, p, hp => by
    obtain hplain | hleft | ⟨others, hright⟩ := mem_places_binary hp
    · exact .inl hplain
    · exact (first.origins marks p hleft).left _
    · exact (second.origins others p hright).right _
  | _, _, .unary first, marks, p, hp => by
    simp only [Resolved.Expr.places, List.mem_append, List.mem_singleton] at hp
    obtain hp | rfl := hp
    · exact (first.origins marks p hp).cons _
    · exact .inl rfl
  | _, _, .call free all, marks, p, hp => by
    simp only [Resolved.Expr.places, List.mem_append, List.mem_singleton] at hp
    obtain hp | rfl := hp
    · exact (all.origins marks p hp).cons _
    · exact (Resolves.call free all).parts _
  | _, _, .callHost named known all, marks, p, hp => by
    simp only [Resolved.Expr.places, List.mem_append, List.mem_singleton] at hp
    obtain hp | rfl := hp
    · exact (all.origins marks p hp).right _
    · exact (Resolves.callHost named known all).parts _
  | _, _, .callFree named free all, marks, p, hp => by
    simp only [Resolved.Expr.places, List.mem_append, List.mem_singleton] at hp
    obtain hp | rfl := hp
    · exact (all.origins marks p hp).right _
    · exact (Resolves.callFree named free all).parts _
  | _, _, .callMethod receiver all own, marks, p, hp => by
    simp only [Resolved.Expr.places, List.mem_append, List.mem_singleton] at hp
    obtain (hp | hp) | rfl := hp
    · exact (receiver.origins marks p hp).left _
    · exact (all.origins _ p hp).right _
    · exact (Resolves.callMethod receiver all own).parts _
  | _, _, .field receiver own, marks, p, hp => by
    simp only [Resolved.Expr.places, List.mem_append, List.mem_singleton] at hp
    obtain hp | rfl := hp
    · exact (receiver.origins marks p hp).cons _
    · exact (Resolves.field receiver own).parts _
  | _, _, .create all, marks, p, hp => by
    simp only [Resolved.Expr.places, List.mem_append, List.mem_singleton] at hp
    obtain hp | rfl := hp
    · exact (all.origins marks p hp).cons _
    · exact .inl rfl

/-- The places of several expressions are there for their parts. -/
theorem ResolvesAll.origins : ∀ {args : List Expr} {trees : List Resolved.Expr},
    ResolvesAll rules args trees → ∀ (marks : List Bool),
      ∀ p ∈ Resolved.Expr.placesAll marks trees, Explains rules (Expr.partsAll args) p
  | _, _, .nil, _, p, hp => by
    rw [Resolved.Expr.placesAll] at hp
    cases hp
  | _, _, .cons first others, marks, p, hp => by
    rw [Resolved.Expr.placesAll, List.mem_append] at hp
    rw [Expr.partsAll]
    obtain hp | hp := hp
    · exact (first.origins marks p hp).mono fun _ => List.mem_append_left _
    · exact (others.origins _ p hp).mono fun _ => List.mem_append_right _

end

/-- The places of a branch are those of its condition and of the statements in it, and some where
nothing is called. -/
theorem mem_places_branch {condition : Resolved.Expr} {body alternative : List Resolved.Stmt}
    {p : Spot} (h : p ∈ (Resolved.Stmt.branch condition body alternative).places) :
    p.origin = .plain ∨ p ∈ condition.places [] ∨ p ∈ Resolved.Stmt.placesAll body ∨
      p ∈ Resolved.Stmt.placesAll alternative := by
  cases alternative with
  | nil =>
    simp only [Resolved.Stmt.places, List.mem_append, List.mem_cons] at h
    obtain h | rfl | h := h
    · exact .inr (.inl h)
    · exact .inl rfl
    · exact .inr (.inr (.inl h))
  | cons s rest =>
    simp only [Resolved.Stmt.places, List.mem_append, List.mem_cons] at h
    obtain (h | rfl | h) | rfl | h := h
    · exact .inr (.inl h)
    · exact .inl rfl
    · exact .inr (.inr (.inl h))
    · exact .inl rfl
    · refine .inr (.inr (.inr ?_))
      rwa [Resolved.Stmt.placesAll, List.mem_append]

mutual

/-- The places of a statement are there for its parts. -/
theorem ResolvesStmt.origins : ∀ {s : Stmt} {tree : Resolved.Stmt}, ResolvesStmt rules s tree →
    ∀ p ∈ tree.places, Explains rules s.parts p
  | _, _, .letLocal first, p, hp | _, _, .letGlobal first, p, hp | _, _, .expr first, p, hp
  | _, _, .ret first, p, hp => by
    simp only [Resolved.Stmt.places, List.mem_append, List.mem_singleton] at hp
    obtain hp | rfl := hp
    · exact (first.origins [] p hp).cons _
    · exact .inl rfl
  | _, _, .assignLocal first, p, hp | _, _, .assignGlobal first, p, hp => by
    simp only [Resolved.Stmt.places, List.mem_append, List.mem_singleton] at hp
    obtain hp | rfl := hp
    · exact (first.origins [] p hp).right _
    · exact .inl rfl
  | _, _, @ResolvesStmt.assignField _ _ _ _ _ _ _ _ receiver first own, p, hp => by
    simp only [Resolved.Stmt.places, List.mem_append, List.mem_singleton] at hp
    obtain (hp | hp) | rfl := hp
    · exact ((receiver.origins [] p hp).cons _).left _
    · exact (first.origins _ p hp).right _
    · exact (ResolvesStmt.assignField receiver first own).parts _
  | _, _, .ifThen test all, p, hp => by
    obtain hplain | hp | hp | hp := mem_places_branch hp
    · exact .inl hplain
    · exact (test.origins [] p hp).left _
    · exact (all.origins p hp).right _
    · cases hp
  | _, _, .ifElse test all rest, p, hp => by
    obtain hplain | hp | hp | hp := mem_places_branch hp
    · exact .inl hplain
    · exact ((test.origins [] p hp).mono fun _ => List.mem_append_left _).left _
    · exact ((all.origins p hp).mono fun _ => List.mem_append_right _).left _
    · exact (rest.origins p hp).right _
  | _, _, .loop test all, p, hp => by
    simp only [Resolved.Stmt.places, List.mem_append, List.mem_cons, List.not_mem_nil,
      or_false] at hp
    obtain (hp | rfl | hp) | rfl := hp
    · exact (test.origins [] p hp).left _
    · exact .inl rfl
    · exact (all.origins p hp).right _
    · exact .inl rfl
  | _, _, .retNull, p, hp => by
    simp only [Resolved.Stmt.places, List.mem_cons, List.not_mem_nil, or_false] at hp
    obtain rfl | rfl := hp
    · exact .inl rfl
    · exact .inl rfl
  | _, _, .block all, p, hp => by
    obtain hplain | hp | hp | hp := mem_places_branch hp
    · exact .inl hplain
    · rw [Resolved.Expr.places, List.mem_singleton] at hp
      exact .inl (congrArg Spot.origin hp)
    · exact (all.origins p hp).cons _
    · cases hp

/-- The places of several statements are there for their parts. -/
theorem ResolvesStmts.origins : ∀ {body : List Stmt} {trees : List Resolved.Stmt},
    ResolvesStmts rules body trees →
      ∀ p ∈ Resolved.Stmt.placesAll trees, Explains rules (Stmt.partsAll body) p
  | _, _, .nil, p, hp => by
    rw [Resolved.Stmt.placesAll] at hp
    cases hp
  | _, _, .cons first others, p, hp => by
    rw [Resolved.Stmt.placesAll, List.mem_append] at hp
    rw [Stmt.partsAll]
    obtain hp | hp := hp
    · exact (first.origins p hp).mono fun _ => List.mem_append_left _
    · exact (others.origins p hp).mono fun _ => List.mem_append_right _

end

/-- A place of several statements is one of a statement. -/
theorem mem_placesAll {trees : List Resolved.Stmt} {p : Spot}
    (h : p ∈ Resolved.Stmt.placesAll trees) : ∃ tree ∈ trees, p ∈ tree.places := by
  induction trees with
  | nil =>
    rw [Resolved.Stmt.placesAll] at h
    cases h
  | cons tree rest ih =>
    rw [Resolved.Stmt.placesAll, List.mem_append] at h
    obtain h | h := h
    · exact ⟨tree, List.mem_cons_self, h⟩
    · obtain ⟨other, hother, hp⟩ := ih h
      exact ⟨other, List.mem_cons_of_mem _ hother, hp⟩

/-- The places of a function are there for parts of what it is made from. -/
theorem Source.Resolves.origins {source : Source} {trees : List Resolved.Stmt}
    (h : Source.Resolves rules source trees) :
    ∀ p ∈ Resolved.bodyPlaces trees, Explains rules source.parts p := by
  intro p hp
  simp only [Resolved.bodyPlaces, List.mem_toArray, List.mem_append, List.mem_cons,
    List.not_mem_nil, or_false] at hp
  obtain hp | rfl | rfl := hp
  · cases h with
    | body all => exact all.origins p hp
    | @fields fields _ each =>
      obtain ⟨tree, htree, hp⟩ := mem_placesAll hp
      obtain ⟨field, hfield, initial, value, hinitial, hvalue, rfl⟩ := each tree htree
      have hparts : ∀ part ∈ Part.field field :: initial.parts,
          part ∈ Source.parts (.fields fields) := fun part hpart =>
        List.mem_flatMap.mpr ⟨field, hfield, by rw [hinitial]; exact hpart⟩
      simp only [Resolved.Stmt.places, Resolved.Expr.places, List.mem_append,
        List.mem_singleton] at hp
      obtain (rfl | hp) | rfl := hp
      · exact .inl rfl
      · exact ((hvalue.origins _ p hp).cons _).mono hparts
      · exact .inr ⟨_, hparts _ List.mem_cons_self, .field hinitial hvalue⟩
  · exact .inl rfl
  · exact .inl rfl

/-- The places of a top level are there for parts of its statements. -/
theorem ResolvesStmts.topLevel_origins {body : List Stmt} {trees : List Resolved.Stmt}
    (h : ResolvesStmts rules body trees) (returnsValue : Bool) :
    ∀ p ∈ Resolved.topLevelPlaces returnsValue trees, Explains rules (Stmt.partsAll body) p := by
  intro p hp
  unfold Resolved.topLevelPlaces at hp
  cases hresult : Resolved.resultOf returnsValue trees with
  | none =>
    simp only [hresult] at hp
    exact (Source.Resolves.body h).origins p hp
  | some value =>
    simp only [hresult, List.mem_toArray, List.mem_append, List.mem_cons, List.not_mem_nil,
      or_false] at hp
    have hbody := Code.resultOf_eq hresult
    obtain (hp | hp) | rfl | rfl | rfl := hp
    · refine h.origins p ?_
      rw [hbody, Resolved.Stmt.placesAll_append]
      exact List.mem_append_left _ hp
    · refine h.origins p ?_
      rw [hbody, Resolved.Stmt.placesAll_append]
      refine List.mem_append_right _ ?_
      simp only [Resolved.Stmt.placesAll, Resolved.Stmt.places, List.append_nil]
      exact List.mem_append_left _ hp
    · exact .inl rfl
    · exact .inl rfl
    · exact .inl rfl

end Scope

end ScriptHost
