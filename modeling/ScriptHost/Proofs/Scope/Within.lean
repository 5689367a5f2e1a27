import ScriptHost.Resolved.Basic
/-!
# What a tree refers to

A resolved tree refers to slots, global variables, functions, classes and host functions. `Within`
says that all of these are known. A call must also pass a number of arguments that is known to be
right, and no object may stand in a tree.
-/

set_option autoImplicit false

namespace ScriptHost.Resolved

/-- What trees may refer to. Functions, classes and host functions are known for a number of
arguments. -/
structure Referents where
  slot : Nat → Prop
  global : Nat → Prop
  function : Nat → Nat → Prop
  created : Nat → Nat → Prop
  host : String → String → Nat → Prop

/-- All that is known to one is known to the other. -/
structure Referents.Sub (few many : Referents) : Prop where
  slot : ∀ {slot}, few.slot slot → many.slot slot
  global : ∀ {id}, few.global id → many.global id
  function : ∀ {id argc}, few.function id argc → many.function id argc
  created : ∀ {id argc}, few.created id argc → many.created id argc
  host : ∀ {module function argc}, few.host module function argc → many.host module function argc

mutual

/-- All that an expression refers to is known. -/
def Expr.Within (known : Referents) : Expr → Prop
  | .const value => ∀ object, value ≠ .object object
  | .loadLocal slot => known.slot slot
  | .loadGlobal id => known.global id
  | .loadThis => True
  | .getField object _ => object.Within known
  | .binary _ left right => left.Within known ∧ right.Within known
  | .unary _ operand => operand.Within known
  | .call function args => known.function function args.length ∧ Expr.WithinAll known args
  | .callMethod object _ args => object.Within known ∧ Expr.WithinAll known args
  | .callHost module function args =>
    known.host module function args.length ∧ Expr.WithinAll known args
  | .create classId args => known.created classId args.length ∧ Expr.WithinAll known args

/-- All that several expressions refer to is known. -/
def Expr.WithinAll (known : Referents) : List Expr → Prop
  | [] => True
  | e :: rest => e.Within known ∧ Expr.WithinAll known rest

end

mutual

/-- All that a statement refers to is known. -/
def Stmt.Within (known : Referents) : Stmt → Prop
  | .storeLocal slot value => known.slot slot ∧ value.Within known
  | .storeGlobal id value => known.global id ∧ value.Within known
  | .setField object _ value => object.Within known ∧ value.Within known
  | .branch condition body alternative =>
    condition.Within known ∧ Stmt.WithinAll known body ∧ Stmt.WithinAll known alternative
  | .loop condition body => condition.Within known ∧ Stmt.WithinAll known body
  | .ret none => True
  | .ret (some value) | .expr value => value.Within known

/-- All that several statements refer to is known. -/
def Stmt.WithinAll (known : Referents) : List Stmt → Prop
  | [] => True
  | s :: rest => s.Within known ∧ Stmt.WithinAll known rest

end

variable {known : Referents}

/-- Several expressions are those in front and those behind. -/
theorem Expr.withinAll_append {front rest : List Expr} :
    Expr.WithinAll known (front ++ rest) ↔
      Expr.WithinAll known front ∧ Expr.WithinAll known rest := by
  induction front with
  | nil => simp [Expr.WithinAll]
  | cons e front ih => simp only [List.cons_append, Expr.WithinAll, ih, and_assoc]

/-- Several statements are those in front and those behind. -/
theorem Stmt.withinAll_append {front rest : List Stmt} :
    Stmt.WithinAll known (front ++ rest) ↔
      Stmt.WithinAll known front ∧ Stmt.WithinAll known rest := by
  induction front with
  | nil => simp [Stmt.WithinAll]
  | cons s front ih => simp only [List.cons_append, Stmt.WithinAll, ih, and_assoc]

/-- Statements are within what is known if each of them is. -/
theorem Stmt.withinAll_iff {body : List Stmt} :
    Stmt.WithinAll known body ↔ ∀ s ∈ body, s.Within known := by
  induction body with
  | nil => simp [Stmt.WithinAll]
  | cons s rest ih => simp only [Stmt.WithinAll, ih, List.forall_mem_cons]

variable {many : Referents}

mutual

/-- What is known stays known when more is. -/
theorem Expr.Within.mono (hsub : known.Sub many) : ∀ {e : Expr}, e.Within known → e.Within many
  | .const _, h => h
  | .loadLocal _, h => hsub.slot h
  | .loadGlobal _, h => hsub.global h
  | .loadThis, _ => trivial
  | .getField object _, h => Expr.Within.mono hsub (e := object) h
  | .binary _ _ _, h => ⟨Expr.Within.mono hsub h.1, Expr.Within.mono hsub h.2⟩
  | .unary _ operand, h => Expr.Within.mono hsub (e := operand) h
  | .call _ _, h => ⟨hsub.function h.1, Expr.WithinAll.mono hsub h.2⟩
  | .callMethod _ _ _, h => ⟨Expr.Within.mono hsub h.1, Expr.WithinAll.mono hsub h.2⟩
  | .callHost _ _ _, h => ⟨hsub.host h.1, Expr.WithinAll.mono hsub h.2⟩
  | .create _ _, h => ⟨hsub.created h.1, Expr.WithinAll.mono hsub h.2⟩

/-- The same for several expressions. -/
theorem Expr.WithinAll.mono (hsub : known.Sub many) :
    ∀ {args : List Expr}, Expr.WithinAll known args → Expr.WithinAll many args
  | [], _ => trivial
  | _ :: _, h => ⟨Expr.Within.mono hsub h.1, Expr.WithinAll.mono hsub h.2⟩

end

mutual

/-- The same for a statement. -/
theorem Stmt.Within.mono (hsub : known.Sub many) : ∀ {s : Stmt}, s.Within known → s.Within many
  | .storeLocal _ _, h => ⟨hsub.slot h.1, h.2.mono hsub⟩
  | .storeGlobal _ _, h => ⟨hsub.global h.1, h.2.mono hsub⟩
  | .setField _ _ _, h => ⟨h.1.mono hsub, h.2.mono hsub⟩
  | .branch _ _ _, h =>
    ⟨h.1.mono hsub, Stmt.WithinAll.mono hsub h.2.1, Stmt.WithinAll.mono hsub h.2.2⟩
  | .loop _ _, h => ⟨h.1.mono hsub, Stmt.WithinAll.mono hsub h.2⟩
  | .ret none, _ => trivial
  | .ret (some value), h => Expr.Within.mono hsub (e := value) h
  | .expr value, h => Expr.Within.mono hsub (e := value) h

/-- The same for several statements. -/
theorem Stmt.WithinAll.mono (hsub : known.Sub many) :
    ∀ {body : List Stmt}, Stmt.WithinAll known body → Stmt.WithinAll many body
  | [], _ => trivial
  | _ :: _, h => ⟨Stmt.Within.mono hsub h.1, Stmt.WithinAll.mono hsub h.2⟩

end

end ScriptHost.Resolved
