import ScriptHost.Source.Diagnostic
import ScriptHost.Token.Basic
import ScriptHost.Tree.Basic
/-!
# What is left without places

Lexemes, syntax trees and diagnostics carry places in a source text. Here the places are taken out
of them: two of them are the same up to places if they are the same when they are bare.
-/

set_option autoImplicit false

namespace ScriptHost

mutual

/-- An expression without its places. -/
@[simp] def Expr.bare : Expr → Expr
  | .int value _ => .int value .nowhere
  | .float value _ => .float value .nowhere
  | .str text _ => .str text .nowhere
  | .bool value _ => .bool value .nowhere
  | .null _ => .null .nowhere
  | .this _ => .this .nowhere
  | .ident name _ => .ident name .nowhere
  | .binary op left right _ => .binary op left.bare right.bare .nowhere
  | .unary op operand _ => .unary op operand.bare .nowhere
  | .call name args _ => .call name (Expr.bareAll args) .nowhere
  | .methodCall object method args _ =>
    .methodCall object.bare method (Expr.bareAll args) .nowhere
  | .field object name _ => .field object.bare name .nowhere
  | .create path args _ => .create path (Expr.bareAll args) .nowhere

/-- Expressions without their places. -/
def Expr.bareAll : List Expr → List Expr
  | [] => []
  | e :: rest => e.bare :: Expr.bareAll rest

end

theorem Expr.bareAll_eq (es : List Expr) : Expr.bareAll es = es.map Expr.bare := by
  induction es with
  | nil => rfl
  | cons e rest ih => rw [Expr.bareAll, ih, List.map_cons]

mutual

/-- A statement without its places. -/
@[simp] def Stmt.bare : Stmt → Stmt
  | .letVar name value _ => .letVar name value.bare .nowhere
  | .assign target value _ => .assign target.bare value.bare .nowhere
  | .ifThen condition body _ => .ifThen condition.bare (Stmt.bareAll body) .nowhere
  | .ifElse condition body alternative _ =>
    .ifElse condition.bare (Stmt.bareAll body) (Stmt.bareAll alternative) .nowhere
  | .loop condition body _ => .loop condition.bare (Stmt.bareAll body) .nowhere
  | .ret value _ => .ret (value.map Expr.bare) .nowhere
  | .block body _ => .block (Stmt.bareAll body) .nowhere
  | .expr value => .expr value.bare

/-- Statements without their places. -/
def Stmt.bareAll : List Stmt → List Stmt
  | [] => []
  | s :: rest => s.bare :: Stmt.bareAll rest

end

theorem Stmt.bareAll_eq (body : List Stmt) : Stmt.bareAll body = body.map Stmt.bare := by
  induction body with
  | nil => rfl
  | cons s rest ih => rw [Stmt.bareAll, ih, List.map_cons]

/-- A field without its places. -/
def FieldDecl.bare (f : FieldDecl) : FieldDecl where
  name := f.name
  initial := f.initial.map Expr.bare
  span := .nowhere

@[simp] theorem FieldDecl.name_bare (f : FieldDecl) : f.bare.name = f.name :=
  rfl

/-- A function without its places. -/
def FunctionDecl.bare (f : FunctionDecl) : FunctionDecl where
  name := f.name
  params := f.params
  body := f.body.map Stmt.bare
  span := .nowhere

@[simp] theorem FunctionDecl.name_bare (f : FunctionDecl) : f.bare.name = f.name :=
  rfl

/-- A class without its places. -/
def ClassDecl.bare (c : ClassDecl) : ClassDecl where
  name := c.name
  fields := c.fields.map FieldDecl.bare
  methods := c.methods.map FunctionDecl.bare
  span := .nowhere

mutual

/-- An item without its places. -/
@[simp] def Item.bare : Item → Item
  | .space path items _ => .space path (Item.bareAll items) .nowhere
  | .classDecl c => .classDecl c.bare
  | .function f => .function f.bare
  | .stmt s => .stmt s.bare

/-- Items without their places. -/
def Item.bareAll : List Item → List Item
  | [] => []
  | item :: rest => item.bare :: Item.bareAll rest

end

theorem Item.bareAll_eq (items : List Item) : Item.bareAll items = items.map Item.bare := by
  induction items with
  | nil => rfl
  | cons item rest ih => rw [Item.bareAll, ih, List.map_cons]

/-- What a diagnostic says, wherever it is. -/
def Diagnostic.said (d : Diagnostic) : Severity × Stage × String :=
  (d.severity, d.stage, d.message)

/-- Diagnostics that say the same, the first the same as the first. -/
def SaySame (first second : List Diagnostic) : Prop :=
  first.map Diagnostic.said = second.map Diagnostic.said

namespace SaySame

theorem refl (diagnostics : List Diagnostic) : SaySame diagnostics diagnostics :=
  rfl

theorem append {front rest front' rest' : List Diagnostic} (hfront : SaySame front front')
    (hrest : SaySame rest rest') : SaySame (front ++ rest) (front' ++ rest') := by
  unfold SaySame at *
  rw [List.map_append, List.map_append, hfront, hrest]

theorem nil_iff {first second : List Diagnostic} (h : SaySame first second) :
    first = [] ↔ second = [] := by
  rw [← List.map_eq_nil_iff (f := Diagnostic.said), h, List.map_eq_nil_iff]

/-- One holds an error if and only if the other does. -/
theorem any_isError {first second : List Diagnostic} (h : SaySame first second) :
    first.any Diagnostic.isError = second.any Diagnostic.isError := by
  have hsaid (diagnostics : List Diagnostic) : diagnostics.any Diagnostic.isError =
      (diagnostics.map Diagnostic.said).any fun said => said.1 == .error := by
    rw [List.any_map]
    rfl
  rw [hsaid, hsaid, h]

end SaySame

/-- Two outcomes of reading that agree but for places: both give something, and it is the same, or
what is wrong is the same. -/
inductive ReadSame {α : Type} (same : α → α → Prop) :
    Except (List Diagnostic) α → Except (List Diagnostic) α → Prop
  | ok {a b : α} (h : same a b) : ReadSame same (.ok a) (.ok b)
  | error {errors errors' : List Diagnostic} (h : SaySame errors errors') :
      ReadSame same (.error errors) (.error errors')

end ScriptHost
