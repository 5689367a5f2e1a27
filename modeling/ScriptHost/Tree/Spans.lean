import ScriptHost.Tree.Basic
/-!
# The places in a syntax tree

The places of all nodes of a tree, each node in front of its parts. Whatever is said about a tree is
said about one of these places.
-/

set_option autoImplicit false

namespace ScriptHost

mutual

/-- The places of an expression and of all its parts. -/
def Expr.spans : Expr → List Span
  | .int _ span => [span]
  | .float _ span => [span]
  | .str _ span => [span]
  | .bool _ span => [span]
  | .null span => [span]
  | .this span => [span]
  | .ident _ span => [span]
  | .binary _ left right span => span :: (left.spans ++ right.spans)
  | .unary _ operand span => span :: operand.spans
  | .call _ args span => span :: Expr.spansAll args
  | .methodCall object _ args span => span :: (object.spans ++ Expr.spansAll args)
  | .field object _ span => span :: object.spans
  | .create _ args span => span :: Expr.spansAll args

/-- The places of several expressions and of all their parts. -/
def Expr.spansAll : List Expr → List Span
  | [] => []
  | e :: rest => e.spans ++ Expr.spansAll rest

end

theorem Expr.span_mem_spans (e : Expr) : e.span ∈ e.spans := by
  cases e <;> simp [Expr.span, Expr.spans]

theorem Expr.forall_mem_spansAll {p : Span → Prop} {args : List Expr} :
    (∀ span ∈ Expr.spansAll args, p span) ↔ ∀ e ∈ args, ∀ span ∈ e.spans, p span := by
  induction args with
  | nil => simp [Expr.spansAll]
  | cons e rest ih =>
    rw [Expr.spansAll, List.forall_mem_append, ih, List.forall_mem_cons]

mutual

/-- The places of a statement and of all its parts. -/
def Stmt.spans : Stmt → List Span
  | .letVar _ value span => span :: value.spans
  | .assign target value span => span :: (target.spans ++ value.spans)
  | .ifThen condition body span => span :: (condition.spans ++ Stmt.spansAll body)
  | .ifElse condition body alternative span =>
    span :: (condition.spans ++ (Stmt.spansAll body ++ Stmt.spansAll alternative))
  | .loop condition body span => span :: (condition.spans ++ Stmt.spansAll body)
  | .ret none span => [span]
  | .ret (some value) span => span :: value.spans
  | .block body span => span :: Stmt.spansAll body
  | .expr value => value.spans

/-- The places of several statements and of all their parts. -/
def Stmt.spansAll : List Stmt → List Span
  | [] => []
  | s :: rest => s.spans ++ Stmt.spansAll rest

end

theorem Stmt.span_mem_spans (s : Stmt) : s.span ∈ s.spans := by
  cases s with
  | ret value span => cases value <;> simp [Stmt.span, Stmt.spans]
  | expr value => exact value.span_mem_spans
  | _ => simp [Stmt.span, Stmt.spans]

theorem Stmt.forall_mem_spansAll {p : Span → Prop} {body : List Stmt} :
    (∀ span ∈ Stmt.spansAll body, p span) ↔ ∀ s ∈ body, ∀ span ∈ s.spans, p span := by
  induction body with
  | nil => simp [Stmt.spansAll]
  | cons s rest ih =>
    rw [Stmt.spansAll, List.forall_mem_append, ih, List.forall_mem_cons]

/-- The places of a field and of what it starts with. -/
def FieldDecl.spans (field : FieldDecl) : List Span :=
  field.span :: field.initial.toList.flatMap Expr.spans

/-- The places of a function and of its body. -/
def FunctionDecl.spans (f : FunctionDecl) : List Span :=
  f.span :: Stmt.spansAll f.body

/-- The places of a class and of its members. -/
def ClassDecl.spans (c : ClassDecl) : List Span :=
  c.span :: (c.fields.flatMap FieldDecl.spans ++ c.methods.flatMap FunctionDecl.spans)

mutual

/-- The places of an item and of all its parts. -/
def Item.spans : Item → List Span
  | .space _ items span => span :: Item.spansAll items
  | .classDecl c => c.spans
  | .function f => f.spans
  | .stmt s => s.spans

/-- The places of several items and of all their parts. -/
def Item.spansAll : List Item → List Span
  | [] => []
  | item :: rest => item.spans ++ Item.spansAll rest

end

theorem Item.forall_mem_spansAll {p : Span → Prop} {items : List Item} :
    (∀ span ∈ Item.spansAll items, p span) ↔ ∀ item ∈ items, ∀ span ∈ item.spans, p span := by
  induction items with
  | nil => simp [Item.spansAll]
  | cons item rest ih =>
    rw [Item.spansAll, List.forall_mem_append, ih, List.forall_mem_cons]

end ScriptHost
