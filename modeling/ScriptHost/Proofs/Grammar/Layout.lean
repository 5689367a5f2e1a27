import ScriptHost.Proofs.Grammar.Takes
import ScriptHost.Tree.Spans
/-!
# How a tree lies in its source text

The layout of a tree is what is left of it when nothing but the places of its nodes is kept. It
`Nests` between two offsets if each node has a place there that is not empty and covers the places
of its parts, and if these lie one behind the other.

A rule takes lexemes in the order in which they stand. `Lays` follows it by offsets: what is left
begins behind what was taken, so what is read later lies behind what was read before.
-/

set_option autoImplicit false

namespace ScriptHost

/-! ## Places -/

namespace Span

/-- The place is not empty, and lies in a file between two offsets. -/
structure Sits (file lo hi : Nat) (span : Span) : Prop where
  file : span.file = file
  start : lo ≤ span.start
  wide : span.start < span.stop
  stop : span.stop ≤ hi

/-- All of the inner place lies in the outer one. -/
structure Covers (outer inner : Span) : Prop where
  file : inner.file = outer.file
  start : outer.start ≤ inner.start
  stop : inner.stop ≤ outer.stop

/-- The first place ends before the second one begins, or where it begins. -/
def Before (a b : Span) : Prop :=
  a.stop ≤ b.start

variable {file lo lo' hi hi' : Nat} {a b : Span}

theorem Sits.mono (h : a.Sits file lo hi) (hlo : lo' ≤ lo) (hhi : hi ≤ hi') :
    a.Sits file lo' hi' :=
  ⟨h.file, hlo.trans h.start, h.wide, h.stop.trans hhi⟩

theorem Sits.merge (ha : a.Sits file lo hi) (hb : b.Sits file lo hi) :
    (a.merge b).Sits file lo hi where
  file := ha.file
  start := Nat.le_min.mpr ⟨ha.start, hb.start⟩
  wide := Nat.lt_of_le_of_lt (Nat.min_le_left _ _) (Nat.lt_of_lt_of_le ha.wide (Nat.le_max_left _ _))
  stop := Nat.max_le.mpr ⟨ha.stop, hb.stop⟩

end Span

/-! ## Layouts -/

/-- The place of a node and the layouts of its parts. These come in rows: all of a row in the order
in which they are in the source. -/
inductive Layout where
  | node (span : Span) (rows : List (List Layout))

namespace Layout

/-- The place of the node itself. -/
def span : Layout → Span
  | .node span _ => span

/-- The places of two nodes have nothing in common, whichever of them is first. -/
def Apart (a b : Layout) : Prop :=
  a.span.Before b.span ∨ b.span.Before a.span

/-- Each node has a place between two offsets that covers those of its parts. The parts of a row are
in order, and parts of different rows are apart. -/
inductive Nests (file lo hi : Nat) : Layout → Prop
  | node {span : Span} {rows : List (List Layout)} (sits : span.Sits file lo hi)
    (parts : ∀ row ∈ rows, ∀ part ∈ row, Nests file lo hi part)
    (covers : ∀ row ∈ rows, ∀ part ∈ row, span.Covers part.span)
    (ordered : ∀ row ∈ rows, row.Pairwise fun a b => a.span.Before b.span)
    (apart : rows.Pairwise fun row row' => ∀ a ∈ row, ∀ b ∈ row', a.Apart b) :
    Nests file lo hi (.node span rows)

variable {file lo lo' mid hi hi' : Nat} {a b part : Layout} {row row' : List Layout}

theorem Nests.sits (h : a.Nests file lo hi) : a.span.Sits file lo hi := by
  cases h with
  | node sits => exact sits

/-- What is under a node with one row. -/
theorem Nests.parts {span : Span} (h : Nests file lo hi (.node span [row])) :
    ∀ part ∈ row, part.Nests file lo hi := by
  cases h with
  | node _ hparts => exact hparts row List.mem_cons_self

theorem Nests.mono (h : a.Nests file lo hi) (hlo : lo' ≤ lo) (hhi : hi ≤ hi') :
    a.Nests file lo' hi' := by
  induction h with
  | node sits _ covers ordered apart ih => exact .node (sits.mono hlo hhi) ih covers ordered apart

/-- Layouts that lie between two offsets, one behind the other. -/
structure Row (file lo hi : Nat) (row : List Layout) : Prop where
  nests : ∀ part ∈ row, part.Nests file lo hi
  ordered : row.Pairwise fun a b => a.span.Before b.span

namespace Row

theorem nil : Row file lo hi [] :=
  ⟨nofun, .nil⟩

theorem single (h : part.Nests file lo hi) : Row file lo hi [part] :=
  ⟨List.forall_mem_singleton.mpr h, List.pairwise_singleton _ _⟩

theorem mono (h : Row file lo hi row) (hlo : lo' ≤ lo) (hhi : hi ≤ hi') : Row file lo' hi' row :=
  ⟨fun part hpart => (h.nests part hpart).mono hlo hhi, h.ordered⟩

/-- What comes behind a row goes on with it. -/
theorem append (h : Row file lo mid row) (h' : Row file mid hi row') (hlo : lo ≤ mid)
    (hhi : mid ≤ hi) : Row file lo hi (row ++ row') where
  nests := List.forall_mem_append.mpr ⟨(h.mono (Nat.le_refl _) hhi).nests,
    (h'.mono hlo (Nat.le_refl _)).nests⟩
  ordered := List.pairwise_append.mpr ⟨h.ordered, h'.ordered, fun a ha b hb =>
    (h.nests a ha).sits.stop.trans (h'.nests b hb).sits.start⟩

theorem cons (h : part.Nests file lo mid) (h' : Row file mid hi row) (hlo : lo ≤ mid)
    (hhi : mid ≤ hi) : Row file lo hi (part :: row) :=
  (single h).append h' hlo hhi

end Row

/-- A node keeps to its own place. -/
theorem Nests.tight (h : a.Nests file lo hi) : a.Nests file a.span.start a.span.stop := by
  induction h with
  | node sits _ covers ordered apart ih =>
    refine .node ⟨sits.file, Nat.le_refl _, sits.wide, Nat.le_refl _⟩ ?_ covers ordered apart
    intro row hrow part hpart
    have hcovers := covers row hrow part hpart
    exact (ih row hrow part hpart).mono hcovers.start hcovers.stop

/-- A node with one row of parts, which lie between two offsets within the place of the node. -/
theorem Nests.over {span : Span} (hsits : span.Sits file lo hi) (hrow : Row file lo' hi' row)
    (hstart : span.start ≤ lo') (hstop : hi' ≤ span.stop) :
    Nests file lo hi (.node span [row]) := by
  refine .node hsits ?_ ?_ ?_ (List.pairwise_singleton _ _) <;> rw [List.forall_mem_singleton]
  · intro part hpart
    exact (hrow.nests part hpart).mono (hsits.start.trans hstart) (hstop.trans hsits.stop)
  · intro part hpart
    have hpart := (hrow.nests part hpart).sits
    exact ⟨hpart.file.trans hsits.file.symm, hstart.trans hpart.start, hpart.stop.trans hstop⟩
  · exact hrow.ordered

/-- Two rows of parts under one node. -/
theorem Nests.both {span : Span} (h : Nests file lo hi (.node span [row]))
    (h' : Nests file lo hi (.node span [row'])) (hapart : ∀ a ∈ row, ∀ b ∈ row', a.Apart b) :
    Nests file lo hi (.node span [row, row']) := by
  cases h with
  | node sits parts covers ordered _ =>
    cases h' with
    | node _ parts' covers' ordered' _ =>
      exact .node sits
        (List.forall_mem_cons.mpr ⟨parts row List.mem_cons_self, parts'⟩)
        (List.forall_mem_cons.mpr ⟨covers row List.mem_cons_self, covers'⟩)
        (List.forall_mem_cons.mpr ⟨ordered row List.mem_cons_self, ordered'⟩)
        (List.pairwise_pair.mpr hapart)

/-- A node whose parts lie between its first and its last token. -/
theorem Nests.between {start stop : Span} {mid' : Nat} (hstart : start.Sits file lo mid)
    (hrow : Row file mid mid' row) (hstop : stop.Sits file mid' hi) (hle : mid ≤ mid') :
    Nests file lo hi (.node (start.merge stop) [row]) := by
  have hfirst := hstart.wide.trans_le hstart.stop
  have hlast := hstop.start.trans_lt hstop.wide
  have hbehind := hstop.stop
  have hahead := hstart.start
  refine .over ((hstart.mono (Nat.le_refl _) (by omega)).merge
    (hstop.mono (by omega) (Nat.le_refl _))) hrow ?_ ?_
  · exact (Nat.min_le_left _ _).trans hfirst.le
  · exact hlast.le.trans (Nat.le_max_right _ _)

/-- A node that ends with the last of its parts. -/
theorem Nests.ended {start : Span} {mid' : Nat} {last : Layout} (hstart : start.Sits file lo mid)
    (hrow : Row file mid mid' row) (hlast : last.Nests file mid' hi) (hle : mid ≤ mid') :
    Nests file lo hi (.node (start.merge last.span) [row ++ [last]]) := by
  have hfirst := hstart.wide.trans_le hstart.stop
  have hwide := hlast.sits.wide
  have hbehind := hlast.sits.start
  have hend := hlast.sits.stop
  have hahead := hstart.start
  have htight : Row file mid' last.span.stop [last] :=
    .single (hlast.tight.mono hbehind (Nat.le_refl _))
  refine .over ((hstart.mono (Nat.le_refl _) (by omega)).merge
    (hlast.sits.mono (by omega) (Nat.le_refl _))) (hrow.append htight hle (by omega)) ?_ ?_
  · exact (Nat.min_le_left _ _).trans hfirst.le
  · exact Nat.le_max_right _ _

/-- A node that begins with its only part. -/
theorem Nests.headed {first : Layout} {stop : Span} (hfirst : first.Nests file lo mid)
    (hstop : stop.Sits file mid hi) :
    Nests file lo hi (.node (first.span.merge stop) [[first]]) := by
  have hahead := hfirst.sits.start.trans (hfirst.sits.wide.le.trans hfirst.sits.stop)
  have hbehind := hstop.start.trans (hstop.wide.le.trans hstop.stop)
  exact .over ((hfirst.sits.mono (Nat.le_refl _) hbehind).merge (hstop.mono hahead (Nat.le_refl _)))
    (.single hfirst.tight) (Nat.min_le_left _ _) (Nat.le_max_left _ _)

/-- A node that is two parts with a token between them. -/
theorem Nests.pair {left right : Layout} (hleft : left.Nests file lo mid)
    (hright : right.Nests file mid hi) :
    Nests file lo hi (.node (left.span.merge right.span) [[left, right]]) := by
  have hahead := hleft.sits.start.trans (hleft.sits.wide.le.trans hleft.sits.stop)
  have hbehind := hright.sits.start.trans (hright.sits.wide.le.trans hright.sits.stop)
  have hgap := hleft.sits.stop.trans hright.sits.start
  refine .over ((hleft.sits.mono (Nat.le_refl _) hbehind).merge
    (hright.sits.mono hahead (Nat.le_refl _)))
    (.cons hleft.tight (.single (hright.tight.mono hgap (Nat.le_refl _))) hleft.sits.wide.le
      (hgap.trans hright.sits.wide.le)) ?_ ?_
  · exact Nat.min_le_left _ _
  · exact Nat.le_max_right _ _

/-- A node that begins with its first part, and ends with a token behind the others. -/
theorem Nests.called {object : Layout} {name close : Span} {mid' mid'' : Nat}
    (hobject : object.Nests file lo mid) (hname : name.Sits file mid mid')
    (hrow : Row file mid' mid'' row) (hclose : close.Sits file mid'' hi) (hle : mid' ≤ mid'') :
    Nests file lo hi (.node ((object.span.merge close).merge name) [object :: row]) := by
  have hgap := hname.start.trans (hname.wide.le.trans hname.stop)
  have hahead := hobject.sits.start.trans (hobject.sits.wide.le.trans hobject.sits.stop)
  have hbehind := hclose.start.trans (hclose.wide.le.trans hclose.stop)
  have hwhole := (hobject.sits.mono (Nat.le_refl _) (hgap.trans (hle.trans hbehind))).merge
    (hclose.mono (hahead.trans (hgap.trans hle)) (Nat.le_refl _))
  refine .over (hwhole.merge (hname.mono hahead (hle.trans hbehind)))
    (.cons hobject.tight (hrow.mono (hobject.sits.stop.trans hgap) (Nat.le_refl _))
      hobject.sits.wide.le (hobject.sits.stop.trans (hgap.trans hle))) ?_ ?_
  · exact (Nat.min_le_left _ _).trans (Nat.min_le_left _ _)
  · exact (hclose.start.trans hclose.wide.le).trans
      ((Nat.le_max_right _ _).trans (Nat.le_max_left _ _))

/-- A node without parts. -/
theorem Nests.leaf {span : Span} (h : span.Sits file lo hi) : Nests file lo hi (.node span []) :=
  .node h nofun nofun nofun .nil

end Layout

mutual

/-- The layout of an expression. -/
def Expr.layout : Expr → Layout
  | .int _ span | .float _ span | .str _ span | .bool _ span | .null span | .this span
  | .ident _ span => .node span []
  | .binary _ left right span => .node span [[left.layout, right.layout]]
  | .unary _ operand span => .node span [[operand.layout]]
  | .call _ args span => .node span [Expr.layouts args]
  | .methodCall object _ args span => .node span [object.layout :: Expr.layouts args]
  | .field object _ span => .node span [[object.layout]]
  | .create _ args span => .node span [Expr.layouts args]

/-- The layouts of several expressions. -/
def Expr.layouts : List Expr → List Layout
  | [] => []
  | e :: rest => e.layout :: Expr.layouts rest

end

mutual

/-- The layout of a statement. An expression that stands alone is all of its statement. -/
def Stmt.layout : Stmt → Layout
  | .letVar _ value span => .node span [[value.layout]]
  | .assign target value span => .node span [[target.layout, value.layout]]
  | .ifThen condition body span => .node span [condition.layout :: Stmt.layouts body]
  | .ifElse condition body alternative span =>
    .node span [condition.layout :: (Stmt.layouts body ++ Stmt.layouts alternative)]
  | .loop condition body span => .node span [condition.layout :: Stmt.layouts body]
  | .ret none span => .node span []
  | .ret (some value) span => .node span [[value.layout]]
  | .block body span => .node span [Stmt.layouts body]
  | .expr value => .node value.span [[value.layout]]

/-- The layouts of several statements. -/
def Stmt.layouts : List Stmt → List Layout
  | [] => []
  | s :: rest => s.layout :: Stmt.layouts rest

end

/-- The layout of a field. -/
def FieldDecl.layout (field : FieldDecl) : Layout :=
  .node field.span [field.initial.toList.map Expr.layout]

/-- The layout of a function. -/
def FunctionDecl.layout (f : FunctionDecl) : Layout :=
  .node f.span [Stmt.layouts f.body]

/-- The layout of a class. Fields and methods may stand between each other. -/
def ClassDecl.layout (c : ClassDecl) : Layout :=
  .node c.span [c.fields.map FieldDecl.layout, c.methods.map FunctionDecl.layout]

mutual

/-- The layout of an item. -/
def Item.layout : Item → Layout
  | .space _ items span => .node span [Item.layouts items]
  | .classDecl c => c.layout
  | .function f => f.layout
  | .stmt s => s.layout

/-- The layouts of several items. -/
def Item.layouts : List Item → List Layout
  | [] => []
  | item :: rest => item.layout :: Item.layouts rest

end

@[simp]
theorem Expr.span_layout (e : Expr) : e.layout.span = e.span := by
  cases e <;> rfl

@[simp]
theorem Stmt.span_layout (s : Stmt) : s.layout.span = s.span := by
  cases s with
  | ret value span => cases value <;> rfl
  | _ => rfl

theorem Expr.layouts_eq (args : List Expr) : Expr.layouts args = args.map Expr.layout := by
  induction args with
  | nil => rfl
  | cons e rest ih => rw [Expr.layouts, ih, List.map_cons]

theorem Stmt.layouts_eq (body : List Stmt) : Stmt.layouts body = body.map Stmt.layout := by
  induction body with
  | nil => rfl
  | cons s rest ih => rw [Stmt.layouts, ih, List.map_cons]

theorem Item.layouts_eq (items : List Item) : Item.layouts items = items.map Item.layout := by
  induction items with
  | nil => rfl
  | cons item rest ih => rw [Item.layouts, ih, List.map_cons]

/-! ## All places of a tree -/

section Sits

variable {file lo hi : Nat}

open Layout (Nests)

mutual

/-- The layout of an expression has all of its places. -/
theorem Expr.sits_of_nests : ∀ (e : Expr), e.layout.Nests file lo hi →
    ∀ span ∈ e.spans, span.Sits file lo hi
  | .int .., h | .float .., h | .str .., h | .bool .., h | .null .., h | .this .., h
  | .ident .., h => List.forall_mem_singleton.mpr h.sits
  | .binary _ left right _, h => by
    have hparts := h.parts
    rw [List.forall_mem_cons, List.forall_mem_singleton] at hparts
    rw [Expr.spans, List.forall_mem_cons, List.forall_mem_append]
    exact ⟨h.sits, left.sits_of_nests hparts.1, right.sits_of_nests hparts.2⟩
  | .unary _ operand _, h =>
    List.forall_mem_cons.mpr ⟨h.sits, operand.sits_of_nests (h.parts _ List.mem_cons_self)⟩
  | .call _ args _, h => List.forall_mem_cons.mpr ⟨h.sits, Expr.sitAll_of_nests args h.parts⟩
  | .methodCall object _ args _, h => by
    have hparts := h.parts
    rw [List.forall_mem_cons] at hparts
    rw [Expr.spans, List.forall_mem_cons, List.forall_mem_append]
    exact ⟨h.sits, object.sits_of_nests hparts.1, Expr.sitAll_of_nests args hparts.2⟩
  | .field object _ _, h =>
    List.forall_mem_cons.mpr ⟨h.sits, object.sits_of_nests (h.parts _ List.mem_cons_self)⟩
  | .create _ args _, h => List.forall_mem_cons.mpr ⟨h.sits, Expr.sitAll_of_nests args h.parts⟩

theorem Expr.sitAll_of_nests : ∀ (args : List Expr),
    (∀ part ∈ Expr.layouts args, part.Nests file lo hi) →
      ∀ span ∈ Expr.spansAll args, span.Sits file lo hi
  | [], _ => nofun
  | e :: rest, h => by
    rw [Expr.layouts, List.forall_mem_cons] at h
    rw [Expr.spansAll, List.forall_mem_append]
    exact ⟨e.sits_of_nests h.1, Expr.sitAll_of_nests rest h.2⟩

end

mutual

theorem Stmt.sits_of_nests : ∀ (s : Stmt), s.layout.Nests file lo hi →
    ∀ span ∈ s.spans, span.Sits file lo hi
  | .letVar _ value _, h =>
    List.forall_mem_cons.mpr ⟨h.sits, value.sits_of_nests (h.parts _ List.mem_cons_self)⟩
  | .assign target value _, h => by
    have hparts := h.parts
    rw [List.forall_mem_cons, List.forall_mem_singleton] at hparts
    rw [Stmt.spans, List.forall_mem_cons, List.forall_mem_append]
    exact ⟨h.sits, target.sits_of_nests hparts.1, value.sits_of_nests hparts.2⟩
  | .ifThen condition body _, h | .loop condition body _, h => by
    have hparts := h.parts
    rw [List.forall_mem_cons] at hparts
    rw [Stmt.spans, List.forall_mem_cons, List.forall_mem_append]
    exact ⟨h.sits, condition.sits_of_nests hparts.1, Stmt.sitAll_of_nests body hparts.2⟩
  | .ifElse condition body alternative _, h => by
    have hparts := h.parts
    rw [List.forall_mem_cons, List.forall_mem_append] at hparts
    rw [Stmt.spans, List.forall_mem_cons, List.forall_mem_append, List.forall_mem_append]
    exact ⟨h.sits, condition.sits_of_nests hparts.1, Stmt.sitAll_of_nests body hparts.2.1,
      Stmt.sitAll_of_nests alternative hparts.2.2⟩
  | .ret none _, h => List.forall_mem_singleton.mpr h.sits
  | .ret (some value) _, h =>
    List.forall_mem_cons.mpr ⟨h.sits, value.sits_of_nests (h.parts _ List.mem_cons_self)⟩
  | .block body _, h => List.forall_mem_cons.mpr ⟨h.sits, Stmt.sitAll_of_nests body h.parts⟩
  | .expr value, h => value.sits_of_nests (h.parts _ List.mem_cons_self)

theorem Stmt.sitAll_of_nests : ∀ (body : List Stmt),
    (∀ part ∈ Stmt.layouts body, part.Nests file lo hi) →
      ∀ span ∈ Stmt.spansAll body, span.Sits file lo hi
  | [], _ => nofun
  | s :: rest, h => by
    rw [Stmt.layouts, List.forall_mem_cons] at h
    rw [Stmt.spansAll, List.forall_mem_append]
    exact ⟨s.sits_of_nests h.1, Stmt.sitAll_of_nests rest h.2⟩

end

theorem FieldDecl.sits_of_nests (field : FieldDecl) (h : field.layout.Nests file lo hi) :
    ∀ span ∈ field.spans, span.Sits file lo hi := by
  have hparts := h.parts
  rw [List.forall_mem_map] at hparts
  rw [FieldDecl.spans, List.forall_mem_cons, List.forall_mem_flatMap]
  exact ⟨h.sits, fun e he => e.sits_of_nests (hparts e he)⟩

theorem FunctionDecl.sits_of_nests (f : FunctionDecl) (h : f.layout.Nests file lo hi) :
    ∀ span ∈ f.spans, span.Sits file lo hi :=
  List.forall_mem_cons.mpr ⟨h.sits, Stmt.sitAll_of_nests f.body h.parts⟩

theorem ClassDecl.sits_of_nests (c : ClassDecl) (h : c.layout.Nests file lo hi) :
    ∀ span ∈ c.spans, span.Sits file lo hi := by
  rw [ClassDecl.layout] at h
  cases h with
  | node sits parts =>
    rw [List.forall_mem_cons, List.forall_mem_singleton, List.forall_mem_map,
      List.forall_mem_map] at parts
    rw [ClassDecl.spans, List.forall_mem_cons, List.forall_mem_append, List.forall_mem_flatMap,
      List.forall_mem_flatMap]
    exact ⟨sits, fun field hfield => field.sits_of_nests (parts.1 field hfield),
      fun method hmethod => method.sits_of_nests (parts.2 method hmethod)⟩

mutual

theorem Item.sits_of_nests : ∀ (item : Item), item.layout.Nests file lo hi →
    ∀ span ∈ item.spans, span.Sits file lo hi
  | .space _ items _, h => List.forall_mem_cons.mpr ⟨h.sits, Item.sitAll_of_nests items h.parts⟩
  | .classDecl c, h => c.sits_of_nests h
  | .function f, h => f.sits_of_nests h
  | .stmt s, h => s.sits_of_nests h

theorem Item.sitAll_of_nests : ∀ (items : List Item),
    (∀ part ∈ Item.layouts items, part.Nests file lo hi) →
      ∀ span ∈ Item.spansAll items, span.Sits file lo hi
  | [], _ => nofun
  | item :: rest, h => by
    rw [Item.layouts, List.forall_mem_cons] at h
    rw [Item.spansAll, List.forall_mem_append]
    exact ⟨item.sits_of_nests h.1, Item.sitAll_of_nests rest h.2⟩

end

end Sits

namespace Grammar

/-! ## What is left -/

/-- The lexemes that are left, from an offset on: one behind the other, not empty but for the end
that closes them. -/
structure Laid (file size lo : Nat) (lexemes : List Lexeme) : Prop where
  within : lo ≤ size
  sits : ∀ lexeme ∈ lexemes, lexeme.token ≠ .eof → lexeme.span.Sits file lo size
  ordered : lexemes.Pairwise fun a b => a.span.Before b.span
  capped : ∃ front last, lexemes = front ++ [last] ∧ last.token = .eof

variable {file size lo mid hi : Nat} {α β : Type} {s t : State}

theorem Laid.later (h : Laid file size lo s.rest) (hlater : s.Later t) :
    Laid file size lo t.rest where
  within := h.within
  sits := fun lexeme hlexeme => h.sits lexeme (hlater.left.subset hlexeme)
  ordered := h.ordered.sublist hlater.left.sublist
  capped := hlater.capped h.capped

/-- Behind a token that is taken. -/
theorem Laid.advance (h : Laid file size lo s.rest) (htoken : s.token ≠ .eof) :
    s.span.Sits file lo s.span.stop ∧ Laid file size s.span.stop s.advance.rest := by
  have hlater := h.later s.later_advance
  obtain ⟨lexeme, hrest, hlexeme⟩ := State.Capped.advance h.capped htoken
  have hspan : s.span = lexeme.span := by
    unfold State.span
    rw [hrest]
  have hsits := h.sits lexeme (by rw [hrest]; exact List.mem_cons_self) (hlexeme ▸ htoken)
  have hbehind := (List.pairwise_cons.mp (hrest ▸ h.ordered)).1
  rw [hspan]
  refine ⟨⟨hsits.file, hsits.start, hsits.wide, Nat.le_refl _⟩, hsits.stop, ?_, hlater.ordered,
    hlater.capped⟩
  intro next hnext hinner
  have hsits' := hlater.sits next hnext hinner
  exact ⟨hsits'.file, hbehind next hnext, hsits'.wide, hsits'.stop⟩

/-! ## Rules -/

/-- Begun at this state, from an offset on, the rule takes what lies up to another offset, if it
succeeds, and what it reads is right for that offset. -/
def LaysFrom (file size lo : Nat) (s : State) (rule : Rule α) (right : Nat → α → Prop) : Prop :=
  Laid file size lo s.rest → ∀ {t : State} {a : α}, rule s = .ok a t →
    ∃ hi, lo ≤ hi ∧ Laid file size hi t.rest ∧ right hi a

/-- The rule does so wherever it is begun. -/
def Lays (file size lo : Nat) (rule : Rule α) (right : Nat → α → Prop) : Prop :=
  ∀ s : State, LaysFrom file size lo s rule right

variable {rule : Rule α} {right : Nat → α → Prop}

/-- A token that is taken is known as the one taken last. -/
theorem State.previous_advance (s : State) (hs : s.Capped) (htoken : s.token ≠ .eof) :
    s.advance.previous = s.span := by
  obtain ⟨lexeme, hrest, -⟩ := hs.advance htoken
  obtain ⟨next, rest, hnext⟩ : ∃ next rest, s.advance.rest = next :: rest := by
    obtain ⟨front, last, hfront, -⟩ := s.later_advance.capped hs
    exact List.exists_cons_of_ne_nil (by rw [hfront]; simp)
  rw [hnext] at hrest
  unfold State.advance State.span
  rw [hrest]

namespace LaysFrom

variable {next : α → Rule β} {whole : Nat → β → Prop} {token : Token} {what : String}

theorem bind (h : LaysFrom file size lo s rule right)
    (hnext : ∀ mid a, lo ≤ mid → right mid a → Lays file size mid (next a) whole) :
    LaysFrom file size lo s (rule >>= next) whole := by
  intro hs t b hok
  obtain ⟨a, u, hrule, hrest⟩ := bind_eq_ok.mp hok
  obtain ⟨mid, hmid, hu, ha⟩ := h hs hrule
  obtain ⟨hi, hhi, ht, hb⟩ := hnext mid a hmid ha u hu hrest
  exact ⟨hi, hmid.trans hhi, ht, hb⟩

/-- What comes behind a look at the next token may depend on it. -/
theorem peek {next : Token → Rule β} (h : LaysFrom file size lo s (next s.token) whole) :
    LaysFrom file size lo s (peek >>= next) whole :=
  h

theorem here {next : Span → Rule β} (h : LaysFrom file size lo s (next s.span) whole) :
    LaysFrom file size lo s (here >>= next) whole :=
  h

theorem failHere {e : ParseError} : LaysFrom file size lo s (failHere e : Rule α) right := by
  intro hs t b hok
  cases hok

/-- A token that is taken is no end. -/
theorem advance {next : Unit → Rule β} (htoken : s.token ≠ .eof)
    (h : s.span.Sits file lo s.span.stop → Lays file size s.span.stop (next ()) whole) :
    LaysFrom file size lo s (advance >>= next) whole := by
  intro hs t b hok
  obtain ⟨hsits, hrest⟩ := hs.advance htoken
  obtain ⟨hi, hhi, ht, hb⟩ := h hsits s.advance hrest hok
  exact ⟨hi, hsits.start.trans (hsits.wide.le.trans hhi), ht, hb⟩

theorem expect {next : Span → Rule β} (htoken : token ≠ .eof)
    (h : s.span.Sits file lo s.span.stop → Lays file size s.span.stop (next s.span) whole) :
    LaysFrom file size lo s (expect token what >>= next) whole := by
  intro hs t b hok
  obtain ⟨span, u, hexpect, hrest⟩ := bind_eq_ok.mp hok
  rw [Grammar.expect, peek_bind] at hexpect
  split at hexpect
  · rename_i hfound
    cases hexpect
    have htakes : LaysFrom file size lo s (Grammar.advance >>= fun _ => next s.span) whole :=
      advance (hfound ▸ htoken) h
    exact htakes hs hrest
  · cases hexpect

theorem identifier {next : String → Rule β}
    (h : ∀ name, s.span.Sits file lo s.span.stop → Lays file size s.span.stop (next name) whole) :
    LaysFrom file size lo s (identifier >>= next) whole := by
  unfold Grammar.identifier
  rw [bind_assoc]
  refine peek ?_
  split
  · rename_i name hname
    rw [bind_assoc]
    exact advance (by rw [hname]; exact nofun) (h name)
  · have hfails (e : ParseError) :
        LaysFrom file size lo s (Grammar.failHere e : Rule String) fun _ _ => False := failHere
    exact (hfails _).bind fun _ _ _ => False.elim

/-- The place of the token that has just been taken. -/
theorem expectPrevious {next : Span → Rule β} (htoken : token ≠ .eof)
    (h : s.span.Sits file lo s.span.stop → Lays file size s.span.stop (next s.span) whole) :
    LaysFrom file size lo s (Grammar.expect token what >>= fun _ => previous >>= next) whole := by
  intro hs t b hok
  obtain ⟨span, u, hexpect, hrest⟩ := bind_eq_ok.mp hok
  have htaken := hexpect
  rw [Grammar.expect, peek_bind] at htaken
  split at htaken
  · rename_i hfound
    have hprevious : s.advance.previous = s.span := s.previous_advance hs.capped (hfound ▸ htoken)
    cases htaken
    have htakes : LaysFrom file size lo s (Grammar.expect token what >>= next) whole :=
      expect htoken h
    refine htakes hs ?_
    rw [bind_of_ok hexpect, ← hprevious]
    exact hrest
  · cases htaken

end LaysFrom

namespace Lays

variable {next : α → Rule β} {whole : Nat → β → Prop} {token : Token} {what : String}

theorem pure {a : α} (h : right lo a) : Lays file size lo (Pure.pure a : Rule α) right := by
  intro s hs t b hok
  cases hok
  exact ⟨lo, Nat.le_refl _, hs, h⟩

theorem failHere {e : ParseError} : Lays file size lo (failHere e : Rule α) right :=
  fun _ => .failHere

theorem throw {e : Diagnostic} : Lays file size lo (MonadExcept.throw e : Rule α) right := by
  intro s hs t b hok
  cases hok

theorem bind (h : Lays file size lo rule right)
    (hnext : ∀ mid a, lo ≤ mid → right mid a → Lays file size mid (next a) whole) :
    Lays file size lo (rule >>= next) whole :=
  fun s => (h s).bind hnext

/-- What is taken where no place is kept lies behind all the same. -/
theorem passing (hrule : Stepwise rule) (hnext : ∀ a, Lays file size lo (next a) whole) :
    Lays file size lo (rule >>= next) whole := by
  intro s hs t b hok
  obtain ⟨a, u, hfirst, hrest⟩ := bind_eq_ok.mp hok
  exact hnext a u (hs.later (hrule.later_ok hfirst)) hrest

theorem peek {next : Token → Rule β} (h : ∀ s, LaysFrom file size lo s (next s.token) whole) :
    Lays file size lo (peek >>= next) whole :=
  h

theorem here {next : Span → Rule β} (h : ∀ s, LaysFrom file size lo s (next s.span) whole) :
    Lays file size lo (here >>= next) whole :=
  h

theorem expect {next : Span → Rule β} (htoken : token ≠ .eof)
    (h : ∀ span, span.Sits file lo span.stop → Lays file size span.stop (next span) whole) :
    Lays file size lo (expect token what >>= next) whole :=
  fun s => .expect htoken (h s.span)

/-- The place of a token in front of it. -/
theorem hereExpect {next : Span → Rule β} (htoken : token ≠ .eof)
    (h : ∀ span, span.Sits file lo span.stop → Lays file size span.stop (next span) whole) :
    Lays file size lo (Grammar.here >>= fun span => Grammar.expect token what >>= fun _ => next span)
      whole :=
  here fun s => .expect htoken (h s.span)

theorem nested (h : Lays file size lo rule right) : Lays file size lo (nested rule) right := by
  refine passing .descend fun _ s hs t a hok => ?_
  cases hrule : rule s with
  | ok b u =>
    rw [hrule] at hok
    cases hok
    obtain ⟨hi, hle, hu, ha⟩ := h s hs hrule
    exact ⟨hi, hle, hu, ha⟩
  | error e u =>
    rw [hrule] at hok
    cases hok

theorem recovering (hsteps : Stepwise rule) (h : Lays file size lo rule right) :
    Lays file size lo (recovering rule) fun hi found => ∀ a ∈ found, right hi a := by
  intro s hs t found hok
  have hlater := hsteps.recovering.later_ok hok
  unfold Grammar.recovering at hok
  cases hrule : rule s with
  | ok a u =>
    rw [hrule] at hok
    cases hok
    obtain ⟨hi, hle, hu, ha⟩ := h s hs hrule
    refine ⟨hi, hle, hu, ?_⟩
    rintro _ ⟨⟩
    exact ha
  | error e u =>
    rw [hrule] at hok
    cases hok
    exact ⟨lo, Nat.le_refl _, hs.later hlater, nofun⟩

end Lays

end Grammar

end ScriptHost
