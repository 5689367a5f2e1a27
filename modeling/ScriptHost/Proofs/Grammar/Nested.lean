import ScriptHost.Proofs.Grammar.Layout
import ScriptHost.Proofs.Grammar.Placed
import ScriptHost.Proofs.Token.Tiling
/-!
# The places of a tree are nested

Each rule of the grammar is followed by offsets, from the lexemes that it takes to the places that
it puts together of them. A source text that is accepted becomes a tree in which every node covers
its parts, and in which neighbours are apart and in order: `spans_nest`.
-/

set_option autoImplicit false

namespace ScriptHost

namespace Grammar

variable {file size lo mid hi : Nat} {α β : Type} {s : State}

open Layout (Nests Row)

/-- What a rule reads lies between the offsets where it begins and ends. -/
def LaysOut (file size : Nat) (layout : α → Layout) (rule : Rule α) : Prop :=
  ∀ lo, Lays file size lo rule fun hi a => (layout a).Nests file lo hi

/-- What a rule reads is a row between these offsets. -/
def LaysRow (file size : Nat) (layouts : α → List Layout) (rule : Rule α) : Prop :=
  ∀ lo, Lays file size lo rule fun hi a => Row file lo hi (layouts a)

/-- A token and the expression behind it. -/
theorem nests_after {start : Span} {e : Expr} (hstart : start.Sits file lo mid)
    (he : e.layout.Nests file mid hi) :
    Nests file lo hi (.node (start.merge e.span) [[e.layout]]) := by
  have hended := Nests.ended hstart .nil he (Nat.le_refl _)
  rw [Expr.span_layout] at hended
  exact hended

/-- Two expressions with a token between them. -/
theorem nests_pair {left right : Expr} (hleft : left.layout.Nests file lo mid)
    (hright : right.layout.Nests file mid hi) :
    Nests file lo hi (.node (left.span.merge right.span) [[left.layout, right.layout]]) := by
  have hpair := Nests.pair hleft hright
  rw [Expr.span_layout, Expr.span_layout] at hpair
  exact hpair

/-! ## Expressions -/

section Expressions

variable {operand expression : Rule Expr}

theorem lays_chain (op? : Token → Option BinaryOp) (h : LaysOut file size Expr.layout operand) :
    ∀ (fuel : Nat) {left : Expr} {mid : Nat}, left.layout.Nests file lo mid →
      Lays file size mid (chain op? operand fuel left) fun hi e => e.layout.Nests file lo hi
  | 0, _, _, _ => .failHere
  | fuel + 1, _, _, hleft => by
    rw [chain]
    refine .passing .peek fun token => ?_
    split
    · exact .pure hleft
    · refine .passing .descend fun _ => .passing .advance fun _ => ?_
      refine (h _).bind fun hi right _ hright => lays_chain op? h fuel ?_
      exact nests_pair hleft hright

theorem lays_level (op? : Token → Option BinaryOp) (h : LaysOut file size Expr.layout operand) :
    LaysOut file size Expr.layout (level op? operand) :=
  fun lo => (h lo).bind fun _ _ _ hleft => .passing .look fun s =>
    (lays_chain op? h _ hleft).bind fun _ _ _ hwhole =>
      .passing (.restoreDepth s.depth) fun _ => .pure hwhole

theorem lays_levels (h : LaysOut file size Expr.layout operand) :
    LaysOut file size Expr.layout (levels operand) :=
  lays_level orOp? <| lays_level andOp? <| lays_level equalityOp? <| lays_level comparisonOp? <|
    lays_level sumOp? <| lays_level productOp? h

theorem lays_moreArguments (h : LaysOut file size Expr.layout expression) :
    ∀ (fuel : Nat) {found : List Expr} {mid : Nat}, lo ≤ mid →
      Row file lo mid (Expr.layouts found.reverse) →
      Lays file size mid (moreArguments expression fuel found) fun hi args =>
        Row file lo hi (Expr.layouts args)
  | 0, _, _, _, hfound => .pure hfound
  | fuel + 1, found, mid, hlo, hfound => by
    rw [moreArguments]
    refine .passing .peek fun token => ?_
    split
    · refine .passing .advance fun _ => (h mid).bind fun hi argument hhi hargument => ?_
      refine lays_moreArguments h fuel (hlo.trans hhi) ?_
      rw [List.reverse_cons, Expr.layouts_eq, List.map_append, ← Expr.layouts_eq]
      exact hfound.append (.single hargument) hlo hhi
    · exact .pure hfound

/-- Arguments lie in front of the parenthesis that closes them. -/
theorem lays_arguments (h : LaysOut file size Expr.layout expression)
    {next : List Expr → Span → Rule β} {right : Nat → β → Prop}
    (hnext : ∀ args mid close, lo ≤ mid → Row file lo mid (Expr.layouts args) →
      close.Sits file mid close.stop → Lays file size close.stop (next args close) right) :
    Lays file size lo (arguments expression >>= fun args => previous >>= next args) right := by
  have hclose (found : List Expr) (mid : Nat) (hlo : lo ≤ mid)
      (hfound : Row file lo mid (Expr.layouts found)) : Lays file size mid
        ((expect .rparen "')' after arguments" >>= fun _ => Pure.pure found) >>= fun args =>
          previous >>= next args) right := by
    intro s
    rw [bind_assoc]
    simp only [pure_bind]
    exact .expectPrevious nofun fun hsits => hnext found mid s.span hlo hfound hsits
  unfold arguments
  rw [bind_assoc]
  refine .passing .peek fun token => ?_
  split
  · rw [pure_bind]
    exact hclose [] lo (Nat.le_refl _) .nil
  · rw [bind_assoc]
    refine (h lo).bind fun mid first hmid hfirst => ?_
    rw [bind_assoc]
    refine .passing .budget fun fuel => ?_
    rw [bind_assoc]
    have hrow : Row file lo mid (Expr.layouts [first].reverse) := .single hfirst
    refine (lays_moreArguments h fuel hmid hrow).bind fun hi found hhi hfound => ?_
    exact hclose found hi (hmid.trans hhi) hfound

theorem lays_creation (h : LaysOut file size Expr.layout expression) :
    LaysOut file size Expr.layout (creation expression) := by
  intro lo
  refine .expect nofun fun start hstart => .passing .dottedName fun path => ?_
  refine .passing (.expect _ _) fun _ => lays_arguments h fun args mid close hmid hargs hclose => ?_
  exact .pure (.between hstart hargs hclose hmid)

theorem layout_literal {span : Span} {token : Token} {e : Expr}
    (h : literal? span token = some e) : token ≠ .eof ∧ e.layout = .node span [] := by
  cases token
  case int | float | str | kwTrue | kwFalse | kwNull | kwThis | ident =>
    cases h
    exact ⟨nofun, rfl⟩
  all_goals cases h

theorem lays_primary (h : LaysOut file size Expr.layout expression) :
    LaysOut file size Expr.layout (primary expression) := by
  intro lo
  unfold primary
  refine .here fun s => .peek ?_
  split
  · rename_i e hliteral
    obtain ⟨htoken, hlayout⟩ := layout_literal hliteral
    refine .advance htoken fun hsits => .pure ?_
    rw [hlayout]
    exact .leaf hsits
  · split
    · rename_i hparen
      refine .advance (by rw [hparen]; exact nofun) fun hsits => ?_
      refine (h _).bind fun mid inner hmid hinner => .expect nofun fun close hclose => .pure ?_
      exact hinner.mono (hsits.start.trans hsits.wide.le) (hclose.start.trans hclose.wide.le)
    · split
      · exact lays_creation h lo s
      · exact .failHere

theorem lays_member (h : LaysOut file size Expr.layout expression) {object : Expr}
    (hobject : object.layout.Nests file lo mid) :
    Lays file size mid (member expression object) fun hi e => e.layout.Nests file lo hi := by
  unfold member
  refine .passing .descend fun _ => .passing .advance fun _ => .here fun s => ?_
  refine .identifier fun name hname => .passing .peek fun token => ?_
  split
  · refine .passing .advance fun _ => lays_arguments h fun args mid' close hle hargs hclose => ?_
    have hcalled := Nests.called hobject hname hargs hclose hle
    rw [Expr.span_layout] at hcalled
    exact .pure hcalled
  · have hheaded := Nests.headed hobject hname
    rw [Expr.span_layout] at hheaded
    exact .pure hheaded

theorem lays_postfixChain (h : LaysOut file size Expr.layout expression) :
    ∀ (fuel : Nat) {object : Expr} {mid : Nat}, object.layout.Nests file lo mid →
      Lays file size mid (postfixChain expression fuel object) fun hi e =>
        e.layout.Nests file lo hi
  | 0, _, _, _ => .failHere
  | fuel + 1, _, _, hobject => by
    rw [postfixChain]
    refine .passing .peek fun token => ?_
    split
    · exact (lays_member h hobject).bind fun hi whole _ hwhole => lays_postfixChain h fuel hwhole
    · rename_i name span
      refine .passing .descend fun _ => .passing .advance fun _ => ?_
      refine lays_arguments h fun args mid' close hle hargs hclose => ?_
      exact lays_postfixChain h fuel (.between hobject.sits hargs hclose hle)
    · exact .pure hobject

theorem lays_postfixExpr (h : LaysOut file size Expr.layout expression) :
    LaysOut file size Expr.layout (postfixExpr expression) :=
  fun lo => (lays_primary h lo).bind fun _ _ _ hobject => .passing .look fun s =>
    (lays_postfixChain h _ hobject).bind fun _ _ _ hwhole =>
      .passing (.restoreDepth s.depth) fun _ => .pure hwhole

theorem lays_expressionOver (h : LaysOut file size Expr.layout operand) :
    LaysOut file size Expr.layout (expressionOver operand) :=
  fun lo => (lays_levels h lo).nested

theorem lays_operand : ∀ fuel : Nat, LaysOut file size Expr.layout (Grammar.operand fuel)
  | 0, _ => .failHere
  | fuel + 1, lo => by
    rw [Grammar.operand]
    refine .peek fun s => ?_
    split
    · rename_i op hop
      have htoken : s.token ≠ .eof := fun heof => by
        rw [heof] at hop
        cases hop
      refine .here (.advance htoken fun hstart => ?_)
      refine (lays_operand fuel _).nested.bind fun hi inner hhi hinner => .pure ?_
      exact nests_after hstart hinner
    · exact lays_postfixExpr (lays_expressionOver (lays_operand fuel)) lo s

theorem lays_expression : LaysOut file size Expr.layout Grammar.expression :=
  lays_expressionOver (lays_operand _)

end Expressions

/-! ## Statements -/

section Statements

variable {statement : Rule Stmt} {body : Rule (List Stmt)}

theorem lays_statements (h : LaysOut file size Stmt.layout statement) :
    ∀ (fuel : Nat) {found : List Stmt} {mid : Nat}, lo ≤ mid →
      Row file lo mid (Stmt.layouts found.reverse) →
      Lays file size mid (statements statement fuel found) fun hi body =>
        Row file lo hi (Stmt.layouts body)
  | 0, _, _, _, hfound => .pure hfound
  | fuel + 1, found, mid, hlo, hfound => by
    rw [statements]
    refine .passing .peek fun token => ?_
    split
    · exact .pure hfound
    · refine (h mid).bind fun hi stmt hhi hstmt => .passing .skipSemicolons fun _ => ?_
      refine lays_statements h fuel (hlo.trans hhi) ?_
      rw [List.reverse_cons, Stmt.layouts_eq, List.map_append, ← Stmt.layouts_eq]
      exact hfound.append (.single hstmt) hlo hhi

theorem lays_block (h : LaysOut file size Stmt.layout statement) :
    LaysRow file size Stmt.layouts (block statement) :=
  fun _ => .passing .skipSemicolons fun _ => .passing .budget fun fuel =>
    lays_statements h fuel (Nat.le_refl _) .nil

/-- From an offset up to another there is a block in braces: the first brace, the statements and the
second brace. -/
def InBraces (file lo : Nat) (brace : Span) (hi : Nat) (found : List Stmt × Span) : Prop :=
  brace.Sits file lo brace.stop ∧ ∃ mid, brace.stop ≤ mid ∧
    Row file brace.stop mid (Stmt.layouts found.1) ∧ found.2.Sits file mid hi

theorem lays_braced (h : LaysRow file size Stmt.layouts body) (s : State) :
    LaysFrom file size lo s (braced body) (InBraces file lo s.span) :=
  .expect nofun fun hbrace => (h _).nested.bind fun mid _ hmid hfound => .hereExpect nofun
    fun _ hclose => .pure ⟨hbrace, mid, hmid, hfound, hclose⟩

/-- Behind a condition there is a row of statements, and the brace that closes it. -/
theorem InBraces.behind {brace : Span} {found : List Stmt × Span} {condition : Expr}
    (h : InBraces file mid brace hi found) (hcondition : condition.layout.Nests file lo mid) :
    ∃ mid', lo ≤ mid' ∧ Row file lo mid' (condition.layout :: Stmt.layouts found.1) ∧
      found.2.Sits file mid' hi := by
  obtain ⟨hbrace, mid', hmid, hfound, hclose⟩ := h
  have hlo := hcondition.sits.start.trans (hcondition.sits.wide.le.trans hcondition.sits.stop)
  have hgap := hbrace.start.trans hbrace.wide.le
  exact ⟨mid', hlo.trans (hgap.trans hmid), .cons hcondition (hfound.mono hgap (Nat.le_refl _)) hlo
    (hgap.trans hmid), hclose⟩

theorem lays_conditional (h : LaysRow file size Stmt.layouts body) :
    ∀ fuel : Nat, LaysOut file size Stmt.layout (conditional body fuel) := by
  intro fuel
  induction fuel with
  | zero => exact fun _ => .failHere
  | succ fuel ih =>
    intro lo
    rw [conditional]
    refine .hereExpect Token.noConfusion fun start hstart => ?_
    refine (lays_expression _).bind fun mid condition hmid hcondition s => ?_
    refine (lays_braced h s).bind fun hi found hhi hfound => .passing .peek fun token => ?_
    obtain ⟨mid', hmid', hrow, hclose⟩ := hfound.behind hcondition
    have hbehind := hclose.start.trans (hclose.wide.le.trans hclose.stop)
    split
    · refine .passing .advance fun _ => .passing .peek fun token => ?_
      split
      · refine (ih _).nested.bind fun last other hlast hother => .pure ?_
        have hended := Nests.ended hstart (hrow.mono (Nat.le_refl _) hbehind) hother
          (hmid'.trans hbehind)
        rw [Stmt.span_layout] at hended
        exact hended
      · intro s
        refine (lays_braced h s).bind fun last other hlast hother => .pure ?_
        obtain ⟨hbrace, mid'', hmid'', hother, hstop⟩ := hother
        have hgap := hbrace.start.trans hbrace.wide.le
        exact .between hstart (hrow.append
          (hother.mono (hbehind.trans hgap) (Nat.le_refl _)) hmid'
          (hbehind.trans (hgap.trans hmid''))) hstop
          (hmid'.trans (hbehind.trans (hgap.trans hmid'')))
    · exact .pure (.between hstart hrow hclose hmid')

theorem lays_variableDecl (htoken : s.token ≠ .eof) :
    LaysFrom file size lo s variableDecl fun hi stmt => stmt.layout.Nests file lo hi := by
  refine .here (.advance htoken fun hstart => .passing .identifier fun name => ?_)
  refine .passing (.expect _ _) fun _ => (lays_expression _).bind fun hi value hhi hvalue => ?_
  exact .passing .terminator fun _ => .pure (nests_after hstart hvalue)

theorem lays_loop (h : LaysRow file size Stmt.layouts body) (htoken : s.token ≠ .eof) :
    LaysFrom file size lo s (loop body) fun hi stmt => stmt.layout.Nests file lo hi := by
  refine .here (.advance htoken fun hstart => ?_)
  refine (lays_expression _).bind fun mid condition hmid hcondition s => ?_
  refine (lays_braced h s).bind fun hi found hhi hfound => .pure ?_
  obtain ⟨mid', hmid', hrow, hclose⟩ := hfound.behind hcondition
  exact .between hstart hrow hclose hmid'

theorem lays_returning (htoken : s.token ≠ .eof) :
    LaysFrom file size lo s returning fun hi stmt => stmt.layout.Nests file lo hi := by
  have hnone (hstart : s.span.Sits file lo s.span.stop) : Lays file size s.span.stop
      (Grammar.terminator >>= fun _ => Pure.pure (Stmt.ret none s.span))
      fun hi stmt => stmt.layout.Nests file lo hi :=
    .passing .terminator fun _ => .pure (.leaf hstart)
  unfold returning
  refine .here (.advance htoken fun hstart => .passing .peek fun token => ?_)
  split
  · exact hnone hstart
  · exact hnone hstart
  · exact hnone hstart
  · refine (lays_expression _).bind fun hi value hhi hvalue => ?_
    exact .passing .terminator fun _ => .pure (nests_after hstart hvalue)

theorem lays_expressionOrAssignment : LaysOut file size Stmt.layout expressionOrAssignment := by
  intro lo
  unfold expressionOrAssignment
  refine (lays_expression lo).bind fun mid target hmid htarget => .passing .peek fun token => ?_
  split
  · refine .passing .advance fun _ => ?_
    split
    · refine (lays_expression mid).bind fun hi value hhi hvalue => ?_
      exact .passing .terminator fun _ => .pure (nests_pair htarget hvalue)
    · exact .throw
  · refine .passing .terminator fun _ => .pure ?_
    have hwhole := Nests.over htarget.sits (.single htarget.tight) (Nat.le_refl _) (Nat.le_refl _)
    rw [Expr.span_layout] at hwhole
    exact hwhole

theorem lays_statementOver (h : LaysRow file size Stmt.layouts body) :
    LaysOut file size Stmt.layout (statementOver body) := by
  intro lo
  unfold statementOver
  refine .peek fun s => ?_
  split
  · rename_i htoken
    exact lays_variableDecl (by rw [htoken]; exact nofun)
  · exact lays_conditional h _ lo s
  · rename_i htoken
    exact lays_loop h (by rw [htoken]; exact nofun)
  · rename_i htoken
    exact lays_returning (by rw [htoken]; exact nofun)
  · refine .here ((lays_braced h s).bind fun hi found hhi hfound => .pure ?_)
    obtain ⟨hbrace, mid, hmid, hrow, hclose⟩ := hfound
    exact .between hbrace hrow hclose hmid
  · exact lays_expressionOrAssignment lo s

theorem lays_statementWithin : ∀ fuel : Nat, LaysOut file size Stmt.layout (statementWithin fuel)
  | 0, _ => .failHere
  | fuel + 1, lo => lays_statementOver (lays_block (lays_statementWithin fuel)) lo

theorem lays_statement : LaysOut file size Stmt.layout Grammar.statement :=
  lays_statementWithin _

end Statements

/-! ## Items -/

theorem lays_functionDecl : LaysOut file size FunctionDecl.layout functionDecl := by
  intro lo
  refine .hereExpect nofun fun start hstart => .passing .identifier fun name => ?_
  refine .passing (.expect _ _) fun _ => .passing .budget fun fuel => ?_
  refine .passing (.parameters fuel []) fun params => .passing (.expect _ _) fun _ => ?_
  refine .passing (.expect _ _) fun _ => ?_
  refine (lays_block lays_statement _).nested.bind fun mid body hmid hbody => ?_
  exact .hereExpect nofun fun stop hstop => .pure (.between hstart hbody hstop hmid)

theorem lays_fieldDecl (htoken : s.token ≠ .eof) :
    LaysFrom file size lo s fieldDecl fun hi field => field.layout.Nests file lo hi := by
  have hclose (name : String) (initial : Option Expr) {mid : Nat} (hmid : s.span.stop ≤ mid)
      (hstart : s.span.Sits file lo s.span.stop)
      (hinitial : Row file s.span.stop mid (initial.toList.map Expr.layout)) :
      Lays file size mid (do
        let stop ← Grammar.here
        let _ ← Grammar.expect .semicolon "';' after field declaration"
        return ({ name, initial, span := s.span.merge stop } : FieldDecl))
      fun hi field => field.layout.Nests file lo hi :=
    .hereExpect nofun fun stop hstop => .pure (.between hstart hinitial hstop hmid)
  unfold fieldDecl
  refine .here (.advance htoken fun hstart => .passing .identifier fun name => ?_)
  refine .passing .peek fun token => ?_
  split
  · refine .passing .advance fun _ => (lays_expression _).bind fun mid value hmid hvalue => ?_
    have hsome : Lays file size mid (Pure.pure (some value) : Rule (Option Expr))
        fun hi initial => Row file s.span.stop hi (initial.toList.map Expr.layout) :=
      .pure (.single hvalue)
    exact hsome.bind fun hi initial hhi hinitial =>
      hclose name initial (hmid.trans hhi) hstart hinitial
  · have hnone : Lays file size s.span.stop (Pure.pure none : Rule (Option Expr))
        fun hi initial => Row file s.span.stop hi (initial.toList.map Expr.layout) :=
      .pure .nil
    exact hnone.bind fun hi initial hhi hinitial => hclose name initial hhi hstart hinitial

/-- Fields and methods between two offsets: both in order, and no field where a method is. -/
structure Members (file lo hi : Nat) (fields : List FieldDecl) (methods : List FunctionDecl) :
    Prop where
  fieldRow : Row file lo hi (fields.map FieldDecl.layout)
  methodRow : Row file lo hi (methods.map FunctionDecl.layout)
  apart : ∀ field ∈ fields, ∀ method ∈ methods, field.layout.Apart method.layout

namespace Members

variable {fields : List FieldDecl} {methods : List FunctionDecl}

theorem nil : Members file lo hi [] [] :=
  ⟨.nil, .nil, nofun⟩

theorem addField {field : FieldDecl} (h : Members file lo mid fields methods) (hlo : lo ≤ mid)
    (hhi : mid ≤ hi) (hfield : field.layout.Nests file mid hi) :
    Members file lo hi (fields ++ [field]) methods where
  fieldRow := by
    rw [List.map_append]
    exact h.fieldRow.append (.single hfield) hlo hhi
  methodRow := h.methodRow.mono (Nat.le_refl _) hhi
  apart := List.forall_mem_append.mpr ⟨h.apart, List.forall_mem_singleton.mpr fun method hmethod =>
    .inr (((h.methodRow.nests _ (List.mem_map_of_mem hmethod)).sits.stop).trans hfield.sits.start)⟩

theorem addMethod {method : FunctionDecl} (h : Members file lo mid fields methods) (hlo : lo ≤ mid)
    (hhi : mid ≤ hi) (hmethod : method.layout.Nests file mid hi) :
    Members file lo hi fields (methods ++ [method]) where
  fieldRow := h.fieldRow.mono (Nat.le_refl _) hhi
  methodRow := by
    rw [List.map_append]
    exact h.methodRow.append (.single hmethod) hlo hhi
  apart := fun field hfield => List.forall_mem_append.mpr ⟨h.apart field hfield,
    List.forall_mem_singleton.mpr (.inl (((h.fieldRow.nests _ (List.mem_map_of_mem hfield)).sits.stop).trans
      hmethod.sits.start))⟩

end Members

theorem lays_members : ∀ (fuel : Nat) {fields : List FieldDecl} {methods : List FunctionDecl}
    {mid : Nat}, lo ≤ mid → Members file lo mid fields.reverse methods.reverse →
      Lays file size mid (members fuel fields methods) fun hi found =>
        Members file lo hi found.1 found.2 := by
  intro fuel
  induction fuel with
  | zero => exact fun _ hfound => .pure hfound
  | succ fuel ih =>
    intro fields methods mid hlo hfound
    rw [members]
    refine .peek fun s => ?_
    split
    · exact Lays.pure hfound s
    · exact Lays.pure hfound s
    · rename_i htoken
      refine (lays_fieldDecl (by rw [htoken]; exact Token.noConfusion)).bind fun hi field hhi hfield => ?_
      refine .passing .skipSemicolons fun _ => ih (hlo.trans hhi) ?_
      rw [List.reverse_cons]
      exact hfound.addField hlo hhi hfield
    · refine (lays_functionDecl mid s).bind fun hi method hhi hmethod => ?_
      refine .passing .skipSemicolons fun _ => ih (hlo.trans hhi) ?_
      rw [List.reverse_cons]
      exact hfound.addMethod hlo hhi hmethod
    · exact .failHere

theorem lays_classDecl : LaysOut file size ClassDecl.layout classDecl := by
  intro lo
  refine .hereExpect nofun fun start hstart => .passing .identifier fun name => ?_
  refine .passing (.expect _ _) fun _ => .passing .skipSemicolons fun _ => ?_
  refine .passing .budget fun fuel => ?_
  refine (lays_members fuel (Nat.le_refl _) .nil).bind fun mid found hmid hfound => ?_
  refine .hereExpect nofun fun stop hstop => .pure ?_
  refine Nests.both (.between hstart hfound.fieldRow hstop hmid)
    (.between hstart hfound.methodRow hstop hmid) ?_
  simpa only [List.forall_mem_map] using hfound.apart

/-- Where an item may have been given up. -/
def LaysItem (file size : Nat) (item : Rule (Option Item)) : Prop :=
  ∀ lo, Lays file size lo item fun hi found => ∀ i ∈ found, i.layout.Nests file lo hi

/-- An item goes on with a row, if there is one. -/
theorem row_next {next : Option Item} {found : List Item}
    (hfound : Row file lo mid (Item.layouts found.reverse))
    (hnext : ∀ i ∈ next, i.layout.Nests file mid hi) (hlo : lo ≤ mid) (hhi : mid ≤ hi) :
    Row file lo hi (Item.layouts (next.toList ++ found).reverse) := by
  cases next with
  | none => exact hfound.mono (Nat.le_refl _) hhi
  | some i =>
    rw [Option.toList_some, List.singleton_append, List.reverse_cons, Item.layouts_eq,
      List.map_append, ← Item.layouts_eq]
    exact hfound.append (.single (hnext i rfl)) hlo hhi

theorem lays_itemList {item : Rule (Option Item)} (h : LaysItem file size item) :
    ∀ (fuel : Nat) {found : List Item} {mid : Nat}, lo ≤ mid →
      Row file lo mid (Item.layouts found.reverse) →
      Lays file size mid (itemList item fuel found) fun hi items =>
        Row file lo hi (Item.layouts items)
  | 0, _, _, _, hfound => .pure hfound
  | fuel + 1, found, mid, hlo, hfound => by
    rw [itemList]
    refine .passing .peek fun token => ?_
    split
    · exact .pure hfound
    · refine (h mid).bind fun hi next hhi hnext => .passing .skipSemicolons fun _ => ?_
      exact lays_itemList h fuel (hlo.trans hhi) (row_next hfound hnext hlo hhi)

theorem lays_namespaceOver {item : Rule (Option Item)} (h : LaysItem file size item) :
    LaysOut file size Item.layout (namespaceOver item) := by
  intro lo
  refine .hereExpect nofun fun start hstart => .passing .dottedName fun path => ?_
  refine .passing (.expect _ _) fun _ => .passing .skipSemicolons fun _ => ?_
  have hitems : Lays file size start.stop (budget >>= fun fuel => itemList item fuel []) fun hi items =>
      Row file start.stop hi (Item.layouts items) :=
    .passing .budget fun fuel => lays_itemList h fuel (Nat.le_refl _) .nil
  refine hitems.nested.bind fun mid items hmid hrow => ?_
  exact .hereExpect nofun fun stop hstop => .pure (.between hstart hrow hstop hmid)

theorem lays_itemOver {item : Rule (Option Item)} (h : LaysItem file size item) :
    LaysOut file size Item.layout (itemOver item) := by
  intro lo
  unfold itemOver
  refine .passing .peek fun token => ?_
  split
  · exact lays_namespaceOver h lo
  · exact (lays_classDecl lo).bind fun _ _ _ hclass => .pure hclass
  · exact (lays_functionDecl lo).bind fun _ _ _ hfunction => .pure hfunction
  · exact (lays_statement lo).bind fun _ _ _ hstmt => .pure hstmt

theorem lays_itemWithin : ∀ fuel : Nat, LaysItem file size (itemWithin fuel)
  | 0, _ => .failHere
  | fuel + 1, lo => .recovering (.itemOver (.itemWithin fuel)) (lays_itemOver (lays_itemWithin fuel) lo)

theorem lays_topLevel : ∀ (fuel : Nat) {found : List Item} {mid : Nat}, lo ≤ mid →
    Row file lo mid (Item.layouts found.reverse) →
      Lays file size mid (topLevel fuel found) fun hi items => Row file lo hi (Item.layouts items)
  | 0, _, _, _, hfound => .pure hfound
  | fuel + 1, found, mid, hlo, hfound => by
    rw [topLevel]
    refine .passing .peek fun token => ?_
    split
    · exact .pure hfound
    · refine .passing .here fun span => .passing (.report .strayBrace span) fun _ => ?_
      refine .passing .advance fun _ => .passing .skipSemicolons fun _ => ?_
      exact lays_topLevel fuel hlo hfound
    · refine (lays_itemWithin _ mid).bind fun hi next hhi hnext => ?_
      refine .passing .skipSemicolons fun _ => ?_
      exact lays_topLevel fuel (hlo.trans hhi) (row_next hfound hnext hlo hhi)

theorem lays_sourceText : LaysRow file size Item.layouts sourceText :=
  fun _ => .passing .skipSemicolons fun _ => .passing .budget fun fuel =>
    lays_topLevel fuel (Nat.le_refl _) .nil

end Grammar

open Grammar Layout

/-- The lexemes of a source stand in order, and none of them is empty but the last. -/
theorem lex_laid {source : String} {file : Nat} {lexemes : List Lexeme}
    (h : lex source file = .ok lexemes) : Laid file source.utf8ByteSize 0 lexemes := by
  have hwithin := (lex_within source file).1 h
  obtain ⟨front, last, hlexemes, hlast, -⟩ := lex_ended h
  obtain ⟨hclean, hread⟩ := lex_eq_ok h
  obtain ⟨found, hfound, htiles⟩ := Scan.all_tiles (Scan.at_start source.toList) hclean
  rw [hfound, List.reverse_append, List.reverse_reverse, List.reverse_nil, List.nil_append] at hread
  subst hread
  refine ⟨Nat.zero_le _, fun lexeme hlexeme htoken => ?_, htiles.ordered.2,
    ⟨front, last, hlexemes, hlast⟩⟩
  exact ⟨(hwithin lexeme hlexeme).file, Nat.zero_le _, (htiles.ordered.1 lexeme hlexeme).2 htoken,
    (hwithin lexeme hlexeme).stop_le⟩

/-- The places in a tree of a source: each of them holds something of the text with this number,
every node covers its parts, and neighbours are in order and apart. -/
structure SpansNest (file : Nat) (source : String) (items : List Item) : Prop where
  within : ∀ span ∈ Item.spansAll items, span.Within file source ∧ span.start < span.stop
  nested : Row file 0 source.utf8ByteSize (Item.layouts items)

/-- **The places of a tree nest.** Whatever source is accepted, under whatever number: every node of
its tree has a place in it that is not empty, and that covers the places of all its parts. Items,
statements, fields, methods, arguments and operands that are next to each other have nothing in
common and stand in the order of the source. -/
theorem spans_nest {source : String} {file : Nat} {lexemes : List Lexeme} {items : List Item}
    (hlex : lex source file = .ok lexemes) (hparse : parse lexemes = .ok items) :
    SpansNest file source items := by
  have hlaid := lex_laid hlex
  obtain ⟨t, hsource, -⟩ := parse_eq_ok.mp hparse
  obtain ⟨hi, -, ht, hrow⟩ := lays_sourceText 0 (.ofLexemes lexemes) hlaid hsource
  have hwhole := hrow.mono (Nat.le_refl _) ht.within
  have hnonempty : lexemes ≠ [] := by
    obtain ⟨front, last, rfl, -⟩ := hlaid.capped
    simp
  have hmerge {a b : Span} (ha : a.Within file source) (hb : b.Within file source) :
      (a.merge b).Within file source := ha.merge hb
  have hplaced := (@parse_placed (fun span => span.Within file source) hmerge lexemes hnonempty
    ((lex_within source file).1 hlex)).1 hparse
  exact ⟨fun span hspan => ⟨hplaced span hspan,
    (Item.sitAll_of_nests items hwhole.nests span hspan).wide⟩, hwhole⟩

/-- In a class, a field and a method with a call, whose arguments have parts of their own. -/
theorem class_spans_nest :
    ∃ lexemes items, lex "class C{let a=1;fn f(){g(-a,2*a)}}" 3 = .ok lexemes ∧
      parse lexemes = .ok items ∧
      Item.spansAll items = [⟨3, 0, 34⟩, ⟨3, 8, 16⟩, ⟨3, 14, 15⟩, ⟨3, 16, 33⟩, ⟨3, 23, 32⟩,
        ⟨3, 25, 27⟩, ⟨3, 26, 27⟩, ⟨3, 28, 31⟩, ⟨3, 28, 29⟩, ⟨3, 30, 31⟩] ∧
      SpansNest 3 "class C{let a=1;fn f(){g(-a,2*a)}}" items := by
  have hread : ((lex "class C{let a=1;fn f(){g(-a,2*a)}}" 3).bind parse).toOption.map
      Item.spansAll = some [⟨3, 0, 34⟩, ⟨3, 8, 16⟩, ⟨3, 14, 15⟩, ⟨3, 16, 33⟩, ⟨3, 23, 32⟩,
        ⟨3, 25, 27⟩, ⟨3, 26, 27⟩, ⟨3, 28, 31⟩, ⟨3, 28, 29⟩, ⟨3, 30, 31⟩] := by
    decide +kernel
  cases hlex : lex "class C{let a=1;fn f(){g(-a,2*a)}}" 3 with
  | error errors =>
    rw [hlex] at hread
    cases hread
  | ok lexemes =>
    rw [hlex, Except.bind] at hread
    cases hparse : parse lexemes with
    | error errors =>
      rw [hparse] at hread
      cases hread
    | ok items =>
      rw [hparse] at hread
      exact ⟨lexemes, items, rfl, hparse, Option.some.inj hread, spans_nest hlex hparse⟩

end ScriptHost
