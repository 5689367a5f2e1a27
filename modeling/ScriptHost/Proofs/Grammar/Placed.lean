import ScriptHost.Grammar.Item
import ScriptHost.Proofs.Computation
import ScriptHost.Tree.Spans
/-!
# Places that rules come by

A rule knows of no places but those of the lexemes, and all that it does with them is to put them
together. So if some property holds of the places of all lexemes, and of what covers two places of
which it holds, then it holds of all places in a tree that is read, and of the place of everything
that is wrong: `parse_placed`.
-/

set_option autoImplicit false

namespace ScriptHost

namespace Grammar

variable {α β : Type} {good : Span → Prop}

/-- All places that a reader knows of are good, and it never runs out of lexemes. -/
structure State.Placed (good : Span → Prop) (s : State) : Prop where
  nonempty : s.rest ≠ []
  lexemes : ∀ lexeme ∈ s.rest, good lexeme.span
  previous : good s.previous
  errors : ∀ d ∈ s.errors, good d.span

namespace State.Placed

variable {s : State}

theorem span (h : s.Placed good) : good s.span := by
  have hlexemes := h.lexemes
  unfold State.span
  cases hrest : s.rest with
  | nil => exact absurd hrest h.nonempty
  | cons lexeme rest =>
    rw [hrest] at hlexemes
    exact hlexemes lexeme List.mem_cons_self

theorem advance (h : s.Placed good) : s.advance.Placed good := by
  unfold State.advance
  split
  · rename_i lexeme next rest hrest
    have hlexemes := h.lexemes
    rw [hrest, List.forall_mem_cons] at hlexemes
    exact ⟨List.cons_ne_nil next rest, hlexemes.2, hlexemes.1, h.errors⟩
  · exact h

theorem pastSemicolons (rest : List Lexeme) (h : s.Placed good) :
    (s.pastSemicolons rest).Placed good := by
  induction rest generalizing s with
  | nil => exact h
  | cons lexeme rest ih =>
    rw [State.pastSemicolons]
    split
    · exact ih h.advance
    · exact h

theorem withDepth (h : s.Placed good) (depth : Nat) : ({ s with depth } : State).Placed good :=
  ⟨h.nonempty, h.lexemes, h.previous, h.errors⟩

theorem report (h : s.Placed good) {d : Diagnostic} (hd : good d.span) :
    ({ s with errors := s.errors.push d } : State).Placed good := by
  refine ⟨h.nonempty, h.lexemes, h.previous, fun e he => ?_⟩
  obtain he | rfl := Array.mem_push.mp he
  · exact h.errors e he
  · exact hd

theorem synchronize (start : Nat) (rest : List Lexeme) (h : s.Placed good) :
    (synchronize start rest s).Placed good := by
  induction rest generalizing s with
  | nil => exact h
  | cons lexeme rest ih =>
    rw [Grammar.synchronize]
    split
    · exact h
    · exact h.advance
    · exact h.advance
    all_goals
      first
      | exact ih h.advance
      | split
        · exact h
        · exact ih h.advance

end State.Placed

/-- A rule comes by no places but good ones. What it reads is right, and what it fails with is told
at a good place. -/
structure Places (good : Span → Prop) (rule : Rule α) (right : α → Prop) : Prop where
  ok : ∀ {s s' : State} {a : α}, s.Placed good → rule s = .ok a s' → right a ∧ s'.Placed good
  error : ∀ {s s' : State} {d : Diagnostic}, s.Placed good → rule s = .error d s' →
    good d.span ∧ s'.Placed good

namespace Places

theorem pure {a : α} {right : α → Prop} (h : right a) :
    Places good (Pure.pure a : Rule α) right where
  ok := fun hs hok => by
    cases hok
    exact ⟨h, hs⟩
  error := fun _ herror => by cases herror

theorem bind {rule : Rule α} {next : α → Rule β} {first : α → Prop} {right : β → Prop}
    (hrule : Places good rule first) (hnext : ∀ a, first a → Places good (next a) right) :
    Places good (rule >>= next) right where
  ok := fun hs h => by
    obtain ⟨a, middle, hmiddle, hlast⟩ := bind_eq_ok.mp h
    obtain ⟨hfirst, hmiddle⟩ := hrule.ok hs hmiddle
    exact (hnext a hfirst).ok hmiddle hlast
  error := fun hs h => by
    obtain hmiddle | ⟨a, middle, hmiddle, hlast⟩ := bind_eq_error.mp h
    · exact hrule.error hs hmiddle
    · obtain ⟨hfirst, hmiddle⟩ := hrule.ok hs hmiddle
      exact (hnext a hfirst).error hmiddle hlast

theorem throw {e : ParseError} {span : Span} {right : α → Prop} (h : good span) :
    Places good (MonadExcept.throw (e.placed span) : Rule α) right where
  ok := fun _ hok => by cases hok
  error := fun hs herror => by
    cases herror
    exact ⟨h, hs⟩

theorem modify {f : State → State} (h : ∀ s : State, s.Placed good → (f s).Placed good) :
    Places good (modify f : Rule Unit) fun _ => True where
  ok := fun {s _ _} hs hok => by
    cases hok
    exact ⟨trivial, h s hs⟩
  error := fun _ herror => by cases herror

theorem get : Places good (MonadState.get : Rule State) fun s => s.Placed good where
  ok := fun hs hok => by
    cases hok
    exact ⟨hs, hs⟩
  error := fun _ herror => by cases herror

theorem peek : Places good peek fun _ => True :=
  get.bind fun _ _ => .pure trivial

theorem here : Places good here good :=
  get.bind fun _ hs => .pure hs.span

theorem previous : Places good previous good :=
  get.bind fun _ hs => .pure hs.previous

theorem budget : Places good budget fun _ => True :=
  get.bind fun _ _ => .pure trivial

theorem advance : Places good advance fun _ => True :=
  .modify fun _ hs => hs.advance

theorem skipSemicolons : Places good skipSemicolons fun _ => True :=
  .modify fun s hs => hs.pastSemicolons s.rest

theorem restoreDepth (depth : Nat) : Places good (restoreDepth depth) fun _ => True :=
  .modify fun _ hs => hs.withDepth depth

theorem failHere {e : ParseError} {right : α → Prop} :
    Places good (failHere e : Rule α) right :=
  here.bind fun _ hspan => .throw hspan

theorem expect (token : Token) (what : String) : Places good (expect token what) good := by
  unfold Grammar.expect
  refine peek.bind fun found _ => ?_
  split
  · exact here.bind fun span hspan => advance.bind fun _ _ => .pure hspan
  · exact .failHere

theorem identifier : Places good identifier fun _ => True := by
  unfold Grammar.identifier
  refine peek.bind fun found _ => ?_
  split
  · exact advance.bind fun _ _ => .pure trivial
  · exact .failHere

theorem terminator : Places good terminator fun _ => True := by
  unfold Grammar.terminator
  refine peek.bind fun found _ => ?_
  split
  · exact advance
  · exact .pure trivial
  · exact .pure trivial
  · exact .failHere

theorem descend : Places good descend fun _ => True := by
  unfold Grammar.descend
  refine get.bind fun s _ => ?_
  split
  · exact .failHere
  · exact .modify fun s hs => hs.withDepth (s.depth + 1)

theorem nested {rule : Rule α} {right : α → Prop} (h : Places good rule right) :
    Places good (nested rule) right := by
  refine descend.bind fun _ _ => ⟨fun {s s' a} hs hok => ?_, fun {s s' d} hs herror => ?_⟩
  · cases hrule : rule s with
    | ok b after =>
      rw [hrule] at hok
      cases hok
      obtain ⟨hright, hafter⟩ := h.ok hs hrule
      exact ⟨hright, hafter.withDepth _⟩
    | error e after =>
      rw [hrule] at hok
      cases hok
  · cases hrule : rule s with
    | ok b after =>
      rw [hrule] at herror
      cases herror
    | error e after =>
      rw [hrule] at herror
      cases herror
      obtain ⟨hspan, hafter⟩ := h.error hs hrule
      exact ⟨hspan, hafter.withDepth _⟩

/-- What is recovered from is known as an error from then on. -/
theorem recovering {rule : Rule α} {right : α → Prop} (h : Places good rule right) :
    Places good (recovering rule) fun found => ∀ a ∈ found, right a := by
  refine ⟨fun {s s' found} hs hok => ?_, fun {s s' d} hs herror => ?_⟩
  · unfold Grammar.recovering at hok
    cases hrule : rule s with
    | ok a after =>
      rw [hrule] at hok
      cases hok
      obtain ⟨hright, hafter⟩ := h.ok hs hrule
      refine ⟨?_, hafter⟩
      rintro _ ⟨⟩
      exact hright
    | error e after =>
      rw [hrule] at hok
      cases hok
      obtain ⟨hspan, hafter⟩ := h.error hs hrule
      exact ⟨nofun, ((hafter.report hspan).withDepth _).synchronize _ _⟩
  · unfold Grammar.recovering at herror
    cases hrule : rule s with
    | ok a after =>
      rw [hrule] at herror
      cases herror
    | error e after =>
      rw [hrule] at herror
      cases herror

end Places

theorem places_parameters : ∀ (fuel : Nat) (found : List String),
    Places good (parameters fuel found) fun _ => True
  | 0, _ => .pure trivial
  | fuel + 1, found => by
    rw [parameters]
    refine Places.peek.bind fun token _ => ?_
    split
    · exact .pure trivial
    · refine Places.identifier.bind fun name _ => Places.peek.bind fun token _ => ?_
      split
      · exact Places.advance.bind fun _ _ => places_parameters fuel _
      · exact .pure trivial

theorem places_moreNames : ∀ (fuel : Nat) (found : List String),
    Places good (moreNames fuel found) fun _ => True
  | 0, _ => .pure trivial
  | fuel + 1, found => by
    rw [moreNames]
    refine Places.peek.bind fun token _ => ?_
    split
    · exact Places.advance.bind fun _ _ => Places.identifier.bind fun name _ =>
        places_moreNames fuel _
    · exact .pure trivial

theorem places_dottedName : Places good dottedName fun _ => True :=
  Places.identifier.bind fun _ _ => Places.budget.bind fun fuel _ => places_moreNames fuel _

/-- A rule reads expressions with good places only. -/
def PlacesExpr (good : Span → Prop) (rule : Rule Expr) : Prop :=
  Places good rule fun e => ∀ span ∈ e.spans, good span

/-- A rule reads statements with good places only. -/
def PlacesStmt (good : Span → Prop) (rule : Rule Stmt) : Prop :=
  Places good rule fun s => ∀ span ∈ s.spans, good span

/-- A rule reads blocks with good places only. -/
def PlacesBlock (good : Span → Prop) (rule : Rule (List Stmt)) : Prop :=
  Places good rule fun body => ∀ span ∈ Stmt.spansAll body, good span

theorem spans_literal {span : Span} {token : Token} {e : Expr} (h : literal? span token = some e) :
    e.spans = [span] := by
  cases token
  case int | float | str | kwTrue | kwFalse | kwNull | kwThis | ident =>
    cases h
    rfl
  all_goals cases h

theorem places_statements {statement : Rule Stmt} (h : PlacesStmt good statement) :
    ∀ (fuel : Nat) (found : List Stmt), (∀ s ∈ found, ∀ span ∈ s.spans, good span) →
      PlacesBlock good (statements statement fuel found)
  | 0, found, hfound => .pure (Stmt.forall_mem_spansAll.mpr (by simpa using hfound))
  | fuel + 1, found, hfound => by
    rw [statements]
    refine Places.peek.bind fun token _ => ?_
    split
    · exact .pure (Stmt.forall_mem_spansAll.mpr (by simpa using hfound))
    · refine h.bind fun stmt hstmt => Places.skipSemicolons.bind fun _ _ => ?_
      exact places_statements h fuel _ (List.forall_mem_cons.mpr ⟨hstmt, hfound⟩)

theorem places_block {statement : Rule Stmt} (h : PlacesStmt good statement) :
    PlacesBlock good (block statement) :=
  Places.skipSemicolons.bind fun _ _ => Places.budget.bind fun fuel _ =>
    places_statements h fuel [] nofun

theorem places_braced {body : Rule (List Stmt)} (h : PlacesBlock good body) :
    Places good (braced body) fun found =>
      (∀ span ∈ Stmt.spansAll found.1, good span) ∧ good found.2 := by
  refine (Places.expect _ _).bind fun _ _ => h.nested.bind fun found hfound => ?_
  exact Places.here.bind fun stop hstop => (Places.expect _ _).bind fun _ _ => .pure ⟨hfound, hstop⟩

section Merging

variable (hmerge : ∀ {a b : Span}, good a → good b → good (a.merge b))

include hmerge

/-! ## Expressions -/

theorem places_chain (op? : Token → Option BinaryOp) {operand : Rule Expr}
    (h : PlacesExpr good operand) : ∀ (fuel : Nat) (left : Expr),
      (∀ span ∈ left.spans, good span) → PlacesExpr good (chain op? operand fuel left)
  | 0, _, _ => .failHere
  | fuel + 1, left, hleft => by
    rw [chain]
    refine Places.peek.bind fun token _ => ?_
    split
    · exact .pure hleft
    · refine Places.descend.bind fun _ _ => Places.advance.bind fun _ _ =>
        h.bind fun right hright => ?_
      apply places_chain op? h fuel
      rw [join, Expr.spans, List.forall_mem_cons, List.forall_mem_append]
      exact ⟨hmerge (hleft _ left.span_mem_spans) (hright _ right.span_mem_spans), hleft, hright⟩

theorem places_level (op? : Token → Option BinaryOp) {operand : Rule Expr}
    (h : PlacesExpr good operand) : PlacesExpr good (level op? operand) :=
  h.bind fun left hleft => Places.get.bind fun s _ =>
    (places_chain hmerge op? h _ left hleft).bind fun _ hwhole =>
      (Places.restoreDepth s.depth).bind fun _ _ => .pure hwhole

theorem places_levels {operand : Rule Expr} (h : PlacesExpr good operand) :
    PlacesExpr good (levels operand) :=
  places_level hmerge orOp? <| places_level hmerge andOp? <| places_level hmerge equalityOp? <|
    places_level hmerge comparisonOp? <| places_level hmerge sumOp? <|
      places_level hmerge productOp? h

omit hmerge in
theorem places_moreArguments {expression : Rule Expr} (h : PlacesExpr good expression) :
    ∀ (fuel : Nat) (found : List Expr), (∀ e ∈ found, ∀ span ∈ e.spans, good span) →
      Places good (moreArguments expression fuel found) fun args =>
        ∀ e ∈ args, ∀ span ∈ e.spans, good span
  | 0, found, hfound => .pure (by simpa using hfound)
  | fuel + 1, found, hfound => by
    rw [moreArguments]
    refine Places.peek.bind fun token _ => ?_
    split
    · refine Places.advance.bind fun _ _ => h.bind fun argument hargument => ?_
      exact places_moreArguments h fuel _ (List.forall_mem_cons.mpr ⟨hargument, hfound⟩)
    · exact .pure (by simpa using hfound)

omit hmerge in
theorem places_arguments {expression : Rule Expr} (h : PlacesExpr good expression) :
    Places good (arguments expression) fun args => ∀ span ∈ Expr.spansAll args, good span := by
  have hclose (found : List Expr) (hfound : ∀ e ∈ found, ∀ span ∈ e.spans, good span) :
      Places good (Grammar.expect .rparen "')' after arguments" >>= fun _ => Pure.pure found)
        fun args => ∀ span ∈ Expr.spansAll args, good span :=
    (Places.expect _ _).bind fun _ _ => .pure (Expr.forall_mem_spansAll.mpr hfound)
  unfold arguments
  refine Places.peek.bind fun token _ => ?_
  split
  · have hnone : Places good (Pure.pure [] : Rule (List Expr)) fun found =>
        ∀ e ∈ found, ∀ span ∈ e.spans, good span := .pure nofun
    exact hnone.bind hclose
  · refine h.bind fun first hfirst => Places.budget.bind fun fuel _ => ?_
    exact (places_moreArguments h fuel _ (List.forall_mem_singleton.mpr hfirst)).bind hclose

theorem places_creation {expression : Rule Expr} (h : PlacesExpr good expression) :
    PlacesExpr good (creation expression) :=
  (Places.expect _ _).bind fun _ hstart => places_dottedName.bind fun _ _ =>
    (Places.expect _ _).bind fun _ _ =>
    (places_arguments h).bind fun _ hargs => Places.previous.bind fun _ hstop =>
      .pure (List.forall_mem_cons.mpr ⟨hmerge hstart hstop, hargs⟩)

theorem places_primary {expression : Rule Expr} (h : PlacesExpr good expression) :
    PlacesExpr good (primary expression) := by
  unfold primary
  refine Places.here.bind fun span hspan => Places.peek.bind fun token _ => ?_
  split
  · rename_i e he
    refine Places.advance.bind fun _ _ => .pure ?_
    rw [spans_literal he]
    exact List.forall_mem_singleton.mpr hspan
  · split
    · exact Places.advance.bind fun _ _ => h.bind fun inner hinner =>
        (Places.expect _ _).bind fun _ _ => .pure hinner
    · split
      · exact places_creation hmerge h
      · exact .failHere

theorem places_member {expression : Rule Expr} (h : PlacesExpr good expression) {object : Expr}
    (hobject : ∀ span ∈ object.spans, good span) : PlacesExpr good (member expression object) := by
  have hown := hobject _ object.span_mem_spans
  unfold member
  refine Places.descend.bind fun _ _ => Places.advance.bind fun _ _ =>
    Places.here.bind fun span hspan => ?_
  refine Places.identifier.bind fun name _ => Places.peek.bind fun token _ => ?_
  split
  · refine Places.advance.bind fun _ _ => (places_arguments h).bind fun args hargs => ?_
    refine Places.previous.bind fun stop hstop => .pure ?_
    rw [Expr.spans, List.forall_mem_cons, List.forall_mem_append]
    exact ⟨hmerge (hmerge hown hstop) hspan, hobject, hargs⟩
  · exact .pure (List.forall_mem_cons.mpr ⟨hmerge hown hspan, hobject⟩)

theorem places_postfixChain {expression : Rule Expr} (h : PlacesExpr good expression) :
    ∀ (fuel : Nat) (object : Expr), (∀ span ∈ object.spans, good span) →
      PlacesExpr good (postfixChain expression fuel object)
  | 0, _, _ => .failHere
  | fuel + 1, object, hobject => by
    rw [postfixChain]
    refine Places.peek.bind fun token _ => ?_
    split
    · exact (places_member hmerge h hobject).bind fun whole hwhole =>
        places_postfixChain h fuel whole hwhole
    · rename_i name span
      refine Places.descend.bind fun _ _ => Places.advance.bind fun _ _ => ?_
      refine (places_arguments h).bind fun args hargs => Places.previous.bind fun stop hstop => ?_
      apply places_postfixChain h fuel
      exact List.forall_mem_cons.mpr ⟨hmerge (hobject span List.mem_cons_self) hstop, hargs⟩
    · exact .pure hobject

theorem places_postfixExpr {expression : Rule Expr} (h : PlacesExpr good expression) :
    PlacesExpr good (postfixExpr expression) :=
  (places_primary hmerge h).bind fun object hobject => Places.get.bind fun s _ =>
    (places_postfixChain hmerge h _ object hobject).bind fun _ hwhole =>
      (Places.restoreDepth s.depth).bind fun _ _ => .pure hwhole

theorem places_expressionOver {operand : Rule Expr} (h : PlacesExpr good operand) :
    PlacesExpr good (expressionOver operand) :=
  (places_levels hmerge h).nested

theorem places_operand : ∀ fuel : Nat, PlacesExpr good (operand fuel)
  | 0 => .failHere
  | fuel + 1 => by
    rw [operand]
    refine Places.peek.bind fun token _ => ?_
    split
    · refine Places.here.bind fun start hstart => Places.advance.bind fun _ _ => ?_
      refine (places_operand fuel).nested.bind fun inner hinner => .pure ?_
      exact List.forall_mem_cons.mpr ⟨hmerge hstart (hinner _ inner.span_mem_spans), hinner⟩
    · exact places_postfixExpr hmerge (places_expressionOver hmerge (places_operand fuel))

theorem places_expression : PlacesExpr good expression :=
  places_expressionOver hmerge (places_operand hmerge _)

/-! ## Statements -/

theorem places_conditional {body : Rule (List Stmt)} (h : PlacesBlock good body) :
    ∀ fuel : Nat, PlacesStmt good (conditional body fuel)
  | 0 => .failHere
  | fuel + 1 => by
    rw [conditional]
    refine Places.here.bind fun start hstart => (Places.expect _ _).bind fun _ _ => ?_
    refine (places_expression hmerge).bind fun condition hcondition => ?_
    refine (places_braced h).bind fun found hfound => Places.peek.bind fun token _ => ?_
    obtain ⟨hbody, hstop⟩ := hfound
    split
    · refine Places.advance.bind fun _ _ => Places.peek.bind fun token _ => ?_
      split
      · refine (places_conditional h fuel).nested.bind fun other hother => .pure ?_
        have hall : ∀ span ∈ Stmt.spansAll [other], good span :=
          Stmt.forall_mem_spansAll.mpr (List.forall_mem_singleton.mpr hother)
        rw [Stmt.spans, List.forall_mem_cons, List.forall_mem_append, List.forall_mem_append]
        exact ⟨hmerge hstart (hother _ other.span_mem_spans), hcondition, hbody, hall⟩
      · refine (places_braced h).bind fun other hother => .pure ?_
        rw [Stmt.spans, List.forall_mem_cons, List.forall_mem_append, List.forall_mem_append]
        exact ⟨hmerge hstart hother.2, hcondition, hbody, hother.1⟩
    · refine .pure ?_
      rw [Stmt.spans, List.forall_mem_cons, List.forall_mem_append]
      exact ⟨hmerge hstart hstop, hcondition, hbody⟩

theorem places_variableDecl : PlacesStmt good variableDecl := by
  refine Places.here.bind fun start hstart => Places.advance.bind fun _ _ =>
    Places.identifier.bind fun name _ => ?_
  refine (Places.expect _ _).bind fun _ _ => (places_expression hmerge).bind fun value hvalue => ?_
  refine Places.terminator.bind fun _ _ => .pure ?_
  exact List.forall_mem_cons.mpr ⟨hmerge hstart (hvalue _ value.span_mem_spans), hvalue⟩

theorem places_loop {body : Rule (List Stmt)} (h : PlacesBlock good body) :
    PlacesStmt good (loop body) := by
  refine Places.here.bind fun start hstart => Places.advance.bind fun _ _ => ?_
  refine (places_expression hmerge).bind fun condition hcondition => ?_
  refine (places_braced h).bind fun found hfound => .pure ?_
  rw [Stmt.spans, List.forall_mem_cons, List.forall_mem_append]
  exact ⟨hmerge hstart hfound.2, hcondition, hfound.1⟩

theorem places_returning : PlacesStmt good returning := by
  have hnone (start : Span) (hstart : good start) :
      PlacesStmt good (do Grammar.terminator; return Stmt.ret none start) :=
    Places.terminator.bind fun _ _ => .pure (List.forall_mem_singleton.mpr hstart)
  unfold returning
  refine Places.here.bind fun start hstart => Places.advance.bind fun _ _ =>
    Places.peek.bind fun token _ => ?_
  split
  · exact hnone start hstart
  · exact hnone start hstart
  · exact hnone start hstart
  · refine (places_expression hmerge).bind fun value hvalue => ?_
    refine Places.terminator.bind fun _ _ => .pure ?_
    exact List.forall_mem_cons.mpr ⟨hmerge hstart (hvalue _ value.span_mem_spans), hvalue⟩

theorem places_expressionOrAssignment : PlacesStmt good expressionOrAssignment := by
  unfold expressionOrAssignment
  refine (places_expression hmerge).bind fun target htarget => Places.peek.bind fun token _ => ?_
  have hown := htarget _ target.span_mem_spans
  split
  · refine Places.advance.bind fun _ _ => ?_
    split
    · refine (places_expression hmerge).bind fun value hvalue => ?_
      refine Places.terminator.bind fun _ _ => .pure ?_
      rw [Stmt.spans, List.forall_mem_cons, List.forall_mem_append]
      exact ⟨hmerge hown (hvalue _ value.span_mem_spans), htarget, hvalue⟩
    · exact .throw hown
  · exact Places.terminator.bind fun _ _ => .pure htarget

theorem places_statementOver {body : Rule (List Stmt)} (h : PlacesBlock good body) :
    PlacesStmt good (statementOver body) := by
  unfold statementOver
  refine Places.peek.bind fun token _ => ?_
  split
  · exact places_variableDecl hmerge
  · exact places_conditional hmerge h _
  · exact places_loop hmerge h
  · exact places_returning hmerge
  · refine Places.here.bind fun start hstart => (places_braced h).bind fun found hfound => .pure ?_
    exact List.forall_mem_cons.mpr ⟨hmerge hstart hfound.2, hfound.1⟩
  · exact places_expressionOrAssignment hmerge

theorem places_statementWithin : ∀ fuel : Nat, PlacesStmt good (statementWithin fuel)
  | 0 => .failHere
  | fuel + 1 => places_statementOver hmerge (places_block (places_statementWithin fuel))

theorem places_statement : PlacesStmt good statement :=
  places_statementWithin hmerge _

/-! ## Items -/

theorem places_functionDecl : Places good functionDecl fun f => ∀ span ∈ f.spans, good span := by
  refine Places.here.bind fun start hstart => (Places.expect _ _).bind fun _ _ =>
    Places.identifier.bind fun _ _ => ?_
  refine (Places.expect _ _).bind fun _ _ => Places.budget.bind fun fuel _ => ?_
  refine (places_parameters fuel []).bind fun _ _ => (Places.expect _ _).bind fun _ _ => ?_
  refine (Places.expect _ _).bind fun _ _ => ?_
  refine (places_block (places_statement hmerge)).nested.bind fun body hbody => ?_
  refine Places.here.bind fun stop hstop => (Places.expect _ _).bind fun _ _ => .pure ?_
  exact List.forall_mem_cons.mpr ⟨hmerge hstart hstop, hbody⟩

theorem places_fieldDecl :
    Places good fieldDecl fun field => ∀ span ∈ field.spans, good span := by
  have hclose (name : String) {start : Span} (hstart : good start) (initial : Option Expr)
      (hinitial : ∀ e ∈ initial, ∀ span ∈ e.spans, good span) : Places good (do
        let stop ← Grammar.here
        let _ ← Grammar.expect .semicolon "';' after field declaration"
        return ({ name, initial, span := start.merge stop } : FieldDecl))
      fun field => ∀ span ∈ field.spans, good span := by
    refine Places.here.bind fun stop hstop => (Places.expect _ _).bind fun _ _ => .pure ?_
    rw [FieldDecl.spans, List.forall_mem_cons]
    refine ⟨hmerge hstart hstop, fun span hspan => ?_⟩
    obtain ⟨e, he, hspan⟩ := List.mem_flatMap.mp hspan
    exact hinitial e (Option.mem_toList.mp he) span hspan
  unfold fieldDecl
  refine Places.here.bind fun start hstart => Places.advance.bind fun _ _ =>
    Places.identifier.bind fun name _ => ?_
  refine Places.peek.bind fun token _ => ?_
  split
  · refine Places.advance.bind fun _ _ => (places_expression hmerge).bind fun value hvalue => ?_
    have hsome : Places good (Pure.pure (some value) : Rule (Option Expr)) fun initial =>
        ∀ e ∈ initial, ∀ span ∈ e.spans, good span := .pure (by simpa using hvalue)
    exact hsome.bind (hclose name hstart)
  · have hnone : Places good (Pure.pure none : Rule (Option Expr)) fun initial =>
        ∀ e ∈ initial, ∀ span ∈ e.spans, good span := .pure nofun
    exact hnone.bind (hclose name hstart)

theorem places_members : ∀ (fuel : Nat) (fields : List FieldDecl) (methods : List FunctionDecl),
    (∀ field ∈ fields, ∀ span ∈ field.spans, good span) →
    (∀ method ∈ methods, ∀ span ∈ method.spans, good span) →
      Places good (members fuel fields methods) fun found =>
        (∀ field ∈ found.1, ∀ span ∈ field.spans, good span) ∧
          ∀ method ∈ found.2, ∀ span ∈ method.spans, good span
  | 0, _, _, hfields, hmethods => .pure ⟨by simpa using hfields, by simpa using hmethods⟩
  | fuel + 1, fields, methods, hfields, hmethods => by
    rw [members]
    refine Places.peek.bind fun token _ => ?_
    split
    · exact .pure ⟨by simpa using hfields, by simpa using hmethods⟩
    · exact .pure ⟨by simpa using hfields, by simpa using hmethods⟩
    · refine (places_fieldDecl hmerge).bind fun field hfield =>
        Places.skipSemicolons.bind fun _ _ => ?_
      exact places_members fuel _ _ (List.forall_mem_cons.mpr ⟨hfield, hfields⟩) hmethods
    · refine (places_functionDecl hmerge).bind fun method hmethod => ?_
      refine Places.skipSemicolons.bind fun _ _ => ?_
      exact places_members fuel _ _ hfields (List.forall_mem_cons.mpr ⟨hmethod, hmethods⟩)
    · exact .failHere

theorem places_classDecl : Places good classDecl fun c => ∀ span ∈ c.spans, good span := by
  refine Places.here.bind fun start hstart => (Places.expect _ _).bind fun _ _ =>
    Places.identifier.bind fun _ _ => ?_
  refine (Places.expect _ _).bind fun _ _ => Places.skipSemicolons.bind fun _ _ =>
    Places.budget.bind fun fuel _ => ?_
  refine (places_members hmerge fuel [] [] nofun nofun).bind fun found hfound => ?_
  refine Places.here.bind fun stop hstop => (Places.expect _ _).bind fun _ _ => .pure ?_
  obtain ⟨hfields, hmethods⟩ := hfound
  rw [ClassDecl.spans, List.forall_mem_cons, List.forall_mem_append]
  refine ⟨hmerge hstart hstop, fun span hspan => ?_, fun span hspan => ?_⟩
  · obtain ⟨field, hfield, hspan⟩ := List.mem_flatMap.mp hspan
    exact hfields field hfield span hspan
  · obtain ⟨method, hmethod, hspan⟩ := List.mem_flatMap.mp hspan
    exact hmethods method hmethod span hspan

omit hmerge in
theorem forall_mem_next {next : Option Item} {found : List Item}
    (hnext : ∀ item ∈ next, ∀ span ∈ item.spans, good span)
    (hfound : ∀ item ∈ found, ∀ span ∈ item.spans, good span) :
    ∀ item ∈ next.toList ++ found, ∀ span ∈ item.spans, good span := by
  rw [List.forall_mem_append]
  exact ⟨fun item hitem => hnext item (Option.mem_toList.mp hitem), hfound⟩

omit hmerge in
theorem places_itemList {item : Rule (Option Item)}
    (h : Places good item fun found => ∀ item ∈ found, ∀ span ∈ item.spans, good span) :
    ∀ (fuel : Nat) (found : List Item), (∀ item ∈ found, ∀ span ∈ item.spans, good span) →
      Places good (itemList item fuel found) fun items => ∀ span ∈ Item.spansAll items, good span
  | 0, found, hfound => .pure (Item.forall_mem_spansAll.mpr (by simpa using hfound))
  | fuel + 1, found, hfound => by
    rw [itemList]
    refine Places.peek.bind fun token _ => ?_
    split
    · exact .pure (Item.forall_mem_spansAll.mpr (by simpa using hfound))
    · refine h.bind fun next hnext => Places.skipSemicolons.bind fun _ _ => ?_
      exact places_itemList h fuel _ (forall_mem_next hnext hfound)

theorem places_namespaceOver {item : Rule (Option Item)}
    (h : Places good item fun found => ∀ item ∈ found, ∀ span ∈ item.spans, good span) :
    Places good (namespaceOver item) fun item => ∀ span ∈ item.spans, good span := by
  refine Places.here.bind fun start hstart => (Places.expect _ _).bind fun _ _ => ?_
  refine places_dottedName.bind fun _ _ => (Places.expect _ _).bind fun _ _ => ?_
  refine Places.skipSemicolons.bind fun _ _ => ?_
  refine (Places.budget.bind fun fuel _ => places_itemList h fuel [] nofun).nested.bind
    fun items hitems => ?_
  refine Places.here.bind fun stop hstop => (Places.expect _ _).bind fun _ _ => .pure ?_
  exact List.forall_mem_cons.mpr ⟨hmerge hstart hstop, hitems⟩

theorem places_itemOver {item : Rule (Option Item)}
    (h : Places good item fun found => ∀ item ∈ found, ∀ span ∈ item.spans, good span) :
    Places good (itemOver item) fun item => ∀ span ∈ item.spans, good span := by
  unfold itemOver
  refine Places.peek.bind fun token _ => ?_
  split
  · exact places_namespaceOver hmerge h
  · exact (places_classDecl hmerge).bind fun _ hclass => .pure hclass
  · exact (places_functionDecl hmerge).bind fun _ hfunction => .pure hfunction
  · exact (places_statement hmerge).bind fun _ hstmt => .pure hstmt

theorem places_itemWithin : ∀ fuel : Nat, Places good (itemWithin fuel) fun found =>
    ∀ item ∈ found, ∀ span ∈ item.spans, good span
  | 0 => .failHere
  | fuel + 1 => (places_itemOver hmerge (places_itemWithin fuel)).recovering

theorem places_topLevel : ∀ (fuel : Nat) (found : List Item),
    (∀ item ∈ found, ∀ span ∈ item.spans, good span) →
      Places good (topLevel fuel found) fun items => ∀ span ∈ Item.spansAll items, good span
  | 0, found, hfound => .pure (Item.forall_mem_spansAll.mpr (by simpa using hfound))
  | fuel + 1, found, hfound => by
    rw [topLevel]
    refine Places.peek.bind fun token _ => ?_
    split
    · exact .pure (Item.forall_mem_spansAll.mpr (by simpa using hfound))
    · refine Places.here.bind fun span hspan => ?_
      refine (Places.modify fun s hs => hs.report hspan).bind fun _ _ => ?_
      exact Places.advance.bind fun _ _ => Places.skipSemicolons.bind fun _ _ =>
        places_topLevel fuel found hfound
    · refine (places_itemWithin hmerge _).bind fun next hnext =>
        Places.skipSemicolons.bind fun _ _ => ?_
      exact places_topLevel fuel _ (forall_mem_next hnext hfound)

theorem places_sourceText :
    Places good sourceText fun items => ∀ span ∈ Item.spansAll items, good span :=
  Places.skipSemicolons.bind fun _ _ => Places.budget.bind fun fuel _ =>
    places_topLevel hmerge fuel [] nofun

end Merging

end Grammar

/-- If all lexemes stand at good places, so does what they spell, and so does all that is wrong with
their order. -/
theorem parse_placed {good : Span → Prop}
    (hmerge : ∀ {a b : Span}, good a → good b → good (a.merge b)) {lexemes : List Lexeme}
    (hnonempty : lexemes ≠ []) (hgood : ∀ lexeme ∈ lexemes, good lexeme.span) :
    (∀ {items}, parse lexemes = .ok items → ∀ span ∈ Item.spansAll items, good span) ∧
      ∀ {errors}, parse lexemes = .error errors → ∀ d ∈ errors, good d.span := by
  have hstart : (Grammar.State.ofLexemes lexemes).Placed good := by
    refine ⟨hnonempty, hgood, ?_, nofun⟩
    cases lexemes with
    | nil => exact absurd rfl hnonempty
    | cons first rest => exact hgood first List.mem_cons_self
  have hrule : Grammar.Places good Grammar.sourceText fun items =>
      ∀ span ∈ Item.spansAll items, good span := Grammar.places_sourceText hmerge
  unfold parse
  cases hread : Grammar.sourceText (.ofLexemes lexemes) with
  | ok items s =>
    obtain ⟨hitems, hs⟩ := hrule.ok hstart hread
    dsimp only
    constructor
    · intro found h
      split at h
      · cases h
        exact hitems
      · cases h
    · intro errors h d hd
      split at h
      · cases h
      · cases h
        exact hs.errors d (Array.mem_toList_iff.mp hd)
  | error e s =>
    obtain ⟨he, hs⟩ := hrule.error hstart hread
    refine ⟨nofun, fun {errors} h d hd => ?_⟩
    cases h
    exact (hs.report he).errors d (Array.mem_toList_iff.mp hd)

end ScriptHost
