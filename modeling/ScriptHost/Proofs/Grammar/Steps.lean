import ScriptHost.Grammar.Item
import ScriptHost.Proofs.Computation
/-!
# The steps that rules are made of

Every rule of the grammar is put together from a few kinds of steps. What each kind of step keeps,
whatever was read before it, every rule keeps, and so does the reading of a whole source text. The
first thing that is found so: whatever is wrong with the order of the tokens is an error, and no
source text is refused without one.
-/

set_option autoImplicit false

namespace ScriptHost

namespace Grammar

/-- Closes a level of nesting behind a rule, also when the rule fails. -/
def ascending {α : Type} (rule : Rule α) : Rule α := fun s =>
  match rule s with
  | .ok a s => .ok a s.ascend
  | .error e s => .error e s.ascend

/-- A rule is made of steps. Each kind of step has a constructor, and `bind` puts steps together,
whatever the first of them answers. -/
inductive Stepwise : {α : Type} → Rule α → Prop
  | pure {α : Type} (a : α) : Stepwise (Pure.pure a)
  | bind {α β : Type} {rule : Rule α} {next : α → Rule β} (first : Stepwise rule)
      (rest : ∀ a, Stepwise (next a)) : Stepwise (rule >>= next)
  | look : Stepwise get
  | fail {α : Type} (e : ParseError) (span : Span) : Stepwise (throw (e.placed span) : Rule α)
  | advance : Stepwise advance
  | skipSemicolons : Stepwise skipSemicolons
  | depth (f : State → Nat) : Stepwise (modify fun s => { s with depth := f s })
  | report (e : ParseError) (span : Span) :
      Stepwise (modify fun s => { s with errors := s.errors.push (e.placed span) })
  | ascending {α : Type} {rule : Rule α} (inner : Stepwise rule) : Stepwise (ascending rule)
  | recovering {α : Type} {rule : Rule α} (inner : Stepwise rule) : Stepwise (recovering rule)

namespace Stepwise

variable {α : Type}

theorem peek : Stepwise peek :=
  look.bind fun _ => .pure _

theorem here : Stepwise here :=
  look.bind fun _ => .pure _

theorem previous : Stepwise previous :=
  look.bind fun _ => .pure _

theorem budget : Stepwise budget :=
  look.bind fun _ => .pure _

theorem failHere (e : ParseError) : Stepwise (failHere e : Rule α) :=
  here.bind fun span => .fail e span

theorem expect (token : Token) (what : String) : Stepwise (expect token what) := by
  unfold Grammar.expect
  refine peek.bind fun found => ?_
  split
  · exact here.bind fun _ => advance.bind fun _ => .pure _
  · exact failHere _

theorem identifier : Stepwise identifier := by
  unfold Grammar.identifier
  refine peek.bind fun found => ?_
  split
  · exact advance.bind fun _ => .pure _
  · exact failHere _

theorem descend : Stepwise descend := by
  unfold Grammar.descend
  refine look.bind fun s => ?_
  split
  · exact failHere _
  · exact .depth fun s => s.depth + 1

theorem nested {rule : Rule α} (h : Stepwise rule) : Stepwise (nested rule) :=
  descend.bind fun _ => h.ascending

theorem restoreDepth (depth : Nat) : Stepwise (restoreDepth depth) :=
  .depth fun _ => depth

theorem terminator : Stepwise terminator := by
  unfold Grammar.terminator
  refine peek.bind fun found => ?_
  split
  · exact advance
  · exact .pure _
  · exact .pure _
  · exact failHere _

/-! ## Expressions -/

theorem chain (op? : Token → Option BinaryOp) {operand : Rule Expr} (h : Stepwise operand) :
    ∀ (fuel : Nat) (left : Expr), Stepwise (chain op? operand fuel left)
  | 0, _ => failHere _
  | fuel + 1, left => by
    rw [Grammar.chain]
    refine peek.bind fun token => ?_
    split
    · exact .pure _
    · exact descend.bind fun _ => advance.bind fun _ => h.bind fun right => chain op? h fuel _

theorem level (op? : Token → Option BinaryOp) {operand : Rule Expr} (h : Stepwise operand) :
    Stepwise (level op? operand) :=
  h.bind fun left => look.bind fun s => (chain op? h _ left).bind fun whole =>
    (restoreDepth s.depth).bind fun _ => .pure whole

theorem levels {operand : Rule Expr} (h : Stepwise operand) : Stepwise (levels operand) :=
  level orOp? <| level andOp? <| level equalityOp? <| level comparisonOp? <| level sumOp? <|
    level productOp? h

theorem moreArguments {expression : Rule Expr} (h : Stepwise expression) :
    ∀ (fuel : Nat) (found : List Expr), Stepwise (moreArguments expression fuel found)
  | 0, _ => .pure _
  | fuel + 1, found => by
    rw [Grammar.moreArguments]
    refine peek.bind fun token => ?_
    split
    · exact advance.bind fun _ => h.bind fun argument => moreArguments h fuel _
    · exact .pure _

theorem arguments {expression : Rule Expr} (h : Stepwise expression) :
    Stepwise (arguments expression) := by
  have hclose : ∀ found : List Expr, Stepwise (do
      let _ ← Grammar.expect .rparen "')' after arguments"
      return found) := fun found => (expect _ _).bind fun _ => .pure found
  unfold Grammar.arguments
  refine peek.bind fun token => ?_
  split
  · exact Stepwise.bind (.pure []) hclose
  · exact h.bind fun first => budget.bind fun fuel => (moreArguments h fuel _).bind hclose

theorem moreNames : ∀ (fuel : Nat) (found : List String), Stepwise (moreNames fuel found)
  | 0, _ => .pure _
  | fuel + 1, found => by
    rw [Grammar.moreNames]
    refine peek.bind fun token => ?_
    split
    · exact advance.bind fun _ => identifier.bind fun name => moreNames fuel _
    · exact .pure _

theorem dottedName : Stepwise dottedName :=
  identifier.bind fun _ => budget.bind fun fuel => moreNames fuel _

theorem creation {expression : Rule Expr} (h : Stepwise expression) :
    Stepwise (creation expression) :=
  (expect _ _).bind fun _ => dottedName.bind fun _ => (expect _ _).bind fun _ =>
    (arguments h).bind fun _ => previous.bind fun _ => .pure _

theorem primary {expression : Rule Expr} (h : Stepwise expression) :
    Stepwise (primary expression) := by
  unfold Grammar.primary
  refine here.bind fun span => peek.bind fun token => ?_
  split
  · exact advance.bind fun _ => .pure _
  · split
    · exact advance.bind fun _ => h.bind fun inner => (expect _ _).bind fun _ => .pure _
    · split
      · exact creation h
      · exact failHere _

theorem member {expression : Rule Expr} (h : Stepwise expression) (object : Expr) :
    Stepwise (member expression object) := by
  unfold Grammar.member
  refine descend.bind fun _ => advance.bind fun _ => here.bind fun span => ?_
  refine identifier.bind fun name => peek.bind fun token => ?_
  split
  · exact advance.bind fun _ => (arguments h).bind fun _ => previous.bind fun _ => .pure _
  · exact .pure _

theorem postfixChain {expression : Rule Expr} (h : Stepwise expression) :
    ∀ (fuel : Nat) (object : Expr), Stepwise (postfixChain expression fuel object)
  | 0, _ => failHere _
  | fuel + 1, object => by
    rw [Grammar.postfixChain]
    refine peek.bind fun token => ?_
    split
    · exact (member h object).bind fun whole => postfixChain h fuel whole
    · refine descend.bind fun _ => advance.bind fun _ => (arguments h).bind fun args => ?_
      exact previous.bind fun _ => postfixChain h fuel _
    · exact .pure _

theorem postfixExpr {expression : Rule Expr} (h : Stepwise expression) :
    Stepwise (postfixExpr expression) :=
  (primary h).bind fun object => look.bind fun s => (postfixChain h _ object).bind fun whole =>
    (restoreDepth s.depth).bind fun _ => .pure whole

theorem expressionOver {operand : Rule Expr} (h : Stepwise operand) :
    Stepwise (expressionOver operand) :=
  (levels h).nested

theorem operand : ∀ fuel : Nat, Stepwise (operand fuel)
  | 0 => failHere _
  | fuel + 1 => by
    rw [Grammar.operand]
    refine peek.bind fun token => ?_
    split
    · exact here.bind fun start => advance.bind fun _ => (operand fuel).nested.bind fun _ => .pure _
    · exact postfixExpr (expressionOver (operand fuel))

theorem expression : Stepwise expression :=
  expressionOver (operand _)

/-! ## Statements -/

theorem statements {statement : Rule Stmt} (h : Stepwise statement) :
    ∀ (fuel : Nat) (found : List Stmt), Stepwise (statements statement fuel found)
  | 0, _ => .pure _
  | fuel + 1, found => by
    rw [Grammar.statements]
    refine peek.bind fun token => ?_
    split
    · exact .pure _
    · exact h.bind fun stmt => skipSemicolons.bind fun _ => statements h fuel _

theorem block {statement : Rule Stmt} (h : Stepwise statement) : Stepwise (block statement) :=
  skipSemicolons.bind fun _ => budget.bind fun fuel => statements h fuel []

theorem braced {block : Rule (List Stmt)} (h : Stepwise block) : Stepwise (braced block) :=
  (expect _ _).bind fun _ => h.nested.bind fun _ => here.bind fun _ =>
    (expect _ _).bind fun _ => .pure _

theorem conditional {block : Rule (List Stmt)} (h : Stepwise block) :
    ∀ fuel : Nat, Stepwise (conditional block fuel)
  | 0 => failHere _
  | fuel + 1 => by
    rw [Grammar.conditional]
    refine here.bind fun start => (expect _ _).bind fun _ => expression.bind fun condition => ?_
    refine (braced h).bind fun body => peek.bind fun token => ?_
    split
    · refine advance.bind fun _ => peek.bind fun token => ?_
      split
      · exact (conditional h fuel).nested.bind fun _ => .pure _
      · exact (braced h).bind fun _ => .pure _
    · exact .pure _

theorem variableDecl : Stepwise variableDecl :=
  here.bind fun _ => advance.bind fun _ => identifier.bind fun _ => (expect _ _).bind fun _ =>
    expression.bind fun _ => terminator.bind fun _ => .pure _

theorem loop {block : Rule (List Stmt)} (h : Stepwise block) : Stepwise (loop block) :=
  here.bind fun _ => advance.bind fun _ => expression.bind fun _ => (braced h).bind fun _ => .pure _

theorem returning : Stepwise returning := by
  have hnone : ∀ start : Span, Stepwise (do Grammar.terminator; return Stmt.ret none start) :=
    fun start => terminator.bind fun _ => .pure _
  unfold Grammar.returning
  refine here.bind fun start => advance.bind fun _ => peek.bind fun token => ?_
  split
  · exact hnone start
  · exact hnone start
  · exact hnone start
  · exact expression.bind fun _ => terminator.bind fun _ => .pure _

theorem expressionOrAssignment : Stepwise expressionOrAssignment := by
  unfold Grammar.expressionOrAssignment
  refine expression.bind fun target => peek.bind fun token => ?_
  split
  · refine advance.bind fun _ => ?_
    split
    · exact expression.bind fun _ => terminator.bind fun _ => .pure _
    · exact .fail _ _
  · exact terminator.bind fun _ => .pure _

theorem statementOver {block : Rule (List Stmt)} (h : Stepwise block) :
    Stepwise (statementOver block) := by
  unfold Grammar.statementOver
  refine peek.bind fun token => ?_
  split
  · exact variableDecl
  · exact conditional h _
  · exact loop h
  · exact returning
  · exact here.bind fun _ => (braced h).bind fun _ => .pure _
  · exact expressionOrAssignment

theorem statementWithin : ∀ fuel : Nat, Stepwise (statementWithin fuel)
  | 0 => failHere _
  | fuel + 1 => statementOver (block (statementWithin fuel))

theorem statement : Stepwise statement :=
  statementWithin _

/-! ## Items -/

theorem parameters : ∀ (fuel : Nat) (found : List String), Stepwise (parameters fuel found)
  | 0, _ => .pure _
  | fuel + 1, found => by
    rw [Grammar.parameters]
    refine peek.bind fun token => ?_
    split
    · exact .pure _
    · refine identifier.bind fun name => peek.bind fun token => ?_
      split
      · exact advance.bind fun _ => parameters fuel _
      · exact .pure _

theorem functionDecl : Stepwise functionDecl :=
  here.bind fun _ => (expect _ _).bind fun _ => identifier.bind fun _ => (expect _ _).bind fun _ =>
    budget.bind fun fuel => (parameters fuel []).bind fun _ => (expect _ _).bind fun _ =>
      (expect _ _).bind fun _ => (block statement).nested.bind fun _ => here.bind fun _ =>
        (expect _ _).bind fun _ => .pure _

theorem fieldDecl : Stepwise fieldDecl := by
  have hclose : ∀ (name : String) (start : Span) (initial : Option Expr), Stepwise (do
      let stop ← Grammar.here
      let _ ← Grammar.expect .semicolon "';' after field declaration"
      return ({ name, initial, span := start.merge stop } : FieldDecl)) :=
    fun name start initial => here.bind fun _ => (expect _ _).bind fun _ => .pure _
  unfold Grammar.fieldDecl
  refine here.bind fun start => advance.bind fun _ => identifier.bind fun name => ?_
  refine peek.bind fun token => ?_
  split
  · exact advance.bind fun _ => expression.bind fun value =>
      Stepwise.bind (.pure (some value)) (hclose name start)
  · exact Stepwise.bind (.pure none) (hclose name start)

theorem members : ∀ (fuel : Nat) (fields : List FieldDecl) (methods : List FunctionDecl),
    Stepwise (members fuel fields methods)
  | 0, _, _ => .pure _
  | fuel + 1, fields, methods => by
    rw [Grammar.members]
    refine peek.bind fun token => ?_
    split
    · exact .pure _
    · exact .pure _
    · exact fieldDecl.bind fun _ => skipSemicolons.bind fun _ => members fuel _ _
    · exact functionDecl.bind fun _ => skipSemicolons.bind fun _ => members fuel _ _
    · exact failHere _

theorem classDecl : Stepwise classDecl :=
  here.bind fun _ => (expect _ _).bind fun _ => identifier.bind fun _ => (expect _ _).bind fun _ =>
    skipSemicolons.bind fun _ => budget.bind fun fuel => (members fuel [] []).bind fun _ =>
      here.bind fun _ => (expect _ _).bind fun _ => .pure _

theorem itemList {item : Rule (Option Item)} (h : Stepwise item) :
    ∀ (fuel : Nat) (found : List Item), Stepwise (itemList item fuel found)
  | 0, _ => .pure _
  | fuel + 1, found => by
    rw [Grammar.itemList]
    refine peek.bind fun token => ?_
    split
    · exact .pure _
    · exact h.bind fun next => skipSemicolons.bind fun _ => itemList h fuel _

theorem namespaceOver {item : Rule (Option Item)} (h : Stepwise item) :
    Stepwise (namespaceOver item) :=
  here.bind fun _ => (expect _ _).bind fun _ => dottedName.bind fun _ => (expect _ _).bind fun _ =>
    skipSemicolons.bind fun _ =>
      (budget.bind fun fuel => itemList h fuel []).nested.bind fun _ => here.bind fun _ =>
        (expect _ _).bind fun _ => .pure _

theorem itemOver {item : Rule (Option Item)} (h : Stepwise item) : Stepwise (itemOver item) := by
  unfold Grammar.itemOver
  refine peek.bind fun token => ?_
  split
  · exact namespaceOver h
  · exact classDecl.bind fun _ => .pure _
  · exact functionDecl.bind fun _ => .pure _
  · exact statement.bind fun _ => .pure _

theorem itemWithin : ∀ fuel : Nat, Stepwise (itemWithin fuel)
  | 0 => failHere _
  | fuel + 1 => (itemOver (itemWithin fuel)).recovering

theorem topLevel : ∀ (fuel : Nat) (found : List Item), Stepwise (topLevel fuel found)
  | 0, _ => .pure _
  | fuel + 1, found => by
    rw [Grammar.topLevel]
    refine peek.bind fun token => ?_
    split
    · exact .pure _
    · exact here.bind fun span => (report .strayBrace span).bind fun _ => advance.bind fun _ =>
        skipSemicolons.bind fun _ => topLevel fuel found
    · exact (itemWithin _).bind fun next => skipSemicolons.bind fun _ => topLevel fuel _

/-- The rule for a whole source text is made of steps. -/
theorem sourceText : Stepwise sourceText :=
  skipSemicolons.bind fun _ => budget.bind fun fuel => topLevel fuel []

end Stepwise

/-! ## Errors -/

/-- A diagnostic is an error in the order of the tokens. -/
def Complains (d : Diagnostic) : Prop :=
  ∃ (e : ParseError) (span : Span), d = e.placed span

/-- All that reading has recovered from are errors in the order of the tokens. -/
def State.Complains (s : State) : Prop :=
  ∀ d ∈ s.errors, Grammar.Complains d

theorem State.Complains.push {s : State} (h : s.Complains) {d : Diagnostic}
    (hd : Grammar.Complains d) : ∀ e ∈ s.errors.push d, Grammar.Complains e := by
  intro e he
  obtain he | rfl := Array.mem_push.mp he
  · exact h e he
  · exact hd

theorem State.errors_advance (s : State) : s.advance.errors = s.errors := by
  unfold State.advance
  split <;> rfl

theorem State.errors_pastSemicolons (rest : List Lexeme) (s : State) :
    (s.pastSemicolons rest).errors = s.errors := by
  induction rest generalizing s with
  | nil => rfl
  | cons lexeme rest ih =>
    rw [State.pastSemicolons]
    split
    · rw [ih, State.errors_advance]
    · rfl

theorem State.errors_synchronize (start : Nat) (rest : List Lexeme) (s : State) :
    (synchronize start rest s).errors = s.errors := by
  induction rest generalizing s with
  | nil => rfl
  | cons lexeme rest ih =>
    rw [synchronize]
    split
    · rfl
    · exact s.errors_advance
    · exact s.errors_advance
    all_goals
      first
      | exact (ih _).trans s.errors_advance
      | split
        · rfl
        · exact (ih _).trans s.errors_advance

/-- An outcome with nothing but errors in the order of the tokens. -/
def OnlyComplains {α : Type} : EStateM.Result Diagnostic State α → Prop
  | .ok _ s => s.Complains
  | .error e s => Grammar.Complains e ∧ s.Complains

/-- Whatever rules fail with, and whatever they recover from, are errors in the order of the
tokens. -/
theorem Stepwise.onlyComplains {α : Type} {rule : Rule α} (h : Stepwise rule) :
    ∀ s : State, s.Complains → OnlyComplains (rule s) := by
  induction h with
  | pure _ | look => exact fun s hs => hs
  | bind _ _ ihfirst ihrest =>
    intro s hs
    rename_i rule next _ _
    have hfirst := ihfirst s hs
    cases hrule : rule s with
    | ok a after =>
      rw [hrule] at hfirst
      rw [bind_of_ok hrule]
      exact ihrest a after hfirst
    | error e after =>
      rw [hrule] at hfirst
      rw [bind_of_error hrule]
      exact hfirst
  | fail e span => exact fun s hs => ⟨⟨e, span, rfl⟩, hs⟩
  | advance =>
    intro s hs d hd
    exact hs d (s.errors_advance ▸ hd)
  | skipSemicolons =>
    intro s hs d hd
    exact hs d (s.errors_pastSemicolons s.rest ▸ hd)
  | depth f => exact fun s hs => hs
  | report e span => exact fun s hs => hs.push ⟨e, span, rfl⟩
  | ascending _ ih =>
    rename_i rule _
    intro s hs
    have hinner := ih s hs
    unfold Grammar.ascending
    cases hrule : rule s with
    | ok a after =>
      rw [hrule] at hinner
      exact hinner
    | error e after =>
      rw [hrule] at hinner
      exact hinner
  | recovering _ ih =>
    rename_i rule _
    intro s hs
    have hinner := ih s hs
    unfold Grammar.recovering
    cases hrule : rule s with
    | ok a after =>
      rw [hrule] at hinner
      exact hinner
    | error e after =>
      rw [hrule] at hinner
      obtain ⟨he, hafter⟩ := hinner
      intro d hd
      rw [State.errors_synchronize] at hd
      exact hafter.push he d hd

end Grammar

/-- If a list of lexemes is not accepted, then because of errors in their order. -/
theorem parse_error {lexemes : List Lexeme} {errors : List Diagnostic}
    (h : parse lexemes = .error errors) : errors ≠ [] ∧ ∀ d ∈ errors, Grammar.Complains d := by
  have houtcome := Grammar.Stepwise.sourceText.onlyComplains (.ofLexemes lexemes) nofun
  unfold parse at h
  cases hread : Grammar.sourceText (.ofLexemes lexemes) with
  | ok items s =>
    rw [hread] at h houtcome
    dsimp only at h
    split at h
    · cases h
    · rename_i hsome
      cases h
      refine ⟨fun hnone => hsome ?_, fun d hd => houtcome d (Array.mem_toList_iff.mp hd)⟩
      rw [Array.isEmpty_iff, ← Array.toList_eq_nil_iff]
      exact hnone
  | error e s =>
    rw [hread] at h houtcome
    cases h
    obtain ⟨he, hs⟩ := houtcome
    exact ⟨by simp, fun d hd => Grammar.State.Complains.push hs he d (Array.mem_toList_iff.mp hd)⟩

end ScriptHost
