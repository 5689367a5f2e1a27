import ScriptHost.Proofs.Grammar.Declares
/-!
# What rules take

How many lexemes a rule takes at least, where an end of text is left. A rule for an expression, a
statement, a function or a class takes at least one if it succeeds, and it recovers from nothing.
Where a rule fails, it may have taken nothing at all.

`Takes` is put together along a rule: one part of it that takes something is enough.
-/

set_option autoImplicit false

namespace ScriptHost.Grammar

variable {α β : Type} {m n : Nat} {s t u : State}

/-- At least `n` lexemes have been taken between two states, and nothing was recovered from. -/
structure Past (n : Nat) (s t : State) : Prop where
  later : s.Later t
  taken : s.position + n ≤ t.position
  left : t.position + t.rest.length = s.position + s.rest.length
  errors : t.errors = s.errors

theorem Past.of_same (hrest : t.rest = s.rest) (hposition : t.position = s.position)
    (herrors : t.errors = s.errors) : Past 0 s t :=
  ⟨.of_rest hrest, by omega, by rw [hrest, hposition], herrors⟩

theorem Past.refl (s : State) : Past 0 s s :=
  .of_same rfl rfl rfl

theorem Past.trans (h : Past m s t) (h' : Past n t u) : Past (m + n) s u where
  later := h.later.trans h'.later
  taken := by
    have := h.taken
    have := h'.taken
    omega
  left := h'.left.trans h.left
  errors := h'.errors.trans h.errors

theorem Past.mono (h : Past n s t) (hle : m ≤ n) : Past m s t :=
  { h with taken := by have := h.taken; omega }

theorem State.left_advance (s : State) :
    s.advance.position + s.advance.rest.length = s.position + s.rest.length := by
  unfold State.advance
  split
  · rename_i hrest
    simp only [hrest, List.length_cons]
    omega
  · rfl

theorem past_advance (s : State) : Past 0 s s.advance where
  later := s.later_advance
  taken := by
    unfold State.advance
    split
    · exact Nat.le_succ _
    · exact Nat.le_refl _
  left := s.left_advance
  errors := s.errors_advance

/-- A token that is no end is taken. -/
theorem State.Capped.past_advance (hs : s.Capped) (htoken : s.token ≠ .eof) :
    Past 1 s s.advance := by
  refine { Grammar.past_advance s with taken := ?_ }
  obtain ⟨lexeme, hrest, -⟩ := hs.advance htoken
  have hleft := s.left_advance
  have hlength := congrArg List.length hrest
  rw [List.length_cons] at hlength
  omega

theorem past_pastSemicolons (rest : List Lexeme) (s : State) : Past 0 s (s.pastSemicolons rest) := by
  induction rest generalizing s with
  | nil => exact .refl s
  | cons lexeme rest ih =>
    rw [State.pastSemicolons]
    split
    · exact (past_advance s).trans (ih _)
    · exact .refl s

/-- Begun at this state, the rule takes at least `n` lexemes if it succeeds. -/
def TakesFrom (n : Nat) (rule : Rule α) (s : State) : Prop :=
  match rule s with
  | .ok _ t => Past n s t
  | .error _ t => Past 0 s t

/-- The rule takes at least `n` lexemes if it succeeds, and recovers from nothing. -/
def Takes (n : Nat) (rule : Rule α) : Prop :=
  ∀ s : State, s.Capped → TakesFrom n rule s

theorem TakesFrom.ok {rule : Rule α} (h : TakesFrom n rule s) {a : α} (hok : rule s = .ok a t) :
    Past n s t := by
  unfold TakesFrom at h
  rwa [hok] at h

theorem TakesFrom.error {rule : Rule α} (h : TakesFrom n rule s) {e : Diagnostic}
    (herror : rule s = .error e t) : Past 0 s t := by
  unfold TakesFrom at h
  rwa [herror] at h

theorem TakesFrom.mono {rule : Rule α} (h : TakesFrom n rule s) (hle : m ≤ n) :
    TakesFrom m rule s := by
  unfold TakesFrom at h ⊢
  split at h
  · exact h.mono hle
  · exact h

theorem TakesFrom.bind {rule : Rule α} {next : α → Rule β} (h : TakesFrom m rule s)
    (hnext : ∀ a t, rule s = .ok a t → TakesFrom n (next a) t) :
    TakesFrom (m + n) (rule >>= next) s := by
  unfold TakesFrom
  cases hrule : rule s with
  | error e t =>
    rw [bind_of_error hrule]
    exact h.error hrule
  | ok a t =>
    rw [bind_of_ok hrule]
    have hfirst := h.ok hrule
    have hlast := hnext a t hrule
    unfold TakesFrom at hlast
    split at hlast
    · exact hfirst.trans hlast
    · exact (hfirst.trans hlast).mono (Nat.zero_le _)

theorem Takes.mono {rule : Rule α} (h : Takes n rule) (hle : m ≤ n) : Takes m rule :=
  fun s hs => (h s hs).mono hle

theorem Takes.zero {rule : Rule α} (h : Takes n rule) : Takes 0 rule :=
  h.mono (Nat.zero_le n)

theorem Takes.bind {rule : Rule α} {next : α → Rule β} (h : Takes m rule)
    (hnext : ∀ a, Takes n (next a)) : Takes (m + n) (rule >>= next) :=
  fun s hs => (h s hs).bind fun a t hok => hnext a t (((h s hs).ok hok).later.capped hs)

/-- The first part takes enough. -/
theorem Takes.first {rule : Rule α} {next : α → Rule β} (h : Takes n rule)
    (hnext : ∀ a, Takes 0 (next a)) : Takes n (rule >>= next) :=
  h.bind hnext

/-- What comes behind the first part takes enough. -/
theorem Takes.andThen {rule : Rule α} {next : α → Rule β} (h : Takes 0 rule)
    (hnext : ∀ a, Takes n (next a)) : Takes n (rule >>= next) :=
  (h.bind hnext).mono (Nat.le_add_left n 0)

namespace Takes

theorem pure (a : α) : Takes 0 (Pure.pure a) :=
  fun s _ => Past.refl s

theorem look : Takes 0 get :=
  fun s _ => Past.refl s

theorem peek : Takes 0 peek :=
  fun s _ => Past.refl s

theorem here : Takes 0 here :=
  fun s _ => Past.refl s

theorem previous : Takes 0 previous :=
  fun s _ => Past.refl s

theorem budget : Takes 0 budget :=
  fun s _ => Past.refl s

theorem throw (e : Diagnostic) : Takes n (MonadExcept.throw e : Rule α) :=
  fun s _ => Past.refl s

theorem failHere (e : ParseError) : Takes n (failHere e : Rule α) :=
  fun s _ => Past.refl s

theorem advance : Takes 0 advance :=
  fun s _ => past_advance s

theorem skipSemicolons : Takes 0 skipSemicolons :=
  fun s _ => past_pastSemicolons s.rest s

theorem restoreDepth (depth : Nat) : Takes 0 (restoreDepth depth) :=
  fun _ _ => .of_same rfl rfl rfl

/-- What comes behind a look at the next token may depend on it. -/
theorem peek_bind {next : Token → Rule α}
    (h : ∀ s : State, s.Capped → TakesFrom n (next s.token) s) : Takes n (Grammar.peek >>= next) :=
  h

/-- A token that is known and no end is taken. -/
theorem advance_bind {next : Unit → Rule α} (hs : s.Capped) (htoken : s.token ≠ .eof)
    (h : ∀ a, Takes 0 (next a)) : TakesFrom 1 (Grammar.advance >>= next) s := by
  have hpast : TakesFrom 1 Grammar.advance s := hs.past_advance htoken
  exact hpast.bind fun a t hok => h a t ((hpast.ok hok).later.capped hs)

theorem expect (token : Token) (what : String) : Takes 0 (expect token what) := by
  unfold Grammar.expect
  refine peek.andThen fun found => ?_
  split
  · exact here.andThen fun span => advance.andThen fun _ => .pure _
  · exact failHere _

/-- A token that is no end is taken if it is there. -/
theorem expect_one {token : Token} (what : String) (htoken : token ≠ .eof) :
    Takes 1 (Grammar.expect token what) := by
  unfold Grammar.expect
  refine peek_bind fun s hs => ?_
  split
  · rename_i hfound
    change TakesFrom 1 (Grammar.advance >>= fun _ => Pure.pure s.span) s
    exact advance_bind hs (hfound ▸ htoken) fun _ => .pure _
  · exact failHere _ s hs

theorem identifier : Takes 1 identifier := by
  unfold Grammar.identifier
  refine peek_bind fun s hs => ?_
  split
  · rename_i name hname
    exact advance_bind hs (by rw [hname]; exact Token.noConfusion) fun _ => .pure _
  · exact failHere _ s hs

theorem descend : Takes 0 descend := by
  unfold Grammar.descend
  refine look.andThen fun s => ?_
  split
  · exact failHere _
  · exact fun _ _ => .of_same rfl rfl rfl

theorem ascending {rule : Rule α} (h : Takes n rule) : Takes n (ascending rule) := by
  intro s hs
  have hclosed (t : State) : Past 0 t t.ascend := .of_same rfl rfl rfl
  unfold TakesFrom Grammar.ascending
  cases hrule : rule s with
  | ok a t => exact ((h s hs).ok hrule).trans (hclosed t)
  | error e t => exact ((h s hs).error hrule).trans (hclosed t)

theorem nested {rule : Rule α} (h : Takes n rule) : Takes n (nested rule) :=
  descend.andThen fun _ => h.ascending

theorem terminator : Takes 0 terminator := by
  unfold Grammar.terminator
  refine peek.andThen fun found => ?_
  split
  · exact advance
  · exact .pure _
  · exact .pure _
  · exact failHere _

/-! ## Expressions -/

theorem chain (op? : Token → Option BinaryOp) {operand : Rule Expr} (h : Takes 0 operand) :
    ∀ (fuel : Nat) (left : Expr), Takes 0 (chain op? operand fuel left)
  | 0, _ => failHere _
  | fuel + 1, left => by
    rw [Grammar.chain]
    refine peek.andThen fun token => ?_
    split
    · exact .pure _
    · exact descend.andThen fun _ => advance.andThen fun _ => h.andThen fun right =>
        chain op? h fuel _

theorem level (op? : Token → Option BinaryOp) {operand : Rule Expr} (h : Takes 1 operand) :
    Takes 1 (level op? operand) :=
  h.first fun left => look.andThen fun s => (chain op? (h.zero) _ left).andThen
    fun whole => (restoreDepth s.depth).andThen fun _ => .pure whole

theorem levels {operand : Rule Expr} (h : Takes 1 operand) : Takes 1 (levels operand) :=
  level orOp? <| level andOp? <| level equalityOp? <| level comparisonOp? <| level sumOp? <|
    level productOp? h

theorem moreArguments {expression : Rule Expr} (h : Takes 0 expression) :
    ∀ (fuel : Nat) (found : List Expr), Takes 0 (moreArguments expression fuel found)
  | 0, _ => .pure _
  | fuel + 1, found => by
    rw [Grammar.moreArguments]
    refine peek.andThen fun token => ?_
    split
    · exact advance.andThen fun _ => h.andThen fun argument => moreArguments h fuel _
    · exact .pure _

theorem arguments {expression : Rule Expr} (h : Takes 0 expression) :
    Takes 1 (arguments expression) := by
  have hclose : ∀ found : List Expr, Takes 1 (do
      let _ ← Grammar.expect .rparen "')' after arguments"
      return found) := fun found => (expect_one _ (by nofun)).first fun _ => .pure found
  unfold Grammar.arguments
  refine peek.andThen fun token => ?_
  split
  · exact (Takes.pure []).andThen hclose
  · exact h.andThen fun first => budget.andThen fun fuel =>
      (moreArguments h fuel _).andThen hclose

theorem moreNames : ∀ (fuel : Nat) (found : List String), Takes 0 (moreNames fuel found)
  | 0, _ => .pure _
  | fuel + 1, found => by
    rw [Grammar.moreNames]
    refine peek.andThen fun token => ?_
    split
    · exact advance.andThen fun _ => (identifier.zero).andThen fun name =>
        moreNames fuel _
    · exact .pure _

theorem dottedName : Takes 1 dottedName :=
  identifier.first fun _ => budget.andThen fun fuel => moreNames fuel _

theorem creation {expression : Rule Expr} (h : Takes 0 expression) :
    Takes 1 (creation expression) :=
  (expect_one _ (by nofun)).first fun _ => (dottedName.zero).andThen fun _ =>
    (expect _ _).andThen fun _ =>
      ((arguments h).zero).andThen fun _ => previous.andThen fun _ => .pure _

theorem primary {expression : Rule Expr} (h : Takes 0 expression) :
    Takes 1 (primary expression) := by
  unfold Grammar.primary
  refine here.andThen fun span => peek_bind fun s hs => ?_
  split
  · rename_i e hliteral
    refine advance_bind hs (fun heof => ?_) fun _ => .pure _
    rw [heof] at hliteral
    cases hliteral
  · split
    · rename_i hparen
      refine advance_bind hs (by rw [hparen]; exact nofun) fun _ => h.andThen fun inner => ?_
      exact (expect _ _).andThen fun _ => .pure _
    · split
      · exact creation h s hs
      · exact failHere _ s hs

theorem member {expression : Rule Expr} (h : Takes 0 expression) (object : Expr) :
    Takes 1 (member expression object) := by
  unfold Grammar.member
  refine descend.andThen fun _ => advance.andThen fun _ => here.andThen fun span => ?_
  refine identifier.first fun name => peek.andThen fun token => ?_
  split
  · exact advance.andThen fun _ => ((arguments h).zero).andThen fun _ =>
      previous.andThen fun _ => .pure _
  · exact .pure _

theorem postfixChain {expression : Rule Expr} (h : Takes 0 expression) :
    ∀ (fuel : Nat) (object : Expr), Takes 0 (postfixChain expression fuel object)
  | 0, _ => failHere _
  | fuel + 1, object => by
    rw [Grammar.postfixChain]
    refine peek.andThen fun token => ?_
    split
    · exact ((member h object).zero).andThen fun whole => postfixChain h fuel whole
    · refine descend.andThen fun _ => advance.andThen fun _ => ?_
      refine ((arguments h).zero).andThen fun args => ?_
      exact previous.andThen fun _ => postfixChain h fuel _
    · exact .pure _

theorem postfixExpr {expression : Rule Expr} (h : Takes 0 expression) :
    Takes 1 (postfixExpr expression) :=
  (primary h).first fun object => look.andThen fun s => (postfixChain h _ object).andThen
    fun whole => (restoreDepth s.depth).andThen fun _ => .pure whole

theorem expressionOver {operand : Rule Expr} (h : Takes 1 operand) :
    Takes 1 (expressionOver operand) :=
  (levels h).nested

theorem operand : ∀ fuel : Nat, Takes 1 (operand fuel)
  | 0 => failHere _
  | fuel + 1 => by
    rw [Grammar.operand]
    refine peek.andThen fun token => ?_
    split
    · exact here.andThen fun start => advance.andThen fun _ =>
        (operand fuel).nested.first fun _ => .pure _
    · exact postfixExpr ((expressionOver (operand fuel)).zero)

theorem expression : Takes 1 expression :=
  expressionOver (operand _)

/-! ## Statements -/

theorem statements {statement : Rule Stmt} (h : Takes 0 statement) :
    ∀ (fuel : Nat) (found : List Stmt), Takes 0 (statements statement fuel found)
  | 0, _ => .pure _
  | fuel + 1, found => by
    rw [Grammar.statements]
    refine peek.andThen fun token => ?_
    split
    · exact .pure _
    · exact h.andThen fun stmt => skipSemicolons.andThen fun _ => statements h fuel _

theorem block {statement : Rule Stmt} (h : Takes 0 statement) : Takes 0 (block statement) :=
  skipSemicolons.andThen fun _ => budget.andThen fun fuel => statements h fuel []

theorem braced {block : Rule (List Stmt)} (h : Takes 0 block) : Takes 1 (braced block) :=
  (expect_one _ (by nofun)).first fun _ => h.nested.andThen fun _ => here.andThen fun _ =>
    (expect _ _).andThen fun _ => .pure _

theorem conditional {block : Rule (List Stmt)} (h : Takes 0 block) :
    ∀ fuel : Nat, Takes 1 (conditional block fuel)
  | 0 => failHere _
  | fuel + 1 => by
    have hbraced := (braced h).zero
    rw [Grammar.conditional]
    refine here.andThen fun start => (expect_one _ fun h => by cases h).first fun _ => ?_
    refine (expression.zero).andThen fun condition => ?_
    refine hbraced.andThen fun body => peek.andThen fun token => ?_
    split
    · refine advance.andThen fun _ => peek.andThen fun token => ?_
      split
      · exact ((conditional h fuel).zero).nested.andThen fun _ => .pure _
      · exact hbraced.andThen fun _ => .pure _
    · exact .pure _

theorem variableDecl : Takes 1 variableDecl :=
  here.andThen fun _ => advance.andThen fun _ => identifier.first fun _ =>
    (expect _ _).andThen fun _ =>
      (expression.zero).andThen fun _ => terminator.andThen fun _ => .pure _

theorem loop {block : Rule (List Stmt)} (h : Takes 0 block) : Takes 1 (loop block) :=
  here.andThen fun _ => advance.andThen fun _ => expression.first fun _ =>
    ((braced h).zero).andThen fun _ => .pure _

/-- A `return` takes at least its own token. -/
theorem returning (hs : s.Capped) (htoken : s.token ≠ .eof) : TakesFrom 1 returning s := by
  have hnone : ∀ start : Span, Takes 0 (do Grammar.terminator; return Stmt.ret none start) :=
    fun start => terminator.andThen fun _ => .pure _
  unfold Grammar.returning
  refine (here s hs).bind (n := 1) fun start t hok => ?_
  cases hok
  refine advance_bind hs htoken fun _ => peek.andThen fun token => ?_
  split
  · exact hnone _
  · exact hnone _
  · exact hnone _
  · exact (expression.zero).andThen fun _ => terminator.andThen fun _ => .pure _

theorem expressionOrAssignment : Takes 1 expressionOrAssignment := by
  unfold Grammar.expressionOrAssignment
  refine expression.first fun target => peek.andThen fun token => ?_
  split
  · refine advance.andThen fun _ => ?_
    split
    · exact (expression.zero).andThen fun _ => terminator.andThen fun _ => .pure _
    · exact throw _
  · exact terminator.andThen fun _ => .pure _

theorem statementOver {block : Rule (List Stmt)} (h : Takes 0 block) :
    Takes 1 (statementOver block) := by
  unfold Grammar.statementOver
  refine peek_bind fun s hs => ?_
  split
  · exact variableDecl s hs
  · exact conditional h _ s hs
  · exact loop h s hs
  · rename_i htoken
    exact returning hs (by rw [htoken]; exact nofun)
  · exact (here.andThen fun _ => (braced h).first fun _ => .pure _) s hs
  · exact expressionOrAssignment s hs

theorem statementWithin : ∀ fuel : Nat, Takes 1 (statementWithin fuel)
  | 0 => failHere _
  | fuel + 1 => statementOver (block ((statementWithin fuel).zero))

theorem statement : Takes 1 statement :=
  statementWithin _

/-! ## Functions and classes -/

theorem parameters : ∀ (fuel : Nat) (found : List String), Takes 0 (parameters fuel found)
  | 0, _ => .pure _
  | fuel + 1, found => by
    rw [Grammar.parameters]
    refine peek.andThen fun token => ?_
    split
    · exact .pure _
    · refine (identifier.zero).andThen fun name => peek.andThen fun token => ?_
      split
      · exact advance.andThen fun _ => parameters fuel _
      · exact .pure _

theorem functionDecl : Takes 1 functionDecl :=
  here.andThen fun _ => (expect_one _ (by nofun)).first fun _ =>
    (identifier.zero).andThen fun _ => (expect _ _).andThen fun _ =>
      budget.andThen fun fuel => (parameters fuel []).andThen fun _ =>
        (expect _ _).andThen fun _ => (expect _ _).andThen fun _ =>
          (block (statement.zero)).nested.andThen fun _ => here.andThen fun _ =>
            (expect _ _).andThen fun _ => .pure _

theorem fieldDecl : Takes 1 fieldDecl := by
  have hclose : ∀ (name : String) (start : Span) (initial : Option Expr), Takes 0 (do
      let stop ← Grammar.here
      let _ ← Grammar.expect .semicolon "';' after field declaration"
      return ({ name, initial, span := start.merge stop } : FieldDecl)) :=
    fun name start initial => here.andThen fun _ =>
      (expect _ _).andThen fun _ => .pure _
  unfold Grammar.fieldDecl
  refine here.andThen fun start => advance.andThen fun _ => identifier.first fun name => ?_
  refine peek.andThen fun token => ?_
  split
  · exact advance.andThen fun _ => (expression.zero).andThen fun value =>
      (Takes.pure (some value)).andThen (hclose name start)
  · exact (Takes.pure none).andThen (hclose name start)

theorem members : ∀ (fuel : Nat) (fields : List FieldDecl) (methods : List FunctionDecl),
    Takes 0 (members fuel fields methods)
  | 0, _, _ => .pure _
  | fuel + 1, fields, methods => by
    rw [Grammar.members]
    refine peek.andThen fun token => ?_
    split
    · exact .pure _
    · exact .pure _
    · exact (fieldDecl.zero).andThen fun _ => skipSemicolons.andThen fun _ =>
        members fuel _ _
    · exact (functionDecl.zero).andThen fun _ => skipSemicolons.andThen fun _ =>
        members fuel _ _
    · exact failHere _

theorem classDecl : Takes 1 classDecl :=
  here.andThen fun _ => (expect_one _ (by nofun)).first fun _ =>
    (identifier.zero).andThen fun _ => (expect _ _).andThen fun _ =>
      skipSemicolons.andThen fun _ => budget.andThen fun fuel =>
        (members fuel [] []).andThen fun _ => here.andThen fun _ =>
          (expect _ _).andThen fun _ => .pure _

end Takes

end ScriptHost.Grammar
