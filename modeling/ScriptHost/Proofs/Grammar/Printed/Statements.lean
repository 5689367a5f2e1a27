import ScriptHost.Proofs.Grammar.Printed.Expressions
/-!
# Statements are recovered from their tokens

A statement is read back wherever no `else` stands behind it, and a block in front of its closing
brace. An `if` behind an `else` needs no braces, so for each `if` it is also said what the rule for
conditionals makes of it.
-/

set_option autoImplicit false

namespace ScriptHost

theorem inBraces_append (tokens rest : List Token) :
    inBraces tokens ++ rest = .lbrace :: (tokens ++ .rbrace :: rest) := by
  rw [inBraces, List.cons_append, List.append_assoc]
  rfl

/-- Whether a statement can begin with the token. -/
def Token.beginsStmt : Token → Bool
  | .kwLet | .kwIf | .kwWhile | .kwReturn | .lbrace => true
  | token => token.beginsExpr

theorem Token.beginsStmt_of_beginsExpr {token : Token} (h : token.beginsExpr = true) :
    token.beginsStmt = true := by
  unfold Token.beginsStmt
  split <;> first | rfl | exact h

namespace Grammar

theorem beginsStmt_tokens (s : Stmt) (rest : List Token) :
    (nextOf (s.tokens ++ rest)).beginsStmt = true := by
  cases s with
  | assign target value span =>
    rw [Stmt.tokens, List.append_assoc]
    exact Token.beginsStmt_of_beginsExpr (beginsWell_tokens target _).1
  | expr value =>
    rw [Stmt.tokens, List.append_assoc]
    exact Token.beginsStmt_of_beginsExpr (beginsWell_tokens value _).1
  | ret value span => cases value <;> rfl
  | _ => rfl

theorem nextOf_stmt_ne {token : Token} (htoken : token.beginsStmt = false) (s : Stmt)
    (rest : List Token) : nextOf (s.tokens ++ rest) ≠ token := by
  rintro rfl
  rw [beginsStmt_tokens s rest] at htoken
  cases htoken

/-- In a block, a statement or the closing brace stands behind each statement. -/
theorem nextOf_stmts_ne {token : Token} (htoken : token = .kwElse ∨ token = .semicolon)
    (body : List Stmt) (rest : List Token) :
    nextOf (Stmt.tokensAll body ++ .rbrace :: rest) ≠ token := by
  cases body with
  | nil => obtain rfl | rfl := htoken <;> nofun
  | cons s body =>
    rw [Stmt.tokensAll, List.append_assoc]
    obtain rfl | rfl := htoken <;> exact nextOf_stmt_ne rfl s _

theorem length_le_tokensAll (body : List Stmt) (rest : List Token) :
    body.length ≤ (Stmt.tokensAll body ++ rest).length := by
  induction body with
  | nil => exact Nat.zero_le _
  | cons s body ih =>
    have hsome : s.tokens ≠ [] := fun hnil => by
      have hbegin := beginsStmt_tokens s []
      rw [hnil] at hbegin
      cases hbegin
    have hlength := List.length_pos_iff.mpr hsome
    rw [Stmt.tokensAll, List.append_assoc, List.length_append, List.length_cons]
    omega

/-- A statement is read back where no `else` stands behind it, and an `if` also as what stands behind
an `else`. -/
structure StmtRecovered (s : Stmt) : Prop where
  whole : ∀ (fuel : Nat) (rest : List Token), nextOf rest ≠ .kwElse →
    Spells (·.bare = s.bare) (statementWithin fuel) (s.tokens ++ rest) rest
  asElseIf : s.isIf = true → ∀ (fuel count : Nat) (rest : List Token), nextOf rest ≠ .kwElse →
    Spells (·.bare = s.bare) (conditional (block (statementWithin fuel)) count) (s.tokens ++ rest)
      rest

section Blocks

variable {body : List Stmt} {fuel : Nat} {rest : List Token}

theorem spells_statements :
    ∀ (body found : List Stmt) (count : Nat), body.length < count →
      (∀ s ∈ body, StmtRecovered s) →
      Spells (·.map Stmt.bare = (found.reverse ++ body).map Stmt.bare)
        (statements (statementWithin fuel) count found) (Stmt.tokensAll body ++ .rbrace :: rest)
        (.rbrace :: rest)
  | _, _, 0, hcount, _ => absurd hcount (Nat.not_lt_zero _)
  | [], found, count + 1, _, _ => by
    refine Spells.peek.bind fun token htoken => ?_
    subst htoken
    exact .pure (by rw [List.append_nil])
  | s :: body, found, count + 1, hcount, hbody => by
    obtain ⟨hone, hbody⟩ := List.forall_mem_cons.mp hbody
    rw [Stmt.tokensAll, List.append_assoc]
    refine Spells.peek.bind fun token htoken => ?_
    have hgoes : closes .rbrace token = false := by
      rw [closes, htoken, Bool.or_eq_false_iff]
      exact ⟨beq_false_of_ne (nextOf_stmt_ne rfl s _), beq_false_of_ne (nextOf_stmt_ne rfl s _)⟩
    rw [if_neg (by rw [hgoes]; nofun)]
    refine (hone.whole fuel _ (nextOf_stmts_ne (.inl rfl) body rest)).bind fun stmt hstmt => ?_
    refine (Spells.skipSemicolons (nextOf_stmts_ne (.inr rfl) body rest)).bind fun _ _ => ?_
    refine (spells_statements body (stmt :: found) count (Nat.lt_of_succ_lt_succ hcount)
      hbody).mono fun all hall => ?_
    rw [hall]
    simp [hstmt]

/-- The inside of a block is read back in front of the brace that closes it. -/
theorem spells_block (hbody : ∀ s ∈ body, StmtRecovered s) :
    Spells (Stmt.bareAll · = Stmt.bareAll body) (block (statementWithin fuel))
      (Stmt.tokensAll body ++ .rbrace :: rest) (.rbrace :: rest) := by
  simp only [Stmt.bareAll_eq]
  refine (Spells.skipSemicolons (nextOf_stmts_ne (.inr rfl) body rest)).bind fun _ _ => ?_
  refine Spells.budget.bind fun count hcount => ?_
  exact spells_statements body [] count (Nat.lt_of_le_of_lt (length_le_tokensAll body _) hcount) hbody

theorem spells_braced (hbody : ∀ s ∈ body, StmtRecovered s) :
    Spells (Stmt.bareAll ·.1 = Stmt.bareAll body) (braced (block (statementWithin fuel)))
      (inBraces (Stmt.tokensAll body) ++ rest) rest := by
  rw [inBraces_append]
  refine Spells.expect.bind fun _ _ => (spells_block hbody).nested.bind fun found hfound => ?_
  exact Spells.here.bind fun _ _ => Spells.expect.bind fun _ _ => .pure hfound

end Blocks

/-- A statement that is no `if` is read back if it is by the rule for one level. -/
theorem StmtRecovered.of_over {s : Stmt} (hif : s.isIf = false)
    (h : ∀ fuel rest, Spells (·.bare = s.bare) (statementOver (block (statementWithin fuel)))
      (s.tokens ++ rest) rest) : StmtRecovered s := by
  refine ⟨fun fuel rest _ => ?_, fun htrue => by rw [hif] at htrue; cases htrue⟩
  cases fuel with
  | zero => exact .tooDeep
  | succ fuel => exact h fuel rest

/-- An `if` is read back if the rule for conditionals reads it back. -/
theorem StmtRecovered.of_conditional {s : Stmt} {tokens : List Token}
    (htokens : s.tokens = .kwIf :: tokens)
    (h : ∀ fuel count rest, nextOf rest ≠ .kwElse → Spells (·.bare = s.bare)
      (conditional (block (statementWithin fuel)) count) (s.tokens ++ rest) rest) :
    StmtRecovered s := by
  refine ⟨fun fuel rest hrest => ?_, fun _ => h⟩
  cases fuel with
  | zero => exact .tooDeep
  | succ fuel =>
    refine Spells.peek.bind fun token htoken => ?_
    rw [htokens, List.cons_append, nextOf_cons] at htoken
    subst htoken
    exact h fuel _ rest hrest

section Statements

variable {float : Float → List Char} {condition value : Expr} {body : List Stmt} {span : Span}

theorem StmtRecovered.of_letVar {name : String} (hvalue : value.Printable float) :
    StmtRecovered (.letVar name value span) := by
  refine .of_over rfl fun fuel rest => ?_
  rw [Stmt.tokens, List.cons_append, List.cons_append, List.cons_append, List.append_assoc]
  refine Spells.peek.bind fun token htoken => ?_
  subst htoken
  refine Spells.here.bind fun _ _ => Spells.advance.bind fun _ _ => Spells.identifier.bind ?_
  rintro _ rfl
  refine Spells.expect.bind fun _ _ => (spells_expression hvalue .semicolon (by simp) rest).bind ?_
  intro found hfound
  refine Spells.terminator.bind fun _ _ => .pure ?_
  rw [Stmt.bare, Stmt.bare, hfound]

theorem StmtRecovered.of_loop (hcondition : condition.Printable float)
    (hbody : ∀ s ∈ body, StmtRecovered s) : StmtRecovered (.loop condition body span) := by
  refine .of_over rfl fun fuel rest => ?_
  rw [Stmt.tokens, List.cons_append, List.append_assoc]
  refine Spells.peek.bind fun token htoken => ?_
  subst htoken
  refine Spells.here.bind fun _ _ => Spells.advance.bind fun _ _ => ?_
  have hexpression := spells_expression hcondition .lbrace (by simp)
    (Stmt.tokensAll body ++ .rbrace :: rest)
  rw [← inBraces_append] at hexpression
  refine hexpression.bind fun found hfound => (spells_braced hbody).bind ?_
  rintro ⟨inner, stop⟩ hinner
  exact .pure (by rw [Stmt.bare, Stmt.bare, hfound]; exact congrArg (Stmt.loop _ · _) hinner)

theorem StmtRecovered.of_block (hbody : ∀ s ∈ body, StmtRecovered s) :
    StmtRecovered (.block body span) := by
  refine .of_over rfl fun fuel rest => ?_
  refine Spells.peek.bind fun token htoken => ?_
  rw [Stmt.tokens, inBraces_append, nextOf_cons] at htoken
  subst htoken
  refine Spells.here.bind fun _ _ => (spells_braced hbody).bind ?_
  rintro ⟨inner, stop⟩ hinner
  exact .pure (by rw [Stmt.bare, Stmt.bare]; exact congrArg (Stmt.block · _) hinner)

/-- A statement that begins like an expression is one, or an assignment. -/
theorem StmtRecovered.of_expression {s : Stmt} (hif : s.isIf = false)
    (hbegin : ∀ rest, (nextOf (s.tokens ++ rest)).beginsExpr = true)
    (h : ∀ rest, Spells (·.bare = s.bare) expressionOrAssignment (s.tokens ++ rest) rest) :
    StmtRecovered s := by
  refine .of_over hif fun fuel rest => Spells.peek.bind fun token htoken => ?_
  have hexpr := hbegin rest
  rw [← htoken] at hexpr
  split
  case h_6 => exact h rest
  all_goals cases hexpr

theorem StmtRecovered.of_expr (hvalue : value.Printable float) : StmtRecovered (.expr value) := by
  have htokens (rest : List Token) :
      (Stmt.expr value).tokens ++ rest = value.tokens ++ .semicolon :: rest := by
    rw [Stmt.tokens, List.append_assoc]
    rfl
  refine .of_expression rfl (fun rest => ?_) fun rest => ?_
  · rw [htokens]
    exact (beginsWell_tokens value _).1
  · rw [htokens]
    refine (spells_expression hvalue .semicolon (by simp) rest).bind fun found hfound => ?_
    refine Spells.peek.bind fun token htoken => ?_
    subst htoken
    exact Spells.terminator.bind fun _ _ => .pure (by rw [Stmt.bare, Stmt.bare, hfound])

/-- Without its places, a target is still one that can be assigned to. -/
theorem isAssignable_of_bare {target found : Expr} (h : found.bare = target.bare)
    (htarget : target.isAssignable = true) : found.isAssignable = true := by
  have hbare (e : Expr) : e.bare.isAssignable = e.isAssignable := by cases e <;> rfl
  rw [← hbare, h, hbare, htarget]

theorem StmtRecovered.of_assign {target : Expr} (hassignable : target.isAssignable = true)
    (htarget : target.Printable float) (hvalue : value.Printable float) :
    StmtRecovered (.assign target value span) := by
  have htokens (rest : List Token) : (Stmt.assign target value span).tokens ++ rest =
      target.tokens ++ .eq :: (value.tokens ++ .semicolon :: rest) := by
    rw [Stmt.tokens, List.append_assoc, List.cons_append, List.append_assoc]
    rfl
  refine .of_expression rfl (fun rest => ?_) fun rest => ?_
  · rw [htokens]
    exact (beginsWell_tokens target _).1
  · rw [htokens]
    refine (spells_expression htarget .eq (by simp) _).bind fun found hfound => ?_
    refine Spells.peek.bind fun token htoken => ?_
    subst htoken
    refine Spells.advance.bind fun _ _ => ?_
    rw [if_pos (isAssignable_of_bare hfound hassignable)]
    refine (spells_expression hvalue .semicolon (by simp) rest).bind fun found' hfound' => ?_
    refine Spells.terminator.bind fun _ _ => .pure ?_
    rw [Stmt.bare, Stmt.bare, hfound, hfound']

theorem StmtRecovered.of_ret {value : Option Expr} (hvalue : ∀ e ∈ value, e.Printable float) :
    StmtRecovered (.ret value span) := by
  refine .of_over rfl fun fuel rest => ?_
  cases value with
  | none =>
    refine Spells.peek.bind fun token htoken => ?_
    subst htoken
    refine Spells.here.bind fun _ _ => Spells.advance.bind fun _ _ => ?_
    refine Spells.peek.bind fun token htoken => ?_
    subst htoken
    exact Spells.terminator.bind fun _ _ => .pure rfl
  | some e =>
    rw [Stmt.tokens, List.cons_append, List.append_assoc]
    refine Spells.peek.bind fun token htoken => ?_
    subst htoken
    refine Spells.here.bind fun _ _ => Spells.advance.bind fun _ _ => ?_
    refine Spells.peek.bind fun token htoken => ?_
    have hbegin := (beginsWell_tokens e ([.semicolon] ++ rest)).1
    rw [← htoken] at hbegin
    split
    case h_4 =>
      refine (spells_expression (hvalue e rfl) .semicolon (by simp) rest).bind fun found hfound => ?_
      refine Spells.terminator.bind fun _ _ => .pure ?_
      rw [Stmt.bare, Stmt.bare, Option.map_some, Option.map_some, hfound]
    all_goals cases hbegin

/-- An `if` as far as the brace that closes its first block. -/
theorem spells_conditional {goal : Stmt → Prop} {tokens rest : List Token} {fuel count : Nat}
    (hcondition : condition.Printable float) (hbody : ∀ s ∈ body, StmtRecovered s)
    (hmore : ∀ (start : Span) (found : Expr) (inner : List Stmt) (stop : Span), found.bare = condition.bare →
      Stmt.bareAll inner = Stmt.bareAll body → ∀ count, Spells goal (do
        if (← peek) = .kwElse then
          advance
          if (← peek) = .kwIf then
            let other ← nested (conditional (block (statementWithin fuel)) count)
            return .ifElse found inner [other] (start.merge other.span)
          else
            let (other, stop) ← braced (block (statementWithin fuel))
            return .ifElse found inner other (start.merge stop)
        else return .ifThen found inner (start.merge stop)) tokens rest) :
    Spells goal (conditional (block (statementWithin fuel)) count)
      (.kwIf :: (condition.tokens ++ (inBraces (Stmt.tokensAll body) ++ tokens))) rest := by
  cases count with
  | zero => exact .tooDeep
  | succ count =>
    refine Spells.here.bind fun start _ => Spells.expect.bind fun _ _ => ?_
    have hexpression := spells_expression hcondition .lbrace (by simp)
      (Stmt.tokensAll body ++ .rbrace :: tokens)
    rw [← inBraces_append] at hexpression
    refine hexpression.bind fun found hfound => (spells_braced hbody).bind ?_
    rintro ⟨inner, stop⟩ hinner
    exact hmore start found inner stop hfound hinner count

theorem StmtRecovered.of_ifThen (hcondition : condition.Printable float)
    (hbody : ∀ s ∈ body, StmtRecovered s) : StmtRecovered (.ifThen condition body span) := by
  refine .of_conditional (by rw [Stmt.tokens]) fun fuel count rest hrest => ?_
  rw [Stmt.tokens, List.cons_append, List.append_assoc]
  refine spells_conditional hcondition hbody fun start found inner stop hfound hinner count => ?_
  refine Spells.peek.bind fun token htoken => ?_
  rw [if_neg (htoken ▸ hrest)]
  exact .pure (by rw [Stmt.bare, Stmt.bare, hfound, hinner])

theorem StmtRecovered.of_ifElse {alternative : List Stmt} (hcondition : condition.Printable float)
    (hbody : ∀ s ∈ body, StmtRecovered s) (halternative : ∀ s ∈ alternative, StmtRecovered s) :
    StmtRecovered (.ifElse condition body alternative span) := by
  refine .of_conditional (by rw [Stmt.tokens]) fun fuel count rest hrest => ?_
  rw [Stmt.tokens, List.cons_append, List.append_assoc, List.append_assoc]
  refine spells_conditional hcondition hbody fun start found inner stop hfound hinner count => ?_
  rw [List.cons_append]
  refine Spells.peek.bind fun token htoken => ?_
  subst htoken
  refine Spells.advance.bind fun _ _ => Spells.peek.bind fun token htoken => ?_
  cases helse : Stmt.isElseIf alternative with
  | true =>
    obtain ⟨other, rfl, hif⟩ : ∃ other, alternative = [other] ∧ other.isIf = true := by
      unfold Stmt.isElseIf at helse
      split at helse
      · exact ⟨_, rfl, helse⟩
      · cases helse
    have hbegin : ∃ tokens, other.tokens = .kwIf :: tokens := by
      cases other <;> first | exact ⟨_, by rw [Stmt.tokens]⟩ | cases hif
    obtain ⟨tokens, htokens⟩ := hbegin
    have halone : Stmt.tokensAll [other] = other.tokens := List.append_nil _
    have hkeyword : token = .kwIf := by
      rw [htoken, helse, if_pos rfl, halone, htokens]
      rfl
    rw [if_pos rfl, if_pos hkeyword, halone]
    have hread := (halternative other List.mem_cons_self).asElseIf hif fuel count rest hrest
    refine hread.nested.bind fun other' hother => .pure ?_
    rw [Stmt.bare, Stmt.bare, hfound, hinner]
    exact congrArg (Stmt.ifElse _ _ [·] _) hother
  | false =>
    have hbrace : token = .lbrace := by
      rw [htoken, helse]
      rfl
    have hkeyword : token ≠ .kwIf := by
      rw [hbrace]
      nofun
    rw [if_neg hkeyword, if_neg Bool.false_ne_true]
    refine (spells_braced halternative).bind ?_
    rintro ⟨other, last⟩ hother
    refine .pure ?_
    rw [Stmt.bare, Stmt.bare, hfound, hinner]
    exact congrArg (Stmt.ifElse _ _ · _) hother

mutual

/-- Every statement that can be written is read back. -/
theorem stmtRecovered : ∀ s : Stmt, s.Printable float → StmtRecovered s
  | .letVar _ _ _, h => .of_letVar h.2
  | .assign _ _ _, h => .of_assign h.1 h.2.1 h.2.2
  | .ifThen _ body _, h => .of_ifThen h.1 (stmtsRecovered body h.2)
  | .ifElse _ body alternative _, h =>
    .of_ifElse h.1 (stmtsRecovered body h.2.1) (stmtsRecovered alternative h.2.2)
  | .loop _ body _, h => .of_loop h.1 (stmtsRecovered body h.2)
  | .ret _ _, h => .of_ret h
  | .block body _, h => .of_block (stmtsRecovered body h)
  | .expr _, h => .of_expr h

theorem stmtsRecovered :
    ∀ body : List Stmt, Stmt.AllPrintable float body → ∀ s ∈ body, StmtRecovered s
  | [], _ => nofun
  | s :: rest, h => List.forall_mem_cons.mpr ⟨stmtRecovered s h.1, stmtsRecovered rest h.2⟩

end

end Statements

end Grammar

end ScriptHost
