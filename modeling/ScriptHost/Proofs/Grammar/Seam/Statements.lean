import ScriptHost.Grammar.Item
import ScriptHost.Proofs.Grammar.Seam.Expressions
/-!
# Statements and declarations read side by side

A statement leaves the readers side by side, but maybe with the first of them at the seam. A loop
over statements then ends there for the first reader only. It stands in braces, though, and no
closing brace is found at the end of a text: if the first reader goes on, there was none.
-/

set_option autoImplicit false

namespace ScriptHost.Grammar

variable {seam : Seam} {n : Nat}

/-- Statements that are the same but for places. -/
def SameStmt (stmt stmt' : Stmt) : Prop :=
  stmt.bare = stmt'.bare

/-- Lists of statements that are the same but for places. -/
def SameStmts (body body' : List Stmt) : Prop :=
  body.map Stmt.bare = body'.map Stmt.bare

theorem SameStmts.reverse {body body' : List Stmt} (h : SameStmts body body') :
    SameStmts body.reverse body'.reverse := by
  unfold SameStmts
  rw [List.map_reverse, List.map_reverse, h]

theorem isAssignable_bare (e : Expr) : e.bare.isAssignable = e.isAssignable := by
  cases e <;> rfl

theorem SameExpr.isAssignable_eq {e e' : Expr} (h : SameExpr e e') :
    e'.isAssignable = e.isAssignable := by
  rw [← isAssignable_bare e', ← h, isAssignable_bare]

/-- Both rules read the same statement off at least one lexeme. -/
def StatesAlike (seam : Seam) (rule rule' : Rule Stmt) : Prop :=
  ∀ n, Carries seam (Firm seam n) rule rule' (Gives SameStmt (Ahead seam (n - 1)))

/-- Both rules read the same statements up to a closing brace, or the first comes to the seam. -/
def BlocksAlike (seam : Seam) (rule rule' : Rule (List Stmt)) : Prop :=
  ∀ n, Nears seam (Firm seam n) rule rule' (Gives SameStmts (Firm seam n))

/-- What is read off more lexemes leaves fewer. -/
theorem Carries.less {α : Type} {m : Nat} {pre : State → State → Prop} {rule rule' : Rule α}
    {same : α → α → Prop} (h : Carries seam pre rule rule' (Gives same (Ahead seam m)))
    (hm : m ≤ n) : Carries seam pre rule rule' (Gives same (Ahead seam n)) :=
  h.imp fun _ _ _ _ hs => ⟨hs.1, hs.2.mono hm⟩

theorem Nears.fewer {α : Type} {m : Nat} {pre : State → State → Prop} {rule rule' : Rule α}
    {same : α → α → Prop} (h : Nears seam pre rule rule' (Gives same (Firm seam m)))
    (hm : m ≤ n) : Nears seam pre rule rule' (Gives same (Firm seam n)) :=
  h.imp fun _ _ _ _ hs => ⟨hs.1, hs.2.mono hm⟩

/-- Behind semicolons the readers are side by side, or the first is at the seam. -/
theorem Carries.skipSemicolons_firmOrOver :
    Carries seam (Ahead seam n) Grammar.skipSemicolons Grammar.skipSemicolons fun _ _ =>
      FirmOrOver seam n :=
  Carries.skipSemicolons.imp fun _ _ _ _ hs => hs.imp_right AtSeam.over

/-- No more statements are found at the end. -/
theorem statements_over {s : State} (h : Over seam s) (rule : Rule Stmt) (fuel : Nat)
    (found : List Stmt) : ∃ body, statements rule fuel found s = .ok body s := by
  refine ⟨found.reverse, ?_⟩
  cases fuel with
  | zero => rfl
  | succ fuel =>
    rw [statements, peek_bind, h.2]
    rfl

theorem statements_alike {rule rule' : Rule Stmt} (h : StatesAlike seam rule rule') :
    ∀ (fuel fuel' n : Nat) (found found' : List Stmt), Fueled seam n fuel fuel' →
      SameStmts found found' → Nears seam (FirmOrOver seam n) (statements rule fuel found)
        (statements rule' fuel' found') (Gives SameStmts (Firm seam n)) := by
  intro fuel fuel' n found found' hfuel hfound
  induction fuel generalizing fuel' n found found' with
  | zero => exact absurd hfuel.1 (Nat.not_lt_zero n)
  | succ fuel ih =>
    refine Nears.of_over ?_ fun s hs => statements_over hs rule (fuel + 1) found
    cases n with
    | zero => exact Carries.zero.nears
    | succ n =>
      obtain ⟨less, rfl, hless⟩ := hfuel.pred
      rw [statements, statements]
      refine .peek fun token => ?_
      split
      · exact Carries.nears (.pure fun _ _ hs => ⟨hfound.reverse, hs.toFirm⟩)
      · refine Nears.of_imp ?_ fun s s' (hs : At seam token (n + 1) s s') => hs.toFirm
        refine (h (n + 1)).bind_nears ?_
        rintro stmt stmt' s s' ⟨hstmt, hs⟩
        refine (Carries.skipSemicolons_firmOrOver.bind_nears fun _ _ => ?_) hs
        refine (ih less n _ _ hless ?_).fewer (Nat.le_succ n)
        unfold SameStmts
        rw [List.map_cons, List.map_cons, hstmt, hfound]

theorem block_alike {rule rule' : Rule Stmt} (h : StatesAlike seam rule rule') :
    BlocksAlike seam (block rule) (block rule') := by
  intro n
  unfold block
  refine Nears.of_imp ?_ fun s s' (hs : Firm seam n s s') => hs.toAhead
  refine Carries.skipSemicolons_firmOrOver.bind_nears fun _ _ =>
    Nears.of_over (.budget fun m fuel fuel' hm hfuel => ?_) fun s hs => statements_over hs rule _ []
  exact ((statements_alike h fuel fuel' m [] [] hfuel rfl).of_imp fun _ _ hs => .inl hs).fewer hm

theorem braced_alike {block block' : Rule (List Stmt)} (h : BlocksAlike seam block block') :
    Carries seam (Firm seam n) (braced block) (braced block') fun a a' t t' =>
      SameStmts a.1 a'.1 ∧ Ahead seam (n - 1) t t' := by
  unfold braced
  refine (Carries.expect_firm .lbrace _ Token.noConfusion rfl).step fun _ _ => ?_
  refine ((h (n - 1)).nested steady_firm fun _ _ => steady_firm.gives _ _).close
    (fun _ _ ht => expect_fails .rbrace Token.noConfusion _ _ ht)
    fun body body' s s' ⟨hbody, hs⟩ => ?_
  refine (Carries.here fun stop stop' => ?_) hs
  refine (Carries.expect .rbrace _ Token.noConfusion).step fun _ _ => ?_
  exact .pure fun _ _ hs => ⟨hbody, hs.mono (by omega)⟩

/-- Whether there is an `else` can be seen on either side of the seam. -/
theorem Carries.peekElse {α : Type} {post : α → α → State → State → Prop}
    {yes yes' no no' : Rule α} (hyes : Carries seam (At seam .kwElse n) yes yes' post)
    (hno : Carries seam (Ahead seam n) no no' post) :
    Carries seam (Ahead seam n) (do if (← Grammar.peek) = .kwElse then yes else no)
      (do if (← Grammar.peek) = .kwElse then yes' else no') post := by
  intro s s' hs
  change Follows seam post ((if s.token = .kwElse then yes else no) s)
    ((if s'.token = .kwElse then yes' else no') s')
  by_cases htoken : s.token = .kwElse
  · rw [if_pos htoken, if_pos (hs.token_eq_kwElse.mpr htoken)]
    exact hyes { hs.firm (by rw [htoken]; exact Token.noConfusion) with token := htoken }
  · rw [if_neg htoken, if_neg (mt hs.token_eq_kwElse.mp htoken)]
    exact hno hs

theorem conditional_alike {block block' : Rule (List Stmt)} (h : BlocksAlike seam block block') :
    ∀ fuel : Nat, StatesAlike seam (conditional block fuel) (conditional block' fuel) := by
  intro fuel
  induction fuel with
  | zero => exact fun _ => .failHere steady_firm
  | succ fuel ih =>
    intro n
    rw [conditional, conditional]
    refine .here fun start start' => ?_
    refine (Carries.expect_firm .kwIf _ Token.noConfusion rfl).step fun _ _ => ?_
    refine (expression_alike (n - 1)).andThen fun condition condition' hcondition => ?_
    refine (braced_alike h).bind ?_
    rintro ⟨body, stop⟩ ⟨body', stop'⟩ s s' ⟨hbody, hs⟩
    refine Carries.peekElse ?_ ?_ hs
    · refine (Carries.advance_firm .kwElse Token.noConfusion rfl).step fun _ _ =>
        .peek fun token => ?_
      split
      · refine Carries.of_imp ?_ fun s s' (hs : At seam token _ s s') => hs.toFirm
        refine ((ih _).nested steady_firm fun _ _ =>
          steady_ahead.gives _ _).andThen fun other other' hother => ?_
        refine .pure fun _ _ hs => ⟨?_, hs.mono (by omega)⟩
        unfold SameStmt
        simp only [Stmt.bare, Stmt.bareAll_eq, List.map_cons, List.map_nil]
        rw [hcondition, hbody, hother]
      · refine Carries.of_imp ?_ fun s s' (hs : At seam token _ s s') => hs.toFirm
        refine (braced_alike h).bind ?_
        rintro ⟨other, stop⟩ ⟨other', stop'⟩ s s' ⟨hother, hs⟩
        refine ⟨_, s', rfl, ?_, hs.mono (by omega)⟩
        unfold SameStmt
        simp only [Stmt.bare, Stmt.bareAll_eq]
        rw [hcondition, hbody, hother]
    · refine .pure fun _ _ hs => ⟨?_, hs.mono (by omega)⟩
      unfold SameStmt
      simp only [Stmt.bare, Stmt.bareAll_eq]
      rw [hcondition, hbody]

theorem variableDecl_alike :
    Carries seam (At seam .kwLet n) variableDecl variableDecl
      (Gives SameStmt (Ahead seam (n - 1))) := by
  unfold variableDecl
  refine .here fun start start' => ?_
  refine (Carries.advance_firm .kwLet Token.noConfusion rfl).step fun _ _ => ?_
  refine Carries.identifier.andThen fun name name' hname => ?_
  subst hname
  refine (Carries.expect_firm .eq _ Token.noConfusion rfl).step fun _ _ => ?_
  refine (expression_alike _).andThen fun value value' hvalue => ?_
  refine Carries.terminator.step fun _ _ => .pure fun _ _ hs => ⟨?_, hs.mono (by omega)⟩
  unfold SameStmt
  rw [Stmt.bare, Stmt.bare, hvalue]

theorem loop_alike {block block' : Rule (List Stmt)} (h : BlocksAlike seam block block') :
    Carries seam (At seam .kwWhile n) (loop block) (loop block')
      (Gives SameStmt (Ahead seam (n - 1))) := by
  unfold loop
  refine .here fun start start' => ?_
  refine (Carries.advance_firm .kwWhile Token.noConfusion rfl).step fun _ _ => ?_
  refine (expression_alike _).andThen fun condition condition' hcondition => ?_
  refine (braced_alike h).bind fun ⟨body, stop⟩ ⟨body', stop'⟩ s s' ⟨hbody, hs⟩ => ?_
  refine ⟨_, s', rfl, ?_, hs.mono (by omega)⟩
  unfold SameStmt
  rw [Stmt.bare, Stmt.bare, Stmt.bareAll_eq, Stmt.bareAll_eq, hcondition, hbody]

theorem returning_alike :
    Carries seam (At seam .kwReturn n) returning returning
      (Gives SameStmt (Ahead seam (n - 1))) := by
  unfold returning
  refine .here fun start start' => ?_
  refine (Carries.advance_firm .kwReturn Token.noConfusion rfl).step fun _ _ =>
    .peek fun token => ?_
  have hnone : Carries seam (At seam token (n - 1)) (do terminator; return Stmt.ret none start)
      (do terminator; return Stmt.ret none start') (Gives SameStmt (Ahead seam (n - 1))) :=
    Carries.of_imp (Carries.terminator.step fun _ _ => .pure fun _ _ hs => ⟨rfl, hs⟩)
      fun _ _ hs => hs.toFirm
  split
  · exact hnone
  · exact hnone
  · exact hnone
  · refine Carries.of_imp ?_ fun s s' (hs : At seam token _ s s') => hs.toFirm
    refine (expression_alike _).andThen fun value value' hvalue => ?_
    refine Carries.terminator.step fun _ _ => .pure fun _ _ hs => ⟨?_, hs.mono (by omega)⟩
    unfold SameStmt
    rw [Stmt.bare, Stmt.bare, Option.map_some, Option.map_some, hvalue]

theorem expressionOrAssignment_alike :
    StatesAlike seam expressionOrAssignment expressionOrAssignment := by
  intro n
  unfold expressionOrAssignment
  refine (expression_alike n).andThen fun target target' htarget => .peek fun token => ?_
  split
  · rename_i heq
    subst heq
    refine (Carries.advance_firm .eq Token.noConfusion rfl).step fun _ _ => ?_
    rw [htarget.isAssignable_eq]
    split
    · refine (expression_alike _).andThen fun value value' hvalue => ?_
      refine Carries.terminator.step fun _ _ => .pure fun _ _ hs => ⟨?_, hs.mono (by omega)⟩
      unfold SameStmt
      rw [Stmt.bare, Stmt.bare, htarget, hvalue]
    · exact .throw rfl steady_firm
  · refine Carries.of_imp ?_ fun s s' (hs : At seam token _ s s') => hs.toFirm
    refine Carries.terminator.step fun _ _ => .pure fun _ _ hs => ⟨?_, hs⟩
    unfold SameStmt
    rw [Stmt.bare, Stmt.bare, htarget]

theorem statementOver_alike {block block' : Rule (List Stmt)} (h : BlocksAlike seam block block') :
    StatesAlike seam (statementOver block) (statementOver block') := by
  intro n
  unfold statementOver
  refine .peek fun token => ?_
  split
  · exact variableDecl_alike
  · exact (conditional_alike h _ n).of_imp fun _ _ hs => hs.toFirm
  · exact loop_alike h
  · exact returning_alike
  · refine .here fun start start' => ?_
    refine Carries.of_imp ?_ fun s s' (hs : At seam .lbrace _ s s') => hs.toFirm
    refine (braced_alike h).bind fun ⟨body, stop⟩ ⟨body', stop'⟩ s s' ⟨hbody, hs⟩ => ?_
    refine ⟨_, s', rfl, ?_, hs⟩
    unfold SameStmt
    rw [Stmt.bare, Stmt.bare, Stmt.bareAll_eq, Stmt.bareAll_eq, hbody]
  · exact (expressionOrAssignment_alike n).of_imp fun _ _ hs => hs.toFirm

theorem statementWithin_alike : ∀ fuel : Nat,
    StatesAlike seam (statementWithin fuel) (statementWithin fuel)
  | 0, _ => .failHere steady_firm
  | fuel + 1, n => by
    rw [statementWithin]
    exact statementOver_alike (block_alike (statementWithin_alike fuel)) n

theorem statement_alike : StatesAlike seam statement statement :=
  statementWithin_alike _

/-! ## Functions and classes read side by side -/

/-- Functions that are the same but for places. -/
def SameFunction (f f' : FunctionDecl) : Prop :=
  f.bare = f'.bare

/-- Fields that are the same but for places. -/
def SameField (f f' : FieldDecl) : Prop :=
  f.bare = f'.bare

/-- Classes that are the same but for places. -/
def SameClass (c c' : ClassDecl) : Prop :=
  c.bare = c'.bare

/-- Fields and methods that are the same but for places. -/
def SameMembers (found found' : List FieldDecl × List FunctionDecl) : Prop :=
  found.1.map FieldDecl.bare = found'.1.map FieldDecl.bare ∧
    found.2.map FunctionDecl.bare = found'.2.map FunctionDecl.bare

theorem SameMembers.reverse {fields fields' : List FieldDecl} {methods methods' : List FunctionDecl}
    (h : SameMembers (fields, methods) (fields', methods')) :
    SameMembers (fields.reverse, methods.reverse) (fields'.reverse, methods'.reverse) := by
  obtain ⟨hfields, hmethods⟩ := h
  unfold SameMembers
  simp only [List.map_reverse] at *
  exact ⟨congrArg List.reverse hfields, congrArg List.reverse hmethods⟩

theorem parameters_alike : ∀ (fuel fuel' n : Nat) (found : List String), Fueled seam n fuel fuel' →
    Carries seam (Firm seam n) (parameters fuel found) (parameters fuel' found)
      (Gives Eq (Firm seam n))
  | _, _, 0, _, _ => .zero
  | 0, _, n + 1, _, hfuel => absurd hfuel.1 (Nat.not_lt_zero _)
  | fuel + 1, fuel', n + 1, found, hfuel => by
    obtain ⟨less, rfl, hless⟩ := hfuel.pred
    rw [parameters, parameters]
    refine .peek fun token => ?_
    split
    · exact .pure fun _ _ hs => ⟨rfl, hs.toFirm⟩
    · refine Carries.of_imp ?_ fun s s' (hs : At seam token _ s s') => hs.toFirm
      refine Carries.identifier.andThen fun name name' hname => ?_
      subst hname
      refine .peek fun token => ?_
      split
      · rename_i hcomma
        subst hcomma
        refine (Carries.advance_firm .comma Token.noConfusion rfl).step fun _ _ => ?_
        exact (parameters_alike fuel less (n - 1) _ (hless.mono (Nat.sub_le n 1))).fewer (by omega)
      · exact .pure fun _ _ hs => ⟨rfl, hs.toFirm.mono (Nat.le_succ n)⟩

theorem functionDecl_alike :
    Carries seam (Firm seam n) functionDecl functionDecl
      (Gives SameFunction (Ahead seam (n - 1))) := by
  unfold functionDecl
  refine .here fun start start' => ?_
  refine (Carries.expect_firm .kwFn _ Token.noConfusion rfl).step fun _ _ => ?_
  refine Carries.identifier.andThen fun name name' hname => ?_
  subst hname
  refine (Carries.expect_firm .lparen _ Token.noConfusion rfl).step fun _ _ => ?_
  refine .budget fun m fuel fuel' hm hfuel => ?_
  refine (parameters_alike fuel fuel' m [] hfuel).andThen fun params params' hparams => ?_
  subst hparams
  refine (Carries.expect_firm .rparen _ Token.noConfusion rfl).step fun _ _ => ?_
  refine (Carries.expect_firm .lbrace _ Token.noConfusion rfl).step fun _ _ => ?_
  refine ((block_alike statement_alike _).nested steady_firm fun _ _ =>
    steady_firm.gives _ _).close (fun _ _ ht => expect_fails .rbrace Token.noConfusion _ _ ht)
      fun body body' s s' ⟨hbody, hs⟩ => ?_
  refine (Carries.here fun stop stop' => ?_) hs
  refine (Carries.expect .rbrace _ Token.noConfusion).step fun _ _ => ?_
  refine .pure fun _ _ hs => ⟨?_, hs.mono (by omega)⟩
  unfold SameFunction FunctionDecl.bare
  rw [hbody]

theorem fieldDecl_alike :
    Carries seam (At seam .kwLet n) fieldDecl fieldDecl
      (Gives SameField (Ahead seam (n - 1))) := by
  have hclose (name : String) {initial initial' : Option Expr} (start start' : Span)
      (hinitial : initial.map Expr.bare = initial'.map Expr.bare) (m : Nat) :
      Carries seam (Firm seam m)
        (do
          let stop ← here
          let _ ← expect .semicolon "';' after field declaration"
          return FieldDecl.mk name initial (start.merge stop))
        (do
          let stop ← here
          let _ ← expect .semicolon "';' after field declaration"
          return FieldDecl.mk name initial' (start'.merge stop))
        (Gives SameField (Ahead seam (m - 1))) := by
    refine .here fun stop stop' => ?_
    refine (Carries.expect .semicolon _ Token.noConfusion).step fun _ _ =>
      .pure fun _ _ hs => ⟨?_, hs⟩
    unfold SameField FieldDecl.bare
    rw [hinitial]
  unfold fieldDecl
  refine .here fun start start' => ?_
  refine (Carries.advance_firm .kwLet Token.noConfusion rfl).step fun _ _ => ?_
  refine Carries.identifier.andThen fun name name' hname => ?_
  subst hname
  refine .peek fun token => ?_
  split
  · rename_i heq
    subst heq
    refine (Carries.advance_firm .eq Token.noConfusion rfl).step fun _ _ => ?_
    refine (expression_alike _).andThen fun value value' hvalue => ?_
    have hinitial : (some value).map Expr.bare = (some value').map Expr.bare :=
      congrArg some hvalue
    exact (hclose name start start' hinitial _).less (by omega)
  · refine Carries.of_imp ?_ fun s s' (hs : At seam token _ s s') => hs.toFirm
    exact (hclose name start start' rfl _).less (by omega)

/-- No more members are found at the end. -/
theorem members_over {s : State} (h : Over seam s) (fuel : Nat) (fields : List FieldDecl)
    (methods : List FunctionDecl) : ∃ found, members fuel fields methods s = .ok found s := by
  refine ⟨(fields.reverse, methods.reverse), ?_⟩
  cases fuel with
  | zero => rfl
  | succ fuel =>
    rw [members, peek_bind, h.2]
    rfl

theorem members_alike : ∀ (fuel fuel' n : Nat) (fields fields' : List FieldDecl)
    (methods methods' : List FunctionDecl), Fueled seam n fuel fuel' →
      SameMembers (fields, methods) (fields', methods') →
        Nears seam (FirmOrOver seam n) (members fuel fields methods) (members fuel' fields' methods')
          (Gives SameMembers (Firm seam n)) := by
  intro fuel fuel' n fields fields' methods methods' hfuel hfound
  induction fuel generalizing fuel' n fields fields' methods methods' with
  | zero => exact absurd hfuel.1 (Nat.not_lt_zero n)
  | succ fuel ih =>
    refine Nears.of_over ?_ fun s hs => members_over hs (fuel + 1) fields methods
    cases n with
    | zero => exact Carries.zero.nears
    | succ n =>
      obtain ⟨less, rfl, hless⟩ := hfuel.pred
      obtain ⟨hfields, hmethods⟩ := hfound
      dsimp only at hfields hmethods
      have hend (token : Token) : Nears seam (At seam token (n + 1))
          (pure (fields.reverse, methods.reverse)) (pure (fields'.reverse, methods'.reverse))
          (Gives SameMembers (Firm seam (n + 1))) :=
        Carries.nears (.pure fun _ _ hs => ⟨SameMembers.reverse ⟨hfields, hmethods⟩, hs.toFirm⟩)
      rw [members, members]
      refine .peek fun token => ?_
      split
      · exact hend _
      · exact hend _
      · refine fieldDecl_alike.bind_nears ?_
        rintro field field' s s' ⟨hfield, hs⟩
        refine (Carries.skipSemicolons_firmOrOver.bind_nears fun _ _ => ?_) hs
        refine (ih less n _ _ _ _ hless ⟨?_, hmethods⟩).fewer (Nat.le_succ n)
        dsimp only
        rw [List.map_cons, List.map_cons, hfield, hfields]
      · refine Nears.of_imp ?_ fun s s' (hs : At seam .kwFn _ s s') => hs.toFirm
        refine functionDecl_alike.bind_nears ?_
        rintro method method' s s' ⟨hmethod, hs⟩
        refine (Carries.skipSemicolons_firmOrOver.bind_nears fun _ _ => ?_) hs
        refine (ih less n _ _ _ _ hless ⟨hfields, ?_⟩).fewer (Nat.le_succ n)
        dsimp only
        rw [List.map_cons, List.map_cons, hmethod, hmethods]
      · exact Carries.nears (.failHere steady_at)

theorem classDecl_alike :
    Carries seam (Firm seam n) classDecl classDecl (Gives SameClass (Ahead seam (n - 1))) := by
  unfold classDecl
  refine .here fun start start' => ?_
  refine (Carries.expect_firm .kwClass _ Token.noConfusion rfl).step fun _ _ => ?_
  refine Carries.identifier.andThen fun name name' hname => ?_
  subst hname
  refine (Carries.expect_firm .lbrace _ Token.noConfusion rfl).step fun _ _ => ?_
  refine Carries.skipSemicolons_firmOrOver.of_imp (fun s s' (hs : Firm seam _ s s') => hs.toAhead)
    |>.step fun _ _ => ?_
  rw [← bind_assoc budget fun fuel => members fuel [] [],
    ← bind_assoc budget fun fuel => members fuel [] []]
  have hmembers : Nears seam (FirmOrOver seam (n - 1 - 1 - 1))
      (do members (← budget) [] []) (do members (← budget) [] [])
      (Gives SameMembers (Firm seam (n - 1 - 1 - 1))) := by
    refine Nears.of_over (.budget fun m fuel fuel' hm hfuel => ?_) fun s hs => ?_
    · exact ((members_alike fuel fuel' m [] [] [] [] hfuel ⟨rfl, rfl⟩).of_imp
        fun _ _ hs => .inl hs).fewer hm
    · exact members_over hs _ [] []
  refine hmembers.close (fun _ _ ht => expect_fails .rbrace Token.noConfusion _ _ ht)
    fun ⟨fields, methods⟩ ⟨fields', methods'⟩ s s' ⟨⟨hfields, hmethods⟩, hs⟩ => ?_
  refine (Carries.here fun stop stop' => ?_) hs
  refine (Carries.expect .rbrace _ Token.noConfusion).step fun _ _ => ?_
  refine .pure fun _ _ hs => ⟨?_, hs.mono (by omega)⟩
  unfold SameClass ClassDecl.bare
  rw [hfields, hmethods]

end ScriptHost.Grammar
