import ScriptHost.Proofs.Grammar.Level
/-!
# The expressions in a source text

The rules of statements and items do not look into the expressions that they read. So whatever
holds of every expression, at whichever level it is read, holds of all expressions in a source text
that is accepted: `parse_reads`.
-/

set_option autoImplicit false

namespace ScriptHost

mutual

/-- The expressions that stand in a statement and in its blocks, each of them whole. -/
def Stmt.expressions : Stmt → List Expr
  | .letVar _ value _ | .expr value => [value]
  | .assign target value _ => [target, value]
  | .ifThen condition body _ | .loop condition body _ => condition :: Stmt.expressionsAll body
  | .ifElse condition body alternative _ =>
    condition :: Stmt.expressionsAll body ++ Stmt.expressionsAll alternative
  | .ret value _ => value.toList
  | .block body _ => Stmt.expressionsAll body

/-- The expressions of some statements. -/
def Stmt.expressionsAll : List Stmt → List Expr
  | [] => []
  | s :: rest => s.expressions ++ Stmt.expressionsAll rest

end

/-- The expressions in the body of a function. -/
def FunctionDecl.expressions (f : FunctionDecl) : List Expr :=
  Stmt.expressionsAll f.body

/-- The expressions in a class: what its fields start with, and those of its methods. -/
def ClassDecl.expressions (c : ClassDecl) : List Expr :=
  c.fields.filterMap (·.initial) ++ c.methods.flatMap (·.expressions)

mutual

/-- The expressions in an item. -/
def Item.expressions : Item → List Expr
  | .space _ items _ => Item.expressionsAll items
  | .classDecl c => c.expressions
  | .function f => f.expressions
  | .stmt s => s.expressions

/-- The expressions in some items. -/
def Item.expressionsAll : List Item → List Expr
  | [] => []
  | item :: rest => item.expressions ++ Item.expressionsAll rest

end

theorem Stmt.expressionsAll_eq (body : List Stmt) :
    Stmt.expressionsAll body = body.flatMap Stmt.expressions := by
  induction body with
  | nil => rfl
  | cons s rest ih => rw [Stmt.expressionsAll, ih, List.flatMap_cons]

theorem Item.expressionsAll_eq (items : List Item) :
    Item.expressionsAll items = items.flatMap Item.expressions := by
  induction items with
  | nil => rfl
  | cons item rest ih => rw [Item.expressionsAll, ih, List.flatMap_cons]

namespace Grammar

variable {right : Expr → Prop} {depth : Nat}

/-- A rule for statements reads expressions that are right. -/
def ReadsStmt (right : Expr → Prop) (rule : Rule Stmt) : Prop :=
  ∀ depth, Keeps rule depth fun stmt => ∀ e ∈ stmt.expressions, right e

/-- A rule for blocks reads expressions that are right. -/
def ReadsBlock (right : Expr → Prop) (rule : Rule (List Stmt)) : Prop :=
  ∀ depth, Keeps rule depth fun body => ∀ e ∈ Stmt.expressionsAll body, right e

theorem statements_reads {statement : Rule Stmt} (hstatement : ReadsStmt right statement) :
    ∀ (fuel : Nat) (found : List Stmt), (∀ e ∈ Stmt.expressionsAll found.reverse, right e) →
      Keeps (statements statement fuel found) depth fun body =>
        ∀ e ∈ Stmt.expressionsAll body, right e
  | 0, _, hfound => .pure hfound
  | fuel + 1, found, hfound => by
    rw [statements]
    refine keeps_peek.bind fun token _ => ?_
    split
    · exact .pure ⟨rfl, hfound⟩
    · refine (hstatement depth).bind fun stmt hstmt => keeps_skipSemicolons.bind fun _ _ => ?_
      refine statements_reads hstatement fuel (stmt :: found) fun e he => ?_
      rw [Stmt.expressionsAll_eq, List.reverse_cons, List.flatMap_append, List.mem_append,
        ← Stmt.expressionsAll_eq, List.flatMap_singleton] at he
      exact he.elim (hfound e) (hstmt e)

theorem block_reads {statement : Rule Stmt} (hstatement : ReadsStmt right statement) :
    ReadsBlock right (block statement) := by
  intro depth
  unfold block
  refine keeps_skipSemicolons.bind fun _ _ => keeps_budget.bind fun fuel _ => ?_
  exact statements_reads hstatement fuel [] nofun

theorem braced_reads {body : Rule (List Stmt)} (hbody : ReadsBlock right body) :
    Keeps (braced body) depth fun found => ∀ e ∈ Stmt.expressionsAll found.1, right e := by
  unfold braced
  refine keeps_expect.bind fun _ _ => ?_
  refine (keeps_nested fun _ => hbody (depth + 1)).bind fun stmts hstmts => ?_
  exact keeps_here.bind fun _ _ => keeps_expect.bind fun _ _ => .pure ⟨rfl, hstmts⟩

variable (hexpression : ∀ depth, Keeps expression depth right)

include hexpression

theorem conditional_reads {body : Rule (List Stmt)} (hbody : ReadsBlock right body) :
    ∀ fuel : Nat, ReadsStmt right (conditional body fuel)
  | 0 => fun _ => .failHere
  | fuel + 1 => by
    intro depth
    rw [conditional]
    refine keeps_here.bind fun start _ => keeps_expect.bind fun _ _ => ?_
    refine (hexpression depth).bind fun condition hcondition => ?_
    refine (braced_reads hbody).bind fun found hfound => keeps_peek.bind fun token _ => ?_
    split
    · refine keeps_advance.bind fun _ _ => keeps_peek.bind fun token _ => ?_
      split
      · refine (keeps_nested fun _ => conditional_reads hbody fuel (depth + 1)).bind
          fun other hother => .pure ⟨rfl, ?_⟩
        intro e he
        rw [Stmt.expressions, Stmt.expressionsAll, Stmt.expressionsAll, List.append_nil,
          List.mem_append, List.mem_cons] at he
        obtain (rfl | he) | he := he
        · exact hcondition
        · exact hfound e he
        · exact hother e he
      · refine (braced_reads hbody).bind fun other hother => .pure ⟨rfl, ?_⟩
        intro e he
        rw [Stmt.expressions, List.mem_append, List.mem_cons] at he
        obtain (rfl | he) | he := he
        · exact hcondition
        · exact hfound e he
        · exact hother e he
    · exact .pure ⟨rfl, List.forall_mem_cons.mpr ⟨hcondition, hfound⟩⟩

theorem variableDecl_reads : ReadsStmt right variableDecl := by
  intro depth
  unfold variableDecl
  refine keeps_here.bind fun _ _ => keeps_advance.bind fun _ _ => ?_
  refine keeps_identifier.bind fun _ _ => keeps_expect.bind fun _ _ => ?_
  refine (hexpression depth).bind fun value hvalue => keeps_terminator.bind fun _ _ => ?_
  exact .pure ⟨rfl, List.forall_mem_singleton.mpr hvalue⟩

theorem loop_reads {body : Rule (List Stmt)} (hbody : ReadsBlock right body) :
    ReadsStmt right (loop body) := by
  intro depth
  unfold loop
  refine keeps_here.bind fun _ _ => keeps_advance.bind fun _ _ => ?_
  refine (hexpression depth).bind fun condition hcondition => ?_
  refine (braced_reads hbody).bind fun found hfound => ?_
  exact .pure ⟨rfl, List.forall_mem_cons.mpr ⟨hcondition, hfound⟩⟩

theorem returning_reads : ReadsStmt right returning := by
  intro depth
  have hnone : ∀ start, Keeps (do terminator; return Stmt.ret none start) depth fun stmt =>
      ∀ e ∈ stmt.expressions, right e :=
    fun start => keeps_terminator.bind fun _ _ => .pure ⟨rfl, nofun⟩
  unfold returning
  refine keeps_here.bind fun start _ => keeps_advance.bind fun _ _ => ?_
  refine keeps_peek.bind fun token _ => ?_
  split
  · exact hnone start
  · exact hnone start
  · exact hnone start
  · refine (hexpression depth).bind fun value hvalue => keeps_terminator.bind fun _ _ => ?_
    exact .pure ⟨rfl, List.forall_mem_singleton.mpr hvalue⟩

theorem expressionOrAssignment_reads : ReadsStmt right expressionOrAssignment := by
  intro depth
  unfold expressionOrAssignment
  refine (hexpression depth).bind fun target htarget => keeps_peek.bind fun token _ => ?_
  split
  · refine keeps_advance.bind fun _ _ => ?_
    split
    · refine (hexpression depth).bind fun value hvalue => keeps_terminator.bind fun _ _ => ?_
      exact .pure ⟨rfl, List.forall_mem_cons.mpr ⟨htarget, List.forall_mem_singleton.mpr hvalue⟩⟩
    · exact .throw
  · exact keeps_terminator.bind fun _ _ => .pure ⟨rfl, List.forall_mem_singleton.mpr htarget⟩

theorem statementOver_reads {body : Rule (List Stmt)} (hbody : ReadsBlock right body) :
    ReadsStmt right (statementOver body) := by
  intro depth
  unfold statementOver
  refine keeps_peek.bind fun token _ => ?_
  split
  · exact variableDecl_reads hexpression depth
  · exact conditional_reads hexpression hbody _ depth
  · exact loop_reads hexpression hbody depth
  · exact returning_reads hexpression depth
  · refine keeps_here.bind fun start _ => (braced_reads hbody).bind fun found hfound => ?_
    exact .pure ⟨rfl, hfound⟩
  · exact expressionOrAssignment_reads hexpression depth

theorem statementWithin_reads : ∀ fuel : Nat, ReadsStmt right (statementWithin fuel)
  | 0 => fun _ => .failHere
  | fuel + 1 => statementOver_reads hexpression (block_reads (statementWithin_reads fuel))

theorem statement_reads : ReadsStmt right statement :=
  statementWithin_reads hexpression _

omit hexpression in
theorem keeps_parameters : ∀ (fuel : Nat) (found : List String),
    Keeps (parameters fuel found) depth fun _ => True
  | 0, _ => .pure trivial
  | fuel + 1, found => by
    rw [parameters]
    refine keeps_peek.bind fun _ _ => ?_
    split
    · exact .pure ⟨rfl, trivial⟩
    · refine keeps_identifier.bind fun _ _ => keeps_peek.bind fun _ _ => ?_
      split
      · exact keeps_advance.bind fun _ _ => keeps_parameters fuel _
      · exact .pure ⟨rfl, trivial⟩

theorem functionDecl_reads :
    Keeps functionDecl depth fun f => ∀ e ∈ f.expressions, right e := by
  unfold functionDecl
  refine keeps_here.bind fun _ _ => keeps_expect.bind fun _ _ => ?_
  refine keeps_identifier.bind fun _ _ => keeps_expect.bind fun _ _ => ?_
  refine keeps_budget.bind fun fuel _ => (keeps_parameters fuel []).bind fun params _ => ?_
  refine keeps_expect.bind fun _ _ => keeps_expect.bind fun _ _ => ?_
  have hbody := block_reads (statement_reads hexpression) (depth + 1)
  refine (keeps_nested fun _ => hbody).bind fun body hbody => ?_
  exact keeps_here.bind fun _ _ => keeps_expect.bind fun _ _ => .pure ⟨rfl, hbody⟩

theorem fieldDecl_reads :
    Keeps fieldDecl depth fun f => ∀ e ∈ f.initial, right e := by
  have hclose : ∀ (name : String) (start : Span) (initial : Option Expr),
      (∀ e ∈ initial, right e) → Keeps (do
        let stop ← here
        let _ ← expect .semicolon "';' after field declaration"
        return ({ name, initial, span := start.merge stop } : FieldDecl)) depth fun f =>
          ∀ e ∈ f.initial, right e := fun name start initial hinitial =>
    keeps_here.bind fun _ _ => keeps_expect.bind fun _ _ => .pure ⟨rfl, hinitial⟩
  unfold fieldDecl
  refine keeps_here.bind fun start _ => keeps_advance.bind fun _ _ => ?_
  refine keeps_identifier.bind fun name _ => keeps_peek.bind fun token _ => ?_
  split
  · refine keeps_advance.bind fun _ _ => (hexpression depth).bind fun value hvalue => ?_
    exact Keeps.bind (.pure fun e he => Option.mem_some.mp he ▸ hvalue) (hclose name start)
  · exact Keeps.bind (.pure nofun) (hclose name start)

theorem members_reads : ∀ (fuel : Nat) (fields : List FieldDecl) (methods : List FunctionDecl),
    (∀ f ∈ fields, ∀ e ∈ f.initial, right e) → (∀ f ∈ methods, ∀ e ∈ f.expressions, right e) →
    Keeps (members fuel fields methods) depth fun found =>
      (∀ f ∈ found.1, ∀ e ∈ f.initial, right e) ∧ ∀ f ∈ found.2, ∀ e ∈ f.expressions, right e
  | 0, fields, methods, hfields, hmethods => by
    refine .pure ⟨fun f hf => hfields f (List.mem_reverse.mp hf), ?_⟩
    exact fun f hf => hmethods f (List.mem_reverse.mp hf)
  | fuel + 1, fields, methods, hfields, hmethods => by
    have hdone : Keeps (pure (fields.reverse, methods.reverse) :
          Rule (List FieldDecl × List FunctionDecl)) depth fun found =>
        (∀ f ∈ found.1, ∀ e ∈ f.initial, right e) ∧ ∀ f ∈ found.2, ∀ e ∈ f.expressions, right e :=
      .pure ⟨fun f hf => hfields f (List.mem_reverse.mp hf), fun f hf =>
        hmethods f (List.mem_reverse.mp hf)⟩
    rw [members]
    refine keeps_peek.bind fun token _ => ?_
    split
    · exact hdone
    · exact hdone
    · refine (fieldDecl_reads hexpression).bind fun field hfield => ?_
      refine keeps_skipSemicolons.bind fun _ _ => ?_
      exact members_reads fuel _ methods (List.forall_mem_cons.mpr ⟨hfield, hfields⟩) hmethods
    · refine (functionDecl_reads hexpression).bind fun method hmethod => ?_
      refine keeps_skipSemicolons.bind fun _ _ => ?_
      exact members_reads fuel fields _ hfields (List.forall_mem_cons.mpr ⟨hmethod, hmethods⟩)
    · exact .failHere

theorem classDecl_reads :
    Keeps classDecl depth fun c => ∀ e ∈ c.expressions, right e := by
  unfold classDecl
  refine keeps_here.bind fun _ _ => keeps_expect.bind fun _ _ => ?_
  refine keeps_identifier.bind fun _ _ => keeps_expect.bind fun _ _ => ?_
  refine keeps_skipSemicolons.bind fun _ _ => keeps_budget.bind fun fuel _ => ?_
  refine (members_reads hexpression fuel [] [] nofun nofun).bind fun found hfound => ?_
  obtain ⟨hfields, hmethods⟩ := hfound
  refine keeps_here.bind fun _ _ => keeps_expect.bind fun _ _ => .pure ⟨rfl, ?_⟩
  intro e he
  obtain he | he := List.mem_append.mp he
  · obtain ⟨f, hf, hinitial⟩ := List.mem_filterMap.mp he
    exact hfields f hf e hinitial
  · obtain ⟨f, hf, hmethod⟩ := List.mem_flatMap.mp he
    exact hmethods f hf e hmethod

omit hexpression in
theorem State.depth_synchronize (start : Nat) (rest : List Lexeme) (s : State) :
    (synchronize start rest s).depth = s.depth := by
  induction rest generalizing s with
  | nil => rfl
  | cons lexeme rest ih =>
    rw [synchronize]
    split
    · rfl
    · exact s.depth_advance
    · exact s.depth_advance
    all_goals
      first
      | exact (ih _).trans s.depth_advance
      | split
        · rfl
        · exact (ih _).trans s.depth_advance

omit hexpression in
/-- Where reading recovers, the level is the one at which the item began. -/
theorem keeps_recovering {α : Type} {rule : Rule α} {good : α → Prop}
    (hrule : Keeps rule depth good) :
    Keeps (recovering rule) depth fun found => ∀ a ∈ found, good a := by
  intro s s' found hs hok
  unfold recovering at hok
  split at hok
  · rename_i a after hafter
    cases hok
    obtain ⟨hdepth, ha⟩ := hrule hs hafter
    exact ⟨hdepth, fun b hb => Option.mem_some.mp hb ▸ ha⟩
  · cases hok
    exact ⟨(State.depth_synchronize _ _ _).trans hs, nofun⟩

/-- A rule for items reads expressions that are right. -/
def ReadsItem (right : Expr → Prop) (rule : Rule (Option Item)) : Prop :=
  ∀ depth, Keeps rule depth fun found => ∀ item ∈ found, ∀ e ∈ item.expressions, right e

omit hexpression in
theorem forall_mem_found {next : Option Item} {found : List Item}
    (hnext : ∀ item ∈ next, ∀ e ∈ item.expressions, right e)
    (hfound : ∀ e ∈ Item.expressionsAll found.reverse, right e) :
    ∀ e ∈ Item.expressionsAll (next.toList ++ found).reverse, right e := by
  cases next with
  | none => exact hfound
  | some item =>
    intro e he
    rw [Item.expressionsAll_eq, Option.toList_some, List.singleton_append, List.reverse_cons,
      List.flatMap_append, List.mem_append, ← Item.expressionsAll_eq,
      List.flatMap_singleton] at he
    exact he.elim (hfound e) (hnext item rfl e)

omit hexpression in
theorem itemList_reads {item : Rule (Option Item)} (hitem : ReadsItem right item) :
    ∀ (fuel : Nat) (found : List Item), (∀ e ∈ Item.expressionsAll found.reverse, right e) →
      Keeps (itemList item fuel found) depth fun items =>
        ∀ e ∈ Item.expressionsAll items, right e
  | 0, _, hfound => .pure hfound
  | fuel + 1, found, hfound => by
    rw [itemList]
    refine keeps_peek.bind fun token _ => ?_
    split
    · exact .pure ⟨rfl, hfound⟩
    · refine (hitem depth).bind fun next hnext => keeps_skipSemicolons.bind fun _ _ => ?_
      exact itemList_reads hitem fuel _ (forall_mem_found hnext hfound)

omit hexpression in
theorem namespaceOver_reads {item : Rule (Option Item)} (hitem : ReadsItem right item) :
    Keeps (namespaceOver item) depth fun found => ∀ e ∈ found.expressions, right e := by
  unfold namespaceOver
  refine keeps_here.bind fun _ _ => keeps_expect.bind fun _ _ => ?_
  refine keeps_dottedName.bind fun _ _ => keeps_expect.bind fun _ _ => ?_
  refine keeps_skipSemicolons.bind fun _ _ => ?_
  have hitems : Keeps (do itemList item (← budget) []) (depth + 1) fun items =>
      ∀ e ∈ Item.expressionsAll items, right e :=
    keeps_budget.bind fun fuel _ => itemList_reads hitem fuel [] nofun
  refine (keeps_nested fun _ => hitems).bind fun items hitems => ?_
  exact keeps_here.bind fun _ _ => keeps_expect.bind fun _ _ => .pure ⟨rfl, hitems⟩

theorem itemOver_reads {item : Rule (Option Item)} (hitem : ReadsItem right item) :
    Keeps (itemOver item) depth fun found => ∀ e ∈ found.expressions, right e := by
  unfold itemOver
  refine keeps_peek.bind fun token _ => ?_
  split
  · exact namespaceOver_reads hitem
  · exact (classDecl_reads hexpression).bind fun c hc => .pure ⟨rfl, hc⟩
  · exact (functionDecl_reads hexpression).bind fun f hf => .pure ⟨rfl, hf⟩
  · exact (statement_reads hexpression depth).bind fun s hs => .pure ⟨rfl, hs⟩

theorem itemWithin_reads : ∀ fuel : Nat, ReadsItem right (itemWithin fuel)
  | 0 => fun _ => .failHere
  | fuel + 1 => fun _ =>
    keeps_recovering (itemOver_reads hexpression (itemWithin_reads fuel))

theorem topLevel_reads : ∀ (fuel : Nat) (found : List Item),
    (∀ e ∈ Item.expressionsAll found.reverse, right e) →
    Keeps (topLevel fuel found) depth fun items => ∀ e ∈ Item.expressionsAll items, right e
  | 0, _, hfound => .pure hfound
  | fuel + 1, found, hfound => by
    rw [topLevel]
    refine keeps_peek.bind fun token _ => ?_
    split
    · exact .pure ⟨rfl, hfound⟩
    · refine keeps_here.bind fun span _ => Keeps.bind (keeps_modify ?_) fun _ _ => ?_
      · intro s
        rfl
      · refine keeps_advance.bind fun _ _ => keeps_skipSemicolons.bind fun _ _ => ?_
        exact topLevel_reads fuel found hfound
    · refine (itemWithin_reads hexpression _ depth).bind fun next hnext => ?_
      refine keeps_skipSemicolons.bind fun _ _ => ?_
      exact topLevel_reads fuel _ (forall_mem_found hnext hfound)

end Grammar

/-- Whatever the rule of expressions ensures at every level holds of all expressions of a source
text. -/
theorem parse_reads {right : Expr → Prop}
    (hexpression : ∀ depth, Grammar.Keeps Grammar.expression depth right)
    {lexemes : List Lexeme} {items : List Item} (h : parse lexemes = .ok items) :
    ∀ e ∈ Item.expressionsAll items, right e := by
  have hsource : Grammar.Keeps Grammar.sourceText 0 fun items =>
      ∀ e ∈ Item.expressionsAll items, right e := by
    unfold Grammar.sourceText
    refine Grammar.keeps_skipSemicolons.bind fun _ _ => Grammar.keeps_budget.bind fun fuel _ => ?_
    exact Grammar.topLevel_reads hexpression fuel [] nofun
  unfold parse at h
  split at h
  · rename_i found s hfound
    split at h
    · cases h
      exact (hsource rfl hfound).2
    · cases h
  · cases h

end ScriptHost
