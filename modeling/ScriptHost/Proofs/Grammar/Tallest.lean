import Mathlib.Order.Bounds.Basic
import ScriptHost.Program.Build
import ScriptHost.Proofs.Grammar.Height
import ScriptHost.Proofs.Grammar.Reads
/-!
# The tallest expression

The bound on the heights of expressions is met. `towering free` spells an expression that is as tall
as any that is read where `free` levels are free: a new object whose one argument is spelled in the
same way, then dots until the levels are used up, and behind these the operators of each strength in
turn, again as many as there are levels.

So the number of nodes on a way through an expression is bounded by `tallest maxNesting`, which is
14176, and not by `maxNesting` itself.
-/

set_option autoImplicit false

namespace ScriptHost

namespace Grammar

/-- Tokens as lexemes, all of them at one place. -/
def unplaced (tokens : List Token) : List Lexeme :=
  tokens.map fun token => ⟨token, .nowhere⟩

/-- Some tokens again and again. -/
def repeated (count : Nat) (tokens : List Token) : List Token :=
  (List.replicate count tokens).flatten

theorem repeated_succ (count : Nat) (tokens : List Token) :
    repeated (count + 1) tokens = tokens ++ repeated count tokens := by
  rw [repeated, List.replicate_succ, List.flatten_cons, repeated]

/-- The reader stands before these tokens, at this level, and has met no error. -/
structure State.At (s : State) (tokens : List Token) (depth : Nat) : Prop where
  rest : s.rest = unplaced tokens
  level : s.depth = depth
  clean : s.errors = #[]

variable {s : State} {tokens : List Token} {token next : Token} {depth : Nat}

theorem State.At.token_eq (h : s.At (token :: tokens) depth) : s.token = token := by
  rw [State.token, h.rest]
  rfl

theorem State.At.advance (h : s.At (token :: next :: tokens) depth) :
    s.advance.At (next :: tokens) depth := by
  have hadvance : s.advance = { s with
      rest := unplaced (next :: tokens)
      position := s.position + 1
      previous := .nowhere } := by
    rw [State.advance, h.rest]
    rfl
  rw [hadvance]
  exact ⟨rfl, h.level, h.clean⟩

/-! What the steps do to a state is known in advance. -/

theorem get_eq : (MonadState.get : Rule State) s = .ok s s :=
  rfl

theorem peek_eq (h : s.token = token) : peek s = .ok token s :=
  h ▸ rfl

theorem here_eq : here s = .ok s.span s :=
  rfl

theorem previous_eq : Grammar.previous s = .ok s.previous s :=
  rfl

theorem advance_eq : Grammar.advance s = .ok () s.advance :=
  rfl

theorem expect_eq {what : String} (h : s.token = token) :
    expect token what s = .ok s.span s.advance := by
  rw [expect, bind_of_ok (peek_eq h), if_pos rfl]
  rfl

theorem identifier_eq {name : String} (h : s.token = .ident name) :
    identifier s = .ok name s.advance := by
  rw [identifier, bind_of_ok (peek_eq h)]
  rfl

/-- In front of the tokens at the level, the rule reads these and no more, as an expression of at
least this height. What follows has to begin with a token at which the rule stops. -/
def ReadsTall (stops : Token → Prop) (rule : Rule Expr) (depth : Nat) (tokens : List Token)
    (height : Nat) : Prop :=
  ∀ (s : State) (next : Token) (rest : List Token), stops next →
    s.At (tokens ++ next :: rest) depth →
    ∃ e s', rule s = .ok e s' ∧ height ≤ e.height ∧ s'.At (next :: rest) depth

section Chains

variable {stops : Token → Prop} {op? : Token → Option BinaryOp} {rule : Rule Expr} {op : BinaryOp}

theorem chain_stops (fuel : Nat) (left : Expr) (h : op? s.token = none) :
    chain op? rule (fuel + 1) left s = .ok left s := by
  rw [chain, bind_of_ok (peek_eq rfl), h]
  rfl

theorem chain_goes {s₁ : State} {right : Expr} (fuel : Nat) (left : Expr)
    (h : op? s.token = some op) (hroom : s.depth < maxNesting)
    (hright : rule { s with depth := s.depth + 1 }.advance = .ok right s₁) :
    chain op? rule (fuel + 1) left s = chain op? rule fuel (join op left right) s₁ := by
  rw [chain, bind_of_ok (peek_eq rfl), h]
  exact (bind_of_ok (descend_eq hroom)).trans ((bind_of_ok advance_eq).trans (bind_of_ok hright))

/-- An operand is followed by the next operator, or by what follows the whole chain. -/
theorem exists_follower (count : Nat) (rest : List Token) (htoken : stops token)
    (hnext : stops next) : ∃ follower others, stops follower ∧
      repeated count [token, .int 1] ++ next :: rest = follower :: others := by
  cases count with
  | zero => exact ⟨next, rest, hnext, rfl⟩
  | succ count =>
    rw [repeated_succ]
    exact ⟨token, _, htoken, rfl⟩

/-- A loop over operators adds a node for each operator that it reads. -/
theorem chain_reads (hop : op? token = some op) (htoken : stops token)
    (hone : ∀ depth ≤ maxNesting, ReadsTall stops rule depth [.int 1] 1) {rest : List Token}
    (hnext : stops next) (hstop : op? next = none) :
    ∀ (count fuel : Nat) (left : Expr) (depth : Nat) (s : State), count < fuel →
      depth + count ≤ maxNesting → s.At (repeated count [token, .int 1] ++ next :: rest) depth →
      ∃ e s', chain op? rule fuel left s = .ok e s' ∧ left.height + count ≤ e.height ∧
        s'.At (next :: rest) (depth + count)
  | _, 0, _, _, _, hfuel, _, _ => absurd hfuel (Nat.not_lt_zero _)
  | 0, fuel + 1, left, depth, s, _, _, hat =>
    ⟨left, s, chain_stops fuel left (hat.token_eq ▸ hstop), Nat.le_refl _, hat⟩
  | count + 1, fuel + 1, left, depth, s, hfuel, hroom, hat => by
    rw [repeated_succ] at hat
    have hdeeper : State.At { s with depth := s.depth + 1 }
        (token :: .int 1 :: (repeated count [token, .int 1] ++ next :: rest)) (depth + 1) :=
      ⟨hat.rest, congrArg (· + 1) hat.level, hat.clean⟩
    obtain ⟨follower, others, hfollower, hsplit⟩ := exists_follower count rest htoken hnext
    obtain ⟨right, s₁, hright, hheight, hat₁⟩ :=
      hone (depth + 1) (by omega) _ follower others hfollower (hsplit ▸ hdeeper.advance)
    rw [← hsplit] at hat₁
    obtain ⟨e, s₂, hrest, htall, hat₂⟩ := chain_reads hop htoken hone hnext hstop count fuel
      (join op left right) (depth + 1) s₁ (by omega) (by omega) hat₁
    refine ⟨e, s₂, ?_, ?_, by rw [Nat.add_right_comm] at hat₂; exact hat₂⟩
    · have hlevel := hat.level
      rw [chain_goes fuel left (hat.token_eq ▸ hop) (by omega) hright]
      exact hrest
    · rw [Expr.height_join] at htall
      omega

theorem level_reads (hop : op? token = some op) (htoken : stops token)
    (hone : ∀ depth ≤ maxNesting, ReadsTall stops rule depth [.int 1] 1) (count : Nat)
    {height : Nat} (hcount : depth + count ≤ maxNesting)
    (hfirst : ReadsTall stops rule depth tokens height) :
    ReadsTall (fun next => stops next ∧ op? next = none) (level op? rule) depth
      (tokens ++ repeated count [token, .int 1]) (height + count) := by
  intro s next rest hstop hat
  rw [List.append_assoc] at hat
  obtain ⟨follower, others, hfollower, hsplit⟩ := exists_follower count rest htoken hstop.1
  obtain ⟨left, s₁, hleft, hheight, hat₁⟩ := hfirst s follower others hfollower (hsplit ▸ hat)
  obtain ⟨e, s₂, hchain, htall, hat₂⟩ := chain_reads hop htoken hone hstop.1 hstop.2 count
    (maxNesting + 1) left depth s₁ (by omega) hcount (hsplit ▸ hat₁)
  refine ⟨e, { s₂ with depth := s₁.depth }, ?_, by omega, hat₂.rest, hat₁.level, hat₂.clean⟩
  rw [level, bind_of_ok hleft, bind_of_ok get_eq]
  exact bind_of_ok hchain

/-- Behind a lone number, a level of operators has nothing to do. -/
theorem level_reads_one (hop : op? token = some op) (htoken : stops token)
    (hone : ∀ depth ≤ maxNesting, ReadsTall stops rule depth [.int 1] 1) :
    ∀ depth ≤ maxNesting,
      ReadsTall (fun next => stops next ∧ op? next = none) (level op? rule) depth [.int 1] 1 :=
  fun depth hdepth => level_reads hop htoken hone 0 hdepth (hone depth hdepth)

end Chains

section Operands

variable {expression : Rule Expr}

theorem postfixChain_stops (fuel : Nat) (object : Expr) (hdot : s.token ≠ .dot)
    (hparen : s.token ≠ .lparen) :
    postfixChain expression (fuel + 1) object s = .ok object s := by
  rw [postfixChain, bind_of_ok (peek_eq rfl)]
  generalize s.token = token at hdot hparen ⊢
  split
  · exact absurd rfl hdot
  · exact absurd rfl hparen
  · rfl

theorem postfixChain_goes (fuel : Nat) {object whole : Expr} {s₁ : State} (hdot : s.token = .dot)
    (hmember : member expression object s = .ok whole s₁) :
    postfixChain expression (fuel + 1) object s = postfixChain expression fuel whole s₁ := by
  rw [postfixChain, bind_of_ok (peek_eq hdot)]
  exact bind_of_ok hmember

/-- A dot and a name make a field. -/
theorem member_reads {name : String} (object : Expr) (hnext : next ≠ .lparen)
    (hroom : depth < maxNesting) (hat : s.At (.dot :: .ident name :: next :: tokens) depth) :
    ∃ span s', member expression object s = .ok (.field object name span) s' ∧
      s'.At (next :: tokens) (depth + 1) := by
  let deeper := { s with depth := s.depth + 1 }.advance
  have hname : deeper.At (.ident name :: next :: tokens) (depth + 1) :=
    State.At.advance ⟨hat.rest, congrArg (· + 1) hat.level, hat.clean⟩
  have hlevel := hat.level
  refine ⟨object.span.merge deeper.span, deeper.advance, ?_, hname.advance⟩
  rw [member, bind_of_ok (descend_eq (by omega)), bind_of_ok advance_eq, bind_of_ok here_eq,
    bind_of_ok (identifier_eq hname.token_eq), bind_of_ok (peek_eq hname.advance.token_eq),
    if_neg hnext]
  rfl

/-- A loop over dots adds a node for each dot. -/
theorem postfixChain_reads {rest : List Token} (hdot : next ≠ .dot) (hparen : next ≠ .lparen) :
    ∀ (count fuel : Nat) (object : Expr) (depth : Nat) (s : State), count < fuel →
      depth + count ≤ maxNesting →
      s.At (repeated count [.dot, .ident "f"] ++ next :: rest) depth →
      ∃ e s', postfixChain expression fuel object s = .ok e s' ∧
        object.height + count ≤ e.height ∧ s'.At (next :: rest) (depth + count)
  | _, 0, _, _, _, hfuel, _, _ => absurd hfuel (Nat.not_lt_zero _)
  | 0, fuel + 1, object, depth, s, _, _, hat => by
    have htoken : s.token = next := hat.token_eq
    rw [← htoken] at hdot hparen
    exact ⟨object, s, postfixChain_stops fuel object hdot hparen, Nat.le_refl _, hat⟩
  | count + 1, fuel + 1, object, depth, s, hfuel, hroom, hat => by
    rw [repeated_succ, List.append_assoc] at hat
    obtain ⟨follower, others, hfollower, hsplit⟩ : ∃ follower others, follower ≠ Token.lparen ∧
        repeated count [.dot, .ident "f"] ++ next :: rest = follower :: others := by
      cases count with
      | zero => exact ⟨next, rest, hparen, rfl⟩
      | succ count =>
        rw [repeated_succ]
        exact ⟨.dot, _, nofun, rfl⟩
    have hroom' : depth < maxNesting := by omega
    obtain ⟨span, s₁, hmember, hat₁⟩ :=
      member_reads object hfollower hroom' (by rw [hsplit] at hat; exact hat)
    rw [← hsplit] at hat₁
    obtain ⟨e, s₂, hrest, htall, hat₂⟩ := postfixChain_reads hdot hparen count fuel
      (.field object "f" span) (depth + 1) s₁ (by omega) (by omega) hat₁
    refine ⟨e, s₂, ?_, ?_, by rw [Nat.add_right_comm] at hat₂; exact hat₂⟩
    · rw [postfixChain_goes fuel hat.token_eq hmember]
      exact hrest
    · rw [Expr.height] at htall
      omega

/-- A loop over dots gives its levels back. -/
theorem postfixExpr_reads {height : Nat} (count : Nat) (hcount : depth + count ≤ maxNesting)
    (hprimary : ∀ (s : State) (next : Token) (rest : List Token),
      s.At (tokens ++ next :: rest) depth →
      ∃ e s', primary expression s = .ok e s' ∧ height ≤ e.height ∧ s'.At (next :: rest) depth) :
    ReadsTall (fun next => next ≠ .dot ∧ next ≠ .lparen) (postfixExpr expression) depth
      (tokens ++ repeated count [.dot, .ident "f"]) (height + count) := by
  intro s next rest hstop hat
  rw [List.append_assoc] at hat
  obtain ⟨follower, others, hsplit⟩ : ∃ follower others,
      repeated count [.dot, .ident "f"] ++ next :: rest = follower :: others := by
    cases count with
    | zero => exact ⟨next, rest, rfl⟩
    | succ count =>
      rw [repeated_succ]
      exact ⟨.dot, _, rfl⟩
  obtain ⟨object, s₁, hobject, hheight, hat₁⟩ := hprimary s follower others (hsplit ▸ hat)
  obtain ⟨e, s₂, hchain, htall, hat₂⟩ := postfixChain_reads hstop.1
    hstop.2 count (maxNesting + 1) object depth s₁ (by omega) hcount (hsplit ▸ hat₁)
  refine ⟨e, { s₂ with depth := s₁.depth }, ?_, by omega, hat₂.rest, hat₁.level, hat₂.clean⟩
  rw [postfixExpr, bind_of_ok hobject, bind_of_ok get_eq]
  exact bind_of_ok hchain

theorem primary_reads_one (hat : s.At (.int 1 :: next :: tokens) depth) :
    ∃ e s', primary expression s = .ok e s' ∧ 1 ≤ e.height ∧ s'.At (next :: tokens) depth := by
  refine ⟨.int 1 s.span, s.advance, ?_, Nat.le_refl 1, hat.advance⟩
  rw [primary, bind_of_ok here_eq, bind_of_ok (peek_eq hat.token_eq)]
  rfl

theorem dottedName_reads {name : String} (hnext : next ≠ .dot)
    (hat : s.At (.ident name :: next :: tokens) depth) :
    dottedName s = .ok [name] s.advance := by
  rw [dottedName, bind_of_ok (identifier_eq hat.token_eq)]
  change moreNames (s.advance.total + 1) [name] s.advance = _
  rw [moreNames, bind_of_ok (peek_eq hat.advance.token_eq), if_neg hnext]
  rfl

/-- What an expression can be given as its one argument: nothing, or an expression. -/
def Argument (expression : Rule Expr) (depth : Nat) (tokens : List Token) (height : Nat) : Prop :=
  tokens = [] ∧ height = 0 ∨
    (∃ first others, tokens = first :: others ∧ first ≠ .rparen) ∧
      ReadsTall (fun next => next = .rparen) expression depth tokens height

theorem arguments_reads {argument : List Token} {height : Nat}
    (hargument : Argument expression depth argument height)
    (hat : s.At (argument ++ .rparen :: next :: tokens) depth) :
    ∃ args s', arguments expression s = .ok args s' ∧ height ≤ Expr.heightAll args ∧
      s'.At (next :: tokens) depth := by
  obtain ⟨rfl, rfl⟩ | ⟨⟨first, others, hsplit, hfirst⟩, hreads⟩ := hargument
  · refine ⟨[], s.advance, ?_, Nat.zero_le _, hat.advance⟩
    have htoken : s.token = .rparen := hat.token_eq
    rw [arguments, bind_of_ok (peek_eq htoken), if_pos rfl]
    exact bind_of_ok (expect_eq htoken)
  · obtain ⟨e, s₁, he, hheight, hat₁⟩ := hreads s .rparen (next :: tokens) rfl hat
    refine ⟨[e], s₁.advance, ?_, hheight.trans (Nat.le_max_left ..), hat₁.advance⟩
    have htoken : s.token = first := by
      rw [hsplit] at hat
      exact hat.token_eq
    rw [arguments, bind_of_ok (peek_eq htoken), if_neg hfirst, bind_of_ok he]
    have hmore : moreArguments expression (s₁.total + 1) [e] s₁ = .ok [e] s₁ := by
      rw [moreArguments, bind_of_ok (peek_eq hat₁.token_eq), if_neg (by simp)]
      rfl
    exact (bind_of_ok rfl).trans ((bind_of_ok hmore).trans (bind_of_ok (expect_eq hat₁.token_eq)))

theorem primary_reads_creation {argument : List Token} {height : Nat}
    (hargument : Argument expression depth argument height)
    (hat : s.At (.kwNew :: .ident "C" :: .lparen :: (argument ++ .rparen :: next :: tokens))
      depth) :
    ∃ e s', primary expression s = .ok e s' ∧ height + 1 ≤ e.height ∧
      s'.At (next :: tokens) depth := by
  have hname := hat.advance
  have hparen := hname.advance
  obtain ⟨first, others, hsplit⟩ : ∃ first others,
      argument ++ .rparen :: next :: tokens = first :: others := by
    cases argument with
    | nil => exact ⟨_, _, rfl⟩
    | cons first others => exact ⟨_, _, rfl⟩
  rw [hsplit] at hparen
  have hargs := hparen.advance
  rw [← hsplit] at hargs
  have hpath : dottedName s.advance = .ok ["C"] s.advance.advance :=
    dottedName_reads (by decide) hname
  obtain ⟨args, s', hread, hheight, hat'⟩ := arguments_reads hargument hargs
  refine ⟨.create ["C"] args (s.span.merge s'.previous), s', ?_, ?_, hat'⟩
  · have hcreation : creation expression s =
        .ok (.create ["C"] args (s.span.merge s'.previous)) s' := by
      rw [creation, bind_of_ok (expect_eq hat.token_eq), bind_of_ok hpath,
        bind_of_ok (expect_eq hparen.token_eq), bind_of_ok hread, bind_of_ok previous_eq]
      rfl
    rw [primary, bind_of_ok here_eq, bind_of_ok (peek_eq hat.token_eq)]
    exact hcreation
  · rw [Expr.height]
    omega

end Operands

section Towers

/-- An operand that begins with no operator. -/
theorem operand_reads {fuel height : Nat} {stops : Token → Prop}
    (hreads : ReadsTall stops (postfixExpr (expressionOver (operand fuel))) depth tokens height)
    {first : Token} {others : List Token} (hfirst : tokens = first :: others)
    (hunary : unaryOp? first = none) :
    ReadsTall stops (operand (fuel + 1)) depth tokens height := by
  intro s next rest hstop hat
  obtain ⟨e, s', hread, hheight, hat'⟩ := hreads s next rest hstop hat
  refine ⟨e, s', ?_, hheight, hat'⟩
  have htoken : s.token = first := by
    rw [hfirst] at hat
    exact hat.token_eq
  rw [operand, bind_of_ok (peek_eq htoken), hunary]
  exact hread

/-- The tokens that no level of operators goes on with. -/
def Ends (next : Token) : Prop :=
  ((((((next ≠ .dot ∧ next ≠ .lparen) ∧ productOp? next = none) ∧ sumOp? next = none) ∧
    comparisonOp? next = none) ∧ equalityOp? next = none) ∧ andOp? next = none) ∧ orOp? next = none

/-- The operators of each level, as many as there are levels of nesting. -/
def operators (free : Nat) : List Token :=
  repeated free [.star, .int 1] ++ repeated free [.plus, .int 1] ++ repeated free [.lt, .int 1] ++
    repeated free [.eqEq, .int 1] ++ repeated free [.and, .int 1] ++ repeated free [.or, .int 1]

/-- The six levels of operators add up. -/
theorem levels_read {fuel free height : Nat} (hfree : depth + free ≤ maxNesting)
    (hfirst : ReadsTall (fun next => next ≠ .dot ∧ next ≠ .lparen) (operand (fuel + 1)) depth
      tokens height) :
    ReadsTall Ends (levels (operand (fuel + 1))) depth (tokens ++ operators free)
      (height + 6 * free) := by
  have hone : ∀ depth ≤ maxNesting, ReadsTall (fun next => next ≠ .dot ∧ next ≠ .lparen)
      (operand (fuel + 1)) depth [.int 1] 1 := by
    intro depth hdepth
    have hnumber : ReadsTall (fun next => next ≠ .dot ∧ next ≠ .lparen)
        (postfixExpr (expressionOver (operand fuel))) depth
        ([.int 1] ++ repeated 0 [.dot, .ident "f"]) 1 :=
      postfixExpr_reads 0 hdepth fun s next rest hat => primary_reads_one hat
    exact operand_reads hnumber rfl rfl
  have hstar : productOp? .star = some .mul := rfl
  have hplus : sumOp? .plus = some .add := rfl
  have hless : comparisonOp? .lt = some .lt := rfl
  have hsame : equalityOp? .eqEq = some .eq := rfl
  have hboth : andOp? .and = some .and := rfl
  have heither : orOp? .or = some .or := rfl
  have hproduct := level_reads_one hstar (by decide) hone
  have hsum := level_reads_one hplus (by decide) hproduct
  have hcomparison := level_reads_one hless (by decide) hsum
  have hequality := level_reads_one hsame (by decide) hcomparison
  have hand := level_reads_one hboth (by decide) hequality
  have hall : ReadsTall Ends (levels (operand (fuel + 1))) depth _ _ :=
    level_reads heither (by decide) hand free hfree <|
    level_reads hboth (by decide) hequality free hfree <|
    level_reads hsame (by decide) hcomparison free hfree <|
    level_reads hless (by decide) hsum free hfree <|
    level_reads hplus (by decide) hproduct free hfree <|
    level_reads hstar (by decide) hone free hfree hfirst
  intro s next rest hstop hat
  obtain ⟨e, s', hread, hheight, hat'⟩ := hall s next rest hstop (by
    simpa only [operators, List.append_assoc] using hat)
  exact ⟨e, s', hread, by omega, hat'⟩

theorem nested_reads {rule : Rule Expr} {stops : Token → Prop} {height : Nat}
    (hroom : depth < maxNesting) (hrule : ReadsTall stops rule (depth + 1) tokens height) :
    ReadsTall stops (nested rule) depth tokens height := by
  intro s next rest hstop hat
  obtain ⟨e, s', hread, hheight, hat'⟩ := hrule { s with depth := s.depth + 1 } next rest hstop
    ⟨hat.rest, congrArg (· + 1) hat.level, hat.clean⟩
  have hlevel := hat.level
  refine ⟨e, s'.ascend, ?_, hheight, hat'.rest, ?_, hat'.clean⟩
  · refine (bind_of_ok (descend_eq (hlevel.trans_lt hroom))).trans ?_
    rw [hread]
  · exact congrArg (· - 1) hat'.level

/-- An expression that is as tall as can be where so many levels are free. -/
def towering : Nat → List Token
  | 0 => []
  | free + 1 =>
    .kwNew :: .ident "C" :: .lparen :: (towering free ++ [.rparen]) ++
      repeated free [.dot, .ident "f"] ++ operators free

/-- An argument spelled in this way is one node less tall than the new object. -/
theorem towering_reads : ∀ (free fuel depth : Nat), free < fuel →
    depth + (free + 1) = maxNesting →
    ReadsTall Ends (expressionOver (operand fuel)) depth (towering (free + 1)) (tallest (free + 1))
  | _, 0, _, hfuel, _ => absurd hfuel (Nat.not_lt_zero _)
  | free, fuel + 1, depth, hfuel, hdepth => by
    have hargument : Argument (expressionOver (operand fuel)) (depth + 1) (towering free)
        (tallest free) := by
      cases free with
      | zero => exact .inl ⟨rfl, rfl⟩
      | succ free =>
        refine .inr ⟨⟨.kwNew, _, rfl, by decide⟩, fun s next rest hnext => ?_⟩
        have hends : Ends next := by
          rw [hnext]
          unfold Ends
          decide
        exact towering_reads free fuel (depth + 1) (by omega) (by omega) s next rest hends
    have hcreation : ReadsTall (fun next => next ≠ .dot ∧ next ≠ .lparen)
        (postfixExpr (expressionOver (operand fuel))) (depth + 1)
        (.kwNew :: .ident "C" :: .lparen :: (towering free ++ [.rparen]) ++
          repeated free [.dot, .ident "f"]) (tallest free + 1 + free) := by
      refine postfixExpr_reads free (by omega) fun s next rest hat => ?_
      rw [List.cons_append, List.cons_append, List.cons_append, List.append_assoc] at hat
      exact primary_reads_creation hargument hat
    have hlevels : ReadsTall Ends (levels (operand (fuel + 1))) (depth + 1) (towering (free + 1))
        (tallest free + 1 + free + 6 * free) :=
      levels_read (by omega) (operand_reads hcreation rfl rfl)
    have hheight : tallest (free + 1) = tallest free + 1 + free + 6 * free := by
      rw [tallest]
      omega
    rw [hheight]
    exact nested_reads (by omega) hlevels

theorem towering_eq {free : Nat} (hfree : 0 < free) :
    ∃ others, towering free = .kwNew :: others := by
  obtain ⟨free, rfl⟩ := Nat.exists_eq_add_one.mpr hfree
  exact ⟨_, rfl⟩

/-- The tallest expression is an item of its own. -/
theorem item_reads_towering (htokens : tokens = towering maxNesting ++ [.semicolon, .eof])
    (hat : s.At tokens 0) :
    ∃ e s', item s = .ok (some (.stmt (.expr e))) s' ∧ tallest maxNesting ≤ e.height ∧
      s'.At [.eof] 0 := by
  rw [htokens] at hat
  obtain ⟨e, s₁, hread, hheight, hat₁⟩ := towering_reads 63 (maxNesting + 1) 0 (by decide) rfl
    s .semicolon [.eof] (by unfold Ends; decide) hat
  refine ⟨e, s₁.advance, ?_, hheight, hat₁.advance⟩
  have htoken : s.token = .kwNew := by
    obtain ⟨others, hothers⟩ := towering_eq (show 0 < maxNesting by decide)
    rw [hothers] at hat
    exact hat.token_eq
  have hassignment : expressionOrAssignment s = .ok (.expr e) s₁.advance := by
    have hterminator : terminator s₁ = .ok () s₁.advance := by
      rw [terminator, bind_of_ok (peek_eq hat₁.token_eq)]
      rfl
    have hexpression : expression s = .ok e s₁ := hread
    rw [expressionOrAssignment, bind_of_ok hexpression, bind_of_ok (peek_eq hat₁.token_eq),
      if_neg (by simp)]
    exact bind_of_ok hterminator
  have hstatement : statement s = .ok (.expr e) s₁.advance := by
    rw [statement, statementWithin, statementOver, bind_of_ok (peek_eq htoken)]
    exact hassignment
  have hitem : itemOver (itemWithin maxNesting) s = .ok (.stmt (.expr e)) s₁.advance := by
    rw [itemOver, bind_of_ok (peek_eq htoken)]
    exact bind_of_ok hstatement
  rw [item, itemWithin, recovering, hitem]

theorem skipSemicolons_eq (htoken : token ≠ .semicolon) (hat : s.At (token :: tokens) depth) :
    skipSemicolons s = .ok () s := by
  change EStateM.Result.ok () (s.pastSemicolons s.rest) = _
  rw [hat.rest, unplaced, List.map_cons, State.pastSemicolons, if_neg htoken]

/-- A text of one item. -/
theorem sourceText_reads {found : Item} {s' : State} (htoken : token ≠ .semicolon)
    (hend : token ≠ .eof) (hbrace : token ≠ .rbrace) (hat : s.At (token :: tokens) 0)
    (htotal : 0 < s.total) (hitem : item s = .ok (some found) s') (hat' : s'.At [.eof] 0) :
    sourceText s = .ok [found] s' := by
  obtain ⟨total, htotal⟩ := Nat.exists_eq_add_one.mpr htotal
  have hbudget : budget s = .ok (total + 1 + 1) s := htotal ▸ rfl
  rw [sourceText, bind_of_ok (skipSemicolons_eq htoken hat), bind_of_ok hbudget, topLevel,
    bind_of_ok (peek_eq hat.token_eq)]
  split
  · exact absurd rfl hend
  · exact absurd rfl hbrace
  · have hskip : skipSemicolons s' = .ok () s' := skipSemicolons_eq (by decide) hat'
    rw [bind_of_ok hitem, bind_of_ok hskip, topLevel,
      bind_of_ok (peek_eq hat'.token_eq)]
    rfl

end Towers

end Grammar

/-- No expression of a source text is taller than what an expression with all levels free can
be. -/
theorem parse_heights {lexemes : List Lexeme} {items : List Item} (h : parse lexemes = .ok items) :
    ∀ e ∈ Item.expressionsAll items, e.height ≤ Grammar.tallest Grammar.maxNesting := by
  refine parse_reads (fun depth => ?_) h
  exact (Grammar.expression_bounded depth).imp fun e he =>
    he.trans (Grammar.tallest_mono (Nat.sub_le ..))

/-- The tallest expression is accepted. -/
theorem parse_towering : ∃ e, parse (Grammar.unplaced
      (Grammar.towering Grammar.maxNesting ++ [.semicolon, .eof])) = .ok [.stmt (.expr e)] ∧
    Grammar.tallest Grammar.maxNesting ≤ e.height := by
  obtain ⟨others, hothers⟩ := Grammar.towering_eq (show 0 < Grammar.maxNesting by decide)
  rw [hothers, List.cons_append]
  have hat : (Grammar.State.ofLexemes (Grammar.unplaced
      (.kwNew :: (others ++ [.semicolon, .eof])))).At
      (.kwNew :: (others ++ [.semicolon, .eof])) 0 := ⟨rfl, rfl, rfl⟩
  obtain ⟨e, s', hitem, hheight, hat'⟩ :=
    Grammar.item_reads_towering (by rw [hothers, List.cons_append]) hat
  have hsource := Grammar.sourceText_reads (by decide) (by decide) (by decide) hat
    (Nat.succ_pos _) hitem hat'
  have hclean : s'.errors.isEmpty = true := by
    rw [hat'.clean]
    rfl
  refine ⟨e, ?_, hheight⟩
  rw [parse, hsource]
  dsimp only
  rw [if_pos hclean]

/-- The heights of the expressions in texts that are accepted. -/
def parsedHeights : Set Nat :=
  {height | ∃ lexemes items, parse lexemes = .ok items ∧
    ∃ e ∈ Item.expressionsAll items, e.height = height}

/-- The heights of what these expressions are resolved to, wherever they stand. -/
def resolvedHeights : Set Nat :=
  {height | ∃ lexemes items, parse lexemes = .ok items ∧ ∃ e ∈ Item.expressionsAll items,
    ∃ ctx body tree after, Scope.resolveExpr ctx e body = .ok tree after ∧ tree.height = height}

/-- The greatest number of nodes, one inside another, in an expression of a text that is accepted
is 14176, though no more than 64 levels of nesting are ever open. -/
theorem isGreatest_parsedHeights : IsGreatest parsedHeights 14176 := by
  have htallest : Grammar.tallest Grammar.maxNesting = 14176 := by
    have hdouble := Grammar.two_mul_tallest Grammar.maxNesting
    generalize Grammar.tallest Grammar.maxNesting = height at hdouble ⊢
    unfold Grammar.maxNesting at hdouble
    omega
  constructor
  · obtain ⟨e, hparse, htall⟩ := parse_towering
    refine ⟨_, _, hparse, e, List.mem_singleton_self e, ?_⟩
    have hbound := parse_heights hparse e (List.mem_singleton_self e)
    omega
  · rintro height ⟨lexemes, items, hparse, e, he, rfl⟩
    exact htallest ▸ parse_heights hparse e he

/-- A number bounds the heights of all expressions in texts that are accepted if it is 14176 or
more, and no other does. What bounds them bounds the heights of what they are resolved to, so the
later walks along resolved expressions go no deeper. -/
theorem bounds_heights_iff (bound : Nat) :
    (bound ∈ upperBounds parsedHeights ↔ 14176 ≤ bound) ∧
      (bound ∈ upperBounds parsedHeights → bound ∈ upperBounds resolvedHeights) := by
  refine ⟨(isLUB_le_iff isGreatest_parsedHeights.isLUB).symm, fun hbound => ?_⟩
  rintro height ⟨lexemes, items, hparse, e, he, ctx, body, tree, after, hresolve, rfl⟩
  have hsource : e.height ≤ bound := hbound ⟨lexemes, items, hparse, e, he, rfl⟩
  exact (Scope.resolveExpr_height e hresolve).trans hsource

/-- A product of 64 numbers, and one more number, are accepted as one expression, though it has more
nodes, one inside another, than levels of nesting may be open. -/
theorem long_product_is_too_tall :
    ∃ items, read ("1" ++ String.join (List.replicate 63 "*1") ++ "+1;") 0 = .ok items ∧
      ∃ e ∈ Item.expressionsAll items, Grammar.maxNesting < e.height := by
  have hread : (read ("1" ++ String.join (List.replicate 63 "*1") ++ "+1;") 0).toOption.any
      (fun items => (Item.expressionsAll items).any fun e => Grammar.maxNesting < e.height) =
        true := by
    decide +kernel
  cases hitems : read ("1" ++ String.join (List.replicate 63 "*1") ++ "+1;") 0 with
  | error _ =>
    rw [hitems] at hread
    cases hread
  | ok items =>
    rw [hitems] at hread
    obtain ⟨e, he, htall⟩ := List.any_eq_true.mp hread
    exact ⟨items, rfl, e, he, of_decide_eq_true htall⟩

end ScriptHost
