import ScriptHost.Proofs.Grammar.Seam.Basic
/-!
# Expressions read side by side

No expression ends at a seam, as none has a last token that a statement can end with.
-/

set_option autoImplicit false

namespace ScriptHost.Grammar

variable {seam : Seam} {n : Nat}

/-- Expressions that are the same but for places. -/
def SameExpr (e e' : Expr) : Prop :=
  e.bare = e'.bare

/-- Arguments that are the same but for places. -/
def SameArgs (args args' : List Expr) : Prop :=
  args.map Expr.bare = args'.map Expr.bare

/-- Both rules read the same expression off at least one lexeme, before the seam. -/
def ReadsAlike (seam : Seam) (rule rule' : Rule Expr) : Prop :=
  ∀ n, Carries seam (Firm seam n) rule rule' (Gives SameExpr (Firm seam (n - 1)))

/-- What is read off more lexemes leaves fewer. -/
theorem Carries.fewer {α : Type} {m : Nat} {pre : State → State → Prop} {rule rule' : Rule α}
    {same : α → α → Prop} (h : Carries seam pre rule rule' (Gives same (Firm seam m)))
    (hm : m ≤ n) : Carries seam pre rule rule' (Gives same (Firm seam n)) :=
  h.imp fun _ _ _ _ hs => ⟨hs.1, hs.2.mono hm⟩

/-- An operator is no token that a statement can end with. -/
def Plain {α : Type} (op? : Token → Option α) : Prop :=
  ∀ token op, op? token = some op → token ≠ .eof ∧ closing token = false

theorem chain_alike {op? : Token → Option BinaryOp} (hop : Plain op?) {operand operand' : Rule Expr}
    (h : ReadsAlike seam operand operand') : ∀ (fuel n : Nat) (left left' : Expr),
      SameExpr left left' → Carries seam (Firm seam n) (chain op? operand fuel left)
        (chain op? operand' fuel left') (Gives SameExpr (Firm seam n))
  | 0, _, _, _, _ => .failHere steady_firm
  | fuel + 1, n, left, left', hleft => by
    rw [chain, chain]
    refine .peek fun token => ?_
    split
    · exact .pure fun _ _ hs => ⟨hleft, hs.toFirm⟩
    · rename_i op hfound
      obtain ⟨heof, hclosing⟩ := hop token op hfound
      refine (Carries.descend steady_at).step fun _ _ => ?_
      refine (Carries.advance_firm token heof hclosing).step fun _ _ => ?_
      refine (h (n - 1)).andThen fun right right' hright => ?_
      refine (chain_alike hop h fuel (n - 1 - 1) _ _ ?_).fewer (by omega)
      unfold SameExpr join Expr.bare
      rw [hleft, hright]

theorem level_alike {op? : Token → Option BinaryOp} (hop : Plain op?) {operand operand' : Rule Expr}
    (h : ReadsAlike seam operand operand') :
    ReadsAlike seam (level op? operand) (level op? operand') := by
  intro n
  unfold level
  refine (h n).andThen fun left left' hleft => .get fun u u' hu => ?_
  refine (chain_alike hop h _ (n - 1) left left' hleft).andThen fun whole whole' hwhole => ?_
  exact (Carries.restoreDepth steady_firm hu.depth).step fun _ _ => .pure fun _ _ hs => ⟨hwhole, hs⟩

theorem levels_alike {operand operand' : Rule Expr} (h : ReadsAlike seam operand operand') :
    ReadsAlike seam (levels operand) (levels operand') := by
  have hor : Plain orOp? := fun token op hop => by
    cases token <;> cases hop
    exact ⟨Token.noConfusion, rfl⟩
  have hand : Plain andOp? := fun token op hop => by
    cases token <;> cases hop
    exact ⟨Token.noConfusion, rfl⟩
  have hequality : Plain equalityOp? := fun token op hop => by
    cases token <;> cases hop <;> exact ⟨Token.noConfusion, rfl⟩
  have hcomparison : Plain comparisonOp? := fun token op hop => by
    cases token <;> cases hop <;> exact ⟨Token.noConfusion, rfl⟩
  have hsum : Plain sumOp? := fun token op hop => by
    cases token <;> cases hop <;> exact ⟨Token.noConfusion, rfl⟩
  have hproduct : Plain productOp? := fun token op hop => by
    cases token <;> cases hop <;> exact ⟨Token.noConfusion, rfl⟩
  exact level_alike hor <| level_alike hand <| level_alike hequality <|
    level_alike hcomparison <| level_alike hsum <| level_alike hproduct h

theorem expressionOver_alike {operand operand' : Rule Expr} (h : ReadsAlike seam operand operand') :
    ReadsAlike seam (expressionOver operand) (expressionOver operand') :=
  fun n => (levels_alike h n).nested steady_firm fun _ _ => steady_firm.gives _ _

theorem moreArguments_alike {rule rule' : Rule Expr} (h : ReadsAlike seam rule rule') :
    ∀ (fuel fuel' n : Nat) (found found' : List Expr), Fueled seam n fuel fuel' →
      SameArgs found found' → Carries seam (Firm seam n) (moreArguments rule fuel found)
        (moreArguments rule' fuel' found') (Gives SameArgs (Firm seam n))
  | _, _, 0, _, _, _, _ => .zero
  | 0, _, n + 1, _, _, hfuel, _ => absurd hfuel.1 (Nat.not_lt_zero _)
  | fuel + 1, fuel', n + 1, found, found', hfuel, hfound => by
    obtain ⟨less, rfl, hless⟩ := hfuel.pred
    have hreverse : SameArgs found.reverse found'.reverse := by
      unfold SameArgs
      rw [List.map_reverse, List.map_reverse, hfound]
    rw [moreArguments, moreArguments]
    refine .peek fun token => ?_
    split
    · rename_i hcomma
      subst hcomma
      refine (Carries.advance_firm .comma Token.noConfusion rfl).step fun _ _ => ?_
      refine (h n).andThen fun argument argument' hargument => ?_
      refine (moreArguments_alike h fuel less (n - 1) _ _ (hless.mono (Nat.sub_le n 1)) ?_).fewer
        (by omega)
      unfold SameArgs
      rw [List.map_cons, List.map_cons, hfound, hargument]
    · exact .pure fun _ _ hs => ⟨hreverse, hs.toFirm⟩

/-- The parenthesis behind arguments. -/
theorem closeArguments_alike {found found' : List Expr} (hfound : SameArgs found found') :
    Carries seam (Firm seam n)
      (do let _ ← expect .rparen "')' after arguments"; return found)
      (do let _ ← expect .rparen "')' after arguments"; return found')
      (Gives SameArgs (Firm seam (n - 1))) :=
  (Carries.expect_firm .rparen _ Token.noConfusion rfl).step fun _ _ =>
    .pure fun _ _ hs => ⟨hfound, hs⟩

theorem arguments_alike {rule rule' : Rule Expr} (h : ReadsAlike seam rule rule') :
    Carries seam (Firm seam n) (arguments rule) (arguments rule')
      (Gives SameArgs (Firm seam (n - 1))) := by
  unfold arguments
  refine .peek fun token => ?_
  split
  · exact (closeArguments_alike rfl).of_imp fun _ _ hs => hs.toFirm
  · refine Carries.of_imp ?_ fun s s' (hs : At seam token n s s') => hs.toFirm
    refine (h n).andThen fun first first' hfirst => .budget fun m fuel fuel' hm hfuel => ?_
    refine (moreArguments_alike h fuel fuel' m _ _ hfuel ?_).andThen fun found found' hfound =>
      (closeArguments_alike hfound).fewer (by omega)
    exact congrArg (fun e => [e]) hfirst

theorem moreNames_alike : ∀ (fuel fuel' n : Nat) (found : List String), Fueled seam n fuel fuel' →
    Carries seam (Firm seam n) (moreNames fuel found) (moreNames fuel' found)
      (Gives Eq (Firm seam n))
  | _, _, 0, _, _ => .zero
  | 0, _, n + 1, _, hfuel => absurd hfuel.1 (Nat.not_lt_zero _)
  | fuel + 1, fuel', n + 1, found, hfuel => by
    obtain ⟨less, rfl, hless⟩ := hfuel.pred
    rw [moreNames, moreNames]
    refine .peek fun token => ?_
    split
    · rename_i hdot
      subst hdot
      refine (Carries.advance_firm .dot Token.noConfusion rfl).step fun _ _ => ?_
      refine Carries.identifier.andThen fun name name' hname => ?_
      subst hname
      exact (moreNames_alike fuel less (n - 1) _ (hless.mono (Nat.sub_le n 1))).fewer (by omega)
    · exact .pure fun _ _ hs => ⟨rfl, hs.toFirm⟩

theorem dottedName_alike :
    Carries seam (Firm seam n) dottedName dottedName (Gives Eq (Firm seam (n - 1))) := by
  unfold dottedName
  refine Carries.identifier.andThen fun first first' hfirst => ?_
  subst hfirst
  exact .budget fun m fuel fuel' hm hfuel => (moreNames_alike fuel fuel' m _ hfuel).fewer hm

theorem creation_alike {rule rule' : Rule Expr} (h : ReadsAlike seam rule rule') :
    ReadsAlike seam (creation rule) (creation rule') := by
  intro n
  unfold creation
  refine (Carries.expect_firm .kwNew _ Token.noConfusion rfl).step fun start start' => ?_
  refine dottedName_alike.andThen fun path path' hpath => ?_
  refine (Carries.expect_firm .lparen _ Token.noConfusion rfl).step fun _ _ => ?_
  refine (arguments_alike h).andThen fun args args' hargs => .previous fun span span' => ?_
  refine .pure fun _ _ hs => ⟨?_, hs.mono (by omega)⟩
  unfold SameExpr
  rw [Expr.bare, Expr.bare, Expr.bareAll_eq, Expr.bareAll_eq, hargs, hpath]

theorem literal?_alike {span : Span} (span' : Span) {token : Token} {e : Expr}
    (h : literal? span token = some e) :
    token ≠ .eof ∧ closing token = false ∧ ∃ e', literal? span' token = some e' ∧ SameExpr e e' := by
  cases token <;> cases h <;> exact ⟨Token.noConfusion, rfl, _, rfl, rfl⟩

theorem literal?_none {span span' : Span} {token : Token} (h : literal? span token = none) :
    literal? span' token = none := by
  cases token <;> cases h <;> rfl

theorem primary_alike {rule rule' : Rule Expr} (h : ReadsAlike seam rule rule') :
    ReadsAlike seam (primary rule) (primary rule') := by
  intro n
  unfold primary
  refine .here fun span span' => .peek fun token => ?_
  cases hliteral : literal? span token with
  | some e =>
    obtain ⟨heof, hclosing, e', hliteral', hsame⟩ := literal?_alike span' hliteral
    rw [hliteral']
    exact (Carries.advance_firm token heof hclosing).step fun _ _ => .pure fun _ _ hs => ⟨hsame, hs⟩
  | none =>
    rw [literal?_none hliteral]
    dsimp only
    split
    · rename_i hparen
      subst hparen
      refine (Carries.advance_firm .lparen Token.noConfusion rfl).step fun _ _ => ?_
      refine (h (n - 1)).andThen fun inner inner' hinner => ?_
      refine (Carries.expect_firm .rparen _ Token.noConfusion rfl).step fun _ _ => ?_
      exact .pure fun _ _ hs => ⟨hinner, hs.mono (by omega)⟩
    · split
      · exact (creation_alike h n).of_imp fun _ _ hs => hs.toFirm
      · exact .failHere steady_at

theorem member_alike {rule rule' : Rule Expr} (h : ReadsAlike seam rule rule')
    {object object' : Expr} (hobject : SameExpr object object') :
    Carries seam (At seam .dot n) (member rule object) (member rule' object')
      (Gives SameExpr (Firm seam (n - 1))) := by
  unfold member
  refine (Carries.descend steady_at).step fun _ _ => ?_
  refine (Carries.advance_firm .dot Token.noConfusion rfl).step fun _ _ =>
    .here fun span span' => ?_
  refine Carries.identifier.andThen fun name name' hname => ?_
  subst hname
  refine .peek fun token => ?_
  split
  · rename_i hparen
    subst hparen
    refine (Carries.advance_firm .lparen Token.noConfusion rfl).step fun _ _ => ?_
    refine (arguments_alike h).andThen fun args args' hargs => .previous fun _ _ => ?_
    refine .pure fun _ _ hs => ⟨?_, hs.mono (by omega)⟩
    unfold SameExpr
    rw [Expr.bare, Expr.bare, Expr.bareAll_eq, Expr.bareAll_eq, hargs, hobject]
  · refine .pure fun _ _ hs => ⟨?_, hs.toFirm.mono (by omega)⟩
    unfold SameExpr
    rw [Expr.bare, Expr.bare, hobject]

/-- An identifier is one in both readings. -/
theorem SameExpr.ident {name : String} {span : Span} {e' : Expr}
    (h : SameExpr (.ident name span) e') : ∃ span', e' = .ident name span' := by
  cases e' <;> cases h
  exact ⟨_, rfl⟩

theorem SameExpr.symm {e e' : Expr} (h : SameExpr e e') : SameExpr e' e :=
  Eq.symm h

theorem postfixChain_alike {rule rule' : Rule Expr} (h : ReadsAlike seam rule rule') :
    ∀ (fuel n : Nat) (object object' : Expr), SameExpr object object' →
      Carries seam (Firm seam n) (postfixChain rule fuel object)
        (postfixChain rule' fuel object') (Gives SameExpr (Firm seam n))
  | 0, _, _, _, _ => .failHere steady_firm
  | fuel + 1, n, object, object', hobject => by
    rw [postfixChain, postfixChain]
    refine .peek fun token => ?_
    split
    · refine (member_alike h hobject).andThen fun whole whole' hwhole => ?_
      exact (postfixChain_alike h fuel (n - 1) whole whole' hwhole).fewer (Nat.sub_le n 1)
    · obtain ⟨span', rfl⟩ := hobject.ident
      refine (Carries.descend steady_at).step fun _ _ => ?_
      refine (Carries.advance_firm .lparen Token.noConfusion rfl).step fun _ _ => ?_
      refine (arguments_alike h).andThen fun args args' hargs => .previous fun _ _ => ?_
      refine (postfixChain_alike h fuel (n - 1 - 1) _ _ ?_).fewer (by omega)
      unfold SameExpr
      rw [Expr.bare, Expr.bare, Expr.bareAll_eq, Expr.bareAll_eq, hargs]
    · rename_i hdot hcall
      split
      · exact absurd rfl hdot
      · obtain ⟨span, rfl⟩ := hobject.symm.ident
        exact absurd rfl (hcall _ _ rfl)
      · exact .pure fun _ _ hs => ⟨hobject, hs.toFirm⟩

theorem postfixExpr_alike {rule rule' : Rule Expr} (h : ReadsAlike seam rule rule') :
    ReadsAlike seam (postfixExpr rule) (postfixExpr rule') := by
  intro n
  unfold postfixExpr
  refine (primary_alike h n).andThen fun object object' hobject => .get fun u u' hu => ?_
  refine (postfixChain_alike h _ (n - 1) object object' hobject).andThen fun whole whole' hwhole => ?_
  exact (Carries.restoreDepth steady_firm hu.depth).step fun _ _ => .pure fun _ _ hs => ⟨hwhole, hs⟩

theorem operand_alike : ∀ fuel : Nat, ReadsAlike seam (operand fuel) (operand fuel)
  | 0, _ => .failHere steady_firm
  | fuel + 1, n => by
    rw [operand]
    refine .peek fun token => ?_
    split
    · rename_i op hop
      have hplain : token ≠ .eof ∧ closing token = false := by
        cases token <;> cases hop <;> exact ⟨Token.noConfusion, rfl⟩
      refine .here fun start start' => ?_
      refine (Carries.advance_firm token hplain.1 hplain.2).step fun _ _ => ?_
      refine ((operand_alike fuel (n - 1)).nested steady_firm fun _ _ =>
        steady_firm.gives _ _).andThen fun inner inner' hinner => ?_
      refine .pure fun _ _ hs => ⟨?_, hs.mono (Nat.sub_le _ 1)⟩
      unfold SameExpr
      rw [Expr.bare, Expr.bare, hinner]
    · exact (postfixExpr_alike (expressionOver_alike (operand_alike fuel)) n).of_imp
        fun _ _ hs => hs.toFirm

theorem expression_alike : ReadsAlike seam expression expression :=
  expressionOver_alike (operand_alike _)

end ScriptHost.Grammar
