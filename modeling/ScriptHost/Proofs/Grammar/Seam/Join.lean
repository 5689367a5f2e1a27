import ScriptHost.Proofs.Grammar.Height
import ScriptHost.Proofs.Grammar.Reads
import ScriptHost.Proofs.Grammar.Seam.Clean
/-!
# Two texts joined at a seam

The lexemes of two texts, one behind the other, are read as the items of the first and then those of
the second, if both are well formed and the first ends where a statement may end.
-/

set_option autoImplicit false

namespace ScriptHost

namespace Grammar

/-! ## No item starts with `else` -/

/-- The rule fails before an `else`. -/
def RefusesElse {α : Type} (rule : Rule α) : Prop :=
  ∀ s : State, s.token = .kwElse → ∃ e t, rule s = .error e t

section

variable {α β : Type} {rule : Rule α} {inner : Rule Expr}

theorem RefusesElse.bind (h : RefusesElse rule) (next : α → Rule β) :
    RefusesElse (rule >>= next) := by
  intro s hs
  obtain ⟨e, t, herror⟩ := h s hs
  exact ⟨e, t, bind_of_error herror⟩

theorem RefusesElse.peek {next : Token → Rule α} (h : RefusesElse (next .kwElse)) :
    RefusesElse (peek >>= next) := by
  intro s hs
  rw [peek_bind, hs]
  exact h s hs

theorem RefusesElse.nested (h : RefusesElse rule) : RefusesElse (nested rule) := by
  intro s hs
  change ∃ e t, (descend >>= fun _ => ascending rule) s = .error e t
  cases hdescend : descend s with
  | error e t => exact ⟨e, t, bind_of_error hdescend⟩
  | ok a t =>
    obtain rfl := descend_ok hdescend
    obtain ⟨e, u, herror⟩ := h { s with depth := s.depth + 1 } hs
    refine ⟨e, u.ascend, ?_⟩
    rw [bind_of_ok hdescend, ascending, herror]

theorem refusesElse_primary : RefusesElse (primary inner) := by
  intro s hs
  rw [primary, here_bind, peek_bind, hs]
  exact ⟨_, s, rfl⟩

theorem refusesElse_level {op? : Token → Option BinaryOp} (h : RefusesElse inner) :
    RefusesElse (level op? inner) :=
  h.bind _

theorem refusesElse_operand (fuel : Nat) : RefusesElse (operand fuel) := by
  cases fuel with
  | zero => exact fun s _ => ⟨_, s, rfl⟩
  | succ fuel => exact .peek (refusesElse_primary.bind _)

theorem refusesElse_expression : RefusesElse expression :=
  (refusesElse_level <| refusesElse_level <| refusesElse_level <| refusesElse_level <|
    refusesElse_level <| refusesElse_level <| refusesElse_operand _).nested

theorem refusesElse_statement : RefusesElse statement :=
  .peek (refusesElse_expression.bind _)

theorem refusesElse_itemOver (item : Rule (Option Item)) : RefusesElse (itemOver item) :=
  .peek (refusesElse_statement.bind _)

/-- An item before an `else` is an error. -/
theorem item_else {s t : State} {found : Option Item} (hs : s.token = .kwElse)
    (h : item s = .ok found t) : t.errors ≠ #[] := by
  obtain ⟨e, u, herror⟩ := refusesElse_itemOver (itemWithin maxNesting) s hs
  change recovering (itemOver (itemWithin maxNesting)) s = _ at h
  unfold recovering at h
  rw [herror] at h
  cases h
  rw [State.errors_synchronize]
  exact Array.push_ne_empty

end

/-! ## Reading up to the seam -/

variable {seam : Seam} {n : Nat}

theorem Ahead.pos {s s' : State} (h : Ahead seam n s s') : 0 < n := by
  obtain ⟨front, front', last, hrest, -⟩ := h.rest
  have hbound := h.bound
  rw [hrest, List.length_append, List.length_singleton] at hbound
  omega

/-- In front of an end there is no seam. -/
theorem Firm.whole {s s' : State} (h : Firm seam n s s') (heof : s.token = .eof) : seam.whole := by
  obtain ⟨front, front', last, hrest, hlast, hrest', htokens, hnoEnd, -⟩ := h.rest
  refine h.inside.resolve_right fun hlong => ?_
  cases front with
  | nil => simp [hrest] at hlong
  | cons first front =>
    rw [State.token, hrest] at heof
    exact hnoEnd first List.mem_cons_self heof

theorem topLevel_end {s : State} (fuel : Nat) (found : List Item) (h : s.token = .eof) :
    topLevel fuel found s = .ok found.reverse s := by
  cases fuel with
  | zero => rfl
  | succ fuel =>
    rw [topLevel, peek_bind, h]
    rfl

theorem topLevel_item {s : State} (fuel : Nat) (found : List Item) (heof : s.token ≠ .eof)
    (hbrace : s.token ≠ .rbrace) :
    topLevel (fuel + 1) found s = (item >>= fun next => skipSemicolons >>= fun _ =>
      topLevel fuel (next.toList ++ found)) s := by
  rw [topLevel, peek_bind]
  generalize s.token = token at heof hbrace ⊢
  split
  · exact absurd rfl heof
  · exact absurd rfl hbrace
  · rfl

/-- A stray brace is an error. -/
theorem topLevel_brace {s t : State} {fuel : Nat} {found items : List Item}
    (hbrace : s.token = .rbrace) (h : topLevel (fuel + 1) found s = .ok items t) :
    t.errors ≠ #[] := by
  intro hclean
  rw [topLevel, peek_bind, hbrace] at h
  have hsteps : Stepwise (Grammar.advance >>= fun _ => Grammar.skipSemicolons >>= fun _ =>
      topLevel fuel found) :=
    Stepwise.advance.bind fun _ => Stepwise.skipSemicolons.bind fun _ => .topLevel fuel found
  refine absurd (hsteps.unblamed
    { s with errors := s.errors.push (ParseError.strayBrace.placed s.span) } ?_)
    Array.push_ne_empty
  change (Grammar.advance >>= fun _ => Grammar.skipSemicolons >>= fun _ => topLevel fuel found)
    { s with errors := s.errors.push (ParseError.strayBrace.placed s.span) } = _ at h
  rw [h]
  exact hclean

/-- The first reader reads all its items with nothing to complain of. The second reads the same
ones, and has more to read only behind a seam. -/
theorem topLevel_alike (fuel fuel' n : Nat) (found found' : List Item) (s s' : State)
    (hfuel : Fueled seam n fuel fuel') (hpos : 0 < n) (hs : Firm seam n s s' ∨ AtSeam seam s s')
    {items : List Item} {t : State} (hok : topLevel fuel found s = .ok items t)
    (hclean : t.errors = #[]) :
    ∃ (new new' : List Item) (less' : Nat) (t' : State), items = found.reverse ++ new ∧
      SameItems new new' ∧
        topLevel fuel' found' s' = topLevel less' (new'.reverse ++ found') t' ∧
          seam.tail.length < less' ∧ t.token = .eof ∧
            (Firm seam t.rest.length t t' ∨ AtSeam seam t t') := by
  by_cases heof : s.token = .eof
  · rw [topLevel_end fuel found heof] at hok
    cases hok
    refine ⟨[], [], fuel', s', by simp, rfl, rfl, ?_, heof,
      hs.imp_left fun hfirm => { hfirm with bound := Nat.le_refl _ }⟩
    have hfuel' := hfuel.2
    omega
  · have hfirm : Firm seam n s s' := hs.resolve_right fun hat => heof hat.token
    match n, fuel with
    | n + 1, 0 => exact absurd hfuel.1 (Nat.not_lt_zero _)
    | n + 1, fuel + 1 =>
      obtain ⟨less, rfl, hless⟩ := hfuel.pred
      have hbrace : s.token ≠ .rbrace := fun hbrace => topLevel_brace hbrace hok hclean
      rw [topLevel_item fuel found heof hbrace] at hok
      obtain ⟨next, s₁, hitem, hrest⟩ := bind_eq_ok.mp hok
      have hsteps : Stepwise (skipSemicolons >>= fun _ => topLevel fuel (next.toList ++ found)) :=
        Stepwise.skipSemicolons.bind fun _ => .topLevel fuel _
      obtain ⟨next', s₁', hitem', hnext, hahead⟩ := item_alike _ hfirm hitem
        (hsteps.unblamed s₁ (by rw [hrest]; exact hclean))
      obtain ⟨new, new', less', t', rfl, hnew, hgoes, hlength, hend, ht⟩ :=
        topLevel_alike fuel less n (next.toList ++ found) (next'.toList ++ found')
          (s₁.pastSemicolons s₁.rest) (s₁'.pastSemicolons s₁'.rest) hless hahead.pos
          hahead.pastSemicolons hrest hclean
      refine ⟨next.toList ++ new, next'.toList ++ new', less', t', ?_, hnext.toList.append hnew, ?_,
        hlength, hend, ht⟩
      · cases next <;> simp
      · have htoken := hfirm.token_eq
        rw [topLevel_item less found' (htoken ▸ heof) (htoken ▸ hbrace), bind_of_ok hitem']
        change topLevel less (next'.toList ++ found') (s₁'.pastSemicolons s₁'.rest) = _
        rw [hgoes]
        cases next' <;> simp

/-- Semicolons in front do not matter to where lexemes end. -/
theorem ended_dropWhile {lexemes : List Lexeme} (h : Ended lexemes) :
    Ended (lexemes.dropWhile (·.token == .semicolon)) := by
  obtain ⟨front, last, rfl, hlast, hnoEnd⟩ := h
  induction front with
  | nil =>
    refine ⟨[], last, ?_, hlast, by simp⟩
    simp [hlast]
  | cons first front ih =>
    rw [List.cons_append, List.dropWhile_cons]
    split
    · exact ih fun lexeme hlexeme => hnoEnd lexeme (List.mem_cons_of_mem _ hlexeme)
    · exact ⟨first :: front, last, rfl, hlast, hnoEnd⟩

/-- The same semicolons are in front of the same tokens. -/
theorem map_dropWhile_token {lexemes lexemes' : List Lexeme}
    (h : lexemes.map Lexeme.token = lexemes'.map Lexeme.token) :
    (lexemes.dropWhile (·.token == .semicolon)).map Lexeme.token =
      (lexemes'.dropWhile (·.token == .semicolon)).map Lexeme.token := by
  have hmap (ls : List Lexeme) : (ls.dropWhile (·.token == .semicolon)).map Lexeme.token =
      (ls.map Lexeme.token).dropWhile (· == .semicolon) := by
    rw [List.dropWhile_map]
    rfl
  rw [hmap, hmap, h]

/-- Past the semicolons in front of lexemes. -/
theorem State.rest_pastSemicolons_ofLexemes {lexemes : List Lexeme} (h : Ended lexemes) :
    ((ofLexemes lexemes).pastSemicolons lexemes).rest =
      lexemes.dropWhile (·.token == .semicolon) := by
  obtain ⟨front, last, rfl, hlast, -⟩ := h
  exact State.rest_pastSemicolons (s := ofLexemes (front ++ [last])) rfl
    (by rw [hlast]; exact Token.noConfusion)

/-- Reading begins behind the semicolons. -/
theorem sourceText_eq (lexemes : List Lexeme) :
    sourceText (.ofLexemes lexemes) =
      topLevel (((State.ofLexemes lexemes).pastSemicolons lexemes).total + 1) []
        ((State.ofLexemes lexemes).pastSemicolons lexemes) :=
  rfl

/-- A list of lexemes is accepted if it is read with nothing to complain of. -/
theorem parse_eq_ok {lexemes : List Lexeme} {items : List Item} :
    parse lexemes = .ok items ↔
      ∃ t, sourceText (.ofLexemes lexemes) = .ok items t ∧ t.errors = #[] := by
  unfold parse
  cases sourceText (.ofLexemes lexemes) with
  | ok found t =>
    dsimp only
    constructor
    · intro h
      split at h
      · rename_i hclean
        cases h
        exact ⟨t, rfl, Array.isEmpty_iff.mp hclean⟩
      · cases h
    · rintro ⟨u, hu, hclean⟩
      cases hu
      rw [hclean]
      rfl
  | error e t =>
    simp

/-- No source text begins with `else`. -/
theorem parse_noElse {lexemes : List Lexeme} {items : List Item}
    (h : parse lexemes = .ok items) : ∀ lexeme ∈ lexemes.head?, lexeme.token ≠ .kwElse := by
  intro first hfirst helse
  obtain ⟨t, hread, hclean⟩ := parse_eq_ok.mp h
  have htoken : (State.ofLexemes lexemes).token = .kwElse := by
    cases lexemes with
    | nil => cases hfirst
    | cons head rest =>
      cases hfirst
      exact helse
  have hself : (State.ofLexemes lexemes).pastSemicolons lexemes = .ofLexemes lexemes :=
    State.pastSemicolons_self (s := .ofLexemes lexemes) (by rw [htoken]; exact Token.noConfusion)
  rw [sourceText_eq, hself,
    topLevel_item _ [] (by rw [htoken]; exact Token.noConfusion)
      (by rw [htoken]; exact Token.noConfusion)] at hread
  obtain ⟨next, s₁, hitem, hrest⟩ := bind_eq_ok.mp hread
  have hsteps : Stepwise (skipSemicolons >>= fun _ =>
      topLevel (State.ofLexemes lexemes).total (next.toList ++ [])) :=
    Stepwise.skipSemicolons.bind fun _ => .topLevel _ _
  exact item_else htoken hitem (hsteps.unblamed s₁ (by rw [hrest]; exact hclean))

/-- A list of lexemes that is accepted leaves no level of nesting open. -/
theorem depth_of_topLevel {fuel : Nat} {items : List Item} {s t : State}
    (h : topLevel fuel [] s = .ok items t) : t.depth = s.depth :=
  (topLevel_reads (fun depth => (expression_bounded depth).imp fun _ _ => trivial) fuel []
    (by simp) rfl h).1

theorem errors_ofLexemes (lexemes : List Lexeme) :
    ((State.ofLexemes lexemes).pastSemicolons lexemes).errors = #[] :=
  State.errors_pastSemicolons lexemes _

theorem depth_ofLexemes (lexemes : List Lexeme) :
    ((State.ofLexemes lexemes).pastSemicolons lexemes).depth = 0 :=
  State.depth_pastSemicolons lexemes _

theorem total_ofLexemes (lexemes : List Lexeme) :
    ((State.ofLexemes lexemes).pastSemicolons lexemes).total = lexemes.length :=
  State.total_pastSemicolons lexemes _

/-- Behind a seam a text is read as it is read alone. -/
theorem topLevel_behind {lexemes rest : List Lexeme} {items : List Item} {t u : State}
    {fuel : Nat} (found : List Item) (hended : Ended lexemes)
    (hsame : lexemes.map Lexeme.token = rest.map Lexeme.token)
    (hread : sourceText (.ofLexemes lexemes) = .ok items t) (hclean : t.errors = #[])
    (hrest : u.rest = rest.dropWhile (·.token == .semicolon)) (htotal : u.rest.length ≤ u.total)
    (hdepth : u.depth = 0) (herrors : u.errors = #[]) (hfuel : rest.length < fuel) :
    ∃ new v, topLevel fuel found u = .ok (found.reverse ++ new) v ∧ v.errors = #[] ∧
      SameItems items new := by
  obtain ⟨front, front', last, last', hfront, hlast, hfront', hlast', htokens, hnoEnd⟩ :=
    ended_same (ended_dropWhile hended) (map_dropWhile_token hsame)
  have hlength : lexemes.length = rest.length := by simpa using congrArg List.length hsame
  have hshort : (lexemes.dropWhile (·.token == .semicolon)).length ≤ lexemes.length :=
    (List.dropWhile_sublist _).length_le
  have hbegin : Firm (.onlyEnd last' hlast' False)
      (lexemes.dropWhile (·.token == .semicolon)).length
      ((State.ofLexemes lexemes).pastSemicolons lexemes) u := {
    rest := ⟨front, front', last, (State.rest_pastSemicolons_ofLexemes hended).trans hfront, hlast,
      hrest.trans hfront', htokens, hnoEnd, .inl trivial⟩
    bound := (congrArg List.length (State.rest_pastSemicolons_ofLexemes hended)).le
    total := by
      rw [State.rest_pastSemicolons_ofLexemes hended, total_ofLexemes]
      exact ⟨hshort, htotal⟩
    even := False.elim
    depth := hdepth.trans (depth_ofLexemes lexemes).symm
    errors := by
      rw [herrors, errors_ofLexemes]
      exact .refl _
    inside := .inl trivial }
  rw [sourceText_eq] at hread
  obtain ⟨new, new', fuel', v, rfl, hnew, hgoes, -, heof, hstands⟩ :=
    topLevel_alike _ fuel _ [] found _ u
      ⟨by rw [total_ofLexemes]; omega, by
        change _ + 1 ≤ fuel
        omega⟩ hbegin.pos (.inl hbegin) hread hclean
  have hfirm := hstands.resolve_right fun hat => hat.more trivial
  refine ⟨new', v, ?_, ?_, hnew⟩
  · rw [hgoes, topLevel_end _ _ (hfirm.token_eq.trans heof)]
    simp
  · exact Array.toList_eq_nil_iff.mp (hfirm.errors.nil_iff.mp (by rw [hclean]))

end Grammar

open Grammar

/-- Lexemes of two texts, one behind the other, are read as the items of both. -/
theorem parse_join {front rest lexemes : List Lexeme} {last : Lexeme} {items items' : List Item}
    (hended : Ended (front ++ [last]))
    (hclosing : ∀ lexeme ∈ front.getLast?, closing lexeme.token = true)
    (hended' : Ended lexemes) (hsame : lexemes.map Lexeme.token = rest.map Lexeme.token)
    (hfirst : parse (front ++ [last]) = .ok items) (hsecond : parse lexemes = .ok items') :
    ∃ joined, parse (front ++ rest) = .ok joined ∧ SameItems (items ++ items') joined := by
  obtain ⟨t, hread, hclean⟩ := parse_eq_ok.mp hfirst
  obtain ⟨t', hread', hclean'⟩ := parse_eq_ok.mp hsecond
  obtain ⟨front₀, last₀, hfront, hlast, hnoEnd⟩ := hended
  obtain ⟨rfl, hlast₀⟩ := List.append_inj' hfront rfl
  cases hlast₀
  obtain ⟨-, front', -, last', -, -, hrest, hlast', -, -⟩ := ended_same hended' hsame
  let seam : Seam := {
    tail := rest
    whole := False
    even := False
    closed := ⟨front', last', hrest, hlast'⟩
    noElse := by
      intro lexeme hlexeme helse
      have hheads : lexemes.head?.map Lexeme.token = rest.head?.map Lexeme.token := by
        rw [← List.head?_map, ← List.head?_map, hsame]
      rw [Option.mem_def.mp hlexeme] at hheads
      obtain ⟨first, hhead, htoken⟩ := Option.map_eq_some_iff.mp hheads
      exact parse_noElse hsecond first hhead (htoken.trans helse)
    ofWhole := False.elim }
  have hbegin : Ahead seam (front ++ [last]).length (.ofLexemes (front ++ [last]))
      (.ofLexemes (front ++ rest)) := {
    rest := ⟨front, front, last, rfl, hlast, rfl, rfl, hnoEnd, .inr hclosing⟩
    bound := Nat.le_refl _
    total := ⟨Nat.le_refl _, Nat.le_refl _⟩
    even := False.elim
    depth := rfl
    errors := .refl _ }
  rw [sourceText_eq] at hread
  obtain ⟨new, new', fuel', u, rfl, hnew, hgoes, hfuel', heof, hstands⟩ :=
    topLevel_alike _ (((State.ofLexemes (front ++ rest)).pastSemicolons (front ++ rest)).total + 1)
      (front ++ [last]).length [] [] _ _
      (by rw [total_ofLexemes, total_ofLexemes]; exact hbegin.fueled)
      hbegin.pos hbegin.pastSemicolons hread hclean
  have hat : AtSeam seam t u := hstands.resolve_left fun hfirm => hfirm.whole heof
  obtain ⟨more, v, hmore, hcleanv, hsameMore⟩ :=
    topLevel_behind (new'.reverse ++ []) hended' hsame hread' hclean' hat.rest hat.total
      (by rw [hat.depth, depth_of_topLevel hread, depth_ofLexemes])
      (Array.toList_eq_nil_iff.mp (hat.errors.nil_iff.mp (by rw [hclean]))) hfuel'
  refine ⟨new' ++ more, parse_eq_ok.mpr ⟨v, ?_, hcleanv⟩, ?_⟩
  · refine ((sourceText_eq _).trans (hgoes.trans hmore)).trans ?_
    simp
  · exact hnew.append hsameMore

end ScriptHost
