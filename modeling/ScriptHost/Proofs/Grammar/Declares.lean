import ScriptHost.Proofs.Grammar.Seam.Join
import ScriptHost.Proofs.Scope.Bodies
/-!
# Where declarations end

A declaration ends with a closing brace, and a source text of nothing but declarations with a closing
brace or a semicolon, if it is not empty: `parse_declares`.
-/

set_option autoImplicit false

namespace ScriptHost

/-- Nothing but declarations: no statement stands outside of a body. -/
def Declares (items : List Item) : Prop :=
  Item.statementsAll items = []

theorem declares_iff {items : List Item} : Declares items ↔ ∀ i ∈ items, i.statements = [] := by
  unfold Declares
  induction items with
  | nil => simp [Item.statementsAll]
  | cons first rest ih => simp [Item.statementsAll, ih]

namespace Grammar

variable {α β : Type}

/-! ## What is left -/

/-- What is left ends with an end of text. -/
def State.Capped (s : State) : Prop :=
  ∃ front last, s.rest = front ++ [last] ∧ last.token = .eof

/-- A state has less left than another, or as much, and still an end of text. -/
structure State.Later (s t : State) : Prop where
  left : t.rest <:+ s.rest
  capped : s.Capped → t.Capped

theorem State.Later.refl (s : State) : s.Later s :=
  ⟨List.suffix_rfl, id⟩

theorem State.Later.trans {s t u : State} (h : s.Later t) (h' : t.Later u) : s.Later u :=
  ⟨h'.left.trans h.left, h'.capped ∘ h.capped⟩

theorem State.Later.of_rest {s t : State} (h : t.rest = s.rest) : s.Later t := by
  refine ⟨h ▸ List.suffix_rfl, ?_⟩
  unfold State.Capped
  rw [h]
  exact id

theorem State.later_advance (s : State) : s.Later s.advance := by
  unfold State.advance
  split
  · rename_i lexeme next rest hrest
    refine ⟨by rw [hrest]; exact List.suffix_cons lexeme _, ?_⟩
    rintro ⟨front, last, hfront, hlast⟩
    rw [hrest] at hfront
    cases front with
    | nil => cases hfront
    | cons first front => exact ⟨front, last, (List.cons.inj hfront).2, hlast⟩
  · exact .refl s

theorem State.later_pastSemicolons (rest : List Lexeme) (s : State) :
    s.Later (s.pastSemicolons rest) := by
  induction rest generalizing s with
  | nil => exact .refl s
  | cons lexeme rest ih =>
    rw [State.pastSemicolons]
    split
    · exact s.later_advance.trans (ih _)
    · exact .refl s

theorem State.later_synchronize (start : Nat) (rest : List Lexeme) (s : State) :
    s.Later (synchronize start rest s) := by
  induction rest generalizing s with
  | nil => exact .refl s
  | cons lexeme rest ih =>
    rw [synchronize]
    split
    · exact .refl s
    · exact s.later_advance
    · exact s.later_advance
    all_goals
      first
      | exact s.later_advance.trans (ih _)
      | split
        · exact .refl s
        · exact s.later_advance.trans (ih _)

/-- A token in front of the end is taken. -/
theorem State.Capped.advance {s : State} (h : s.Capped) (htoken : s.token ≠ .eof) :
    ∃ lexeme, s.rest = lexeme :: s.advance.rest ∧ lexeme.token = s.token := by
  obtain ⟨front, last, hrest, hlast⟩ := h
  unfold State.token at htoken ⊢
  unfold State.advance
  cases front with
  | nil =>
    rw [hrest] at htoken
    exact absurd hlast htoken
  | cons first front =>
    obtain ⟨next, rest, hnext⟩ := List.exists_cons_of_ne_nil
      (List.append_ne_nil_of_right_ne_nil front (List.cons_ne_nil last []))
    rw [List.cons_append, hnext] at hrest
    rw [hrest]
    exact ⟨first, rfl, rfl⟩

/-- The state behind a rule, whether it has succeeded or not. -/
def after : EStateM.Result Diagnostic State α → State
  | .ok _ t => t
  | .error _ t => t

/-- Rules only take lexemes. -/
theorem Stepwise.later {rule : Rule α} (h : Stepwise rule) :
    ∀ s : State, s.Later (after (rule s)) := by
  induction h with
  | pure _ | look | fail _ _ => exact fun s => .refl s
  | depth _ | report _ _ => exact fun s => .of_rest rfl
  | bind _ _ ihfirst ihrest =>
    intro s
    rename_i rule next _ _
    have hfirst := ihfirst s
    cases hrule : rule s with
    | ok a t =>
      rw [hrule] at hfirst
      rw [bind_of_ok hrule]
      exact hfirst.trans (ihrest a t)
    | error e t =>
      rw [hrule] at hfirst
      rw [bind_of_error hrule]
      exact hfirst
  | advance => exact fun s => s.later_advance
  | skipSemicolons => exact fun s => s.later_pastSemicolons s.rest
  | ascending _ ih =>
    rename_i rule _
    intro s
    have hinner := ih s
    unfold Grammar.ascending
    cases hrule : rule s with
    | ok a t | error e t =>
      rw [hrule] at hinner
      exact hinner.trans (.of_rest rfl)
  | recovering _ ih =>
    rename_i rule _
    intro s
    have hinner := ih s
    unfold Grammar.recovering
    cases hrule : rule s with
    | ok a t =>
      rw [hrule] at hinner
      exact hinner
    | error e t =>
      rw [hrule] at hinner
      refine hinner.trans (.trans ?_ (State.later_synchronize _ _ _))
      exact .of_rest rfl

theorem Stepwise.later_ok {rule : Rule α} (h : Stepwise rule) {s t : State} {a : α}
    (hok : rule s = .ok a t) : s.Later t := by
  have hlater := h.later s
  rw [hok] at hlater
  exact hlater

/-! ## The last token -/

/-- Between two states lexemes have been taken, the last of them one that ends a statement or a
declaration. -/
def ClosesBetween (s t : State) : Prop :=
  ∃ lexeme, (lexeme :: t.rest) <:+ s.rest ∧ closing lexeme.token = true

theorem State.Later.closesBetween {s t u : State} (h : s.Later t) (h' : ClosesBetween t u) :
    ClosesBetween s u := by
  obtain ⟨lexeme, hrest, hclosing⟩ := h'
  exact ⟨lexeme, hrest.trans h.left, hclosing⟩

/-- The rule ends with a token that ends a statement or a declaration. -/
def Closes (rule : Rule α) : Prop :=
  ∀ ⦃s t : State⦄ ⦃a : α⦄, s.Capped → rule s = .ok a t → ClosesBetween s t

theorem Closes.after {rule : Rule α} {next : α → Rule β} (hrule : Stepwise rule)
    (hnext : ∀ a, Closes (next a)) : Closes (rule >>= next) := by
  intro s u b hs hok
  obtain ⟨a, t, hfirst, hlast⟩ := bind_eq_ok.mp hok
  have hlater := hrule.later_ok hfirst
  exact hlater.closesBetween (hnext a (hlater.capped hs) hlast)

theorem Closes.map {rule : Rule α} (h : Closes rule) (f : α → β) :
    Closes (rule >>= fun a => pure (f a)) := by
  intro s u b hs hok
  obtain ⟨a, t, hfirst, hlast⟩ := bind_eq_ok.mp hok
  cases hlast
  exact h hs hfirst

/-- A token that ends a declaration has been taken. -/
theorem closes_expect {token : Token} (what : String) (hclosing : closing token = true) :
    Closes (expect token what) := by
  intro s t span hs hok
  unfold expect at hok
  rw [peek_bind] at hok
  split at hok
  · rename_i htoken
    rw [here_bind] at hok
    cases hok
    obtain ⟨lexeme, hrest, hlexeme⟩ := hs.advance fun heof => by
      rw [← htoken, heof] at hclosing
      cases hclosing
    exact ⟨lexeme, hrest ▸ List.suffix_rfl, by rw [hlexeme, htoken, hclosing]⟩
  · cases hok

theorem closes_functionDecl : Closes functionDecl :=
  .after .here fun _ => .after (.expect _ _) fun _ => .after .identifier fun _ =>
    .after (.expect _ _) fun _ => .after .budget fun _ => .after (.parameters _ _) fun _ =>
      .after (.expect _ _) fun _ => .after (.expect _ _) fun _ =>
        .after (Stepwise.block .statement).nested fun _ => .after .here fun _ =>
          (closes_expect _ rfl).map _

theorem closes_classDecl : Closes classDecl :=
  .after .here fun _ => .after (.expect _ _) fun _ => .after .identifier fun _ =>
    .after (.expect _ _) fun _ => .after .skipSemicolons fun _ => .after .budget fun _ =>
      .after (.members _ _ _) fun _ => .after .here fun _ => (closes_expect _ rfl).map _

theorem closes_namespaceOver {item : Rule (Option Item)} (h : Stepwise item) :
    Closes (namespaceOver item) :=
  .after .here fun _ => .after (.expect _ _) fun _ => .after .dottedName fun _ =>
    .after (.expect _ _) fun _ => .after .skipSemicolons fun _ =>
      .after (Stepwise.budget.bind fun fuel => .itemList h fuel []).nested fun _ =>
        .after .here fun _ => (closes_expect _ rfl).map _

/-- An item ends so if it is no statement. -/
theorem closesBetween_itemOver {rule : Rule (Option Item)} (h : Stepwise rule) {s t : State}
    {found : Item} (hs : s.Capped) (hok : itemOver rule s = .ok found t)
    (hfound : found.statements = []) : ClosesBetween s t := by
  unfold itemOver at hok
  rw [peek_bind] at hok
  generalize s.token = token at hok
  split at hok
  · exact closes_namespaceOver h hs hok
  · exact (closes_classDecl.map _) hs hok
  · exact (closes_functionDecl.map _) hs hok
  · obtain ⟨stmt, u, -, hlast⟩ := bind_eq_ok.mp hok
    cases hlast
    cases hfound

theorem closesBetween_item {s t : State} {found : Option Item} (hs : s.Capped)
    (hok : item s = .ok found t) (hclean : t.errors = #[])
    (hfound : ∀ i ∈ found, i.statements = []) : ClosesBetween s t := by
  change recovering (itemOver (itemWithin maxNesting)) s = _ at hok
  unfold recovering at hok
  cases hitem : itemOver (itemWithin maxNesting) s with
  | ok i u =>
    rw [hitem] at hok
    cases hok
    exact closesBetween_itemOver (.itemWithin _) hs hitem (hfound i rfl)
  | error e u =>
    rw [hitem] at hok
    cases hok
    rw [State.errors_synchronize] at hclean
    exact absurd hclean Array.push_ne_empty

/-- Nothing has been taken, or what has been taken ends as declarations do. -/
def Behind (s t : State) : Prop :=
  t.rest = s.rest ∨ ClosesBetween s t

theorem Behind.left {s t : State} (h : Behind s t) : t.rest <:+ s.rest := by
  obtain hsame | ⟨lexeme, hrest, -⟩ := h
  · exact hsame ▸ List.suffix_rfl
  · exact (List.suffix_cons lexeme t.rest).trans hrest

theorem Behind.pastSemicolons {s : State} (rest : List Lexeme) {t : State} (hrest : t.rest = rest)
    (ht : t.Capped) (h : Behind s t) : Behind s (t.pastSemicolons rest) := by
  induction rest generalizing t with
  | nil => exact h
  | cons first rest ih =>
    rw [State.pastSemicolons]
    split
    · rename_i hsemicolon
      have htoken : t.token = .semicolon := by
        rw [State.token, hrest]
        exact hsemicolon
      obtain ⟨lexeme, hadvance, hlexeme⟩ := ht.advance (by rw [htoken]; exact Token.noConfusion)
      rw [htoken] at hlexeme
      refine ih ?_ (t.later_advance.capped ht) (.inr ⟨lexeme, hadvance ▸ h.left, by rw [hlexeme]; rfl⟩)
      rw [hadvance] at hrest
      exact (List.cons.inj hrest).2
    · exact h

/-- Items that declare and do nothing else end as declarations do. -/
theorem behind_topLevel {s : State} (fuel : Nat) (found : List Item) {t u : State}
    {items : List Item} (ht : t.Capped) (hok : topLevel fuel found t = .ok items u)
    (hclean : u.errors = #[]) :
    ∃ new, items = found.reverse ++ new ∧
      ((∀ i ∈ new, i.statements = []) → Behind s t → Behind s u) := by
  induction fuel generalizing found t with
  | zero =>
    cases hok
    exact ⟨[], by simp, fun _ h => h⟩
  | succ fuel ih =>
    by_cases heof : t.token = .eof
    · rw [topLevel_end _ found heof] at hok
      cases hok
      exact ⟨[], by simp, fun _ h => h⟩
    · have hbrace : t.token ≠ .rbrace := fun hbrace => topLevel_brace hbrace hok hclean
      rw [topLevel_item fuel found heof hbrace] at hok
      obtain ⟨next, v, hitem, hrest⟩ := bind_eq_ok.mp hok
      have hsteps : Stepwise (skipSemicolons >>= fun _ => topLevel fuel (next.toList ++ found)) :=
        Stepwise.skipSemicolons.bind fun _ => .topLevel fuel _
      have hitemClean := hsteps.unblamed v (by rw [hrest]; exact hclean)
      have hv : v.Capped := ((Stepwise.itemWithin _).later_ok hitem).capped ht
      have hafter := (State.later_pastSemicolons v.rest v).capped hv
      obtain ⟨new, rfl, hnew⟩ := ih (next.toList ++ found) hafter hrest
      refine ⟨next.toList ++ new, by cases next <;> simp, fun hdeclares hbehind => ?_⟩
      refine hnew (fun i hi => hdeclares i (List.mem_append_right _ hi)) ?_
      refine Behind.pastSemicolons v.rest rfl hv (.inr ?_)
      have hends := closesBetween_item ht hitem hitemClean fun i hi =>
        hdeclares i (List.mem_append_left _ (Option.mem_toList.mpr hi))
      obtain ⟨lexeme, hlexeme, hclosing⟩ := hends
      exact ⟨lexeme, hlexeme.trans hbehind.left, hclosing⟩

/-- Reading goes on up to the end. -/
theorem token_of_sourceText {lexemes : List Lexeme} (hended : Ended lexemes) {items : List Item}
    {t : State} (hread : sourceText (.ofLexemes lexemes) = .ok items t) (hclean : t.errors = #[]) :
    t.token = .eof := by
  obtain ⟨front, last, rfl, hlast, hnoEnd⟩ := hended
  have hbegin : Ahead (.onlyEnd last hlast False) (front ++ [last]).length
      (.ofLexemes (front ++ [last])) (.ofLexemes (front ++ [last])) := {
    rest := ⟨front, front, last, rfl, hlast, rfl, rfl, hnoEnd, .inl trivial⟩
    bound := Nat.le_refl _
    total := ⟨Nat.le_refl _, Nat.le_refl _⟩
    even := False.elim
    depth := rfl
    errors := .refl _ }
  rw [sourceText_eq] at hread
  obtain ⟨_, _, _, _, -, -, -, -, heof, -⟩ :=
    topLevel_alike _ (((State.ofLexemes (front ++ [last])).pastSemicolons (front ++ [last])).total + 1)
      (front ++ [last]).length [] [] _ _
      (by rw [total_ofLexemes]; exact hbegin.fueled) hbegin.pos hbegin.pastSemicolons hread hclean
  exact heof

end Grammar

open Grammar

/-- A source text of nothing but declarations ends with a token that ends a declaration or a
statement, if it is not empty. -/
theorem parse_declares {lexemes : List Lexeme} (hended : Ended lexemes) {items : List Item}
    (hread : parse lexemes = .ok items) (hitems : Declares items) :
    ∀ lexeme ∈ lexemes.dropLast.getLast?, closing lexeme.token = true := by
  obtain ⟨t, hsource, hclean⟩ := parse_eq_ok.mp hread
  have heof := token_of_sourceText hended hsource hclean
  obtain ⟨front, last, rfl, hlast, hnoEnd⟩ := hended
  have hcapped : (State.ofLexemes (front ++ [last])).Capped := ⟨front, last, rfl, hlast⟩
  have hend := (Stepwise.sourceText.later_ok hsource).capped hcapped
  rw [sourceText_eq] at hsource
  obtain ⟨new, rfl, hnew⟩ := behind_topLevel (s := .ofLexemes (front ++ [last])) _ [] 
    ((State.later_pastSemicolons _ _).capped hcapped) hsource hclean
  have hbehind := hnew (declares_iff.mp hitems) (.pastSemicolons _ rfl hcapped (.inl rfl))
  obtain ⟨taken, final, hrest, -⟩ := hend
  -- The reader stands before the one lexeme that is an end.
  have hnone (hmem : ∀ lexeme ∈ taken, lexeme ∈ front) : taken = [] := by
    cases taken with
    | nil => rfl
    | cons first taken =>
      rw [State.token, hrest] at heof
      exact absurd heof (hnoEnd first (hmem first List.mem_cons_self))
  rw [List.dropLast_concat]
  obtain hsame | ⟨lexeme, ⟨before, hbefore⟩, hclosing⟩ := hbehind
  · have hall : taken ++ [final] = front ++ [last] := hrest.symm.trans hsame
    obtain ⟨rfl, -⟩ := List.append_inj' hall rfl
    rw [hnone fun _ h => h]
    rintro _ ⟨⟩
  · rw [hrest] at hbefore
    have hall : (before ++ lexeme :: taken) ++ [final] = front ++ [last] := by
      rw [List.append_assoc]
      exact hbefore
    obtain ⟨rfl, -⟩ := List.append_inj' hall rfl
    rw [hnone fun other hother => List.mem_append_right _ (List.mem_cons_of_mem _ hother)]
    intro other hother
    rw [List.getLast?_concat] at hother
    cases hother
    exact hclosing

end ScriptHost
