import ScriptHost.Proofs.Grammar.Seam.Whole
/-!
# Items read side by side across a seam

Behind an error a reader goes on as best it can, and what it takes for the next item depends on what
follows. So readers with different texts behind the seam are compared only where the first of them
has nothing to complain of. It then reads all items up to the seam, and the second reader, having
read the same, stands behind it.
-/

set_option autoImplicit false

namespace ScriptHost.Grammar

variable {α β : Type}

/-! ## Nothing to complain of -/

/-- Nothing has been found wrong up to where a rule ends. -/
def Unblamed : EStateM.Result Diagnostic State α → Prop
  | .ok _ t => t.errors = #[]
  | .error _ t => t.errors = #[]

/-- Errors that have been found stay found. -/
theorem Stepwise.unblamed {rule : Rule α} (h : Stepwise rule) :
    ∀ s : State, Unblamed (rule s) → s.errors = #[] := by
  induction h with
  | pure _ | look | fail _ _ | depth _ => exact fun s hs => hs
  | bind _ _ ihfirst ihrest =>
    intro s hs
    rename_i rule next _ _
    refine ihfirst s ?_
    cases hrule : rule s with
    | ok a after =>
      rw [bind_of_ok hrule] at hs
      exact ihrest a after hs
    | error e after =>
      rw [bind_of_error hrule] at hs
      exact hs
  | advance => exact fun s hs => s.errors_advance.symm.trans hs
  | skipSemicolons => exact fun s hs => (s.errors_pastSemicolons s.rest).symm.trans hs
  | report e span => exact fun s hs => absurd hs Array.push_ne_empty
  | ascending _ ih =>
    rename_i rule _
    intro s hs
    refine ih s ?_
    unfold Grammar.ascending at hs
    cases hrule : rule s with
    | ok a after | error e after =>
      rw [hrule] at hs
      exact hs
  | recovering _ ih =>
    rename_i rule _
    intro s hs
    refine ih s ?_
    unfold Grammar.recovering at hs
    cases hrule : rule s with
    | ok a after =>
      rw [hrule] at hs
      exact hs
    | error e after =>
      rw [hrule] at hs
      exact absurd ((State.errors_synchronize _ _ _).symm.trans hs) Array.push_ne_empty

/-! ## Rules -/

variable {seam : Seam} {n : Nat} {pre mid : State → State → Prop}
  {post : α → α → State → State → Prop} {rule rule' : Rule α} {same : α → α → Prop}

/-- If the first reader succeeds and has nothing to complain of, the second follows it, unless the
first comes to a seam. -/
def TidyNears (seam : Seam) (pre : State → State → Prop) (rule rule' : Rule α)
    (post : α → α → State → State → Prop) : Prop :=
  ∀ ⦃s s' : State⦄, pre s s' → ∀ ⦃a t⦄, rule s = .ok a t → t.errors = #[] →
    Over seam t ∨ ∃ a' t', rule' s' = .ok a' t' ∧ post a a' t t'

/-- If the first reader succeeds and has nothing to complain of, the second follows it. -/
def Tidy (pre : State → State → Prop) (rule rule' : Rule α)
    (post : α → α → State → State → Prop) : Prop :=
  ∀ ⦃s s' : State⦄, pre s s' → ∀ ⦃a t⦄, rule s = .ok a t → t.errors = #[] →
    ∃ a' t', rule' s' = .ok a' t' ∧ post a a' t t'

theorem Carries.tidy (h : Carries seam pre rule rule' post) : Tidy pre rule rule' post := by
  intro s s' hs a t hok _
  have hfollows := h hs
  rw [hok] at hfollows
  exact hfollows

/-- Behind a step that both readers take, where the first one succeeds in the end. -/
theorem Carries.ok_of_bind {next : α → Rule β} {s s' u : State} {b : β}
    (h : Carries seam pre rule rule' post) (hs : pre s s') (hok : (rule >>= next) s = .ok b u) :
    ∃ a t a' t', next a t = .ok b u ∧ rule' s' = .ok a' t' ∧ post a a' t t' := by
  obtain ⟨a, t, hrule, hlast⟩ := bind_eq_ok.mp hok
  have hfollows := h hs
  rw [hrule] at hfollows
  obtain ⟨a', t', hrule', hafter⟩ := hfollows
  exact ⟨a, t, a', t', hlast, hrule', hafter⟩

theorem Carries.bind_tidy {next next' : α → Rule β} {last : β → β → State → State → Prop}
    (h : Carries seam pre rule rule' post) (hnext : ∀ a a', Tidy (post a a') (next a) (next' a') last) :
    Tidy pre (rule >>= next) (rule' >>= next') last := by
  intro s s' hs b u hok hclean
  obtain ⟨a, t, a', t', hlast, hrule', hafter⟩ := h.ok_of_bind hs hok
  rw [bind_of_ok hrule']
  exact hnext a a' hafter hlast hclean

theorem Carries.bind_tidyNears {next next' : α → Rule β} {last : β → β → State → State → Prop}
    (h : Carries seam pre rule rule' post)
    (hnext : ∀ a a', TidyNears seam (post a a') (next a) (next' a') last) :
    TidyNears seam pre (rule >>= next) (rule' >>= next') last := by
  intro s s' hs b u hok hclean
  obtain ⟨a, t, a', t', hlast, hrule', hafter⟩ := h.ok_of_bind hs hok
  rw [bind_of_ok hrule']
  exact hnext a a' hafter hlast hclean

namespace Tidy

theorem of_imp (h : Tidy pre rule rule' post) (hpre : ∀ s s', mid s s' → pre s s') :
    Tidy mid rule rule' post :=
  fun _ _ hs => h (hpre _ _ hs)

theorem here {next next' : Span → Rule α}
    (h : ∀ span span', Tidy pre (next span) (next' span') post) :
    Tidy pre (Grammar.here >>= next) (Grammar.here >>= next') post :=
  fun s s' hs => h s.span s'.span hs

theorem peek {next next' : Token → Rule α}
    (h : ∀ token, Tidy (At seam token n) (next token) (next' token) post) :
    Tidy (Firm seam n) (Grammar.peek >>= next) (Grammar.peek >>= next') post := by
  intro s s' hs a t hok hclean
  change ∃ a' t', next' s'.token s' = .ok a' t' ∧ _
  rw [hs.token_eq]
  exact h s.token hs.at hok hclean

theorem bind_nears {next next' : α → Rule β} {last : β → β → State → State → Prop}
    (h : Tidy pre rule rule' post) (hsteps : ∀ a, Stepwise (next a))
    (hnext : ∀ a a', TidyNears seam (post a a') (next a) (next' a') last) :
    TidyNears seam pre (rule >>= next) (rule' >>= next') last := by
  intro s s' hs b u hok hclean
  obtain ⟨a, t, hrule, hlast⟩ := bind_eq_ok.mp hok
  have hmiddle : t.errors = #[] := (hsteps a).unblamed t (by rw [hlast]; exact hclean)
  obtain ⟨a', t', hrule', hafter⟩ := h hs hrule hmiddle
  rw [bind_of_ok hrule']
  exact hnext a a' hafter hlast hclean

/-- The first reader has not had to go on behind an error. -/
theorem recovering {rule rule' : Rule Item} (h : Tidy pre rule rule' (Gives SameItem mid)) :
    Tidy pre (recovering rule) (recovering rule') (Gives SameFound mid) := by
  intro s s' hs found t hok hclean
  unfold Grammar.recovering at hok ⊢
  cases hrule : rule s with
  | ok item after =>
    rw [hrule] at hok
    cases hok
    obtain ⟨item', t', hrule', hsame, ht⟩ := h hs hrule hclean
    rw [hrule']
    exact ⟨some item', t', rfl, congrArg some hsame, ht⟩
  | error e failed =>
    rw [hrule] at hok
    cases hok
    exact absurd ((State.errors_synchronize _ _ _).symm.trans hclean) Array.push_ne_empty

end Tidy

namespace TidyNears

theorem of_imp (h : TidyNears seam pre rule rule' post) (hpre : ∀ s s', mid s s' → pre s s') :
    TidyNears seam mid rule rule' post :=
  fun _ _ hs => h (hpre _ _ hs)

theorem fewer {m : Nat} (h : TidyNears seam pre rule rule' (Gives same (Firm seam m)))
    (hm : m ≤ n) : TidyNears seam pre rule rule' (Gives same (Firm seam n)) :=
  fun _ _ hs _ _ hok hclean => (h hs hok hclean).imp_right fun ⟨a', t', hrule', hsame, ht⟩ =>
    ⟨a', t', hrule', hsame, ht.mono hm⟩

/-- Where the first reader may have come to a seam already. -/
theorem of_over (h : TidyNears seam (Firm seam n) rule rule' post)
    (hover : ∀ s, Over seam s → ∃ a, rule s = .ok a s) :
    TidyNears seam (FirmOrOver seam n) rule rule' post := by
  rintro s s' (hs | hs) a t hok hclean
  · exact h hs hok hclean
  · obtain ⟨b, hb⟩ := hover s hs
    rw [hb] at hok
    cases hok
    exact .inl hs

theorem peek {next next' : Token → Rule α}
    (h : ∀ token, TidyNears seam (At seam token n) (next token) (next' token) post) :
    TidyNears seam (Firm seam n) (Grammar.peek >>= next) (Grammar.peek >>= next') post := by
  intro s s' hs a t hok hclean
  change _ ∨ ∃ a' t', next' s'.token s' = .ok a' t' ∧ _
  rw [hs.token_eq]
  exact h s.token hs.at hok hclean

theorem budget {next next' : Nat → Rule α}
    (h : ∀ m fuel fuel', m ≤ n → Fueled seam m fuel fuel' →
      TidyNears seam (Firm seam m) (next fuel) (next' fuel') post) :
    TidyNears seam (Firm seam n) (Grammar.budget >>= next) (Grammar.budget >>= next') post :=
  fun s s' hs => h s.rest.length (s.total + 1) (s'.total + 1) hs.bound hs.fueled
    { hs with bound := Nat.le_refl _ }

/-- What is read one level deeper. -/
theorem nested (hpre : Steady seam pre) (hpost : ∀ a a', Steady seam (post a a'))
    (h : TidyNears seam pre rule rule' post) :
    TidyNears seam pre (Grammar.nested rule) (Grammar.nested rule') post := by
  refine (Carries.descend hpre).bind_tidyNears fun _ _ s s' hs a t hok hclean => ?_
  change Grammar.ascending rule s = _ at hok
  change _ ∨ ∃ a' t', Grammar.ascending rule' s' = .ok a' t' ∧ _
  unfold Grammar.ascending at hok ⊢
  cases hrule : rule s with
  | ok b after =>
    rw [hrule] at hok
    cases hok
    refine (h hs hrule hclean).imp_right fun ⟨b', after', hrule', hafter⟩ => ?_
    rw [hrule']
    refine ⟨b', after'.ascend, rfl, ?_⟩
    unfold State.ascend
    rw [((hpost a b').ahead hafter).depth]
    exact (hpost a b').level _ hafter
  | error e after =>
    rw [hrule] at hok
    cases hok

/-- The first reader fails behind a seam, so that it has not come to one if it succeeds. -/
theorem close {next next' : α → Rule β} {last : β → β → State → State → Prop}
    (h : TidyNears seam pre rule rule' post) (hsteps : ∀ a, Stepwise (next a))
    (hover : ∀ a t, t.token = .eof → ∃ e u, next a t = .error e u)
    (hnext : ∀ a a', Carries seam (post a a') (next a) (next' a') last) :
    Tidy pre (rule >>= next) (rule' >>= next') last := by
  intro s s' hs b u hok hclean
  obtain ⟨a, t, hrule, hlast⟩ := bind_eq_ok.mp hok
  have hmiddle : t.errors = #[] := (hsteps a).unblamed t (by rw [hlast]; exact hclean)
  obtain hseam | ⟨a', t', hrule', hafter⟩ := h hs hrule hmiddle
  · obtain ⟨e, w, herror⟩ := hover a t hseam.2
    rw [hlast] at herror
    cases herror
  · rw [bind_of_ok hrule']
    exact (hnext a a').tidy hafter hlast hclean

end TidyNears

/-! ## Items -/

theorem itemList_over {s : State} (h : Over seam s) (item : Rule (Option Item)) (fuel : Nat)
    (found : List Item) : ∃ items, itemList item fuel found s = .ok items s := by
  refine ⟨found.reverse, ?_⟩
  cases fuel with
  | zero => rfl
  | succ fuel =>
    change (if closes .rbrace s.token = true then _ else _ : Rule (List Item)) s = _
    rw [h.2]
    rfl

theorem descend_ok {s t : State} {a : Unit} (h : descend s = .ok a t) :
    t = { s with depth := s.depth + 1 } := by
  by_cases hroom : s.depth < maxNesting
  · rw [descend_eq hroom] at h
    cases h
    rfl
  · rw [descend_fails (Nat.not_lt.mp hroom)] at h
    cases h

/-- A rule that stays at the seam stays there one level deeper. -/
theorem over_nested {s t : State} {a : α} (h : Over seam s)
    (hrule : ∀ u, Over seam u → ∃ a, rule u = .ok a u) (hok : nested rule s = .ok a t) :
    Over seam t := by
  obtain ⟨_, u, hdescend, hinner⟩ := bind_eq_ok.mp hok
  obtain rfl := descend_ok hdescend
  have hu : Over seam { s with depth := s.depth + 1 } := h
  obtain ⟨b, hb⟩ := hrule _ hu
  rw [hb] at hinner
  cases hinner
  exact hu

/-- Both rules read the same item off at least one lexeme, where all is well. -/
def ItemsAlike (seam : Seam) (item item' : Rule (Option Item)) : Prop :=
  ∀ n, Tidy (Firm seam n) item item' (Gives SameFound (Ahead seam (n - 1)))

variable {item item' : Rule (Option Item)}

theorem itemList_alike (h : ItemsAlike seam item item') (hsteps : Stepwise item) :
    ∀ (fuel fuel' n : Nat) (found found' : List Item), Fueled seam n fuel fuel' →
      SameItems found found' → TidyNears seam (FirmOrOver seam n) (itemList item fuel found)
        (itemList item' fuel' found') (Gives SameItems (Firm seam n)) := by
  intro fuel fuel' n found found' hfuel hfound
  induction fuel generalizing fuel' n found found' with
  | zero => exact absurd hfuel.1 (Nat.not_lt_zero n)
  | succ fuel ih =>
    refine TidyNears.of_over ?_ fun s hs => itemList_over hs item (fuel + 1) found
    cases n with
    | zero =>
      exact fun s s' hs => absurd hs.bound (by
        obtain ⟨front, front', last, hrest, -⟩ := hs.rest
        simp [hrest])
    | succ n =>
      obtain ⟨less, rfl, hless⟩ := hfuel.pred
      rw [itemList, itemList]
      refine .peek fun token => ?_
      split
      · exact fun s s' hs a t hok _ => by
          cases hok
          exact .inr ⟨_, s', rfl, hfound.reverse, hs.toFirm⟩
      · refine TidyNears.of_imp ?_ fun s s' (hs : At seam token (n + 1) s s') => hs.toFirm
        refine (h (n + 1)).bind_nears
          (fun next => Stepwise.skipSemicolons.bind fun _ => .itemList hsteps fuel _) ?_
        rintro next next' s s' ⟨hnext, hs⟩
        refine (Carries.skipSemicolons_firmOrOver.bind_tidyNears fun _ _ => ?_) hs
        exact (ih less n _ _ hless (hnext.toList.append hfound)).fewer (Nat.le_succ n)

theorem namespaceOver_alike (h : ItemsAlike seam item item') (hsteps : Stepwise item) :
    Tidy (Firm seam n) (namespaceOver item) (namespaceOver item')
      (Gives SameItem (Ahead seam (n - 1))) := by
  unfold namespaceOver
  refine .here fun start start' => ?_
  refine (Carries.expect_firm .kwNamespace _ Token.noConfusion rfl).bind_tidy fun _ _ => ?_
  refine dottedName_alike.bind_tidy fun path path' s s' ⟨hpath, hs⟩ => ?_
  subst hpath
  refine ((Carries.expect_firm .lbrace _ Token.noConfusion rfl).bind_tidy fun _ _ => ?_) hs
  have hskip : Carries seam (Firm seam (n - 1 - 1 - 1)) skipSemicolons skipSemicolons fun _ _ =>
      FirmOrOver seam (n - 1 - 1 - 1) :=
    Carries.skipSemicolons_firmOrOver.of_imp fun _ _ hs => hs.toAhead
  refine hskip.bind_tidy fun _ _ => ?_
  have hitems : TidyNears seam (FirmOrOver seam (n - 1 - 1 - 1))
      (nested do itemList item (← budget) []) (nested do itemList item' (← budget) [])
      (Gives SameItems (Firm seam (n - 1 - 1 - 1))) := by
    rintro s s' (hs | hs) items t hok hclean
    · have hlist : TidyNears seam (Firm seam (n - 1 - 1 - 1)) (do itemList item (← budget) [])
          (do itemList item' (← budget) []) (Gives SameItems (Firm seam (n - 1 - 1 - 1))) :=
        .budget fun m fuel fuel' hm hfuel =>
          ((itemList_alike h hsteps fuel fuel' m [] [] hfuel rfl).of_imp
            fun _ _ hs => .inl hs).fewer hm
      exact hlist.nested steady_firm (fun _ _ => steady_firm.gives _ _) hs hok hclean
    · exact .inl (over_nested hs (fun u hu => itemList_over hu item _ []) hok)
  refine hitems.close
    (fun items => Stepwise.here.bind fun _ => (Stepwise.expect _ _).bind fun _ => .pure _)
    (fun _ _ ht => expect_fails .rbrace Token.noConfusion _ _ ht)
    fun items items' s s' ⟨hitems, hs⟩ => ?_
  refine (Carries.here fun stop stop' => ?_) hs
  refine (Carries.expect .rbrace _ Token.noConfusion).step fun _ _ => ?_
  refine .pure fun _ _ hs => ⟨?_, hs.mono (by omega)⟩
  unfold SameItem
  rw [Item.bare, Item.bare, Item.bareAll_eq, Item.bareAll_eq, hitems]

theorem itemOver_alike (h : ItemsAlike seam item item') (hsteps : Stepwise item) :
    Tidy (Firm seam n) (itemOver item) (itemOver item') (Gives SameItem (Ahead seam (n - 1))) := by
  unfold itemOver
  refine .peek fun token => ?_
  refine Tidy.of_imp ?_ fun s s' (hs : At seam token n s s') => hs.toFirm
  split
  · exact namespaceOver_alike h hsteps
  · refine Carries.tidy (classDecl_alike.andThen fun c c' hc => ?_)
    exact .pure fun _ _ hs => ⟨congrArg Item.classDecl hc, hs⟩
  · refine Carries.tidy (functionDecl_alike.andThen fun f f' hf => ?_)
    exact .pure fun _ _ hs => ⟨congrArg Item.function hf, hs⟩
  · refine Carries.tidy ((statement_alike n).andThen fun stmt stmt' hstmt => ?_)
    exact .pure fun _ _ hs => ⟨congrArg Item.stmt hstmt, hs⟩

theorem itemWithin_alike : ∀ fuel : Nat, ItemsAlike seam (itemWithin fuel) (itemWithin fuel)
  | 0, _ => Carries.tidy (.failHere steady_firm)
  | fuel + 1, _ =>
    Tidy.recovering (itemOver_alike (itemWithin_alike fuel) (.itemWithin fuel))

theorem item_alike : ItemsAlike seam Grammar.item Grammar.item :=
  itemWithin_alike _

end ScriptHost.Grammar
