import ScriptHost.Proofs.Grammar.Seam.Statements
import ScriptHost.Proofs.Token.Places
/-!
# The same tokens at other places

Where the second reader has the very tokens of the first, it also goes on behind errors as the first
does. So the places of lexemes are nothing to what a source text is read as, nor to what is said to
be wrong with it.
-/

set_option autoImplicit false

namespace ScriptHost

namespace Grammar

variable {seam : Seam} {n : Nat} {α β : Type}

/-- Items that are the same but for places. -/
def SameItem (item item' : Item) : Prop :=
  item.bare = item'.bare

/-- Lists of items that are the same but for places. -/
def SameItems (items items' : List Item) : Prop :=
  items.map Item.bare = items'.map Item.bare

/-- The same item but for places, or none. -/
def SameFound (found found' : Option Item) : Prop :=
  found.map Item.bare = found'.map Item.bare

theorem SameItems.reverse {items items' : List Item} (h : SameItems items items') :
    SameItems items.reverse items'.reverse := by
  unfold SameItems
  rw [List.map_reverse, List.map_reverse, h]

theorem SameItems.append {front front' items items' : List Item} (hfront : SameItems front front')
    (h : SameItems items items') : SameItems (front ++ items) (front' ++ items') := by
  unfold SameItems
  rw [List.map_append, List.map_append, hfront, h]

theorem SameFound.toList {found found' : Option Item} (h : SameFound found found') :
    SameItems found.toList found'.toList := by
  unfold SameItems
  rw [← Option.toList_map, ← Option.toList_map, h]

/-- The readers are side by side. -/
def Beside (seam : Seam) (s s' : State) : Prop :=
  Ahead seam s.rest.length s s'

theorem steady_beside : Steady seam (Beside seam) where
  ahead := fun _ _ h => h
  level := fun _ _ depth h => steady_ahead.level depth h

theorem Ahead.beside {s s' : State} (h : Ahead seam n s s') : Beside seam s s' :=
  steady_ahead.ahead h

/-- Both go on to where the next item may start. -/
theorem State.synchronize_eq {s : State} {start : Nat} (h : 1 < s.rest.length) :
    synchronize start s.rest s =
      match s.token with
      | .eof => s
      | .semicolon | .rbrace => s.advance
      | .kwNamespace | .kwClass | .kwFn =>
        if start < s.position then s else synchronize start s.advance.rest s.advance
      | _ => synchronize start s.advance.rest s.advance := by
  match hrest : s.rest with
  | [] | [_] => simp [hrest] at h
  | first :: second :: rest =>
    have htoken : s.token = first.token := by rw [State.token, hrest]
    have hadvance : s.advance.rest = second :: rest := by rw [State.advance, hrest]
    rw [htoken, hadvance]
    rfl

/-- At the end there is no going on. -/
theorem State.synchronize_self {s : State} {start : Nat} (h : s.token = .eof) :
    synchronize start s.rest s = s := by
  match hrest : s.rest with
  | [] => rfl
  | lexeme :: rest =>
    rw [State.token, hrest] at h
    rw [synchronize]
    dsimp only at h
    rw [h]

section

variable (hwhole : seam.whole) (heven : seam.even)

include hwhole in
theorem Beside.firm {s s' : State} (h : Beside seam s s') : Firm seam s.rest.length s s' :=
  { h with inside := .inl hwhole }

include hwhole heven in
theorem Beside.synchronize {s s' : State} {start : Nat} (h : Ahead seam n s s') :
    Beside seam (Grammar.synchronize start s.rest s) (Grammar.synchronize start s'.rest s') := by
  induction n generalizing s s' with
  | zero =>
    obtain ⟨front, front', last, hrest, -⟩ := h.rest
    have hbound := h.bound
    simp [hrest] at hbound
  | succ n ih =>
    by_cases heof : s.token = .eof
    · have hfirm : Firm seam (n + 1) s s' := { h with inside := .inl hwhole }
      rw [State.synchronize_self heof, State.synchronize_self (hfirm.token_eq.trans heof)]
      exact h.beside
    · obtain ⟨hlength, hlength'⟩ := h.one_lt heof
      have hat : At seam s.token (n + 1) s s' := (h.firm heof).at
      have hnext := hat.advance heof
      rw [State.synchronize_eq hlength, State.synchronize_eq hlength', hat.toFirm.token_eq,
        (h.even heven).2]
      split
      · exact h.beside
      · exact hnext.beside
      · exact hnext.beside
      all_goals
        first
        | exact ih hnext
        | split
          · exact h.beside
          · exact ih hnext

variable {rule rule' : Rule α} {same : α → α → Prop}

include hwhole in
/-- A rule that keeps readers side by side wherever they are. -/
theorem Carries.beside
    (h : ∀ n, Carries seam (Firm seam n) rule rule' (Gives same (Ahead seam (n - 1)))) :
    Carries seam (Beside seam) rule rule' (Gives same (Beside seam)) :=
  fun s _ hs => (h s.rest.length (hs.firm hwhole)).imp fun _ _ _ _ ⟨hsame, ht⟩ =>
    ⟨hsame, ht.beside⟩

include hwhole in
theorem Carries.peek_beside {next next' : Token → Rule α} {post : α → α → State → State → Prop}
    (h : ∀ token, Carries seam (fun s s' => Beside seam s s' ∧ s.token = token) (next token)
      (next' token) post) :
    Carries seam (Beside seam) (Grammar.peek >>= next) (Grammar.peek >>= next') post := by
  intro s s' hs
  change Follows seam post (next s.token s) (next' s'.token s')
  rw [(hs.firm hwhole).token_eq]
  exact h s.token ⟨hs, rfl⟩

include heven in
theorem Carries.budget_beside {next next' : Nat → Rule α}
    {post : α → α → State → State → Prop}
    (h : ∀ fuel, Carries seam (Beside seam) (next fuel) (next' fuel) post) :
    Carries seam (Beside seam) (Grammar.budget >>= next) (Grammar.budget >>= next') post := by
  intro s s' hs
  change Follows seam post (next (s.total + 1) s) (next' (s'.total + 1) s')
  rw [(hs.even heven).1]
  exact h _ hs

include hwhole in
theorem Carries.expect_beside (token : Token) (what : String) (heof : token ≠ .eof) :
    Carries seam (Beside seam) (Grammar.expect token what) (Grammar.expect token what)
      fun _ _ => Beside seam :=
  fun _ _ hs => (Carries.expect token what heof (hs.firm hwhole)).imp fun _ _ _ _ ht => ht.beside

include hwhole in
theorem Carries.skipSemicolons_beside :
    Carries seam (Beside seam) Grammar.skipSemicolons Grammar.skipSemicolons fun _ _ =>
      Beside seam :=
  fun _ _ hs => (Carries.skipSemicolons hs).imp fun _ _ _ _ ht =>
    (ht.resolve_right fun hat => hat.more hwhole).beside

include hwhole heven in
/-- Both go on behind an error. -/
theorem Carries.recovering_beside {rule rule' : Rule Item}
    (h : Carries seam (Beside seam) rule rule' (Gives SameItem (Beside seam))) :
    Carries seam (Beside seam) (recovering rule) (recovering rule')
      (Gives SameFound (Beside seam)) := by
  intro s s' hs
  have hfollows := h hs
  unfold recovering
  cases hrule : rule s with
  | ok item t =>
    rw [hrule] at hfollows
    obtain ⟨item', t', hok, hsame, ht⟩ := hfollows
    rw [hok]
    exact ⟨some item', t', rfl, congrArg some hsame, ht⟩
  | error e failed =>
    rw [hrule] at hfollows
    obtain ⟨e', failed', herror, hsaid, hfailed⟩ := hfollows hwhole
    rw [herror]
    refine ⟨none, _, rfl, rfl, ?_⟩
    have hpushed : Ahead seam failed.rest.length
        { failed with depth := s.depth, errors := failed.errors.push e }
        { failed' with depth := s'.depth, errors := failed'.errors.push e' } :=
      { hfailed with
        depth := hs.depth
        errors := by
          have hone : SaySame [e] [e'] := congrArg (fun said => [said]) hsaid
          simpa using hfailed.errors.append hone }
    rw [(hs.even heven).2]
    exact Beside.synchronize hwhole heven hpushed

include hwhole in
theorem itemList_beside {item item' : Rule (Option Item)}
    (h : Carries seam (Beside seam) item item' (Gives SameFound (Beside seam))) :
    ∀ (fuel : Nat) (found found' : List Item), SameItems found found' →
      Carries seam (Beside seam) (itemList item fuel found) (itemList item' fuel found')
        (Gives SameItems (Beside seam))
  | 0, _, _, hfound => .pure fun _ _ hs => ⟨hfound.reverse, hs⟩
  | fuel + 1, found, found', hfound => by
    rw [itemList, itemList]
    refine .peek_beside hwhole fun token => ?_
    split
    · exact .pure fun _ _ hs => ⟨hfound.reverse, hs.1⟩
    · refine Carries.of_imp ?_ fun s s' (hs : Beside seam s s' ∧ s.token = token) => hs.1
      refine h.andThen fun next next' hnext => ?_
      refine (Carries.skipSemicolons_beside hwhole).step fun _ _ => ?_
      exact itemList_beside h fuel _ _ (hnext.toList.append hfound)

include hwhole heven in
theorem namespaceOver_beside {item item' : Rule (Option Item)}
    (h : Carries seam (Beside seam) item item' (Gives SameFound (Beside seam))) :
    Carries seam (Beside seam) (namespaceOver item) (namespaceOver item')
      (Gives SameItem (Beside seam)) := by
  unfold namespaceOver
  refine .here fun start start' => ?_
  refine (Carries.expect_beside hwhole .kwNamespace _ Token.noConfusion).step fun _ _ => ?_
  refine (Carries.beside hwhole fun n => dottedName_alike.imp fun _ _ _ _ hs =>
    ⟨hs.1, hs.2.toAhead⟩).andThen fun path path' hpath => ?_
  subst hpath
  refine (Carries.expect_beside hwhole .lbrace _ Token.noConfusion).step fun _ _ => ?_
  refine (Carries.skipSemicolons_beside hwhole).step fun _ _ => ?_
  refine ((Carries.budget_beside heven fun fuel => itemList_beside hwhole h fuel [] [] rfl).nested
    steady_beside fun _ _ => steady_beside.gives _ _).andThen fun items items' hitems => ?_
  refine .here fun stop stop' => ?_
  refine (Carries.expect_beside hwhole .rbrace _ Token.noConfusion).step fun _ _ => ?_
  refine .pure fun _ _ hs => ⟨?_, hs⟩
  unfold SameItem
  rw [Item.bare, Item.bare, Item.bareAll_eq, Item.bareAll_eq, hitems]

include hwhole heven in
theorem itemOver_beside {item item' : Rule (Option Item)}
    (h : Carries seam (Beside seam) item item' (Gives SameFound (Beside seam))) :
    Carries seam (Beside seam) (itemOver item) (itemOver item')
      (Gives SameItem (Beside seam)) := by
  unfold itemOver
  refine .peek_beside hwhole fun token => ?_
  refine Carries.of_imp ?_ fun s s' (hs : Beside seam s s' ∧ s.token = token) => hs.1
  split
  · exact namespaceOver_beside hwhole heven h
  · refine (Carries.beside hwhole fun n => classDecl_alike).andThen fun c c' hc => ?_
    exact .pure fun _ _ hs => ⟨congrArg Item.classDecl hc, hs⟩
  · refine (Carries.beside hwhole fun n => functionDecl_alike).andThen fun f f' hf => ?_
    exact .pure fun _ _ hs => ⟨congrArg Item.function hf, hs⟩
  · refine (Carries.beside hwhole statement_alike).andThen fun stmt stmt' hstmt => ?_
    exact .pure fun _ _ hs => ⟨congrArg Item.stmt hstmt, hs⟩

include hwhole heven in
theorem itemWithin_beside : ∀ fuel : Nat,
    Carries seam (Beside seam) (itemWithin fuel) (itemWithin fuel) (Gives SameFound (Beside seam))
  | 0 => .failHere steady_beside
  | fuel + 1 => .recovering_beside hwhole heven (itemOver_beside hwhole heven (itemWithin_beside fuel))

include hwhole heven in
theorem topLevel_beside (fuel : Nat) (found found' : List Item) (hfound : SameItems found found') :
    Carries seam (Beside seam) (topLevel fuel found) (topLevel fuel found')
      (Gives SameItems (Beside seam)) := by
  induction fuel generalizing found found' with
  | zero => exact .pure fun _ _ hs => ⟨hfound.reverse, hs⟩
  | succ fuel ih =>
    rw [topLevel, topLevel]
    refine .peek_beside hwhole fun token => ?_
    split
    · exact .pure fun _ _ hs => ⟨hfound.reverse, hs.1⟩
    · refine .here fun span span' => ?_
      have hreport : Carries seam (fun s s' => Beside seam s s' ∧ s.token = .rbrace)
          (modify fun s => { s with errors := s.errors.push (ParseError.strayBrace.placed span) })
          (modify fun s => { s with errors := s.errors.push (ParseError.strayBrace.placed span') })
          fun _ _ s s' => Beside seam s s' ∧ s.token = .rbrace := by
        refine .change ?_
        rintro s s' ⟨hs, htoken⟩
        refine ⟨?_, htoken⟩
        have hone : SaySame [ParseError.strayBrace.placed span]
            [ParseError.strayBrace.placed span'] := rfl
        exact { hs with errors := by simpa using hs.errors.append hone }
      have htake : Carries seam (fun s s' => Beside seam s s' ∧ s.token = .rbrace) advance advance
          fun _ _ => Beside seam := by
        refine .change ?_
        rintro s s' ⟨hs, htoken⟩
        have hat : At seam .rbrace s.rest.length s s' := { hs.firm hwhole with token := htoken }
        exact (hat.advance Token.noConfusion).beside
      refine Carries.of_imp ?_ fun s s' (hs : Beside seam s s' ∧ s.token = .rbrace) => hs
      refine hreport.step fun _ _ => htake.step fun _ _ => ?_
      exact (Carries.skipSemicolons_beside hwhole).step fun _ _ => ih _ _ hfound
    · refine Carries.of_imp ?_ fun s s' (hs : Beside seam s s' ∧ s.token = token) => hs.1
      refine (itemWithin_beside hwhole heven _).andThen fun next next' hnext => ?_
      refine (Carries.skipSemicolons_beside hwhole).step fun _ _ => ?_
      exact ih _ _ (hnext.toList.append hfound)

include hwhole heven in
theorem sourceText_beside :
    Carries seam (Beside seam) sourceText sourceText (Gives SameItems (Beside seam)) :=
  (Carries.skipSemicolons_beside hwhole).step fun _ _ =>
    .budget_beside heven fun fuel => topLevel_beside hwhole heven fuel [] [] rfl

end

/-- Nothing behind the seam. -/
def Seam.onlyEnd (last : Lexeme) (hlast : last.token = .eof) (even : Prop) : Seam where
  tail := [last]
  whole := True
  even := even
  closed := ⟨[], last, rfl, hlast⟩
  noElse := by
    rintro lexeme (h : some last = some lexeme)
    cases h
    rw [hlast]
    exact Token.noConfusion
  ofWhole := fun _ => ⟨last, rfl, hlast⟩

/-- Lexemes with the same tokens end in the same way. -/
theorem ended_same {lexemes lexemes' : List Lexeme} (h : Ended lexemes)
    (hsame : lexemes.map Lexeme.token = lexemes'.map Lexeme.token) :
    ∃ front front' last last', lexemes = front ++ [last] ∧ last.token = .eof ∧
      lexemes' = front' ++ [last'] ∧ last'.token = .eof ∧
        front.map Lexeme.token = front'.map Lexeme.token ∧
          ∀ lexeme ∈ front, lexeme.token ≠ .eof := by
  obtain ⟨front, last, rfl, hlast, hnoEnd⟩ := h
  rw [List.map_append, List.map_singleton] at hsame
  obtain ⟨front', tail, rfl, hfront, htail⟩ := List.map_eq_append_iff.mp hsame.symm
  obtain ⟨last', rest, rfl, hlast', hrest⟩ := List.map_eq_cons_iff.mp htail
  obtain rfl := List.map_eq_nil_iff.mp hrest
  exact ⟨front, front', last, last', rfl, hlast, rfl, hlast'.trans hlast, hfront.symm, hnoEnd⟩

end Grammar

open Grammar in
/-- Where lexemes stand is nothing to what they spell, or to what is wrong with their order. -/
theorem parse_bare {lexemes lexemes' : List Lexeme} (hended : Ended lexemes)
    (hsame : lexemes.map Lexeme.token = lexemes'.map Lexeme.token) :
    ReadSame SameItems (parse lexemes) (parse lexemes') := by
  obtain ⟨front, front', last, last', rfl, hlast, rfl, hlast', hfront, hnoEnd⟩ := ended_same hended hsame
  have hlength : front.length = front'.length := by simpa using congrArg List.length hfront
  have hbegin : Beside (.onlyEnd last' hlast' True) (.ofLexemes (front ++ [last]))
      (.ofLexemes (front' ++ [last'])) := {
    rest := ⟨front, front', last, rfl, hlast, rfl, hfront, hnoEnd, .inl trivial⟩
    bound := Nat.le_refl _
    total := ⟨Nat.le_refl _, Nat.le_refl _⟩
    even := fun _ => ⟨by simp [State.ofLexemes, hlength], rfl⟩
    depth := rfl
    errors := .refl _ }
  have hfollows := sourceText_beside trivial trivial hbegin
  unfold parse
  cases hread : sourceText (.ofLexemes (front ++ [last])) with
  | ok items t =>
    rw [hread] at hfollows
    obtain ⟨items', t', hread', hitems, ht⟩ := hfollows
    rw [hread']
    have herrors := ht.errors
    by_cases hnone : t.errors = #[]
    · have hnone' : t'.errors = #[] :=
        Array.toList_eq_nil_iff.mp (herrors.nil_iff.mp (by rw [hnone]))
      simp only [hnone, hnone', Array.isEmpty_empty, if_true]
      exact .ok hitems
    · have hsome' : ¬ t'.errors = #[] := fun hnone' =>
        hnone (Array.toList_eq_nil_iff.mp (herrors.nil_iff.mpr (by rw [hnone'])))
      dsimp only
      rw [if_neg (by simpa using hnone), if_neg (by simpa using hsome')]
      exact .error herrors
  | error e t =>
    rw [hread] at hfollows
    obtain ⟨e', t', hread', hsaid, ht⟩ := hfollows trivial
    rw [hread']
    refine .error ?_
    have hone : SaySame [e] [e'] := congrArg (fun said => [said]) hsaid
    simpa using ht.errors.append hone

end ScriptHost
