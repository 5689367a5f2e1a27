import ScriptHost.Proofs.Grammar.Bare
import ScriptHost.Proofs.Grammar.Level
import ScriptHost.Proofs.Grammar.Steps
/-!
# Two readers side by side

Two readers go over lexemes with the same tokens. Where the first comes to the end of its text, the
second has a tail of more lexemes: nothing but an end as well, or what stands behind a seam in a
longer text. The first text then ends where a statement may end, and so no rule can tell the two
apart before it is past its last token: as long as the first reader succeeds, the second reads the
same. If there is nothing more behind the seam, both also fail with the same errors.

`Carries` says of two rules that they keep the readers side by side. Its lemmas follow the ways in
which rules are put together.
-/

set_option autoImplicit false

namespace ScriptHost.Grammar

variable {α β : Type}

/-- A token that a statement or a declaration can end with. -/
def closing (token : Token) : Bool :=
  token == .semicolon || token == .rbrace

/-- What the second of two readers has where the first has only an end. -/
structure Seam where
  tail : List Lexeme
  /-- There is nothing more than an end. -/
  whole : Prop
  /-- The second reader has as many lexemes as the first, and has taken as many of them. -/
  even : Prop
  closed : ∃ init last, tail = init ++ [last] ∧ last.token = .eof
  noElse : ∀ lexeme ∈ tail.head?, lexeme.token ≠ .kwElse
  ofWhole : whole → ∃ last, tail = [last] ∧ last.token = .eof

theorem Seam.nonempty (seam : Seam) : seam.tail ≠ [] := by
  obtain ⟨init, last, htail, -⟩ := seam.closed
  simp [htail]

theorem here_bind (next : Span → Rule α) (s : State) : (here >>= next) s = next s.span s :=
  rfl

theorem peek_bind (next : Token → Rule α) (s : State) : (peek >>= next) s = next s.token s :=
  rfl

variable {seam : Seam} {n : Nat}

/-- The readers are side by side, the first with at most `n` lexemes left. -/
structure Ahead (seam : Seam) (n : Nat) (s s' : State) : Prop where
  rest : ∃ front front' last, s.rest = front ++ [last] ∧ last.token = .eof ∧
    s'.rest = front' ++ seam.tail ∧ front.map Lexeme.token = front'.map Lexeme.token ∧
      (∀ lexeme ∈ front, lexeme.token ≠ .eof) ∧
        (seam.whole ∨ ∀ lexeme ∈ front.getLast?, closing lexeme.token = true)
  bound : s.rest.length ≤ n
  total : s.rest.length ≤ s.total ∧ s'.rest.length ≤ s'.total
  even : seam.even → s'.total = s.total ∧ s'.position = s.position
  depth : s'.depth = s.depth
  errors : SaySame s.errors.toList s'.errors.toList

/-- The readers are side by side, and the first has not come to a seam. -/
structure Firm (seam : Seam) (n : Nat) (s s' : State) : Prop extends Ahead seam n s s' where
  inside : seam.whole ∨ 1 < s.rest.length

/-- The readers are side by side in front of a token. -/
structure At (seam : Seam) (token : Token) (n : Nat) (s s' : State) : Prop
    extends Firm seam n s s' where
  token : s.token = token

/-- The first reader has come to a seam. -/
def Over (seam : Seam) (s : State) : Prop :=
  ¬ seam.whole ∧ s.token = .eof

theorem Ahead.mono {m : Nat} {s s' : State} (h : Ahead seam n s s') (hm : n ≤ m) :
    Ahead seam m s s' :=
  { h with bound := Nat.le_trans h.bound hm }

theorem Firm.mono {m : Nat} {s s' : State} (h : Firm seam n s s') (hm : n ≤ m) :
    Firm seam m s s' :=
  { h with bound := Nat.le_trans h.bound hm }

/-- Before the seam both readers see the same token. -/
theorem Firm.token_eq {s s' : State} (h : Firm seam n s s') : s'.token = s.token := by
  obtain ⟨front, front', last, hrest, hlast, hrest', htokens, -⟩ := h.rest
  unfold State.token
  cases front with
  | nil =>
    obtain rfl : front' = [] := by simpa using htokens.symm
    have hwhole : seam.whole := h.inside.resolve_right (by rw [hrest]; simp)
    obtain ⟨last', htail, hlast'⟩ := seam.ofWhole hwhole
    rw [hrest, hrest', htail]
    exact hlast'.trans hlast.symm
  | cons first front =>
    cases front' with
    | nil => cases htokens
    | cons first' front' =>
      rw [hrest, hrest']
      exact (List.cons.inj htokens).1.symm

theorem Firm.at {s s' : State} (h : Firm seam n s s') : At seam s.token n s s' :=
  { h with token := rfl }

/-- If the first reader is not at an end, it is before the seam. -/
theorem Ahead.firm {s s' : State} (h : Ahead seam n s s') (htoken : s.token ≠ .eof) :
    Firm seam n s s' where
  toAhead := h
  inside := by
    obtain ⟨front, front', last, hrest, hlast, -⟩ := h.rest
    refine .inr ?_
    cases front with
    | nil => exact absurd (by rw [State.token, hrest]; exact hlast) htoken
    | cons first front => rw [hrest]; simp

/-- Neither reader sees an `else` behind the seam. -/
theorem Ahead.token_eq_kwElse {s s' : State} (h : Ahead seam n s s') :
    s'.token = .kwElse ↔ s.token = .kwElse := by
  obtain ⟨front, front', last, hrest, hlast, hrest', htokens, -⟩ := h.rest
  unfold State.token
  cases front with
  | nil =>
    obtain rfl : front' = [] := by simpa using htokens.symm
    obtain ⟨first, tail, htail⟩ := List.exists_cons_of_ne_nil seam.nonempty
    have helse := seam.noElse first (by rw [htail]; rfl)
    rw [hrest, hrest', htail]
    simp [hlast, helse]
  | cons first front =>
    cases front' with
    | nil => cases htokens
    | cons first' front' =>
      rw [hrest, hrest']
      simp [(List.cons.inj htokens).1]

/-- Both take the next token. -/
theorem At.advance {token : Token} {s s' : State} (h : At seam token n s s')
    (heof : token ≠ .eof) : Ahead seam (n - 1) s.advance s'.advance := by
  obtain ⟨front, front', last, hrest, hlast, hrest', htokens, hnoEnd, hends⟩ := h.rest
  cases front with
  | nil => exact absurd (h.token.symm.trans (by rw [State.token, hrest]; exact hlast)) heof
  | cons first front =>
    cases front' with
    | nil => cases htokens
    | cons first' front' =>
      obtain ⟨next, rest, hnext⟩ : ∃ next rest, front ++ [last] = next :: rest :=
        List.exists_cons_of_ne_nil (by simp)
      obtain ⟨next', rest', hnext'⟩ : ∃ next rest, front' ++ seam.tail = next :: rest :=
        List.exists_cons_of_ne_nil (by simp [seam.nonempty])
      have hs : s.advance =
          { s with rest := next :: rest, position := s.position + 1, previous := first.span } := by
        rw [State.advance, hrest, List.cons_append, hnext]
      have hs' : s'.advance =
          { s' with
            rest := next' :: rest', position := s'.position + 1, previous := first'.span } := by
        rw [State.advance, hrest', List.cons_append, hnext']
      have hlength : s.rest.length = (next :: rest).length + 1 := by
        rw [hrest, List.cons_append, List.length_cons, hnext]
      have hlength' : s'.rest.length = (next' :: rest').length + 1 := by
        rw [hrest', List.cons_append, List.length_cons, hnext']
      have hbound := h.bound
      obtain ⟨htotal, htotal'⟩ := h.total
      rw [hs, hs']
      refine ⟨⟨front, front', last, hnext.symm, hlast, hnext'.symm, (List.cons.inj htokens).2,
        fun lexeme hlexeme => hnoEnd lexeme (List.mem_cons_of_mem _ hlexeme), ?_⟩,
        ?_, ?_, ?_, h.depth, h.errors⟩
      · refine hends.imp_right fun hclosing lexeme hlexeme => hclosing lexeme ?_
        cases front with
        | nil => cases hlexeme
        | cons second front => rwa [List.getLast?_cons_cons]
      · dsimp only
        omega
      · dsimp only
        omega
      · exact fun heven => ⟨(h.even heven).1, congrArg (· + 1) (h.even heven).2⟩

/-- Where the token taken is not one that a statement can end with, there is more before the seam. -/
theorem At.advance_firm {token : Token} {s s' : State} (h : At seam token n s s')
    (heof : token ≠ .eof) (hclosing : closing token = false) :
    Firm seam (n - 1) s.advance s'.advance where
  toAhead := h.advance heof
  inside := by
    obtain ⟨front, front', last, hrest, hlast, hrest', htokens, hnoEnd, hends⟩ := h.rest
    refine hends.imp_right fun hends => ?_
    match front with
    | [] => exact absurd (h.token.symm.trans (by rw [State.token, hrest]; exact hlast)) heof
    | [only] =>
      have htoken : only.token = token := by
        rw [← h.token, State.token, hrest]
        rfl
      have hcloses := hends only rfl
      rw [htoken, hclosing] at hcloses
      cases hcloses
    | first :: second :: front =>
      rw [State.advance, hrest]
      simp

/-! ## Rules -/

/-- Two outcomes of rules. If the first reader succeeds, so does the second; if it fails and there is
nothing behind the seam, the second fails with the same message. -/
def Follows (seam : Seam) (post : α → α → State → State → Prop)
    (outcome other : EStateM.Result Diagnostic State α) : Prop :=
  match outcome with
  | .ok a t => ∃ a' t', other = .ok a' t' ∧ post a a' t t'
  | .error e t => seam.whole →
    ∃ e' t', other = .error e' t' ∧ e.said = e'.said ∧ Ahead seam t.rest.length t t'

theorem Follows.imp {post weaker : α → α → State → State → Prop}
    {outcome other : EStateM.Result Diagnostic State α} (h : Follows seam post outcome other)
    (hpost : ∀ a a' t t', post a a' t t' → weaker a a' t t') : Follows seam weaker outcome other := by
  cases outcome with
  | ok a t =>
    obtain ⟨a', t', hok, hafter⟩ := h
    exact ⟨a', t', hok, hpost _ _ _ _ hafter⟩
  | error e t => exact h

/-- Begun side by side, the second rule follows the first. -/
def Carries (seam : Seam) (pre : State → State → Prop) (rule rule' : Rule α)
    (post : α → α → State → State → Prop) : Prop :=
  ∀ ⦃s s' : State⦄, pre s s' → Follows seam post (rule s) (rule' s')

/-- What is asked of two readers keeps them side by side, and is the same at every level of
nesting. -/
structure Steady (seam : Seam) (pre : State → State → Prop) : Prop where
  ahead : ∀ ⦃s s' : State⦄, pre s s' → Ahead seam s.rest.length s s'
  level : ∀ ⦃s s' : State⦄ (depth : Nat), pre s s' → pre { s with depth } { s' with depth }

/-- An answer of both rules is the same for a purpose, and the readers are where they should be. -/
def Gives (same : α → α → Prop) (after : State → State → Prop) (a a' : α) (t t' : State) : Prop :=
  same a a' ∧ after t t'

variable {pre mid after : State → State → Prop} {post : α → α → State → State → Prop}
  {rule rule' : Rule α} {token : Token} {same : α → α → Prop}

theorem steady_ahead : Steady seam (Ahead seam n) where
  ahead := fun _ _ h => { h with bound := Nat.le_refl _ }
  level := fun _ _ _ h => { h with depth := rfl }

theorem steady_firm : Steady seam (Firm seam n) where
  ahead := fun _ _ h => steady_ahead.ahead h.toAhead
  level := fun _ _ _ h => { h with depth := rfl }

theorem steady_at : Steady seam (At seam token n) where
  ahead := fun _ _ h => steady_ahead.ahead h.toAhead
  level := fun _ _ _ h => { h with depth := rfl }

namespace Carries

/-- There is always a lexeme left. -/
theorem zero : Carries seam (Firm seam 0) rule rule' post := by
  intro s s' hs
  obtain ⟨front, front', last, hrest, -⟩ := hs.rest
  have hbound := hs.bound
  simp [hrest] at hbound

theorem imp {weaker : α → α → State → State → Prop} (h : Carries seam pre rule rule' post)
    (hpost : ∀ a a' t t', post a a' t t' → weaker a a' t t') :
    Carries seam pre rule rule' weaker :=
  fun _ _ hs => (h hs).imp hpost

theorem of_imp (h : Carries seam pre rule rule' post)
    (hpre : ∀ s s', mid s s' → pre s s') : Carries seam mid rule rule' post :=
  fun _ _ hs => h (hpre _ _ hs)

theorem pure {a a' : α} (h : ∀ s s', pre s s' → post a a' s s') :
    Carries seam pre (Pure.pure a) (Pure.pure a') post :=
  fun s s' hs => ⟨a', s', rfl, h s s' hs⟩

theorem bind {next next' : α → Rule β} {last : β → β → State → State → Prop}
    (h : Carries seam pre rule rule' post)
    (hnext : ∀ a a', Carries seam (post a a') (next a) (next' a') last) :
    Carries seam pre (rule >>= next) (rule' >>= next') last := by
  intro s s' hs
  have hfollows := h hs
  cases hrule : rule s with
  | ok a t =>
    rw [hrule] at hfollows
    obtain ⟨a', t', hok, hafter⟩ := hfollows
    rw [bind_of_ok hrule, bind_of_ok hok]
    exact hnext a a' hafter
  | error e t =>
    rw [hrule] at hfollows
    rw [bind_of_error hrule]
    intro hwhole
    obtain ⟨e', t', herror, hsaid⟩ := hfollows hwhole
    exact ⟨e', t', bind_of_error herror, hsaid⟩

/-- After an answer that is the same. -/
theorem andThen {next next' : α → Rule β} {last : β → β → State → State → Prop}
    (h : Carries seam pre rule rule' (Gives same mid))
    (hnext : ∀ a a', same a a' → Carries seam mid (next a) (next' a') last) :
    Carries seam pre (rule >>= next) (rule' >>= next') last :=
  h.bind fun a a' _ _ ⟨hsame, hmid⟩ => hnext a a' hsame hmid

/-- After a step whose answer is only a place, or none. -/
theorem step {next next' : α → Rule β} {last : β → β → State → State → Prop}
    (h : Carries seam pre rule rule' fun _ _ => mid)
    (hnext : ∀ a a', Carries seam mid (next a) (next' a') last) :
    Carries seam pre (rule >>= next) (rule' >>= next') last :=
  h.bind hnext

/-- What is read of the states themselves. -/
theorem get {next next' : State → Rule α}
    (h : ∀ u u', pre u u' → Carries seam pre (next u) (next' u') post) :
    Carries seam pre (MonadState.get >>= next) (MonadState.get >>= next') post :=
  fun s s' hs => h s s' hs hs

theorem peek {next next' : Token → Rule α}
    (h : ∀ token, Carries seam (At seam token n) (next token) (next' token) post) :
    Carries seam (Firm seam n) (Grammar.peek >>= next) (Grammar.peek >>= next') post := by
  intro s s' hs
  change Follows seam post (next s.token s) (next' s'.token s')
  rw [hs.token_eq]
  exact h s.token hs.at

theorem here {next next' : Span → Rule α}
    (h : ∀ span span', Carries seam pre (next span) (next' span') post) :
    Carries seam pre (Grammar.here >>= next) (Grammar.here >>= next') post :=
  get fun u u' _ => h u.span u'.span

theorem previous {next next' : Span → Rule α}
    (h : ∀ span span', Carries seam pre (next span) (next' span') post) :
    Carries seam pre (Grammar.previous >>= next) (Grammar.previous >>= next') post :=
  get fun u u' _ => h u.previous u'.previous

/-- Both fail with the same message. -/
theorem throw {e e' : Diagnostic} (hsaid : e.said = e'.said) (hpre : Steady seam pre) :
    Carries seam pre (MonadExcept.throw e : Rule α) (MonadExcept.throw e') post :=
  fun _ s' hs _ => ⟨e', s', rfl, hsaid, hpre.ahead hs⟩

theorem failHere {e : ParseError} (hpre : Steady seam pre) :
    Carries seam pre (Grammar.failHere e : Rule α) (Grammar.failHere e) post :=
  here fun _ _ => throw rfl hpre

theorem change {f f' : State → State} (h : ∀ s s', pre s s' → after (f s) (f' s')) :
    Carries seam pre (modify f) (modify f') fun _ _ => after :=
  fun s s' hs => ⟨(), f' s', rfl, h s s' hs⟩

theorem advance (token : Token) (heof : token ≠ .eof) :
    Carries seam (At seam token n) Grammar.advance Grammar.advance fun _ _ =>
      Ahead seam (n - 1) :=
  change fun _ _ hs => hs.advance heof

theorem advance_firm (token : Token) (heof : token ≠ .eof) (hclosing : closing token = false) :
    Carries seam (At seam token n) Grammar.advance Grammar.advance fun _ _ =>
      Firm seam (n - 1) :=
  change fun _ _ hs => hs.advance_firm heof hclosing

theorem expect_of_advance {what : String}
    (h : Carries seam (At seam token n) Grammar.advance Grammar.advance fun _ _ => after) :
    Carries seam (Firm seam n) (Grammar.expect token what) (Grammar.expect token what)
      fun _ _ => after := by
  unfold Grammar.expect
  refine peek fun found => ?_
  split
  · rename_i hfound
    subst hfound
    exact here fun _ _ => h.step fun _ _ => pure fun _ _ hs => hs
  · exact failHere steady_at

theorem expect (token : Token) (what : String) (heof : token ≠ .eof) :
    Carries seam (Firm seam n) (Grammar.expect token what) (Grammar.expect token what)
      fun _ _ => Ahead seam (n - 1) :=
  expect_of_advance (advance token heof)

theorem expect_firm (token : Token) (what : String) (heof : token ≠ .eof)
    (hclosing : closing token = false) :
    Carries seam (Firm seam n) (Grammar.expect token what) (Grammar.expect token what)
      fun _ _ => Firm seam (n - 1) :=
  expect_of_advance (advance_firm token heof hclosing)

theorem identifier :
    Carries seam (Firm seam n) Grammar.identifier Grammar.identifier
      (Gives (· = ·) (Firm seam (n - 1))) := by
  unfold Grammar.identifier
  refine peek fun found => ?_
  split
  · exact (advance_firm (.ident _) Token.noConfusion rfl).step fun _ _ =>
      pure fun _ _ hs => ⟨rfl, hs⟩
  · exact failHere steady_at

theorem descend (hpre : Steady seam pre) :
    Carries seam pre Grammar.descend Grammar.descend fun _ _ => pre := by
  unfold Grammar.descend
  refine get fun u u' hu => ?_
  rw [(hpre.ahead hu).depth]
  split
  · exact failHere hpre
  · refine change fun s s' hs => ?_
    rw [(hpre.ahead hs).depth]
    exact hpre.level _ hs

theorem restoreDepth {depth depth' : Nat} (hpre : Steady seam pre) (hdepth : depth' = depth) :
    Carries seam pre (Grammar.restoreDepth depth) (Grammar.restoreDepth depth') fun _ _ => pre := by
  subst hdepth
  exact change fun _ _ hs => hpre.level _ hs

theorem ascending (hpost : ∀ a a', Steady seam (post a a'))
    (h : Carries seam pre rule rule' post) :
    Carries seam pre (Grammar.ascending rule) (Grammar.ascending rule') post := by
  intro s s' hs
  have hfollows := h hs
  unfold Grammar.ascending
  cases hrule : rule s with
  | ok a t =>
    rw [hrule] at hfollows
    obtain ⟨a', t', hok, hafter⟩ := hfollows
    rw [hok]
    refine ⟨a', t'.ascend, rfl, ?_⟩
    unfold State.ascend
    rw [((hpost a a').ahead hafter).depth]
    exact (hpost a a').level _ hafter
  | error e t =>
    rw [hrule] at hfollows
    intro hwhole
    obtain ⟨e', t', herror, hsaid, hahead⟩ := hfollows hwhole
    rw [herror]
    refine ⟨e', t'.ascend, rfl, hsaid, ?_⟩
    unfold State.ascend
    rw [hahead.depth]
    exact steady_ahead.level _ hahead

/-- What is read one level deeper. -/
theorem nested (hpre : Steady seam pre) (hpost : ∀ a a', Steady seam (post a a'))
    (h : Carries seam pre rule rule' post) :
    Carries seam pre (Grammar.nested rule) (Grammar.nested rule') post :=
  (descend hpre).step fun _ _ => h.ascending hpost

theorem terminator :
    Carries seam (Firm seam n) Grammar.terminator Grammar.terminator fun _ _ => Ahead seam n := by
  unfold Grammar.terminator
  refine peek fun found => ?_
  split
  · exact (advance .semicolon Token.noConfusion).imp fun _ _ _ _ hs => hs.mono (Nat.sub_le n 1)
  · exact pure fun _ _ hs => hs.toAhead
  · exact pure fun _ _ hs => hs.toAhead
  · exact failHere steady_at

end Carries

/-- An answer of both rules does not matter for the readers being side by side. -/
theorem Steady.gives (h : Steady seam after) (a a' : α) : Steady seam (Gives same after a a') where
  ahead := fun _ _ hs => h.ahead hs.2
  level := fun _ _ depth hs => ⟨hs.1, h.level depth hs.2⟩

/-! ## At the seam -/

/-- The first reader has come to its end, and the second is behind the semicolons that it has found
behind the seam. -/
structure AtSeam (seam : Seam) (s s' : State) : Prop where
  more : ¬ seam.whole
  token : s.token = .eof
  rest : s'.rest = seam.tail.dropWhile (·.token == .semicolon)
  total : s'.rest.length ≤ s'.total
  depth : s'.depth = s.depth
  errors : SaySame s.errors.toList s'.errors.toList

theorem AtSeam.over {s s' : State} (h : AtSeam seam s s') : Over seam s :=
  ⟨h.more, h.token⟩

/-- One semicolon is taken after the other. -/
theorem State.pastSemicolons_eq {s : State} (h : 1 < s.rest.length) :
    s.pastSemicolons s.rest =
      if s.token = .semicolon then s.advance.pastSemicolons s.advance.rest else s := by
  match hrest : s.rest with
  | [] | [_] => simp [hrest] at h
  | first :: second :: rest =>
    rw [pastSemicolons, State.token, State.advance, hrest]

/-- Behind the semicolons, unless there is nothing else. -/
theorem State.rest_pastSemicolons {s : State} {init : List Lexeme} {last : Lexeme}
    (hrest : s.rest = init ++ [last]) (hlast : last.token ≠ .semicolon) :
    (s.pastSemicolons s.rest).rest = s.rest.dropWhile (·.token == .semicolon) := by
  induction init generalizing s with
  | nil => simp [hrest, pastSemicolons, hlast]
  | cons first init ih =>
    obtain ⟨second, rest, hsecond⟩ : ∃ second rest, init ++ [last] = second :: rest :=
      List.exists_cons_of_ne_nil (by simp)
    have hadvance : s.advance.rest = init ++ [last] := by
      rw [State.advance, hrest, List.cons_append, hsecond]
    rw [pastSemicolons_eq (by simp [hrest])]
    have htoken : s.token = first.token := by rw [State.token, hrest]; rfl
    rw [htoken]
    split
    · rename_i hsemicolon
      rw [ih hadvance, hadvance, hrest, List.cons_append]
      simp [hsemicolon]
    · rename_i hsemicolon
      rw [hrest, List.cons_append]
      simp [hsemicolon]

theorem State.total_pastSemicolons (rest : List Lexeme) (s : State) :
    (s.pastSemicolons rest).total = s.total := by
  induction rest generalizing s with
  | nil => rfl
  | cons lexeme rest ih =>
    rw [pastSemicolons]
    split
    · rw [ih]
      unfold State.advance
      split <;> rfl
    · rfl

theorem State.pastSemicolons_self {s : State} (h : s.token ≠ .semicolon) :
    s.pastSemicolons s.rest = s := by
  match hrest : s.rest with
  | [] => rfl
  | lexeme :: rest =>
    rw [State.token, hrest] at h
    exact if_neg h

/-- Before the end both readers have more than one lexeme left. -/
theorem Ahead.one_lt {s s' : State} (h : Ahead seam n s s') (htoken : s.token ≠ .eof) :
    1 < s.rest.length ∧ 1 < s'.rest.length := by
  obtain ⟨front, front', last, hrest, hlast, hrest', htokens, -⟩ := h.rest
  have hlength : front.length = front'.length := by simpa using congrArg List.length htokens
  have htail := List.length_pos_iff.mpr seam.nonempty
  cases front with
  | nil => exact absurd (by rw [State.token, hrest]; exact hlast) htoken
  | cons first front =>
    rw [hrest, hrest', List.length_append, List.length_append, ← hlength]
    simp only [List.length_cons] at *
    omega

/-- Behind semicolons the readers are side by side, or at a seam. -/
theorem Ahead.pastSemicolons {s s' : State} (h : Ahead seam n s s') :
    Firm seam n (s.pastSemicolons s.rest) (s'.pastSemicolons s'.rest) ∨
      AtSeam seam (s.pastSemicolons s.rest) (s'.pastSemicolons s'.rest) := by
  induction n generalizing s s' with
  | zero =>
    obtain ⟨front, front', last, hrest, -⟩ := h.rest
    have hbound := h.bound
    simp [hrest] at hbound
  | succ n ih =>
    have hself (hfirm : Firm seam (n + 1) s s') (htoken : s.token ≠ .semicolon) :
        Firm seam (n + 1) (s.pastSemicolons s.rest) (s'.pastSemicolons s'.rest) := by
      rw [State.pastSemicolons_self htoken,
        State.pastSemicolons_self (by rwa [hfirm.token_eq])]
      exact hfirm
    by_cases heof : s.token = .eof
    · by_cases hwhole : seam.whole
      · exact .inl (hself { h with inside := .inl hwhole } (by rw [heof]; exact Token.noConfusion))
      · obtain ⟨front, front', last, hrest, hlast, hrest', htokens, hnoEnd, -⟩ := h.rest
        have hfront : front = [] := by
          cases front with
          | nil => rfl
          | cons first front =>
            rw [State.token, hrest] at heof
            exact absurd heof (hnoEnd first List.mem_cons_self)
        subst hfront
        obtain rfl : front' = [] := by simpa using htokens.symm
        obtain ⟨init, final, htail, hfinal⟩ := seam.closed
        have hpast : (s'.pastSemicolons s'.rest).rest =
            seam.tail.dropWhile (·.token == .semicolon) := by
          rw [State.rest_pastSemicolons (hrest'.trans htail)
            (by rw [hfinal]; exact Token.noConfusion), hrest']
          rfl
        rw [State.pastSemicolons_self (by rw [heof]; exact Token.noConfusion)]
        refine .inr ⟨hwhole, heof, hpast, ?_, ?_, ?_⟩
        · rw [hpast, State.total_pastSemicolons]
          refine Nat.le_trans (List.dropWhile_sublist _).length_le ?_
          have htotal := h.total.2
          rwa [hrest'] at htotal
        · rw [State.depth_pastSemicolons]
          exact h.depth
        · rw [State.errors_pastSemicolons]
          exact h.errors
    · by_cases hsemicolon : s.token = .semicolon
      · have hfirm := h.firm heof
        obtain ⟨hlength, hlength'⟩ := h.one_lt heof
        have hat : At seam .semicolon (n + 1) s s' := { hfirm with token := hsemicolon }
        rw [State.pastSemicolons_eq hlength, State.pastSemicolons_eq hlength', if_pos hsemicolon,
          if_pos (hfirm.token_eq.trans hsemicolon)]
        exact (ih (hat.advance Token.noConfusion)).imp_left fun hs => hs.mono (Nat.le_succ n)
      · exact .inl (hself (h.firm heof) hsemicolon)

theorem Carries.skipSemicolons :
    Carries seam (Ahead seam n) Grammar.skipSemicolons Grammar.skipSemicolons fun _ _ t t' =>
      Firm seam n t t' ∨ AtSeam seam t t' :=
  change fun _ _ hs => hs.pastSemicolons

/-! ## Loops -/

/-- There is fuel for all lexemes of both readers. -/
def Fueled (seam : Seam) (n fuel fuel' : Nat) : Prop :=
  n < fuel ∧ n + seam.tail.length ≤ fuel'

theorem Fueled.pred {fuel fuel' : Nat} (h : Fueled seam (n + 1) (fuel + 1) fuel') :
    ∃ less, fuel' = less + 1 ∧ Fueled seam n fuel less := by
  obtain ⟨hfuel, hfuel'⟩ := h
  refine ⟨fuel' - 1, ?_, ?_, ?_⟩ <;> omega

theorem Fueled.mono {m fuel fuel' : Nat} (h : Fueled seam n fuel fuel') (hm : m ≤ n) :
    Fueled seam m fuel fuel' :=
  ⟨by have := h.1; omega, by have := h.2; omega⟩

/-- The bound that the readers have on the turns of a loop leaves both enough fuel. -/
theorem Ahead.fueled {s s' : State} (h : Ahead seam n s s') :
    Fueled seam s.rest.length (s.total + 1) (s'.total + 1) := by
  obtain ⟨front, front', last, hrest, -, hrest', htokens, -⟩ := h.rest
  have hlength : front.length = front'.length := by simpa using congrArg List.length htokens
  obtain ⟨htotal, htotal'⟩ := h.total
  rw [hrest'] at htotal'
  rw [hrest] at htotal ⊢
  simp only [List.length_append, List.length_singleton] at *
  exact ⟨by omega, by omega⟩

theorem Carries.budget {next next' : Nat → Rule α}
    (h : ∀ m fuel fuel', m ≤ n → Fueled seam m fuel fuel' →
      Carries seam (Firm seam m) (next fuel) (next' fuel') post) :
    Carries seam (Firm seam n) (Grammar.budget >>= next) (Grammar.budget >>= next') post :=
  fun s s' hs => h s.rest.length (s.total + 1) (s'.total + 1) hs.bound hs.fueled
    { hs with bound := Nat.le_refl _ }

/-- Begun side by side, the second rule follows the first, or the first comes to a seam. What the
second reader does there is of no matter, where the first is bound to fail behind it. -/
def Nears (seam : Seam) (pre : State → State → Prop) (rule rule' : Rule α)
    (post : α → α → State → State → Prop) : Prop :=
  ∀ ⦃s s' : State⦄, pre s s' →
    (∃ a t, rule s = .ok a t ∧ Over seam t) ∨ Follows seam post (rule s) (rule' s')

/-- The readers are side by side, or the first is at a seam. -/
def FirmOrOver (seam : Seam) (n : Nat) (s s' : State) : Prop :=
  Firm seam n s s' ∨ Over seam s

theorem Carries.nears (h : Carries seam pre rule rule' post) : Nears seam pre rule rule' post :=
  fun _ _ hs => .inr (h hs)

/-- From there on, if not at once. -/
theorem Carries.bind_nears {next next' : α → Rule β} {last : β → β → State → State → Prop}
    (h : Carries seam pre rule rule' post)
    (hnext : ∀ a a', Nears seam (post a a') (next a) (next' a') last) :
    Nears seam pre (rule >>= next) (rule' >>= next') last := by
  intro s s' hs
  have hfollows := h hs
  cases hrule : rule s with
  | ok a t =>
    rw [hrule] at hfollows
    obtain ⟨a', t', hok, hafter⟩ := hfollows
    rw [bind_of_ok hrule, bind_of_ok hok]
    exact hnext a a' hafter
  | error e t =>
    rw [hrule] at hfollows
    rw [bind_of_error hrule]
    refine .inr fun hwhole => ?_
    obtain ⟨e', t', herror, hsaid⟩ := hfollows hwhole
    exact ⟨e', t', bind_of_error herror, hsaid⟩

namespace Nears

theorem imp {weaker : α → α → State → State → Prop} (h : Nears seam pre rule rule' post)
    (hpost : ∀ a a' t t', post a a' t t' → weaker a a' t t') : Nears seam pre rule rule' weaker :=
  fun _ _ hs => (h hs).imp_right fun hfollows => hfollows.imp hpost

theorem of_imp (h : Nears seam pre rule rule' post)
    (hpre : ∀ s s', mid s s' → pre s s') : Nears seam mid rule rule' post :=
  fun _ _ hs => h (hpre _ _ hs)

/-- Where the first reader may have come to a seam already. -/
theorem of_over (h : Nears seam (Firm seam n) rule rule' post)
    (hover : ∀ s, Over seam s → ∃ a, rule s = .ok a s) :
    Nears seam (FirmOrOver seam n) rule rule' post := by
  rintro s s' (hs | hs)
  · exact h hs
  · obtain ⟨a, hok⟩ := hover s hs
    exact .inl ⟨a, s, hok, hs⟩

theorem budget {next next' : Nat → Rule α}
    (h : ∀ m fuel fuel', m ≤ n → Fueled seam m fuel fuel' →
      Nears seam (Firm seam m) (next fuel) (next' fuel') post) :
    Nears seam (Firm seam n) (Grammar.budget >>= next) (Grammar.budget >>= next') post :=
  fun s s' hs => h s.rest.length (s.total + 1) (s'.total + 1) hs.bound hs.fueled
    { hs with bound := Nat.le_refl _ }

theorem peek {next next' : Token → Rule α}
    (h : ∀ token, Nears seam (At seam token n) (next token) (next' token) post) :
    Nears seam (Firm seam n) (Grammar.peek >>= next) (Grammar.peek >>= next') post := by
  intro s s' hs
  change (∃ a t, next s.token s = .ok a t ∧ Over seam t) ∨
    Follows seam post (next s.token s) (next' s'.token s')
  rw [hs.token_eq]
  exact h s.token hs.at

/-- What is read one level deeper. -/
theorem nested (hpre : Steady seam pre) (hpost : ∀ a a', Steady seam (post a a'))
    (h : Nears seam pre rule rule' post) :
    Nears seam pre (Grammar.nested rule) (Grammar.nested rule') post := by
  refine (Carries.descend hpre).bind_nears fun _ _ s s' hs => ?_
  obtain ⟨a, t, hok, hover⟩ | hfollows := h hs
  · refine .inl ⟨a, t.ascend, ?_, hover⟩
    change Grammar.ascending rule s = _
    unfold Grammar.ascending
    rw [hok]
  · refine .inr ?_
    have hascends : Carries seam (fun u u' => u = s ∧ u' = s') rule rule' post := by
      rintro u u' ⟨rfl, rfl⟩
      exact hfollows
    exact hascends.ascending hpost ⟨rfl, rfl⟩

/-- The first reader fails behind a seam, so that it has not come to one if it succeeds. -/
theorem close {next next' : α → Rule β} {last : β → β → State → State → Prop}
    (h : Nears seam pre rule rule' post)
    (hover : ∀ a t, t.token = .eof → ∃ e u, next a t = .error e u)
    (hnext : ∀ a a', Carries seam (post a a') (next a) (next' a') last) :
    Carries seam pre (rule >>= next) (rule' >>= next') last := by
  intro s s' hs
  obtain ⟨a, t, hok, hmore, htoken⟩ | hfollows := h hs
  · obtain ⟨e, u, herror⟩ := hover a t htoken
    rw [bind_of_ok hok, herror]
    exact fun hwhole => absurd hwhole hmore
  · have hstep : Carries seam (fun u u' => u = s ∧ u' = s') rule rule' post := by
      rintro u u' ⟨rfl, rfl⟩
      exact hfollows
    exact hstep.bind hnext ⟨rfl, rfl⟩

end Nears

/-- A token that is not there cannot be taken at the end. -/
theorem expect_fails (token : Token) (heof : token ≠ .eof) (what : String)
    (next : Span → Span → Rule β) {t : State} (ht : t.token = .eof) :
    ∃ e u, (here >>= fun stop => expect token what >>= next stop) t = .error e u := by
  have hexpect : expect token what t = failHere (.expected what .eof) t := by
    change (if t.token = token then _ else failHere (.expected what t.token) : Rule Span) t = _
    rw [ht, if_neg (Ne.symm heof)]
  refine ⟨(ParseError.expected what .eof).placed t.span, t, ?_⟩
  change (expect token what >>= next t.span) t = _
  exact bind_of_error hexpect

end ScriptHost.Grammar
