import ScriptHost.Proofs.Grammar.Takes
/-!
# Reading always goes on

Whatever is wrong with a list of lexemes, reading it comes to the end: each turn of a loop takes at
least one lexeme, also a turn in which an item is given up. So no more errors are found than there
are lexemes, and what is accepted has been taken as a whole: `parse_progresses`.

A loop of the grammar has a budget of turns. Since each turn that does not end the loop takes a
lexeme, a budget of more turns than lexemes makes no difference: `Turns.ample`.
-/

set_option autoImplicit false

namespace ScriptHost

namespace Grammar

variable {α β A : Type} {n : Nat} {s t u : State}

/-! ## Turns of a loop -/

/-- At least one lexeme has been taken between two states. -/
structure Onward (s t : State) : Prop where
  later : s.Later t
  taken : s.position < t.position
  left : t.position + t.rest.length = s.position + s.rest.length

theorem Past.onward (h : Past (n + 1) s t) : Onward s t :=
  ⟨h.later, by have := h.taken; omega, h.left⟩

theorem Onward.past (h : Onward s t) (h' : Past n t u) : Onward s u :=
  ⟨h.later.trans h'.later, by have := h.taken; have := h'.taken; omega, h'.left.trans h.left⟩

/-- Each turn of a loop ends it, whatever the budget, or goes on with one turn less from a state
with less left. -/
def Turns (loop : Nat → A → Rule α) : Prop :=
  ∀ (found : A) (s : State), s.Capped →
    (∃ outcome, ∀ fuel, loop (fuel + 1) found s = outcome) ∨
      ∃ found' t, Onward s t ∧ ∀ fuel, loop (fuel + 1) found s = loop fuel found' t

/-- A budget of more turns than lexemes makes no difference. -/
theorem Turns.ample {loop : Nat → A → Rule α} (h : Turns loop) (more : Nat) :
    ∀ (fuel : Nat) (found : A) (s : State), s.Capped → s.rest.length ≤ fuel →
      loop (fuel + more) found s = loop fuel found s := by
  intro fuel
  induction fuel with
  | zero =>
    rintro found s ⟨front, last, hrest, -⟩ hfuel
    rw [hrest, List.length_append, List.length_singleton] at hfuel
    omega
  | succ fuel ih =>
    intro found s hs hfuel
    rw [Nat.add_right_comm]
    obtain ⟨outcome, hends⟩ | ⟨found', t, honward, hgoes⟩ := h found s hs
    · rw [hends, hends]
    · have hleft := honward.left
      have htaken := honward.taken
      rw [hgoes, hgoes]
      exact ih found' t (honward.later.capped hs) (by omega)

/-- A rule that takes a lexeme is done with, and the rest is up to what it has found, or it has
failed. -/
theorem turn_bind {rule : Rule β} (htakes : TakesFrom n rule s) (next : Nat → β → Rule α) :
    (∃ outcome, ∀ fuel, (rule >>= next fuel) s = outcome) ∨
      ∃ b t, Past n s t ∧ ∀ fuel, (rule >>= next fuel) s = next fuel b t := by
  cases hrule : rule s with
  | error e t => exact .inl ⟨.error e t, fun fuel => bind_of_error hrule⟩
  | ok b t => exact .inr ⟨b, t, htakes.ok hrule, fun fuel => bind_of_ok hrule⟩

theorem turns_statements {statement : Rule Stmt} (h : Takes 1 statement) :
    Turns (statements statement) := by
  intro found s hs
  simp only [statements, peek_bind]
  split
  · exact .inl ⟨_, fun fuel => rfl⟩
  · obtain hends | ⟨stmt, t, hpast, hgoes⟩ := turn_bind (h s hs)
      (fun fuel stmt => skipSemicolons >>= fun _ => statements statement fuel (stmt :: found))
    · exact .inl hends
    · refine .inr ⟨stmt :: found, t.pastSemicolons t.rest, ?_, hgoes⟩
      exact hpast.onward.past (past_pastSemicolons _ _)

theorem turns_moreArguments {expression : Rule Expr} (h : Takes 1 expression) :
    Turns (moreArguments expression) := by
  intro found s hs
  simp only [moreArguments, peek_bind]
  split
  · have htakes : TakesFrom 1 (advance >>= fun _ => expression) s :=
      Takes.advance.andThen (fun _ => h) s hs
    have hassoc : ∀ fuel, (advance >>= fun _ => expression >>= fun argument =>
        moreArguments expression fuel (argument :: found)) s =
          ((advance >>= fun _ => expression) >>= fun argument =>
            moreArguments expression fuel (argument :: found)) s := fun fuel => by
      rw [bind_assoc]
    simp only [hassoc]
    obtain hends | ⟨argument, t, hpast, hgoes⟩ := turn_bind htakes
      (fun fuel argument => moreArguments expression fuel (argument :: found))
    · exact .inl hends
    · exact .inr ⟨argument :: found, t, hpast.onward, hgoes⟩
  · exact .inl ⟨_, fun fuel => rfl⟩

theorem turns_moreNames : Turns moreNames := by
  intro found s hs
  simp only [moreNames, peek_bind]
  split
  · have htakes : TakesFrom 1 (advance >>= fun _ => identifier) s :=
      Takes.advance.andThen (fun _ => .identifier) s hs
    have hassoc : ∀ fuel, (advance >>= fun _ => identifier >>= fun name =>
        moreNames fuel (name :: found)) s =
          ((advance >>= fun _ => identifier) >>= fun name => moreNames fuel (name :: found)) s :=
      fun fuel => by rw [bind_assoc]
    simp only [hassoc]
    obtain hends | ⟨name, t, hpast, hgoes⟩ := turn_bind htakes
      (fun fuel name => moreNames fuel (name :: found))
    · exact .inl hends
    · exact .inr ⟨name :: found, t, hpast.onward, hgoes⟩
  · exact .inl ⟨_, fun fuel => rfl⟩

theorem turns_parameters : Turns parameters := by
  intro found s hs
  simp only [parameters, peek_bind]
  split
  · exact .inl ⟨_, fun fuel => rfl⟩
  · obtain hends | ⟨name, t, hpast, hgoes⟩ := turn_bind (Takes.identifier s hs)
      (fun fuel name => peek >>= fun token =>
        if token = .comma then advance >>= fun _ => parameters fuel (name :: found)
        else pure (name :: found).reverse)
    · exact .inl hends
    · simp only [hgoes, peek_bind]
      split
      · exact .inr ⟨name :: found, t.advance, hpast.onward.past (past_advance t), fun fuel => rfl⟩
      · exact .inl ⟨_, fun fuel => rfl⟩

theorem turns_members :
    Turns fun fuel (found : List FieldDecl × List FunctionDecl) =>
      members fuel found.1 found.2 := by
  rintro ⟨fields, methods⟩ s hs
  by_cases hlet : s.token = .kwLet
  · simp only [members, peek_bind, hlet]
    obtain hends | ⟨field, t, hpast, hgoes⟩ := turn_bind (Takes.fieldDecl s hs)
      (fun fuel field => skipSemicolons >>= fun _ =>
        members fuel (field :: fields) methods)
    · exact .inl hends
    · refine .inr ⟨(field :: fields, methods), t.pastSemicolons t.rest, ?_, hgoes⟩
      exact hpast.onward.past (past_pastSemicolons _ _)
  by_cases hfn : s.token = .kwFn
  · simp only [members, peek_bind, hfn]
    obtain hends | ⟨method, t, hpast, hgoes⟩ := turn_bind (Takes.functionDecl s hs)
      (fun fuel method => skipSemicolons >>= fun _ =>
        members fuel fields (method :: methods))
    · exact .inl hends
    · refine .inr ⟨(fields, method :: methods), t.pastSemicolons t.rest, ?_, hgoes⟩
      exact hpast.onward.past (past_pastSemicolons _ _)
  -- Any other token ends the class, or is wrong.
  refine .inl ⟨members 1 fields methods s, fun fuel => ?_⟩
  simp only [members, peek_bind]
  generalize s.token = token at hlet hfn
  split
  · rfl
  · rfl
  · contradiction
  · contradiction
  · rfl

/-! ## Items -/

/-- Between two states lexemes have been taken, `n` of them and another for each error recovered
from. -/
structure Paid (n : Nat) (s t : State) : Prop where
  later : s.Later t
  left : t.position + t.rest.length = s.position + s.rest.length
  grown : s.errors.size ≤ t.errors.size
  paid : t.errors.size + s.position + n ≤ s.errors.size + t.position

theorem Past.paid (h : Past n s t) : Paid n s t where
  later := h.later
  left := h.left
  grown := by rw [h.errors]
  paid := by
    have := h.taken
    rw [h.errors]
    omega

theorem Paid.past {m : Nat} (h : Paid m s t) (h' : Paid n t u) : Paid (m + n) s u where
  later := h.later.trans h'.later
  left := h'.left.trans h.left
  grown := h.grown.trans h'.grown
  paid := by
    have := h.paid
    have := h'.paid
    omega

theorem Paid.onward (h : Paid (n + 1) s t) : Onward s t :=
  ⟨h.later, by have := h.grown; have := h.paid; omega, h.left⟩

theorem past_synchronize (start : Nat) (rest : List Lexeme) (s : State) :
    Past 0 s (synchronize start rest s) := by
  induction rest generalizing s with
  | nil => exact .refl s
  | cons lexeme rest ih =>
    rw [synchronize]
    split
    · exact .refl s
    · exact past_advance s
    · exact past_advance s
    all_goals
      first
      | exact (past_advance s).trans (ih _)
      | split
        · exact .refl s
        · exact (past_advance s).trans (ih _)

/-- Where nothing has been taken yet, recovery takes at least the next token: a keyword that starts
an item is no place to stop. -/
theorem synchronize_takes {start : Nat} (hs : s.Capped) (htoken : s.token ≠ .eof)
    (hstart : s.position ≤ start) : Past 1 s (synchronize start s.rest s) := by
  have honward (rest : List Lexeme) : Past 1 s (synchronize start rest s.advance) :=
    (hs.past_advance htoken).trans (past_synchronize _ _ _)
  obtain ⟨lexeme, hrest, hlexeme⟩ := hs.advance htoken
  rw [hrest, synchronize, hlexeme]
  split
  · contradiction
  · exact hs.past_advance htoken
  · exact hs.past_advance htoken
  all_goals
    first
    | exact honward _
    | rw [if_neg (Nat.not_lt.mpr hstart)]
      exact honward _

/-- Begun at this state, the rule takes a lexeme more than it recovers from errors, or it fails
before it recovers from any. -/
def PaysFrom (rule : Rule α) (s : State) : Prop :=
  match rule s with
  | .ok _ t => Paid 1 s t
  | .error _ t => Past 0 s t ∨ Paid 1 s t

theorem TakesFrom.pays {rule : Rule α} (h : TakesFrom 1 rule s) : PaysFrom rule s := by
  unfold PaysFrom
  cases hrule : rule s with
  | ok a t => exact (h.ok hrule).paid
  | error e t => exact .inl (h.error hrule)

/-- A reader that has not come further is where it was. -/
theorem State.Later.rest_eq (h : s.Later t) (hlength : t.rest.length = s.rest.length) :
    t.rest = s.rest :=
  h.left.eq_of_length hlength

/-- Where recovery starts: the error is recorded, and the depth is that of the rule. -/
def State.failedWith (t : State) (e : Diagnostic) (depth : Nat) : State :=
  { t with depth, errors := t.errors.push e }

theorem later_failedWith (t : State) (e : Diagnostic) (depth : Nat) :
    t.Later (t.failedWith e depth) :=
  .of_rest rfl

theorem size_failedWith (t : State) (e : Diagnostic) (depth : Nat) :
    (t.failedWith e depth).errors.size = t.errors.size + 1 :=
  Array.size_push e

/-- The error that is recorded is paid for by what the rule has taken. -/
theorem paid_synchronize (h : Paid 1 s t) (e : Diagnostic) :
    Onward s (synchronize s.position t.rest (t.failedWith e s.depth)) ∧
      Paid 0 s (synchronize s.position t.rest (t.failedWith e s.depth)) := by
  have hlater := h.later.trans (later_failedWith t e s.depth)
  have hsize := size_failedWith t e s.depth
  have hsync := past_synchronize s.position t.rest (t.failedWith e s.depth)
  have honward : Onward s (t.failedWith e s.depth) := ⟨hlater, h.onward.taken, h.left⟩
  have hpaid : Paid 0 s (t.failedWith e s.depth) := by
    refine ⟨hlater, h.left, ?_, ?_⟩
    · have := h.grown
      omega
    · have := h.paid
      have hposition : (t.failedWith e s.depth).position = t.position := rfl
      omega
  exact ⟨honward.past hsync, Paid.past hpaid hsync.paid⟩

/-- Where the rule has taken nothing, recovery pays for the error itself. -/
theorem stuck_synchronize (hs : s.Capped) (htoken : s.token ≠ .eof) (h : Past 0 s t)
    (hstuck : ¬ s.position < t.position) (e : Diagnostic) :
    Onward s (synchronize s.position t.rest (t.failedWith e s.depth)) ∧
      Paid 0 s (synchronize s.position t.rest (t.failedWith e s.depth)) := by
  have hleft := h.left
  have htaken := h.taken
  have hsame : t.rest = s.rest := h.later.rest_eq (by omega)
  have hlater := h.later.trans (later_failedWith t e s.depth)
  have hsize := size_failedWith t e s.depth
  have hrest : (t.failedWith e s.depth).rest = t.rest := rfl
  have hposition : (t.failedWith e s.depth).position = t.position := rfl
  have htoken' : (t.failedWith e s.depth).token ≠ .eof := by
    rw [State.token, hrest, hsame]
    exact htoken
  have hsync := synchronize_takes (hlater.capped hs) htoken'
    (show (t.failedWith e s.depth).position ≤ s.position by omega)
  have hsyncTaken := hsync.taken
  have hsyncLeft := hsync.left
  have hsyncErrors := congrArg Array.size hsync.errors
  have hbefore := congrArg Array.size h.errors
  rw [hrest] at hsync hsyncTaken hsyncLeft hsyncErrors
  exact ⟨⟨hlater.trans hsync.later, by omega, by omega⟩,
    ⟨hlater.trans hsync.later, by omega, by omega, by omega⟩⟩

/-- **Recovery goes on.** Whether the rule succeeds or fails, at least one lexeme is taken, and one
for each error. -/
theorem recovering_goes_on {rule : Rule α} (hs : s.Capped) (htoken : s.token ≠ .eof)
    (h : PaysFrom rule s) :
    ∃ found t, recovering rule s = .ok found t ∧ Onward s t ∧ Paid 0 s t := by
  unfold PaysFrom at h
  unfold recovering
  cases hrule : rule s with
  | ok a t =>
    rw [hrule] at h
    exact ⟨some a, t, rfl, Paid.onward h, { h with paid := Nat.le_of_succ_le h.paid }⟩
  | error e t =>
    rw [hrule] at h
    refine ⟨none, _, rfl, ?_⟩
    obtain hpast | hpaid := h
    · by_cases hmoved : s.position < t.position
      · exact paid_synchronize (Past.paid { hpast with taken := hmoved }) e
      · exact stuck_synchronize hs htoken hpast hmoved e
    · exact paid_synchronize hpaid e

/-- Whether the rule succeeds or fails, it takes a lexeme for each error that it recovers from. -/
def Settles (rule : Rule α) (s : State) : Prop :=
  Paid 0 s (after (rule s))

theorem TakesFrom.settles {rule : Rule α} (h : TakesFrom n rule s) : Settles rule s := by
  unfold Settles
  cases hrule : rule s with
  | ok a t => exact ((h.ok hrule).mono (Nat.zero_le n)).paid
  | error e t => exact (h.error hrule).paid

theorem Settles.bind {rule : Rule α} {next : α → Rule β} (h : Settles rule s)
    (hnext : ∀ a t, rule s = .ok a t → Settles (next a) t) : Settles (rule >>= next) s := by
  unfold Settles at h ⊢
  cases hrule : rule s with
  | ok a t =>
    rw [hrule] at h
    rw [bind_of_ok hrule]
    exact Paid.past h (hnext a t hrule)
  | error e t =>
    rw [hrule] at h
    rw [bind_of_error hrule]
    exact h

/-- Behind a rule that takes something. -/
theorem Takes.settles_bind {rule : Rule α} {next : α → Rule β} (h : Takes 0 rule) (hs : s.Capped)
    (hnext : ∀ a t, t.Capped → Settles (next a) t) : Settles (rule >>= next) s :=
  (h s hs).settles.bind fun a t hok => hnext a t (((h s hs).ok hok).later.capped hs)

theorem Settles.nested {rule : Rule α} (h : ∀ t, t.Capped → Settles rule t) (hs : s.Capped) :
    Settles (nested rule) s := by
  refine Takes.descend.settles_bind hs fun _ t ht => ?_
  have hrule := h t ht
  have hclosed (u : State) : Paid 0 u u.ascend :=
    (Past.of_same (s := u) (t := u.ascend) rfl rfl rfl).paid
  change Settles (ascending rule) t
  unfold Settles ascending at *
  cases hok : rule t with
  | ok a u | error e u =>
    rw [hok] at hrule
    exact Paid.past hrule (hclosed u)

/-- A rule for items in front of a token that is no end. -/
def ItemSettles (item : Rule (Option Item)) : Prop :=
  ∀ s : State, s.Capped → s.token ≠ .eof → Settles item s

theorem settles_itemList {item : Rule (Option Item)} (hsteps : Stepwise item)
    (h : ItemSettles item) : ∀ (fuel : Nat) (found : List Item) (s : State), s.Capped →
      Settles (itemList item fuel found) s
  | 0, _, s, hs => (Takes.pure _ s hs).settles
  | fuel + 1, found, s, hs => by
    rw [itemList]
    change Settles (if closes .rbrace s.token then pure found.reverse else _) s
    split
    · exact (Takes.pure _ s hs).settles
    · rename_i hcloses
      have htoken : s.token ≠ .eof := fun heof => hcloses (by rw [heof]; rfl)
      refine (h s hs htoken).bind fun next t hok => ?_
      have ht : t.Capped := (hsteps.later_ok hok).capped hs
      exact Takes.skipSemicolons.settles_bind ht fun _ u hu => settles_itemList hsteps h fuel _ u hu

/-- A namespace takes at least the word in front of it. -/
theorem pays_namespaceOver {item : Rule (Option Item)} (hsteps : Stepwise item)
    (h : ItemSettles item) (hs : s.Capped) (htoken : s.token = .kwNamespace) :
    PaysFrom (namespaceOver item) s := by
  have hword : Past 1 s s.advance := hs.past_advance (by rw [htoken]; nofun)
  have hexpect : expect .kwNamespace "'namespace'" s = .ok s.span s.advance := by
    unfold expect
    rw [peek_bind, if_pos htoken]
    rfl
  have hrest : Settles (dottedName >>= fun path => do
      let _ ← expect .lbrace "'\x7b' after namespace name"
      skipSemicolons
      let items ← nested (do itemList item (← budget) [])
      let stop ← here
      let _ ← expect .rbrace "'\x7d' to close namespace"
      return Item.space path items (s.span.merge stop)) s.advance := by
    refine Takes.dottedName.zero.settles_bind (hword.later.capped hs) fun path t ht => ?_
    refine (Takes.expect _ _).settles_bind ht fun _ t ht => ?_
    refine Takes.skipSemicolons.settles_bind ht fun _ t ht => ?_
    refine Settles.bind (Settles.nested (fun t ht => ?_) ht) fun items u hok => ?_
    · exact Takes.budget.settles_bind ht fun fuel u hu => settles_itemList hsteps h fuel [] u hu
    · have hlist : Stepwise (nested (budget >>= fun fuel => itemList item fuel [])) :=
        (Stepwise.budget.bind fun fuel => .itemList hsteps fuel []).nested
      have hu : u.Capped := (hlist.later_ok hok).capped ht
      refine Takes.here.settles_bind hu fun stop t ht => ?_
      exact (Takes.expect _ _).settles_bind ht fun _ t ht => (Takes.pure _ t ht).settles
  unfold PaysFrom
  have heq : namespaceOver item s = _ := (here_bind _ s).trans (bind_of_ok hexpect)
  unfold Settles at hrest
  cases hrule : namespaceOver item s with
  | ok a t =>
    rw [← heq, hrule] at hrest
    exact Paid.past hword.paid hrest
  | error e t =>
    rw [← heq, hrule] at hrest
    exact .inr (Paid.past hword.paid hrest)

/-- What comes behind a look at the next token may depend on it. -/
theorem pays_peek {next : Token → Rule α} (h : PaysFrom (next s.token) s) :
    PaysFrom (peek >>= next) s :=
  h

theorem pays_itemOver {item : Rule (Option Item)} (hsteps : Stepwise item) (h : ItemSettles item)
    (hs : s.Capped) : PaysFrom (itemOver item) s := by
  unfold itemOver
  refine pays_peek ?_
  split
  · rename_i htoken
    exact pays_namespaceOver hsteps h hs htoken
  · exact (Takes.classDecl.first (fun _ => .pure _) s hs).pays
  · exact (Takes.functionDecl.first (fun _ => .pure _) s hs).pays
  · exact (Takes.statement.first (fun _ => .pure _) s hs).pays

/-- An item is read or given up, and in both cases reading has gone on. -/
theorem itemWithin_goes_on (levels : Nat) (hs : s.Capped) (htoken : s.token ≠ .eof) :
    ∃ found t, itemWithin (levels + 1) s = .ok found t ∧ Onward s t ∧ Paid 0 s t := by
  induction levels generalizing s with
  | zero =>
    refine recovering_goes_on hs htoken (pays_itemOver (.itemWithin 0) (fun t ht _ => ?_) hs)
    exact (Takes.failHere (n := 0) _ t ht).settles
  | succ levels ih =>
    refine recovering_goes_on hs htoken
      (pays_itemOver (.itemWithin (levels + 1)) (fun t ht htoken => ?_) hs)
    obtain ⟨found, u, hok, -, hpaid⟩ := ih ht htoken
    unfold Settles
    rw [hok]
    exact hpaid

/-! ## The loops over items -/

theorem State.total_advance (s : State) : s.advance.total = s.total := by
  unfold State.advance
  split <;> rfl

theorem State.total_synchronize (start : Nat) (rest : List Lexeme) (s : State) :
    (synchronize start rest s).total = s.total := by
  induction rest generalizing s with
  | nil => rfl
  | cons lexeme rest ih =>
    rw [synchronize]
    split
    · rfl
    · exact s.total_advance
    · exact s.total_advance
    all_goals
      first
      | exact (ih _).trans s.total_advance
      | split
        · rfl
        · exact (ih _).trans s.total_advance

/-- How many lexemes there were at first is kept in mind. -/
theorem Stepwise.total_after {rule : Rule α} (h : Stepwise rule) :
    ∀ s : State, (after (rule s)).total = s.total := by
  induction h with
  | pure _ | look | fail _ _ | depth _ | report _ _ => exact fun s => rfl
  | bind _ _ ihfirst ihrest =>
    intro s
    rename_i rule next _ _
    have hfirst := ihfirst s
    cases hrule : rule s with
    | ok a t =>
      rw [hrule] at hfirst
      rw [bind_of_ok hrule]
      exact (ihrest a t).trans hfirst
    | error e t =>
      rw [hrule] at hfirst
      rw [bind_of_error hrule]
      exact hfirst
  | advance => exact fun s => s.total_advance
  | skipSemicolons => exact fun s => s.total_pastSemicolons s.rest
  | ascending _ ih =>
    rename_i rule _
    intro s
    have hinner := ih s
    unfold Grammar.ascending
    cases hrule : rule s with
    | ok a t | error e t =>
      rw [hrule] at hinner
      exact hinner
  | recovering _ ih =>
    rename_i rule _
    intro s
    have hinner := ih s
    unfold Grammar.recovering
    cases hrule : rule s with
    | ok a t =>
      rw [hrule] at hinner
      exact hinner
    | error e t =>
      rw [hrule] at hinner
      exact (State.total_synchronize _ _ _).trans hinner

theorem total_of_item {levels : Nat} {found : Option Item}
    (h : itemWithin levels s = .ok found t) : (t.pastSemicolons t.rest).total = s.total := by
  have htotal := (Stepwise.itemWithin levels).total_after s
  rw [h] at htotal
  rw [State.total_pastSemicolons]
  exact htotal

/-- Each turn of the loop over a source text that has not come to the end goes on. -/
theorem turn_topLevel (found : List Item) (hs : s.Capped) (htoken : s.token ≠ .eof) :
    ∃ found' t, Onward s t ∧ Paid 0 s t ∧ t.total = s.total ∧
      ∀ fuel, topLevel (fuel + 1) found s = topLevel fuel found' t := by
  by_cases hbrace : s.token = .rbrace
  · let reported : State :=
      { s with errors := s.errors.push (ParseError.strayBrace.placed s.span) }
    have hcapped : reported.Capped := (State.Later.of_rest (s := s) (t := reported) rfl).capped hs
    have hpast : Past 1 reported (reported.advance.pastSemicolons reported.advance.rest) :=
      (hcapped.past_advance htoken).trans (past_pastSemicolons _ _)
    have hgrown : reported.errors.size = s.errors.size + 1 := Array.size_push _
    have hlater : s.Later (reported.advance.pastSemicolons reported.advance.rest) :=
      (State.Later.of_rest (s := s) (t := reported) rfl).trans hpast.later
    have herrors := congrArg Array.size hpast.errors
    have htaken : s.position + 1 ≤ _ := hpast.taken
    refine ⟨found, reported.advance.pastSemicolons reported.advance.rest,
      ⟨hlater, htaken, hpast.left⟩, ⟨hlater, hpast.left, by omega, by omega⟩, ?_, fun fuel => ?_⟩
    · rw [State.total_pastSemicolons, State.total_advance]
    · rw [topLevel, peek_bind, hbrace]
      rfl
  · obtain ⟨next, u, hitem, honward, hpaid⟩ := itemWithin_goes_on maxNesting hs htoken
    refine ⟨next.toList ++ found, u.pastSemicolons u.rest,
      honward.past (past_pastSemicolons _ _), hpaid.past (past_pastSemicolons _ _).paid,
      total_of_item hitem, fun fuel => ?_⟩
    rw [topLevel_item fuel found htoken hbrace]
    exact bind_of_ok hitem

/-- Each turn of the loop over a namespace that has not come to its brace, or to the end, goes
on. -/
theorem turn_itemList (levels : Nat) (found : List Item) (hs : s.Capped)
    (hcloses : closes .rbrace s.token = false) :
    ∃ found' t, Onward s t ∧ Paid 0 s t ∧ t.total = s.total ∧
      ∀ fuel, itemList (itemWithin (levels + 1)) (fuel + 1) found s =
        itemList (itemWithin (levels + 1)) fuel found' t := by
  have htoken : s.token ≠ .eof := fun heof => by rw [heof] at hcloses; cases hcloses
  obtain ⟨next, u, hitem, honward, hpaid⟩ := itemWithin_goes_on levels hs htoken
  refine ⟨next.toList ++ found, u.pastSemicolons u.rest,
    honward.past (past_pastSemicolons _ _), hpaid.past (past_pastSemicolons _ _).paid,
    total_of_item hitem, fun fuel => ?_⟩
  rw [itemList, peek_bind, hcloses]
  exact bind_of_ok hitem

theorem turns_topLevel : Turns topLevel := by
  intro found s hs
  by_cases htoken : s.token = .eof
  · exact .inl ⟨.ok found.reverse s, fun fuel => topLevel_end _ found htoken⟩
  · obtain ⟨found', t, honward, -, -, hgoes⟩ := turn_topLevel found hs htoken
    exact .inr ⟨found', t, honward, hgoes⟩

theorem turns_itemList (levels : Nat) : Turns (itemList (itemWithin levels)) := by
  intro found s hs
  cases hcloses : closes .rbrace s.token with
  | true =>
    refine .inl ⟨.ok found.reverse s, fun fuel => ?_⟩
    rw [itemList, peek_bind, hcloses]
    rfl
  | false =>
    cases levels with
    | zero =>
      refine .inl ⟨.error (ParseError.tooDeep.placed s.span) s, fun fuel => ?_⟩
      rw [itemList, peek_bind, hcloses]
      rfl
    | succ levels =>
      obtain ⟨found', t, honward, -, -, hgoes⟩ := turn_itemList levels found hs hcloses
      exact .inr ⟨found', t, honward, hgoes⟩

/-! ## Up to the end -/

/-- Between two states semicolons and whole items have been taken, the items in this order. -/
inductive Consumed : State → List Item → State → Prop
  | done {s : State} : Consumed s [] s
  | semicolon {s t : State} {items : List Item} (h : s.token = .semicolon)
    (rest : Consumed s.advance items t) : Consumed s items t
  | item {s t u : State} {i : Item} {items : List Item} (h : item s = .ok (some i) u)
    (rest : Consumed u items t) : Consumed s (i :: items) t

theorem Consumed.pastSemicolons {items : List Item} (rest : List Lexeme) {s : State}
    (hrest : s.rest = rest) (hs : s.Capped) (h : Consumed (s.pastSemicolons rest) items t) :
    Consumed s items t := by
  induction rest generalizing s with
  | nil => exact h
  | cons lexeme rest ih =>
    rw [State.pastSemicolons] at h
    split at h
    · rename_i hsemicolon
      have htoken : s.token = .semicolon := by
        rw [State.token, hrest]
        exact hsemicolon
      obtain ⟨first, hadvance, -⟩ := hs.advance fun hend => by cases htoken.symm.trans hend
      rw [hadvance] at hrest
      exact .semicolon htoken
        (ih (List.cons.inj hrest).2 ((s.later_advance).capped hs) h)
    · exact h

/-- Reading a source text comes to its end, if the budget is large enough. -/
theorem topLevel_ends (fuel : Nat) : ∀ (found : List Item) (s : State), s.Capped →
    s.rest.length ≤ fuel →
      ∃ items t, topLevel fuel found s = .ok items t ∧ t.token = .eof ∧ Paid 0 s t := by
  induction fuel with
  | zero =>
    rintro found s ⟨front, last, hrest, -⟩ hfuel
    rw [hrest, List.length_append, List.length_singleton] at hfuel
    omega
  | succ fuel ih =>
    intro found s hs hfuel
    by_cases htoken : s.token = .eof
    · exact ⟨_, s, topLevel_end _ found htoken, htoken, (Past.refl s).paid⟩
    · obtain ⟨found', t, honward, hpaid, -, hgoes⟩ := turn_topLevel found hs htoken
      have hleft := honward.left
      have htaken := honward.taken
      obtain ⟨items, u, hread, hend, hpaid'⟩ :=
        ih found' t (honward.later.capped hs) (by omega)
      exact ⟨items, u, by rw [hgoes, hread], hend, hpaid.past hpaid'⟩

/-- An item is only given up with an error. -/
theorem errors_of_item_none (h : item s = .ok none t) : t.errors ≠ #[] := by
  change recovering (itemOver (itemWithin maxNesting)) s = _ at h
  unfold recovering at h
  split at h
  · cases h
  · cases h
    rw [State.errors_synchronize]
    exact Array.push_ne_empty

/-- What is read with nothing to complain of is items, and semicolons between them. -/
theorem topLevel_consumes (fuel : Nat) : ∀ (found : List Item) (s : State) {items : List Item},
    s.Capped → topLevel fuel found s = .ok items t → t.errors = #[] →
      ∃ new, items = found.reverse ++ new ∧ Consumed s new t := by
  induction fuel with
  | zero =>
    intro found s items hs hread hclean
    cases hread
    exact ⟨[], by simp, .done⟩
  | succ fuel ih =>
    intro found s items hs hread hclean
    by_cases heof : s.token = .eof
    · rw [topLevel_end _ found heof] at hread
      cases hread
      exact ⟨[], by simp, .done⟩
    · have hbrace : s.token ≠ .rbrace := fun hbrace => topLevel_brace hbrace hread hclean
      rw [topLevel_item fuel found heof hbrace] at hread
      obtain ⟨next, u, hitem, hrest⟩ := bind_eq_ok.mp hread
      have hsteps : Stepwise (skipSemicolons >>= fun _ => topLevel fuel (next.toList ++ found)) :=
        Stepwise.skipSemicolons.bind fun _ => .topLevel fuel _
      have hitemClean := hsteps.unblamed u (by rw [hrest]; exact hclean)
      have hu : u.Capped := ((Stepwise.itemWithin _).later_ok hitem).capped hs
      have hafter := (State.later_pastSemicolons u.rest u).capped hu
      obtain ⟨new, rfl, hnew⟩ := ih (next.toList ++ found) _ hafter hrest hclean
      have hgap : Consumed u new t := .pastSemicolons u.rest rfl hu hnew
      cases next with
      | some i => exact ⟨i :: new, by simp, .item hitem hgap⟩
      | none => exact absurd hitemClean (errors_of_item_none hitem)

/-! ## Levels of nesting -/

theorem bind_congr_ok {rule : Rule α} {next next' : α → Rule β}
    (h : ∀ a t, rule s = .ok a t → next a t = next' a t) :
    (rule >>= next) s = (rule >>= next') s := by
  cases hrule : rule s with
  | ok a t => rw [bind_of_ok hrule, bind_of_ok hrule, h a t hrule]
  | error e t => rw [bind_of_error hrule, bind_of_error hrule]

/-- Two rules agree at a level of nesting. -/
def Agree (depth : Nat) (rule rule' : Rule α) : Prop :=
  ∀ s : State, s.depth = depth → rule s = rule' s

/-- Rules agree behind a rule that keeps the level. -/
theorem Agree.behind {depth : Nat} {rule : Rule α} {next next' : α → Rule β}
    (hrule : Keeps rule depth fun _ => True) (h : ∀ a, Agree depth (next a) (next' a)) :
    Agree depth (rule >>= next) (rule >>= next') :=
  fun _ hs => bind_congr_ok fun a t hok => h a t (hrule hs hok).1

theorem Agree.bind {depth : Nat} {rule rule' : Rule α} (h : Agree depth rule rule')
    (next : α → Rule β) : Agree depth (rule >>= next) (rule' >>= next) := by
  intro s hs
  cases hrule : rule s with
  | ok a t => rw [bind_of_ok hrule, bind_of_ok ((h s hs).symm.trans hrule)]
  | error e t => rw [bind_of_error hrule, bind_of_error ((h s hs).symm.trans hrule)]

/-- Rules that agree one level deeper, where there is one. -/
theorem Agree.nested {depth : Nat} {rule rule' : Rule α}
    (h : depth < maxNesting → Agree (depth + 1) rule rule') :
    Agree depth (nested rule) (nested rule') := by
  intro s hs
  refine bind_congr_ok fun _ t hok => ?_
  obtain ⟨hroom, ht⟩ := yields_descend hs hok
  change ascending rule t = ascending rule' t
  unfold ascending
  rw [h hroom t ht]

theorem keeps_itemWithin (levels depth : Nat) :
    Keeps (itemWithin levels) depth fun _ => True :=
  have hreads : ReadsItem (fun _ => True) (itemWithin levels) :=
    itemWithin_reads (fun depth => (expression_bounded depth).imp fun _ _ => trivial) levels
  (hreads depth).imp fun _ _ => trivial

theorem Agree.itemList {depth levels : Nat} {item : Rule (Option Item)}
    (h : Agree depth item (itemWithin levels)) : ∀ (fuel : Nat) (found : List Item),
      Agree depth (itemList item fuel found) (itemList (itemWithin levels) fuel found)
  | 0, _ => fun _ _ => rfl
  | fuel + 1, found => by
    rw [Grammar.itemList, Grammar.itemList]
    refine .behind keeps_peek fun token => ?_
    split
    · exact fun _ _ => rfl
    · intro s hs
      rw [(h.bind _) s hs]
      exact Agree.behind (keeps_itemWithin levels depth)
        (fun next => .behind keeps_skipSemicolons fun _ => .itemList h fuel _) s hs

theorem Agree.itemOver {depth levels : Nat} {item : Rule (Option Item)}
    (h : depth < maxNesting → Agree (depth + 1) item (itemWithin levels)) :
    Agree depth (itemOver item) (itemOver (itemWithin levels)) := by
  refine .behind keeps_peek fun token => ?_
  split
  · refine .behind keeps_here fun start => .behind keeps_expect fun _ => ?_
    refine .behind keeps_dottedName fun path => .behind keeps_expect fun _ => ?_
    refine .behind keeps_skipSemicolons fun _ => Agree.bind (.nested fun hroom => ?_) _
    exact .behind keeps_budget fun fuel => .itemList (h hroom) fuel []
  · exact fun _ _ => rfl
  · exact fun _ _ => rfl
  · exact fun _ _ => rfl

/-- The levels of nesting that are still free are never used up: one more makes no difference. -/
theorem itemWithin_succ (levels : Nat) : ∀ s : State, s.depth ≤ maxNesting →
    maxNesting < levels + s.depth → itemWithin (levels + 1) s = itemWithin levels s := by
  induction levels with
  | zero =>
    intro s hdepth hlevels
    omega
  | succ levels ih =>
    intro s hdepth hlevels
    have hagree : Agree s.depth (itemOver (itemWithin (levels + 1)))
        (itemOver (itemWithin levels)) :=
      .itemOver fun hroom t ht => ih t (by omega) (by omega)
    have hover := hagree s rfl
    change recovering (itemOver (itemWithin (levels + 1))) s =
      recovering (itemOver (itemWithin levels)) s
    unfold recovering
    rw [hover]

/-! ## The whole -/

/-- A reader of lexemes that are closed by an end, of which there were at least as many as are
left. -/
structure State.Sound (s : State) : Prop where
  capped : s.Capped
  budget : s.rest.length ≤ s.total

/-- Every rule keeps to this. -/
theorem Stepwise.sound {rule : Rule α} (h : Stepwise rule) (hs : s.Sound) :
    (after (rule s)).Sound := by
  have hlater := h.later s
  refine ⟨hlater.capped hs.capped, ?_⟩
  rw [h.total_after s]
  exact hlater.left.length_le.trans hs.budget

theorem Onward.sound (h : Onward s t) (htotal : t.total = s.total) (hs : s.Sound) : t.Sound :=
  ⟨h.later.capped hs.capped, htotal ▸ h.later.left.length_le.trans hs.budget⟩

/-- No loop that is begun at this state is cut off by its budget: more turns make no difference. -/
structure LoopsEnd (s : State) (more : Nat) : Prop where
  file : topLevel (s.total + 1 + more) [] s = topLevel (s.total + 1) [] s
  space : ∀ levels, itemList (itemWithin levels) (s.total + 1 + more) [] s =
    itemList (itemWithin levels) (s.total + 1) [] s
  members : members (s.total + 1 + more) [] [] s = members (s.total + 1) [] [] s
  parameters : parameters (s.total + 1 + more) [] s = parameters (s.total + 1) [] s
  block : ∀ levels, statements (statementWithin levels) (s.total + 1 + more) [] s =
    statements (statementWithin levels) (s.total + 1) [] s
  arguments : ∀ levels first,
    moreArguments (expressionOver (operand levels)) (s.total + 1 + more) [first] s =
      moreArguments (expressionOver (operand levels)) (s.total + 1) [first] s
  names : ∀ first, moreNames (s.total + 1 + more) [first] s = moreNames (s.total + 1) [first] s

theorem State.Sound.loopsEnd (hs : s.Sound) (more : Nat) : LoopsEnd s more := by
  have hfuel : s.rest.length ≤ s.total + 1 := Nat.le_succ_of_le hs.budget
  exact {
    file := turns_topLevel.ample more _ [] s hs.capped hfuel
    space := fun levels => (turns_itemList levels).ample more _ [] s hs.capped hfuel
    members := turns_members.ample more _ ([], []) s hs.capped hfuel
    parameters := turns_parameters.ample more _ [] s hs.capped hfuel
    block := fun levels =>
      (turns_statements (.statementWithin levels)).ample more _ [] s hs.capped hfuel
    arguments := fun levels first =>
      (turns_moreArguments (.expressionOver (.operand levels))).ample more _ [first] s hs.capped hfuel
    names := fun first => turns_moreNames.ample more _ [first] s hs.capped hfuel }

theorem sound_ofLexemes {lexemes : List Lexeme} (h : Ended lexemes) :
    (State.ofLexemes lexemes).Sound := by
  obtain ⟨front, last, rfl, hlast, -⟩ := h
  exact ⟨⟨front, last, rfl, hlast⟩, Nat.le_refl _⟩

/-- A reader that stands before the only end has nothing else left. -/
theorem rest_of_ended {lexemes : List Lexeme} (h : Ended lexemes) (hlater : t.rest <:+ lexemes)
    (ht : t.Capped) (hend : t.token = .eof) :
    ∃ front last, lexemes = front ++ [last] ∧ last.token = .eof ∧ t.rest = [last] := by
  obtain ⟨front, last, rfl, hlast, hinner⟩ := h
  obtain ⟨left, final, hrest, -⟩ := ht
  obtain ⟨taken, htaken⟩ := hlater
  rw [hrest, ← List.append_assoc] at htaken
  obtain ⟨hfront, hfinal⟩ := List.append_inj' htaken rfl
  cases left with
  | nil => exact ⟨front, last, rfl, hlast, by rw [hrest, List.nil_append, hfinal]⟩
  | cons first left =>
    rw [State.token, hrest] at hend
    exact absurd hend (hinner first (hfront ▸ by simp))

end Grammar

open Grammar

/-- Reading some lexemes goes on up to their end, whatever is wrong with them. -/
structure Progresses (lexemes : List Lexeme) : Prop where
  begins : (State.ofLexemes lexemes).Sound
  /-- So whatever holds of all sound states holds wherever reading comes by. -/
  sound : ∀ {α : Type} {rule : Rule α} {s : State}, Stepwise rule → s.Sound →
    (after (rule s)).Sound
  /-- A turn of the loop over the text, also one in which an item is given up. -/
  fileTurn : ∀ {s : State}, s.Sound → s.token ≠ .eof → ∀ found, ∃ found' t,
    s.position < t.position ∧ t.Sound ∧
      ∀ fuel, topLevel (fuel + 1) found s = topLevel fuel found' t
  /-- A turn of a loop over a namespace, also one in which an item is given up. -/
  namespaceTurn : ∀ {s : State}, s.Sound → s.token ≠ .eof → s.token ≠ .rbrace →
    ∀ levels found, ∃ found' t, s.position < t.position ∧ t.Sound ∧
      ∀ fuel, itemList (itemWithin (levels + 1)) (fuel + 1) found s =
        itemList (itemWithin (levels + 1)) fuel found' t
  loopsEnd : ∀ {s : State}, s.Sound → ∀ more, LoopsEnd s more
  /-- The levels of nesting that are still free are never used up. -/
  levels : ∀ levels (s : State), s.depth ≤ maxNesting → maxNesting < levels + s.depth →
    itemWithin (levels + 1) s = itemWithin levels s
  ends : ∃ items t, sourceText (.ofLexemes lexemes) = .ok items t ∧ t.token = .eof
  /-- What is accepted has been taken up to the end. -/
  consumed : ∀ items, parse lexemes = .ok items → ∃ front last t, lexemes = front ++ [last] ∧
    last.token = .eof ∧ Consumed (.ofLexemes lexemes) items t ∧ t.rest = [last]
  errors : ∀ errors, parse lexemes = .error errors → errors.length < lexemes.length

/-- **Error recovery always makes progress.** Whatever lexemes with one end behind them are read,
each turn of the loop over the text and of each loop over a namespace takes at least one of them,
unless it ends the loop, so that no loop is cut off by its budget and reading comes to the end. What
is accepted has been taken as items and as semicolons between them, up to the end, and there are
fewer errors than lexemes. -/
theorem parse_progresses {lexemes : List Lexeme} (hended : Ended lexemes) :
    Progresses lexemes := by
  have hsound := sound_ofLexemes hended
  have hsteps : Stepwise sourceText := .sourceText
  -- Reading begins behind the first semicolons.
  have hbegin : Past 0 (.ofLexemes lexemes) ((State.ofLexemes lexemes).pastSemicolons lexemes) :=
    past_pastSemicolons _ _
  have hcapped := hbegin.later.capped hsound.capped
  obtain ⟨items, t, hread, hend, hpaid⟩ := topLevel_ends
    (((State.ofLexemes lexemes).pastSemicolons lexemes).total + 1) [] _ hcapped (by
      rw [total_ofLexemes]
      exact Nat.le_succ_of_le hbegin.later.left.length_le)
  refine ⟨hsound, fun hrule hs => hrule.sound hs, fun hs htoken found => ?_,
    fun hs htoken hbrace levels found => ?_, fun hs more => hs.loopsEnd more, itemWithin_succ,
    ⟨items, t, hread, hend⟩, fun items hparse => ?_, fun errors hparse => ?_⟩
  · obtain ⟨found', t, honward, -, htotal, hgoes⟩ := turn_topLevel found hs.capped htoken
    exact ⟨found', t, honward.taken, honward.sound htotal hs, hgoes⟩
  · obtain ⟨found', t, honward, -, htotal, hgoes⟩ :=
      turn_itemList levels found hs.capped (by simp [closes, htoken, hbrace])
    exact ⟨found', t, honward.taken, honward.sound htotal hs, hgoes⟩
  · obtain ⟨u, hsource, hclean⟩ := parse_eq_ok.mp hparse
    have hend := token_of_sourceText hended hsource hclean
    have hlater := hsteps.later_ok hsource
    obtain ⟨front, last, hlexemes, hlast, hrest⟩ :=
      rest_of_ended hended hlater.left (hlater.capped hsound.capped) hend
    rw [sourceText_eq] at hsource
    obtain ⟨new, rfl, hnew⟩ := topLevel_consumes _ [] _ hcapped hsource hclean
    exact ⟨front, last, u, hlexemes, hlast, .pastSemicolons lexemes rfl hsound.capped hnew, hrest⟩
  · have hsource : sourceText (.ofLexemes lexemes) = .ok items t := hread
    unfold parse at hparse
    rw [hsource] at hparse
    dsimp only at hparse
    split at hparse
    · cases hparse
    · cases hparse
      have hcount := (hbegin.paid.past hpaid).paid
      have hleft := (hbegin.paid.past hpaid).left
      obtain ⟨front, last, hrest, -⟩ := (hsteps.later_ok hsource).capped hsound.capped
      have hone : 0 < t.rest.length := by
        rw [hrest]
        simp
      have hstart : (State.ofLexemes lexemes).errors.size = 0 ∧
          (State.ofLexemes lexemes).position = 0 ∧
          (State.ofLexemes lexemes).rest.length = lexemes.length := ⟨rfl, rfl, rfl⟩
      rw [Array.length_toList]
      omega

/-- A function without a name, and a brace behind it. -/
def namelessFunction : List Lexeme :=
  [⟨.kwFn, ⟨0, 0, 2⟩⟩, ⟨.rbrace, ⟨0, 3, 4⟩⟩, ⟨.eof, ⟨0, 4, 4⟩⟩]

/-- The function is given up, recovery takes the brace with it, and the end is reached with one
error. -/
theorem nameless_function_is_passed :
    Ended namelessFunction ∧
    (∃ items t, sourceText (.ofLexemes namelessFunction) = .ok items t ∧ t.token = .eof) ∧
    ∃ errors, parse namelessFunction = .error errors ∧ errors.length = 1 ∧
      errors.length < namelessFunction.length := by
  have hended : Ended namelessFunction :=
    ⟨[⟨.kwFn, ⟨0, 0, 2⟩⟩, ⟨.rbrace, ⟨0, 3, 4⟩⟩], ⟨.eof, ⟨0, 4, 4⟩⟩, rfl, rfl, by simp⟩
  have hprogresses := parse_progresses hended
  have hparse : parse namelessFunction =
      .error [(ParseError.expected "identifier" .rbrace).placed ⟨0, 3, 4⟩] := rfl
  exact ⟨hended, hprogresses.ends, _, hparse, rfl, hprogresses.errors _ hparse⟩

end ScriptHost
