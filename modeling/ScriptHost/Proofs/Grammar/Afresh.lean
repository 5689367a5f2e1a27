import ScriptHost.Proofs.Grammar.Balanced
/-!
# Each item is read afresh

What a rule reads depends on the lexemes that are left and on the level of nesting, and on nothing
else that a reader knows of: `Climbs.alike`. Since the level is the same in front of each item of a
scope, whatever has been read or given up before, an item is read as if it were the first of its
scope: `levels_are_balanced`.
-/

set_option autoImplicit false

namespace ScriptHost.Grammar

variable {α β : Type} {n : Nat} {s s' t t' : State}

/-! ## Two readers of the same lexemes -/

/-- Two readers, begun at the states `one` and `other`, have the same lexemes left, at the same
level. Both have taken as many since, and met with the same errors. When fewer than `n` lexemes are
left, both know the one taken last. -/
structure Alike (one other : State) (n : Nat) (s s' : State) : Prop where
  rest : s'.rest = s.rest
  depth : s'.depth = s.depth
  sound : s.Sound
  sound' : s'.Sound
  position : s.position + other.position = s'.position + one.position
  errors : ∃ new, s.errors = one.errors ++ new ∧ s'.errors = other.errors ++ new
  previous : s.rest.length < n → s'.previous = s.previous

/-- Both readers end in the same way. -/
def EndAlike (one other : State) (n : Nat) :
    EStateM.Result Diagnostic State α → EStateM.Result Diagnostic State α → Prop
  | .ok a t, .ok a' t' => a' = a ∧ Alike one other n t t'
  | .error e t, .error e' t' => e' = e ∧ Alike one other n t t'
  | _, _ => False

variable {one other : State}

theorem State.Sound.of_same (hs : s.Sound) (hrest : t.rest = s.rest) (htotal : t.total = s.total) :
    t.Sound :=
  ⟨(State.Later.of_rest hrest).capped hs.capped, by rw [hrest, htotal]; exact hs.budget⟩

theorem State.Sound.advance (hs : s.Sound) : s.advance.Sound :=
  ⟨s.later_advance.capped hs.capped, by
    rw [s.total_advance]
    exact s.later_advance.left.length_le.trans hs.budget⟩

namespace Alike

theorem token (h : Alike one other n s s') : s'.token = s.token := by
  unfold State.token
  rw [h.rest]

theorem span (h : Alike one other n s s') : s'.span = s.span := by
  unfold State.span
  rw [h.rest]

theorem withDepth (h : Alike one other n s s') (depth : Nat) :
    Alike one other n { s with depth } { s' with depth } :=
  { h with
    depth := rfl
    sound := h.sound.of_same rfl rfl
    sound' := h.sound'.of_same rfl rfl }

theorem ascend (h : Alike one other n s s') : Alike one other n s.ascend s'.ascend := by
  unfold State.ascend
  rw [h.depth]
  exact h.withDepth _

theorem report (h : Alike one other n s s') (d : Diagnostic) :
    Alike one other n { s with errors := s.errors.push d }
      { s' with errors := s'.errors.push d } := by
  obtain ⟨new, herrors, herrors'⟩ := h.errors
  refine { h with
    sound := h.sound.of_same rfl rfl
    sound' := h.sound'.of_same rfl rfl
    errors := ⟨new.push d, ?_, ?_⟩ }
  · dsimp only
    rw [herrors, Array.push_append]
  · dsimp only
    rw [herrors', Array.push_append]

theorem failedWith (h : Alike one other n s s') (d : Diagnostic) (depth : Nat) :
    Alike one other n (s.failedWith d depth) (s'.failedWith d depth) :=
  (h.report d).withDepth depth

/-- Both take the same lexeme. -/
theorem advance (h : Alike one other n s s') : Alike one other n s.advance s'.advance := by
  have hsound := h.sound.advance
  have hsound' := h.sound'.advance
  have hposition := h.position
  unfold State.advance at hsound hsound' ⊢
  rw [h.rest] at hsound' ⊢
  split
  · rename_i lexeme next rest hrest
    rw [hrest] at hsound hsound'
    exact {
      rest := rfl
      depth := h.depth
      sound := hsound
      sound' := hsound'
      position := by dsimp only; omega
      errors := h.errors
      previous := fun _ => rfl }
  · exact h

theorem pastSemicolons (rest : List Lexeme) (h : Alike one other n s s') :
    Alike one other n (s.pastSemicolons rest) (s'.pastSemicolons rest) := by
  induction rest generalizing s s' with
  | nil => exact h
  | cons lexeme rest ih =>
    rw [State.pastSemicolons, State.pastSemicolons]
    split
    · exact ih h.advance
    · exact h

/-- Both go on to where the next item may start. -/
theorem synchronize {start start' : Nat} (rest : List Lexeme)
    (hstart : start + other.position = start' + one.position) (h : Alike one other n s s') :
    Alike one other n (Grammar.synchronize start rest s) (Grammar.synchronize start' rest s') := by
  induction rest generalizing s s' with
  | nil => exact h
  | cons lexeme rest ih =>
    have hmoved : start < s.position ↔ start' < s'.position := by
      have hposition := h.position
      omega
    rw [Grammar.synchronize, Grammar.synchronize]
    simp only [hmoved]
    split
    · exact h
    · exact h.advance
    · exact h.advance
    all_goals
      first
      | exact ih h.advance
      | split
        · exact h
        · exact ih h.advance

end Alike

theorem EndAlike.bind {rule : Rule α} {next : α → Rule β}
    (hrule : EndAlike one other n (rule s) (rule s'))
    (hnext : ∀ a t t', rule s = .ok a t → rule s' = .ok a t' → Alike one other n t t' →
      EndAlike one other n (next a t) (next a t')) :
    EndAlike one other n ((rule >>= next) s) ((rule >>= next) s') := by
  cases hok : rule s with
  | ok a t =>
    cases hok' : rule s' with
    | ok a' t' =>
      rw [hok, hok'] at hrule
      obtain ⟨rfl, halike⟩ := hrule
      rw [bind_of_ok hok, bind_of_ok hok']
      exact hnext a' t t' hok hok' halike
    | error e' t' =>
      rw [hok, hok'] at hrule
      exact hrule.elim
  | error e t =>
    cases hok' : rule s' with
    | ok a' t' =>
      rw [hok, hok'] at hrule
      exact hrule.elim
    | error e' t' =>
      rw [hok, hok'] at hrule
      rw [bind_of_error hok, bind_of_error hok']
      exact hrule

/-- Whatever has been taken before, a lexeme that both take is known to both. -/
theorem Alike.taken (h : Alike one other s.rest.length t t') (hpast : Past 1 s t) :
    t'.previous = t.previous := by
  have htaken := hpast.taken
  have hleft := hpast.left
  exact h.previous (by omega)

/-- **A rule goes by what is left and by the level alone.** -/
theorem Climbs.alike {floor depth : Nat} {rule : Rule α} {right : Nat → α → Prop}
    (h : Climbs floor rule depth right) :
    ∀ (n : Nat) (s s' : State), s.depth = depth → floor ≤ depth → Alike one other n s s' →
      EndAlike one other n (rule s) (rule s') := by
  induction h with
  | pure h | fail e span => exact fun n s s' _ _ halike => ⟨rfl, halike⟩
  | bind first _ ihfirst ihrest =>
    intro n s s' hs hfloor halike
    refine (ihfirst n s s' hs hfloor halike).bind fun a t t' hok _ ht => ?_
    have hends := first.endsWithin s hs hfloor
    rw [hok] at hends
    obtain ⟨hmiddle, hlevel, -⟩ := hends
    exact ihrest t.depth a hmiddle n t t' rfl hlevel ht
  | peek h => exact fun n s s' _ _ halike => ⟨halike.token, halike⟩
  | here h => exact fun n s s' _ _ halike => ⟨halike.span, halike⟩
  | @level floor depth α next right _ ih =>
    intro n s s' hs hfloor halike
    have hrest := ih n s s' hs hfloor halike
    change EndAlike one other n (next s.depth s) (next s'.depth s')
    rw [halike.depth, hs]
    exact hrest
  | @behind floor depth α β rule next middle right first takes _ ihfirst ihrest =>
    intro n s s' hs hfloor halike
    refine (ihfirst n s s' hs hfloor halike).bind fun a t t' hok hok' ht => ?_
    have hends := first.endsWithin s hs hfloor
    rw [hok] at hends
    obtain ⟨hmiddle, hlevel, -⟩ := hends
    -- Both know what the rule has taken last, though not what was taken before it.
    have hfresh := ihfirst s.rest.length s s' hs hfloor
      { halike with previous := fun hless => absurd hless (Nat.lt_irrefl _) }
    rw [hok, hok'] at hfresh
    have hprevious := hfresh.2.taken ((takes s halike.sound.capped).ok hok)
    change EndAlike one other n (next a t.previous t) (next a t'.previous t')
    rw [hprevious]
    exact ihrest t.depth a t.previous hmiddle n t t' rfl hlevel ht
  | @loop floor depth α A loop right turns found _ ih =>
    intro n s s' hs hfloor halike
    -- Neither budget cuts the loop off, so both loops may have the same budget.
    have hloop := turns.ample s'.total (s.total + 1) found s halike.sound.capped
      (Nat.le_succ_of_le halike.sound.budget)
    have hloop' := turns.ample s.total (s'.total + 1) found s' halike.sound'.capped
      (Nat.le_succ_of_le halike.sound'.budget)
    rw [show s'.total + 1 + s.total = s.total + 1 + s'.total by omega] at hloop'
    change EndAlike one other n (loop (s.total + 1) found s) (loop (s'.total + 1) found s')
    rw [← hloop, ← hloop']
    exact ih _ n s s' hs hfloor halike
  | advance h => exact fun n s s' _ _ halike => ⟨rfl, halike.advance⟩
  | skipSemicolons h =>
    intro n s s' hs hfloor halike
    have hskipped := halike.pastSemicolons s.rest
    refine ⟨rfl, ?_⟩
    change Alike one other n (s.pastSemicolons s.rest) (s'.pastSemicolons s'.rest)
    rw [halike.rest]
    exact hskipped
  | report e span h => exact fun n s s' _ _ halike => ⟨rfl, halike.report _⟩
  | descend h =>
    intro n s s' hs hfloor halike
    by_cases hroom : s.depth < maxNesting
    · rw [descend_eq hroom, descend_eq (halike.depth ▸ hroom), halike.depth]
      exact ⟨rfl, halike.withDepth _⟩
    · have hfull := Nat.not_lt.mp hroom
      rw [descend_fails hfull, descend_fails (halike.depth ▸ hfull), halike.span]
      exact ⟨rfl, halike⟩
  | restoreDepth above below h => exact fun n s s' _ _ halike => ⟨rfl, halike.withDepth _⟩
  | @ascending floor depth α rule right isOpen inner ih =>
    intro n s s' hs hfloor halike
    have hinner := ih n s s' hs (Nat.le_refl _) halike
    unfold Grammar.ascending
    cases hrule : rule s <;> cases hrule' : rule s' <;> rw [hrule, hrule'] at hinner
    · exact ⟨hinner.1, hinner.2.ascend⟩
    · exact hinner.elim
    · exact hinner.elim
    · exact ⟨hinner.1, hinner.2.ascend⟩
  | @recovering floor depth α rule right inner given ih =>
    intro n s s' hs hfloor halike
    have hinner := ih n s s' hs (Nat.le_refl _) halike
    unfold Grammar.recovering
    cases hrule : rule s <;> cases hrule' : rule s' <;> rw [hrule, hrule'] at hinner
    · exact ⟨congrArg some hinner.1, hinner.2⟩
    · exact hinner.elim
    · exact hinner.elim
    · rename_i e t e' t'
      obtain ⟨rfl, ht⟩ := hinner
      refine ⟨rfl, ?_⟩
      change Alike one other n (synchronize s.position t.rest (t.failedWith e' s.depth))
        (synchronize s'.position t'.rest (t'.failedWith e' s'.depth))
      rw [ht.rest, halike.depth]
      exact (ht.failedWith e' s.depth).synchronize t.rest halike.position

/-! ## The parts of the grammar -/

/-- The rules of the grammar, each over rules for what is nested in it. -/
inductive Part : {α : Type} → Rule α → Prop
  | sourceText : Part sourceText
  | itemWithin (levels : Nat) : Part (itemWithin (levels + 1))
  | itemOver (levels : Nat) : Part (itemOver (itemWithin levels))
  | namespaceOver (levels : Nat) : Part (namespaceOver (itemWithin levels))
  | items (levels : Nat) : Part (budget >>= fun fuel => itemList (itemWithin levels) fuel [])
  | classDecl : Part classDecl
  | members : Part (budget >>= fun fuel => members fuel [] [])
  | fieldDecl : Part fieldDecl
  | functionDecl : Part functionDecl
  | parameters : Part (budget >>= fun fuel => parameters fuel [])
  | statementWithin (levels : Nat) : Part (statementWithin levels)
  | block (levels : Nat) : Part (block (statementWithin levels))
  | braced (levels : Nat) : Part (braced (block (statementWithin levels)))
  | variableDecl : Part variableDecl
  | conditional (levels fuel : Nat) : Part (conditional (block (statementWithin levels)) fuel)
  | loop (levels : Nat) : Part (loop (block (statementWithin levels)))
  | returning : Part returning
  | expressionOrAssignment : Part expressionOrAssignment
  | expressionOver (levels : Nat) : Part (expressionOver (operand levels))
  | operand (levels : Nat) : Part (operand levels)
  | postfixExpr (levels : Nat) : Part (postfixExpr (expressionOver (operand levels)))
  | primary (levels : Nat) : Part (primary (expressionOver (operand levels)))
  | creation (levels : Nat) : Part (creation (expressionOver (operand levels)))
  | arguments (levels : Nat) : Part (arguments (expressionOver (operand levels)))
  | dottedName : Part dottedName
  | expect (token : Token) (what : String) : Part (expect token what)
  | identifier : Part identifier
  | terminator : Part terminator
  | skipSemicolons : Part skipSemicolons
  /-- The operators of a level between parts: sums, products and so on. -/
  | level (op? : Token → Option BinaryOp) {operand : Rule Expr} (h : Part operand) :
      Part (level op? operand)
  /-- A part that is read one level deeper. -/
  | nested {α : Type} {rule : Rule α} (h : Part rule) : Part (nested rule)

theorem Part.balanced {rule : Rule α} (h : Part rule) : Balanced rule := by
  have hexpression (levels : Nat) : Balanced (Grammar.expressionOver (Grammar.operand levels)) :=
    .expressionOver (.operand levels)
  have htakes (levels : Nat) : Takes 1 (Grammar.expressionOver (Grammar.operand levels)) :=
    .expressionOver (.operand levels)
  have hblock (levels : Nat) : Balanced (Grammar.block (Grammar.statementWithin levels)) :=
    .block (.statementWithin levels) (.statementWithin levels)
  have hitem (levels : Nat) : Balanced (Grammar.itemWithin levels) := .itemWithin levels
  induction h with
  | sourceText => exact .sourceText
  | itemWithin levels => exact hitem (levels + 1)
  | itemOver levels => exact .itemOver (hitem levels) (turns_itemList levels)
  | namespaceOver levels => exact .namespaceOver (hitem levels) (turns_itemList levels)
  | items levels =>
    exact .loop (turns_itemList levels) [] fun fuel => .itemList (hitem levels) fuel []
  | classDecl => exact .classDecl
  | members => exact .loop turns_members ([], []) fun fuel => .members fuel [] []
  | fieldDecl => exact .fieldDecl
  | functionDecl => exact .functionDecl
  | parameters => exact .loop turns_parameters [] fun fuel => .parameters fuel []
  | statementWithin levels => exact .statementWithin levels
  | block levels => exact hblock levels
  | braced levels => exact .braced (hblock levels)
  | variableDecl => exact .variableDecl
  | conditional levels fuel => exact .conditional (hblock levels) fuel
  | loop levels => exact .whileLoop (hblock levels)
  | returning => exact .returning
  | expressionOrAssignment => exact .expressionOrAssignment
  | expressionOver levels => exact hexpression levels
  | operand levels => exact .operand levels
  | postfixExpr levels => exact .postfixExpr (hexpression levels) (htakes levels)
  | primary levels => exact .primary (hexpression levels) (htakes levels)
  | creation levels => exact .creation (hexpression levels) (htakes levels)
  | arguments levels => exact .arguments (hexpression levels) (htakes levels)
  | dottedName => exact .dottedName
  | expect token what => exact .expect token what
  | identifier => exact .identifier
  | terminator => exact .terminator
  | skipSemicolons => exact .skipSemicolons
  | level op? _ ih => exact .level op? ih
  | nested _ ih => exact ih.nested

/-! ## The items of a scope -/

/-- Between two states a scope has been read on: items have been read or given up, semicolons have
been skipped, and braces that close nothing have been reported. -/
inductive Passed (levels : Nat) : State → State → Prop
  | done {s : State} : Passed levels s s
  | item {s t u : State} {found : Option Item} (h : itemWithin (levels + 1) s = .ok found t)
      (rest : Passed levels t u) : Passed levels s u
  | semicolons {s u : State} (rest : Passed levels (s.pastSemicolons s.rest) u) : Passed levels s u
  | strayBrace {s u : State}
      (rest : Passed levels
        { s with errors := s.errors.push (ParseError.strayBrace.placed s.span) }.advance u) :
      Passed levels s u

variable {levels : Nat}

/-- An item always ends, be it read or given up, and at the level where it began. -/
theorem itemWithin_balanced (levels : Nat) (s : State) :
    ∃ found t, itemWithin (levels + 1) s = .ok found t ∧ t.depth = s.depth := by
  have hbalanced : Balanced (itemWithin (levels + 1)) := .itemWithin _
  have hends := (hbalanced s.depth).endsWithin s rfl (Nat.le_refl _)
  change EndsWithin _ _ _ (recovering (itemOver (itemWithin levels)) s) at hends
  change ∃ found t,
    recovering (itemOver (itemWithin levels)) s = .ok found t ∧ t.depth = s.depth
  unfold recovering at hends ⊢
  cases hrule : itemOver (itemWithin levels) s with
  | ok i t =>
    rw [hrule] at hends
    exact ⟨some i, t, rfl, hends.1⟩
  | error e t =>
    rw [hrule] at hends
    exact ⟨none, _, rfl, hends.1⟩

theorem Passed.depth_eq (h : Passed levels s t) : t.depth = s.depth := by
  induction h with
  | done => rfl
  | item h _ ih =>
    rename_i s t u found _
    obtain ⟨found', t', hread, hdepth⟩ := itemWithin_balanced levels s
    rw [h] at hread
    cases hread
    exact ih.trans hdepth
  | semicolons _ ih => exact ih.trans (State.depth_pastSemicolons _ _)
  | strayBrace _ ih => exact ih.trans (State.depth_advance _)

theorem Passed.sound (h : Passed levels s t) (hs : s.Sound) : t.Sound := by
  induction h with
  | done => exact hs
  | item h _ ih =>
    have hafter := (Stepwise.itemWithin (levels + 1)).sound hs
    rw [h] at hafter
    exact ih hafter
  | semicolons _ ih => exact ih (Stepwise.skipSemicolons.sound hs)
  | @strayBrace s u _ ih =>
    have hreported (d : Diagnostic) : State.Sound { s with errors := s.errors.push d } :=
      hs.of_same rfl rfl
    exact ih (hreported _).advance

/-- The loop over a source text only passes from item to item. -/
theorem passed_topLevel (fuel : Nat) : ∀ (found : List Item) (s : State) {items : List Item},
    topLevel fuel found s = .ok items t → Passed maxNesting s t := by
  induction fuel with
  | zero =>
    intro found s items h
    cases h
    exact .done
  | succ fuel ih =>
    intro found s items h
    by_cases heof : s.token = .eof
    · rw [topLevel_end _ found heof] at h
      cases h
      exact .done
    by_cases hbrace : s.token = .rbrace
    · rw [topLevel, peek_bind, hbrace] at h
      exact .strayBrace (.semicolons (ih found _ h))
    · rw [topLevel_item fuel found heof hbrace] at h
      obtain ⟨next, u, hitem, hrest⟩ := bind_eq_ok.mp h
      exact .item hitem (.semicolons (ih _ _ hrest))

/-- So does the loop over a namespace. -/
theorem passed_itemList (fuel : Nat) : ∀ (found : List Item) (s : State) {items : List Item},
    itemList (itemWithin (levels + 1)) fuel found s = .ok items t → Passed levels s t := by
  induction fuel with
  | zero =>
    intro found s items h
    cases h
    exact .done
  | succ fuel ih =>
    intro found s items h
    rw [itemList, peek_bind] at h
    split at h
    · cases h
      exact .done
    · obtain ⟨next, u, hitem, hrest⟩ := bind_eq_ok.mp h
      exact .item hitem (.semicolons (ih _ _ hrest))

/-- Two readers of an item find the same and leave the same, with the same errors behind those
that they had met with before. -/
structure ReadAlike (levels : Nat) (s s' : State) (found : Option Item) (t t' : State) : Prop where
  read : itemWithin (levels + 1) s = .ok found t
  read' : itemWithin (levels + 1) s' = .ok found t'
  rest : t'.rest = t.rest
  depth : t'.depth = t.depth
  errors : ∃ new, t.errors = s.errors ++ new ∧ t'.errors = s'.errors ++ new

theorem readAlike_of_same (levels : Nat) (hs : s.Sound) (hs' : s'.Sound) (hrest : s'.rest = s.rest)
    (hdepth : s'.depth = s.depth) : ∃ found t t', ReadAlike levels s s' found t t' := by
  obtain ⟨found, t, hread, -⟩ := itemWithin_balanced levels s
  obtain ⟨found', t', hread', -⟩ := itemWithin_balanced levels s'
  have hbalanced : Balanced (itemWithin (levels + 1)) := .itemWithin _
  have halike : Alike s s' 0 s s' := {
    rest := hrest
    depth := hdepth
    sound := hs
    sound' := hs'
    position := Nat.add_comm _ _
    errors := ⟨#[], by simp⟩
    previous := fun hless => absurd hless (Nat.not_lt_zero _) }
  have hends := (hbalanced s.depth).alike 0 s s' rfl (Nat.le_refl _) halike
  rw [hread, hread'] at hends
  obtain ⟨rfl, ht⟩ := hends
  exact ⟨found', t, t', hread, hread', ht.rest, ht.depth, ht.errors⟩

/-! ## The whole -/

/-- The level of nesting is in balance throughout the grammar. -/
structure InBalance : Prop where
  /-- No step of a part closes a level that the part has not opened, or opens one at the limit. -/
  steps : ∀ {α : Type} {rule : Rule α}, Part rule →
    ∀ depth, Climbs depth rule depth fun level _ => level = depth
  ok : ∀ {α : Type} {rule : Rule α} {s t : State} {a : α}, Part rule → rule s = .ok a t →
    t.depth = s.depth
  /-- Where a part fails, levels may be open that it has opened. -/
  error : ∀ {α : Type} {rule : Rule α} {s t : State} {e : Diagnostic}, Part rule →
    rule s = .error e t → s.depth ≤ t.depth ∧ t.depth ≤ max s.depth maxNesting
  /-- An item is read or given up, and the level is as before. -/
  item : ∀ levels s, ∃ found t, itemWithin (levels + 1) s = .ok found t ∧ t.depth = s.depth
  /-- Through a whole scope the level stays what it was in front of it. -/
  file : ∀ {fuel : Nat} {found items : List Item} {s t : State},
    topLevel fuel found s = .ok items t → Passed maxNesting s t
  space : ∀ {levels fuel : Nat} {found items : List Item} {s t : State},
    itemList (itemWithin (levels + 1)) fuel found s = .ok items t → Passed levels s t
  passed : ∀ {levels : Nat} {s t : State}, Passed levels s t → t.depth = s.depth
  /-- However a reader has come to an item, through other items of its scope or errors, it reads it
  as any reader does that has the same lexemes left, at the level of the scope. -/
  afresh : ∀ {levels : Nat} {start s s' : State}, start.Sound → Passed levels start s →
    s'.Sound → s'.rest = s.rest → s'.depth = start.depth →
      ∃ found t t', ReadAlike levels s s' found t t'

/-- **Nesting is in balance.** A part of the grammar that succeeds leaves the level of nesting as it
found it, an item also where it is given up. The level is never above the limit, unless reading
began there, and no level is closed that is not open. So an item is read in the same way whatever
was read, or could not be read, in its scope before it. -/
theorem levels_are_balanced : InBalance where
  steps := fun h => h.balanced
  ok := fun {α rule s t a} h hok => (h.balanced s.depth).ok rfl (Nat.le_refl _) hok
  error := fun {α rule s t e} h herror => by
    have hends := (h.balanced s.depth).endsWithin s rfl (Nat.le_refl _)
    rw [herror] at hends
    exact hends
  item := itemWithin_balanced
  file := passed_topLevel _ _ _
  space := passed_itemList _ _ _
  passed := Passed.depth_eq
  afresh := fun hstart hpassed hs' hrest hdepth =>
    readAlike_of_same _ (hpassed.sound hstart) hs' hrest (hdepth.trans hpassed.depth_eq.symm)

end ScriptHost.Grammar
