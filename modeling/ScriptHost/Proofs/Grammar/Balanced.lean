import ScriptHost.Proofs.Grammar.Progress
/-!
# The level of nesting is balanced

The counter of levels goes up where a level is opened, and down where one is closed, where a loop
over operators sets it back to where it began, and where an item is given up. `Climbs` follows a
rule step by step, also one that fails: no step takes the counter over the limit, and none takes it
below the level where the rule began, so no level is closed that is not open. A rule of the grammar
is `Balanced`: where it succeeds, the counter stands where it stood.
-/

set_option autoImplicit false

namespace ScriptHost.Grammar

/-- Begun at level `depth`, the rule is made of steps at each of which the level is `floor` or more.
Levels are opened below the limit only. Where the rule ends, the level and the answer are right. -/
inductive Climbs : (floor : Nat) → {α : Type} → Rule α → (depth : Nat) → (Nat → α → Prop) → Prop
  | pure {floor depth : Nat} {α : Type} {right : Nat → α → Prop} {a : α} (h : right depth a) :
      Climbs floor (Pure.pure a) depth right
  | fail {floor depth : Nat} {α : Type} {right : Nat → α → Prop} (e : ParseError) (span : Span) :
      Climbs floor (throw (e.placed span)) depth right
  | bind {floor depth : Nat} {α β : Type} {rule : Rule α} {next : α → Rule β}
      {middle : Nat → α → Prop} {right : Nat → β → Prop} (first : Climbs floor rule depth middle)
      (rest : ∀ level a, middle level a → Climbs floor (next a) level right) :
      Climbs floor (rule >>= next) depth right
  | peek {floor depth : Nat} {right : Nat → Token → Prop} (h : ∀ token, right depth token) :
      Climbs floor peek depth right
  | here {floor depth : Nat} {right : Nat → Span → Prop} (h : ∀ span, right depth span) :
      Climbs floor here depth right
  | level {floor depth : Nat} {α : Type} {next : Nat → Rule α} {right : Nat → α → Prop}
      (rest : Climbs floor (next depth) depth right) :
      Climbs floor (get >>= fun s => next s.depth) depth right
  /-- Where something has been taken, its place is known. -/
  | behind {floor depth : Nat} {α β : Type} {rule : Rule α} {next : α → Span → Rule β}
      {middle : Nat → α → Prop} {right : Nat → β → Prop} (first : Climbs floor rule depth middle)
      (takes : Takes 1 rule)
      (rest : ∀ level a span, middle level a → Climbs floor (next a span) level right) :
      Climbs floor (rule >>= fun a => previous >>= next a) depth right
  /-- A loop that its budget does not cut off. -/
  | loop {floor depth : Nat} {α A : Type} {loop : Nat → A → Rule α} {right : Nat → α → Prop}
      (turns : Turns loop) (found : A) (rest : ∀ fuel, Climbs floor (loop fuel found) depth right) :
      Climbs floor (budget >>= fun fuel => loop fuel found) depth right
  | advance {floor depth : Nat} {right : Nat → Unit → Prop} (h : right depth ()) :
      Climbs floor advance depth right
  | skipSemicolons {floor depth : Nat} {right : Nat → Unit → Prop} (h : right depth ()) :
      Climbs floor skipSemicolons depth right
  | report {floor depth : Nat} {right : Nat → Unit → Prop} (e : ParseError) (span : Span)
      (h : right depth ()) :
      Climbs floor (modify fun s => { s with errors := s.errors.push (e.placed span) }) depth right
  | descend {floor depth : Nat} {right : Nat → Unit → Prop}
      (h : depth < maxNesting → right (depth + 1) ()) : Climbs floor descend depth right
  | restoreDepth {floor depth target : Nat} {right : Nat → Unit → Prop} (above : floor ≤ target)
      (below : target ≤ depth) (h : right target ()) :
      Climbs floor (restoreDepth target) depth right
  /-- The level that is closed has been opened, and the rule has not gone below it. -/
  | ascending {floor depth : Nat} {α : Type} {rule : Rule α} {right : Nat → α → Prop}
      (isOpen : floor < depth) (inner : Climbs depth rule depth fun level a => right (level - 1) a) :
      Climbs floor (ascending rule) depth right
  | recovering {floor depth : Nat} {α : Type} {rule : Rule α} {right : Nat → Option α → Prop}
      (inner : Climbs depth rule depth fun level a => right level (some a))
      (given : right depth none) : Climbs floor (recovering rule) depth right

namespace Climbs

variable {α : Type} {floor depth : Nat} {rule : Rule α} {right weaker : Nat → α → Prop}

theorem imp (h : Climbs floor rule depth right) (himp : ∀ level a, right level a → weaker level a) :
    Climbs floor rule depth weaker := by
  induction h with
  | pure h => exact .pure (himp _ _ h)
  | fail e span => exact .fail e span
  | bind first _ _ ih => exact .bind first fun level a hmiddle => ih level a hmiddle himp
  | peek h => exact .peek fun token => himp _ _ (h token)
  | here h => exact .here fun span => himp _ _ (h span)
  | level _ ih => exact .level (ih himp)
  | behind first takes _ _ ih =>
    exact .behind first takes fun level a span hmiddle => ih level a span hmiddle himp
  | loop turns found _ ih => exact .loop turns found fun fuel => ih fuel himp
  | advance h => exact .advance (himp _ _ h)
  | skipSemicolons h => exact .skipSemicolons (himp _ _ h)
  | report e span h => exact .report e span (himp _ _ h)
  | descend h => exact .descend fun hroom => himp _ _ (h hroom)
  | restoreDepth above below h => exact .restoreDepth above below (himp _ _ h)
  | ascending isOpen _ ih => exact .ascending isOpen (ih fun level a => himp (level - 1) a)
  | recovering _ given ih =>
    exact .recovering (ih fun level a => himp level (some a)) (himp _ _ given)

/-- Above a floor is above a lower one. -/
theorem lower (h : Climbs floor rule depth right) {below : Nat} (hbelow : below ≤ floor) :
    Climbs below rule depth right := by
  induction h with
  | pure h => exact .pure h
  | fail e span => exact .fail e span
  | bind _ _ ihfirst ihrest =>
    exact .bind (ihfirst hbelow) fun level a hmiddle => ihrest level a hmiddle hbelow
  | peek h => exact .peek h
  | here h => exact .here h
  | level _ ih => exact .level (ih hbelow)
  | behind _ takes _ ihfirst ihrest =>
    exact .behind (ihfirst hbelow) takes fun level a span hmiddle =>
      ihrest level a span hmiddle hbelow
  | loop turns found _ ih => exact .loop turns found fun fuel => ih fuel hbelow
  | advance h => exact .advance h
  | skipSemicolons h => exact .skipSemicolons h
  | report e span h => exact .report e span h
  | descend h => exact .descend h
  | restoreDepth above below h => exact .restoreDepth (hbelow.trans above) below h
  | ascending isOpen inner _ => exact .ascending (Nat.lt_of_le_of_lt hbelow isOpen) inner
  | recovering inner given _ => exact .recovering inner given

end Climbs

/-- The level behind a rule that began at level `depth`: not below the floor, and not above the
limit unless it began there. Where the rule has succeeded, the level and the answer are right. -/
def EndsWithin {α : Type} (floor depth : Nat) (right : Nat → α → Prop) :
    EStateM.Result Diagnostic State α → Prop
  | .ok a t => right t.depth a ∧ floor ≤ t.depth ∧ t.depth ≤ max depth maxNesting
  | .error _ t => floor ≤ t.depth ∧ t.depth ≤ max depth maxNesting

section

variable {α β : Type} {floor depth : Nat} {rule : Rule α} {right : Nat → α → Prop} {s : State}

/-- The level may have been higher before. -/
theorem EndsWithin.of_le {level : Nat} {outcome : EStateM.Result Diagnostic State α}
    (h : EndsWithin floor level right outcome) (hle : level ≤ max depth maxNesting) :
    EndsWithin floor depth right outcome := by
  cases outcome with
  | ok a t =>
    obtain ⟨hright, hfloor, hlimit⟩ := h
    exact ⟨hright, hfloor, by omega⟩
  | error e t =>
    obtain ⟨hfloor, hlimit⟩ := h
    exact ⟨hfloor, by omega⟩

theorem EndsWithin.bind {next : α → Rule β} {middle : Nat → α → Prop} {right : Nat → β → Prop}
    (hrule : EndsWithin floor depth middle (rule s))
    (hnext : ∀ a t, middle t.depth a → floor ≤ t.depth →
      EndsWithin floor t.depth right (next a t)) :
    EndsWithin floor depth right ((rule >>= next) s) := by
  cases hok : rule s with
  | ok a t =>
    rw [hok] at hrule
    obtain ⟨hmiddle, hfloor, hlimit⟩ := hrule
    rw [bind_of_ok hok]
    exact (hnext a t hmiddle hfloor).of_le hlimit
  | error e t =>
    rw [hok] at hrule
    rw [bind_of_error hok]
    exact hrule

/-- A step that leaves the level alone. -/
theorem endsWithin_same {a : α} {t : State} (hdepth : t.depth = depth) (hfloor : floor ≤ depth)
    (h : right depth a) : EndsWithin floor depth right (.ok a t) := by
  subst hdepth
  exact ⟨h, hfloor, Nat.le_max_left _ _⟩

/-- **Each step keeps to the bounds, and so does the rule.** -/
theorem Climbs.endsWithin (h : Climbs floor rule depth right) :
    ∀ s : State, s.depth = depth → floor ≤ depth → EndsWithin floor depth right (rule s) := by
  induction h with
  | pure h => exact fun s hs hfloor => endsWithin_same hs hfloor h
  | fail e span => exact fun s hs hfloor => ⟨by omega, by omega⟩
  | bind _ _ ihfirst ihrest =>
    exact fun s hs hfloor => (ihfirst s hs hfloor).bind fun a t hmiddle ht =>
      ihrest t.depth a hmiddle t rfl ht
  | peek h => exact fun s hs hfloor => endsWithin_same hs hfloor (h s.token)
  | here h => exact fun s hs hfloor => endsWithin_same hs hfloor (h s.span)
  | level _ ih =>
    intro s hs hfloor
    have hrest := ih s hs hfloor
    subst hs
    exact hrest
  | behind _ takes _ ihfirst ihrest =>
    exact fun s hs hfloor => (ihfirst s hs hfloor).bind fun a t hmiddle ht =>
      ihrest t.depth a t.previous hmiddle t rfl ht
  | loop turns found _ ih => exact fun s hs hfloor => ih (s.total + 1) s hs hfloor
  | advance h => exact fun s hs hfloor => endsWithin_same (s.depth_advance.trans hs) hfloor h
  | skipSemicolons h =>
    exact fun s hs hfloor =>
      endsWithin_same ((s.depth_pastSemicolons s.rest).trans hs) hfloor h
  | report e span h => exact fun s hs hfloor => endsWithin_same hs hfloor h
  | @descend floor depth right h =>
    intro s hs hfloor
    by_cases hroom : s.depth < maxNesting
    · rw [descend_eq hroom]
      refine ⟨?_, by dsimp only; omega, by dsimp only; omega⟩
      rw [hs]
      exact h (by omega)
    · rw [descend_fails (Nat.not_lt.mp hroom)]
      exact ⟨by omega, by omega⟩
  | restoreDepth above below h => exact fun s hs hfloor => ⟨h, above, by dsimp only; omega⟩
  | @ascending floor depth α rule right isOpen inner ih =>
    intro s hs hfloor
    have hinner := ih s hs (Nat.le_refl _)
    unfold Grammar.ascending
    cases hrule : rule s with
    | ok a t =>
      rw [hrule] at hinner
      obtain ⟨hright, hdepth, hlimit⟩ := hinner
      exact ⟨hright, by unfold State.ascend; dsimp only; omega,
        by unfold State.ascend; dsimp only; omega⟩
    | error e t =>
      rw [hrule] at hinner
      obtain ⟨hdepth, hlimit⟩ := hinner
      exact ⟨by unfold State.ascend; dsimp only; omega, by unfold State.ascend; dsimp only; omega⟩
  | @recovering floor depth α rule right inner given ih =>
    intro s hs hfloor
    have hinner := ih s hs (Nat.le_refl _)
    unfold Grammar.recovering
    cases hrule : rule s with
    | ok a t =>
      rw [hrule] at hinner
      obtain ⟨hright, hdepth, hlimit⟩ := hinner
      exact ⟨hright, by omega, hlimit⟩
    | error e t => exact endsWithin_same ((State.depth_synchronize _ _ _).trans hs) hfloor given

/-- Where the rule ends well, the level and the answer are right. -/
theorem Climbs.ok (h : Climbs floor rule depth right) {t : State} {a : α} (hs : s.depth = depth)
    (hfloor : floor ≤ depth) (hok : rule s = .ok a t) : right t.depth a := by
  have hends := h.endsWithin s hs hfloor
  rw [hok] at hends
  exact hends.1

end

/-- The rule goes no lower than where it began, and ends there if it succeeds. -/
def Balanced {α : Type} (rule : Rule α) : Prop :=
  ∀ depth, Climbs depth rule depth fun level _ => level = depth

/-- The rule goes no lower than some level, at which or above which it began. -/
def Rises {α : Type} (floor : Nat) (rule : Rule α) : Prop :=
  ∀ depth, floor ≤ depth → Climbs floor rule depth fun level _ => floor ≤ level

namespace Balanced

variable {α β : Type} {floor : Nat}

/-- Wherever it is begun. -/
theorem rises {rule : Rule α} (h : Balanced rule) : Rises floor rule :=
  fun depth hfloor => ((h depth).lower hfloor).imp fun _ _ hlevel => hlevel ▸ hfloor

theorem pure (a : α) : Balanced (Pure.pure a : Rule α) :=
  fun _ => .pure rfl

theorem fail (e : ParseError) (span : Span) : Balanced (throw (e.placed span) : Rule α) :=
  fun _ => .fail e span

theorem bind {rule : Rule α} {next : α → Rule β} (h : Balanced rule)
    (hnext : ∀ a, Balanced (next a)) : Balanced (rule >>= next) :=
  fun depth => (h depth).bind fun level a hlevel => hlevel ▸ hnext a level

theorem behind {rule : Rule α} {next : α → Span → Rule β} (h : Balanced rule)
    (htakes : Takes 1 rule) (hnext : ∀ a span, Balanced (next a span)) :
    Balanced (rule >>= fun a => Grammar.previous >>= next a) :=
  fun depth => (h depth).behind htakes fun level a span hlevel => hlevel ▸ hnext a span level

theorem loop {A : Type} {loop : Nat → A → Rule α} (hturns : Turns loop) (found : A)
    (h : ∀ fuel, Balanced (loop fuel found)) : Balanced (budget >>= fun fuel => loop fuel found) :=
  fun depth => .loop hturns found fun fuel => h fuel depth

theorem peek : Balanced peek :=
  fun _ => .peek fun _ => rfl

theorem here : Balanced here :=
  fun _ => .here fun _ => rfl

theorem advance : Balanced advance :=
  fun _ => .advance rfl

theorem skipSemicolons : Balanced skipSemicolons :=
  fun _ => .skipSemicolons rfl

theorem failHere (e : ParseError) : Balanced (failHere e : Rule α) :=
  here.bind fun span => fail e span

theorem expect (token : Token) (what : String) : Balanced (expect token what) := by
  unfold Grammar.expect
  refine peek.bind fun found => ?_
  split
  · exact here.bind fun _ => advance.bind fun _ => .pure _
  · exact failHere _

theorem identifier : Balanced identifier := by
  unfold Grammar.identifier
  refine peek.bind fun found => ?_
  split
  · exact advance.bind fun _ => .pure _
  · exact failHere _

theorem terminator : Balanced terminator := by
  unfold Grammar.terminator
  refine peek.bind fun found => ?_
  split
  · exact advance
  · exact .pure _
  · exact .pure _
  · exact failHere _

/-- The level that is opened is closed again. -/
theorem nested {rule : Rule α} (h : Balanced rule) : Balanced (nested rule) := by
  intro depth
  have hopens : Climbs depth descend depth fun level _ => level = depth + 1 := .descend fun _ => rfl
  refine hopens.bind fun level _ hlevel => ?_
  subst hlevel
  exact .ascending (Nat.lt_succ_self depth) ((h (depth + 1)).imp fun _ _ hlevel => by omega)

theorem recovering {rule : Rule α} (h : Balanced rule) : Balanced (recovering rule) :=
  fun depth => .recovering (h depth) rfl

/-- What rises above where it began is set back. -/
theorem restored {rule : Rule α} {next : α → Rule α} (h : Balanced rule)
    (hnext : ∀ floor a, Rises floor (next a)) :
    Balanced (rule >>= fun a => get >>= fun s => next a >>= fun b =>
      restoreDepth s.depth >>= fun _ => Pure.pure b) := by
  intro depth
  refine (h depth).bind fun level a hlevel => ?_
  subst hlevel
  -- The rule behind the operand, as a function of the level it is set back to.
  refine @Climbs.level level level α
    (fun base => next a >>= fun b => restoreDepth base >>= fun _ => Pure.pure b) _ ?_
  refine (hnext level a level (Nat.le_refl _)).bind fun higher b hhigher => ?_
  have hback : Climbs level (restoreDepth level) higher fun after _ => after = level :=
    .restoreDepth (Nat.le_refl _) hhigher rfl
  exact hback.bind fun after _ hafter => .pure hafter

end Balanced

namespace Rises

variable {α β : Type} {floor : Nat}

theorem pure (a : α) : Rises floor (Pure.pure a : Rule α) :=
  fun _ hfloor => .pure hfloor

theorem failHere (e : ParseError) : Rises floor (failHere e : Rule α) :=
  (Balanced.failHere e).rises

theorem bind {rule : Rule α} {next : α → Rule β} (h : Rises floor rule)
    (hnext : ∀ a, Rises floor (next a)) : Rises floor (rule >>= next) :=
  fun depth hfloor => (h depth hfloor).bind fun level a hlevel => hnext a level hlevel

theorem behind {rule : Rule α} {next : α → Span → Rule β} (h : Rises floor rule)
    (htakes : Takes 1 rule) (hnext : ∀ a span, Rises floor (next a span)) :
    Rises floor (rule >>= fun a => Grammar.previous >>= next a) :=
  fun depth hfloor =>
    (h depth hfloor).behind htakes fun level a span hlevel => hnext a span level hlevel

theorem descend : Rises floor descend :=
  fun _ hfloor => .descend fun _ => Nat.le_succ_of_le hfloor

end Rises

namespace Balanced

/-! ## Expressions -/

theorem chain (op? : Token → Option BinaryOp) {operand : Rule Expr} (h : Balanced operand)
    (floor : Nat) : ∀ (fuel : Nat) (left : Expr), Rises floor (chain op? operand fuel left)
  | 0, _ => .failHere _
  | fuel + 1, left => by
    rw [Grammar.chain]
    refine peek.rises.bind fun token => ?_
    split
    · exact .pure _
    · exact Rises.descend.bind fun _ => advance.rises.bind fun _ => h.rises.bind fun right =>
        chain op? h floor fuel _

theorem level (op? : Token → Option BinaryOp) {operand : Rule Expr} (h : Balanced operand) :
    Balanced (level op? operand) :=
  h.restored fun floor left => chain op? h floor _ left

theorem levels {operand : Rule Expr} (h : Balanced operand) : Balanced (levels operand) :=
  level orOp? <| level andOp? <| level equalityOp? <| level comparisonOp? <| level sumOp? <|
    level productOp? h

theorem moreArguments {expression : Rule Expr} (h : Balanced expression) :
    ∀ (fuel : Nat) (found : List Expr), Balanced (moreArguments expression fuel found)
  | 0, _ => .pure _
  | fuel + 1, found => by
    rw [Grammar.moreArguments]
    refine peek.bind fun token => ?_
    split
    · exact advance.bind fun _ => h.bind fun argument => moreArguments h fuel _
    · exact .pure _

theorem arguments {expression : Rule Expr} (h : Balanced expression) (htakes : Takes 1 expression) :
    Balanced (arguments expression) := by
  have hclose : ∀ found : List Expr, Balanced (do
      let _ ← Grammar.expect .rparen "')' after arguments"
      return found) := fun found => (expect _ _).bind fun _ => .pure found
  unfold Grammar.arguments
  refine peek.bind fun token => ?_
  split
  · exact (Balanced.pure []).bind hclose
  · exact h.bind fun first => (loop (turns_moreArguments htakes) [first] fun fuel =>
      moreArguments h fuel _).bind hclose

theorem moreNames : ∀ (fuel : Nat) (found : List String), Balanced (moreNames fuel found)
  | 0, _ => .pure _
  | fuel + 1, found => by
    rw [Grammar.moreNames]
    refine peek.bind fun token => ?_
    split
    · exact advance.bind fun _ => identifier.bind fun name => moreNames fuel _
    · exact .pure _

theorem dottedName : Balanced dottedName :=
  identifier.bind fun first => loop turns_moreNames [first] fun fuel => moreNames fuel _

theorem creation {expression : Rule Expr} (h : Balanced expression) (htakes : Takes 1 expression) :
    Balanced (creation expression) :=
  (expect _ _).bind fun _ => dottedName.bind fun _ => (expect _ _).bind fun _ =>
    (arguments h htakes).behind (.arguments htakes.zero) fun _ _ => .pure _

theorem primary {expression : Rule Expr} (h : Balanced expression) (htakes : Takes 1 expression) :
    Balanced (primary expression) := by
  unfold Grammar.primary
  refine here.bind fun span => peek.bind fun token => ?_
  split
  · exact advance.bind fun _ => .pure _
  · split
    · exact advance.bind fun _ => h.bind fun inner => (expect _ _).bind fun _ => .pure _
    · split
      · exact creation h htakes
      · exact failHere _

theorem member {expression : Rule Expr} (h : Balanced expression) (htakes : Takes 1 expression)
    (floor : Nat) (object : Expr) : Rises floor (member expression object) := by
  unfold Grammar.member
  refine Rises.descend.bind fun _ => advance.rises.bind fun _ => here.rises.bind fun span => ?_
  refine identifier.rises.bind fun name => peek.rises.bind fun token => ?_
  split
  · exact advance.rises.bind fun _ =>
      (arguments h htakes).rises.behind (.arguments htakes.zero) fun _ _ => .pure _
  · exact .pure _

theorem postfixChain {expression : Rule Expr} (h : Balanced expression)
    (htakes : Takes 1 expression) (floor : Nat) :
    ∀ (fuel : Nat) (object : Expr), Rises floor (postfixChain expression fuel object)
  | 0, _ => .failHere _
  | fuel + 1, object => by
    rw [Grammar.postfixChain]
    refine peek.rises.bind fun token => ?_
    split
    · exact (member h htakes floor object).bind fun whole => postfixChain h htakes floor fuel whole
    · refine Rises.descend.bind fun _ => advance.rises.bind fun _ => ?_
      exact (arguments h htakes).rises.behind (.arguments htakes.zero) fun _ _ =>
        postfixChain h htakes floor fuel _
    · exact .pure _

theorem postfixExpr {expression : Rule Expr} (h : Balanced expression)
    (htakes : Takes 1 expression) : Balanced (postfixExpr expression) :=
  (primary h htakes).restored fun floor object => postfixChain h htakes floor _ object

theorem expressionOver {operand : Rule Expr} (h : Balanced operand) :
    Balanced (expressionOver operand) :=
  (levels h).nested

theorem operand : ∀ fuel : Nat, Balanced (operand fuel)
  | 0 => failHere _
  | fuel + 1 => by
    rw [Grammar.operand]
    refine peek.bind fun token => ?_
    split
    · exact here.bind fun start => advance.bind fun _ => (operand fuel).nested.bind fun _ => .pure _
    · exact postfixExpr (expressionOver (operand fuel)) (.expressionOver (.operand fuel))

theorem expression : Balanced expression :=
  expressionOver (operand _)

/-! ## Statements -/

theorem statements {statement : Rule Stmt} (h : Balanced statement) :
    ∀ (fuel : Nat) (found : List Stmt), Balanced (statements statement fuel found)
  | 0, _ => .pure _
  | fuel + 1, found => by
    rw [Grammar.statements]
    refine peek.bind fun token => ?_
    split
    · exact .pure _
    · exact h.bind fun stmt => skipSemicolons.bind fun _ => statements h fuel _

theorem block {statement : Rule Stmt} (h : Balanced statement) (htakes : Takes 1 statement) :
    Balanced (block statement) :=
  skipSemicolons.bind fun _ =>
    loop (turns_statements htakes) [] fun fuel => statements h fuel []

theorem braced {block : Rule (List Stmt)} (h : Balanced block) : Balanced (braced block) :=
  (expect _ _).bind fun _ => h.nested.bind fun _ => here.bind fun _ =>
    (expect _ _).bind fun _ => .pure _

theorem conditional {block : Rule (List Stmt)} (h : Balanced block) :
    ∀ fuel : Nat, Balanced (conditional block fuel)
  | 0 => failHere _
  | fuel + 1 => by
    rw [Grammar.conditional]
    refine here.bind fun start => (expect _ _).bind fun _ => expression.bind fun condition => ?_
    refine (braced h).bind fun body => peek.bind fun token => ?_
    split
    · refine advance.bind fun _ => peek.bind fun token => ?_
      split
      · exact (conditional h fuel).nested.bind fun _ => .pure _
      · exact (braced h).bind fun _ => .pure _
    · exact .pure _

theorem variableDecl : Balanced variableDecl :=
  here.bind fun _ => advance.bind fun _ => identifier.bind fun _ => (expect _ _).bind fun _ =>
    expression.bind fun _ => terminator.bind fun _ => .pure _

theorem whileLoop {block : Rule (List Stmt)} (h : Balanced block) : Balanced (Grammar.loop block) :=
  here.bind fun _ => advance.bind fun _ => expression.bind fun _ => (braced h).bind fun _ => .pure _

theorem returning : Balanced returning := by
  have hnone : ∀ start : Span, Balanced (do Grammar.terminator; return Stmt.ret none start) :=
    fun start => terminator.bind fun _ => .pure _
  unfold Grammar.returning
  refine here.bind fun start => advance.bind fun _ => peek.bind fun token => ?_
  split
  · exact hnone _
  · exact hnone _
  · exact hnone _
  · exact expression.bind fun _ => terminator.bind fun _ => .pure _

theorem expressionOrAssignment : Balanced expressionOrAssignment := by
  unfold Grammar.expressionOrAssignment
  refine expression.bind fun target => peek.bind fun token => ?_
  split
  · refine advance.bind fun _ => ?_
    split
    · exact expression.bind fun _ => terminator.bind fun _ => .pure _
    · exact fail _ _
  · exact terminator.bind fun _ => .pure _

theorem statementOver {block : Rule (List Stmt)} (h : Balanced block) :
    Balanced (statementOver block) := by
  unfold Grammar.statementOver
  refine peek.bind fun token => ?_
  split
  · exact variableDecl
  · exact conditional h _
  · exact whileLoop h
  · exact returning
  · exact here.bind fun _ => (braced h).bind fun _ => .pure _
  · exact expressionOrAssignment

theorem statementWithin : ∀ fuel : Nat, Balanced (statementWithin fuel)
  | 0 => failHere _
  | fuel + 1 => statementOver (block (statementWithin fuel) (.statementWithin fuel))

theorem statement : Balanced statement :=
  statementWithin _

/-! ## Items -/

theorem parameters : ∀ (fuel : Nat) (found : List String), Balanced (parameters fuel found)
  | 0, _ => .pure _
  | fuel + 1, found => by
    rw [Grammar.parameters]
    refine peek.bind fun token => ?_
    split
    · exact .pure _
    · refine identifier.bind fun name => peek.bind fun token => ?_
      split
      · exact advance.bind fun _ => parameters fuel _
      · exact .pure _

theorem functionDecl : Balanced functionDecl :=
  here.bind fun _ => (expect _ _).bind fun _ => identifier.bind fun _ => (expect _ _).bind fun _ =>
    (loop turns_parameters [] fun fuel => parameters fuel []).bind fun _ =>
      (expect _ _).bind fun _ => (expect _ _).bind fun _ =>
        (block statement .statement).nested.bind fun _ => here.bind fun _ =>
          (expect _ _).bind fun _ => .pure _

theorem fieldDecl : Balanced fieldDecl := by
  have hclose : ∀ (name : String) (start : Span) (initial : Option Expr), Balanced (do
      let stop ← Grammar.here
      let _ ← Grammar.expect .semicolon "';' after field declaration"
      return ({ name, initial, span := start.merge stop } : FieldDecl)) :=
    fun name start initial => here.bind fun _ => (expect _ _).bind fun _ => .pure _
  unfold Grammar.fieldDecl
  refine here.bind fun start => advance.bind fun _ => identifier.bind fun name => ?_
  refine peek.bind fun token => ?_
  split
  · exact advance.bind fun _ => expression.bind fun value =>
      (Balanced.pure (some value)).bind (hclose name start)
  · exact (Balanced.pure none).bind (hclose name start)

theorem members : ∀ (fuel : Nat) (fields : List FieldDecl) (methods : List FunctionDecl),
    Balanced (members fuel fields methods)
  | 0, _, _ => .pure _
  | fuel + 1, fields, methods => by
    rw [Grammar.members]
    refine peek.bind fun token => ?_
    split
    · exact .pure _
    · exact .pure _
    · exact fieldDecl.bind fun _ => skipSemicolons.bind fun _ => members fuel _ _
    · exact functionDecl.bind fun _ => skipSemicolons.bind fun _ => members fuel _ _
    · exact failHere _

theorem classDecl : Balanced classDecl :=
  here.bind fun _ => (expect _ _).bind fun _ => identifier.bind fun _ => (expect _ _).bind fun _ =>
    skipSemicolons.bind fun _ =>
      (loop turns_members ([], []) fun fuel => members fuel [] []).bind fun _ =>
        here.bind fun _ => (expect _ _).bind fun _ => .pure _

theorem itemList {item : Rule (Option Item)} (h : Balanced item) :
    ∀ (fuel : Nat) (found : List Item), Balanced (itemList item fuel found)
  | 0, _ => .pure _
  | fuel + 1, found => by
    rw [Grammar.itemList]
    refine peek.bind fun token => ?_
    split
    · exact .pure _
    · exact h.bind fun next => skipSemicolons.bind fun _ => itemList h fuel _

theorem namespaceOver {item : Rule (Option Item)} (h : Balanced item)
    (hturns : Turns (Grammar.itemList item)) : Balanced (namespaceOver item) :=
  here.bind fun _ => (expect _ _).bind fun _ => dottedName.bind fun _ => (expect _ _).bind fun _ =>
    skipSemicolons.bind fun _ => (loop hturns [] fun fuel => itemList h fuel []).nested.bind fun _ =>
      here.bind fun _ => (expect _ _).bind fun _ => .pure _

theorem itemOver {item : Rule (Option Item)} (h : Balanced item)
    (hturns : Turns (Grammar.itemList item)) : Balanced (itemOver item) := by
  unfold Grammar.itemOver
  refine peek.bind fun token => ?_
  split
  · exact namespaceOver h hturns
  · exact classDecl.bind fun _ => .pure _
  · exact functionDecl.bind fun _ => .pure _
  · exact statement.bind fun _ => .pure _

theorem itemWithin : ∀ fuel : Nat, Balanced (itemWithin fuel)
  | 0 => failHere _
  | fuel + 1 => (itemOver (itemWithin fuel) (turns_itemList fuel)).recovering

theorem topLevel : ∀ (fuel : Nat) (found : List Item), Balanced (topLevel fuel found)
  | 0, _ => .pure _
  | fuel + 1, found => by
    have hreport (span : Span) : Balanced (modify fun s : State =>
        { s with errors := s.errors.push (ParseError.strayBrace.placed span) }) :=
      fun _ => .report _ _ rfl
    rw [Grammar.topLevel]
    refine peek.bind fun token => ?_
    split
    · exact .pure _
    · exact here.bind fun span => (hreport span).bind fun _ => advance.bind fun _ =>
        skipSemicolons.bind fun _ => topLevel fuel _
    · exact (itemWithin _).bind fun next => skipSemicolons.bind fun _ => topLevel fuel _

theorem sourceText : Balanced sourceText :=
  skipSemicolons.bind fun _ => loop turns_topLevel [] fun fuel => topLevel fuel []

end Balanced

end ScriptHost.Grammar
