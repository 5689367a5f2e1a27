import ScriptHost.Grammar.Item
import ScriptHost.Proofs.Computation
/-!
# The level of nesting along a rule

A rule of the grammar reads and writes one counter, the level of nesting. `Yields` says where the
counter stands, and what has been read, once a rule that began at a known level has succeeded. The
lemmas here take a rule apart into the steps it is made of. What the rules read off the lexemes
plays no part: everything holds for each list of lexemes.
-/

set_option autoImplicit false

namespace ScriptHost.Grammar

variable {α β : Type}

/-- Begun at level `depth`, the rule fails or ends at a level and with an answer that are right. -/
def Yields (rule : Rule α) (depth : Nat) (right : Nat → α → Prop) : Prop :=
  ∀ ⦃s s' : State⦄ ⦃a : α⦄, s.depth = depth → rule s = .ok a s' → right s'.depth a

/-- The rule ends at the level where it began, with an answer that is right. -/
def Keeps (rule : Rule α) (depth : Nat) (right : α → Prop) : Prop :=
  Yields rule depth fun after a => after = depth ∧ right a

variable {depth : Nat}

theorem Yields.imp {rule : Rule α} {right weaker : Nat → α → Prop} (h : Yields rule depth right)
    (himp : ∀ after a, right after a → weaker after a) : Yields rule depth weaker :=
  fun _ _ _ hs hok => himp _ _ (h hs hok)

theorem Keeps.imp {rule : Rule α} {right weaker : α → Prop} (h : Keeps rule depth right)
    (himp : ∀ a, right a → weaker a) : Keeps rule depth weaker :=
  Yields.imp h fun _ a ⟨hafter, ha⟩ => ⟨hafter, himp a ha⟩

theorem Yields.pure {a : α} {right : Nat → α → Prop} (h : right depth a) :
    Yields (Pure.pure a) depth right := by
  intro s s' b hs hok
  cases hok
  rw [hs]
  exact h

theorem Keeps.pure {a : α} {right : α → Prop} (h : right a) : Keeps (Pure.pure a) depth right :=
  Yields.pure ⟨rfl, h⟩

theorem Yields.bind {rule : Rule α} {next : α → Rule β} {first : Nat → α → Prop}
    {right : Nat → β → Prop} (hrule : Yields rule depth first)
    (hnext : ∀ after a, first after a → Yields (next a) after right) :
    Yields (rule >>= next) depth right := by
  intro s s' b hs hok
  obtain ⟨a, middle, hmiddle, hlast⟩ := bind_eq_ok.mp hok
  exact hnext _ a (hrule hs hmiddle) rfl hlast

theorem Keeps.bind {rule : Rule α} {next : α → Rule β} {first : α → Prop}
    {right : Nat → β → Prop} (hrule : Keeps rule depth first)
    (hnext : ∀ a, first a → Yields (next a) depth right) : Yields (rule >>= next) depth right := by
  refine Yields.bind hrule fun after a hfirst => ?_
  obtain ⟨rfl, ha⟩ := hfirst
  exact hnext a ha

theorem Yields.throw {e : Diagnostic} {right : Nat → α → Prop} :
    Yields (MonadExcept.throw e) depth right := by
  intro s s' a _ hok
  cases hok

theorem Yields.failHere {e : ParseError} {right : Nat → α → Prop} :
    Yields (failHere e) depth right := by
  intro s s' a _ hok
  cases hok

/-- Steps that only look, or that change nothing but how far the reader has come. -/
theorem keeps_peek : Keeps peek depth fun _ => True := by
  intro s s' a hs hok
  cases hok
  exact ⟨hs, trivial⟩

theorem keeps_here : Keeps here depth fun _ => True := by
  intro s s' a hs hok
  cases hok
  exact ⟨hs, trivial⟩

theorem keeps_previous : Keeps previous depth fun _ => True := by
  intro s s' a hs hok
  cases hok
  exact ⟨hs, trivial⟩

theorem keeps_budget : Keeps budget depth fun _ => True := by
  intro s s' a hs hok
  cases hok
  exact ⟨hs, trivial⟩

theorem keeps_get : Keeps (MonadState.get : Rule State) depth fun s => s.depth = depth := by
  intro s s' a hs hok
  cases hok
  exact ⟨hs, hs⟩

theorem State.depth_advance (s : State) : s.advance.depth = s.depth := by
  unfold State.advance
  split <;> rfl

theorem State.depth_pastSemicolons (rest : List Lexeme) (s : State) :
    (s.pastSemicolons rest).depth = s.depth := by
  induction rest generalizing s with
  | nil => rfl
  | cons lexeme rest ih =>
    rw [State.pastSemicolons]
    split
    · rw [ih, State.depth_advance]
    · rfl

theorem keeps_modify {f : State → State} (h : ∀ s, (f s).depth = s.depth) :
    Keeps (modify f) depth fun _ => True := by
  intro s s' a hs hok
  cases hok
  exact ⟨(h s).trans hs, trivial⟩

theorem keeps_advance : Keeps advance depth fun _ => True :=
  keeps_modify State.depth_advance

theorem keeps_skipSemicolons : Keeps skipSemicolons depth fun _ => True :=
  keeps_modify fun s => s.depth_pastSemicolons s.rest

theorem keeps_expect {token : Token} {what : String} :
    Keeps (expect token what) depth fun _ => True := by
  unfold expect
  refine keeps_peek.bind fun found _ => ?_
  split
  · exact keeps_here.bind fun _ _ => keeps_advance.bind fun _ _ => .pure ⟨rfl, trivial⟩
  · exact .failHere

theorem keeps_identifier : Keeps identifier depth fun _ => True := by
  unfold identifier
  refine keeps_peek.bind fun found _ => ?_
  split
  · exact keeps_advance.bind fun _ _ => .pure ⟨rfl, trivial⟩
  · exact .failHere

theorem keeps_terminator : Keeps terminator depth fun _ => True := by
  unfold terminator
  refine keeps_peek.bind fun found _ => ?_
  split
  · exact keeps_advance
  · exact .pure ⟨rfl, trivial⟩
  · exact .pure ⟨rfl, trivial⟩
  · exact .failHere

/-- Below the limit a level is opened. -/
theorem descend_eq {s : State} (hroom : s.depth < maxNesting) :
    descend s = .ok () { s with depth := s.depth + 1 } := by
  change (if maxNesting ≤ s.depth then _ else _ : Rule Unit) s = _
  rw [if_neg (Nat.not_le.mpr hroom)]
  rfl

theorem descend_fails {s : State} (hfull : maxNesting ≤ s.depth) :
    descend s = .error (ParseError.tooDeep.placed s.span) s := by
  change (if maxNesting ≤ s.depth then _ else _ : Rule Unit) s = _
  rw [if_pos hfull]
  rfl

/-- A level can only be opened below the limit. -/
theorem yields_descend :
    Yields descend depth fun after _ => depth < maxNesting ∧ after = depth + 1 := by
  intro s s' a hs hok
  by_cases hroom : s.depth < maxNesting
  · rw [descend_eq hroom] at hok
    cases hok
    exact ⟨hs ▸ hroom, congrArg (· + 1) hs⟩
  · rw [descend_fails (Nat.not_lt.mp hroom)] at hok
    cases hok

/-- Whatever the level, the counter is set back. -/
theorem yields_restoreDepth {target : Nat} :
    Yields (restoreDepth target) depth fun after _ => after = target := by
  intro s s' a _ hok
  cases hok
  rfl

/-- What is read one level deeper leaves the level as it was. -/
theorem keeps_nested {rule : Rule α} {right : α → Prop}
    (h : depth < maxNesting → Keeps rule (depth + 1) right) : Keeps (nested rule) depth right := by
  unfold nested
  refine yields_descend.bind fun after _ hroom => ?_
  obtain ⟨hroom, rfl⟩ := hroom
  intro s s' a hs hok
  dsimp only at hok
  cases hrule : rule s with
  | error e s₁ =>
    rw [hrule] at hok
    cases hok
  | ok b s₁ =>
    rw [hrule] at hok
    cases hok
    obtain ⟨hafter, hb⟩ := h hroom hs hrule
    refine ⟨?_, hb⟩
    rw [State.ascend, hafter, Nat.add_sub_cancel]

theorem keeps_moreNames : ∀ (fuel : Nat) (found : List String),
    Keeps (moreNames fuel found) depth fun _ => True
  | 0, _ => .pure trivial
  | fuel + 1, found => by
    rw [moreNames]
    refine keeps_peek.bind fun _ _ => ?_
    split
    · exact keeps_advance.bind fun _ _ => keeps_identifier.bind fun _ _ => keeps_moreNames fuel _
    · exact .pure ⟨rfl, trivial⟩

theorem keeps_dottedName : Keeps dottedName depth fun _ => True := by
  unfold dottedName
  exact keeps_identifier.bind fun _ _ => keeps_budget.bind fun _ _ => keeps_moreNames _ _

end ScriptHost.Grammar
