import ScriptHost.Proofs.Grammar.Steps
/-!
# What tokens spell

`Spells` says what a rule makes of the tokens in front of it, wherever they stand in their source
text: it takes those it should and answers something right, unless the nesting is too deep. How deep
the nesting is plays no other part here.

The judgement has a rule for each step that rules of the grammar are made of, so the readings of
tokens are put together in the way in which the rules themselves are.
-/

set_option autoImplicit false

namespace ScriptHost.Grammar

/-- The reader stands before these tokens and the end of the text, and has met no error. -/
structure State.Before (s : State) (tokens : List Token) : Prop where
  rest : s.rest.map Lexeme.token = tokens ++ [.eof]
  total : s.rest.length ≤ s.total
  clean : s.errors = #[]

/-- The next of some tokens. -/
def nextOf (tokens : List Token) : Token :=
  tokens.headD .eof

@[simp] theorem nextOf_cons (token : Token) (tokens : List Token) :
    nextOf (token :: tokens) = token :=
  rfl

namespace State.Before

variable {s : State} {token : Token} {tokens : List Token}

theorem token_eq (h : s.Before tokens) : s.token = nextOf tokens := by
  have hrest := h.rest
  unfold State.token nextOf
  cases htokens : s.rest with
  | nil =>
    rw [htokens] at hrest
    cases tokens <;> cases hrest
  | cons lexeme others =>
    rw [htokens, List.map_cons] at hrest
    cases tokens with
    | nil => exact (List.cons.inj hrest).1
    | cons token tokens => exact (List.cons.inj hrest).1

theorem advance (h : s.Before (token :: tokens)) : s.advance.Before tokens := by
  have hrest := h.rest
  have htotal := h.total
  unfold State.advance
  split
  · rename_i lexeme next others hlexemes
    rw [hlexemes] at hrest htotal
    exact ⟨(List.cons.inj hrest).2, Nat.le_of_succ_le htotal, h.clean⟩
  · rename_i hshort
    -- behind a token there is at least the end of the text
    obtain ⟨lexeme, others, hlexemes, -, hothers⟩ := List.map_eq_cons_iff.mp hrest
    obtain ⟨next, others, rfl⟩ : ∃ next rest, others = next :: rest :=
      List.exists_cons_of_ne_nil fun hnil => by
        rw [hnil] at hothers
        exact (List.append_ne_nil_of_right_ne_nil _ (by simp)) hothers.symm
    exact absurd hlexemes (hshort _ _ _)

theorem withDepth (h : s.Before tokens) (depth : Nat) : { s with depth := depth }.Before tokens :=
  ⟨h.rest, h.total, h.clean⟩

theorem length_lt (h : s.Before tokens) : tokens.length < s.total + 1 := by
  have hlength := congrArg List.length h.rest
  rw [List.length_map, List.length_append, List.length_singleton] at hlength
  have htotal := h.total
  omega

end State.Before

/-- An outcome of reading as far as `rest`: something right, or the complaint that the nesting is too
deep. -/
inductive Comes {α : Type} (right : α → Prop) (rest : List Token) :
    EStateM.Result Diagnostic State α → Prop
  | ok {a : α} {s : State} (h : right a) (hs : s.Before rest) : Comes right rest (.ok a s)
  | tooDeep {span : Span} {s : State} (hclean : s.errors = #[]) :
    Comes right rest (.error (ParseError.tooDeep.placed span) s)

/-- The rule reads the tokens as far as `rest` as something right, or finds the nesting too deep. -/
def Spells {α : Type} (right : α → Prop) (rule : Rule α) (tokens rest : List Token) : Prop :=
  ∀ s : State, s.Before tokens → Comes right rest (rule s)

namespace Spells

variable {α β : Type} {right : α → Prop} {rule : Rule α} {tokens rest : List Token}

theorem mono {weaker : α → Prop} (h : Spells right rule tokens rest)
    (himp : ∀ a, right a → weaker a) : Spells weaker rule tokens rest := by
  intro s hs
  have houtcome := h s hs
  cases hresult : rule s with
  | ok a after =>
    rw [hresult] at houtcome
    obtain ⟨ha, hafter⟩ | _ := houtcome
    exact .ok (himp a ha) hafter
  | error e after =>
    rw [hresult] at houtcome
    obtain _ | hclean := houtcome
    exact .tooDeep hclean

theorem pure {a : α} (h : right a) : Spells right (Pure.pure a) tokens tokens :=
  fun _ hs => .ok h hs

/-- What is answered is known. -/
theorem answer (a : α) : Spells (· = a) (Pure.pure a) tokens tokens :=
  .pure rfl

theorem bind {final : β → Prop} {next : α → Rule β} {middle : List Token}
    (hrule : Spells right rule tokens middle)
    (hnext : ∀ a, right a → Spells final (next a) middle rest) :
    Spells final (rule >>= next) tokens rest := by
  intro s hs
  have hfirst := hrule s hs
  cases hresult : rule s with
  | ok a after =>
    rw [hresult] at hfirst
    obtain ⟨ha, hafter⟩ | _ := hfirst
    rw [bind_of_ok hresult]
    exact hnext a ha after hafter
  | error e after =>
    rw [hresult] at hfirst
    obtain _ | hclean := hfirst
    rw [bind_of_error hresult]
    exact .tooDeep hclean

theorem peek : Spells (· = nextOf tokens) peek tokens tokens :=
  fun _ hs => .ok hs.token_eq hs

theorem look : Spells (fun _ => True) (MonadState.get : Rule State) tokens tokens :=
  fun _ hs => .ok trivial hs

theorem here : Spells (fun _ => True) here tokens tokens :=
  fun _ hs => .ok trivial hs

theorem previous : Spells (fun _ => True) previous tokens tokens :=
  fun _ hs => .ok trivial hs

theorem budget : Spells (tokens.length < ·) budget tokens tokens :=
  fun _ hs => .ok hs.length_lt hs

theorem advance {token : Token} : Spells (fun _ => True) advance (token :: tokens) tokens :=
  fun _ hs => .ok trivial hs.advance

theorem tooDeep : Spells right (failHere .tooDeep) tokens rest :=
  fun _ hs => .tooDeep hs.clean

theorem expect {token : Token} {what : String} :
    Spells (fun _ => True) (expect token what) (token :: tokens) tokens := by
  refine peek.bind fun found hfound => ?_
  rw [hfound, nextOf_cons, if_pos rfl]
  exact here.bind fun span _ => advance.bind fun _ _ => .pure trivial

theorem identifier {name : String} :
    Spells (· = name) identifier (.ident name :: tokens) tokens := by
  refine peek.bind fun found hfound => ?_
  subst hfound
  exact advance.bind fun _ _ => .pure rfl

theorem descend : Spells (fun _ => True) descend tokens tokens := by
  refine look.bind fun s _ => ?_
  split
  · exact tooDeep
  · exact fun after hafter => .ok trivial (hafter.withDepth _)

theorem ascending (h : Spells right rule tokens rest) : Spells right (ascending rule) tokens rest := by
  intro s hs
  have hinner := h s hs
  unfold Grammar.ascending
  cases hresult : rule s with
  | ok a after =>
    rw [hresult] at hinner
    obtain ⟨ha, hafter⟩ | _ := hinner
    exact .ok ha (hafter.withDepth _)
  | error e after =>
    rw [hresult] at hinner
    obtain _ | hclean := hinner
    exact .tooDeep hclean

theorem nested (h : Spells right rule tokens rest) : Spells right (nested rule) tokens rest :=
  descend.bind fun _ _ => h.ascending

theorem skipSemicolons (hnext : nextOf tokens ≠ .semicolon) :
    Spells (fun _ => True) skipSemicolons tokens tokens := by
  intro s hs
  have hstay : s.pastSemicolons s.rest = s := by
    have htoken := hs.token_eq
    cases hrest : s.rest with
    | nil => rw [State.pastSemicolons]
    | cons lexeme others =>
      rw [State.token, hrest] at htoken
      rw [State.pastSemicolons, if_neg fun hsemicolon => hnext (htoken.symm.trans hsemicolon)]
  change Comes _ tokens (.ok () (s.pastSemicolons s.rest))
  rw [hstay]
  exact .ok trivial hs

theorem terminator : Spells (fun _ => True) terminator (.semicolon :: tokens) tokens := by
  refine peek.bind fun found hfound => ?_
  subst hfound
  exact advance

end Spells

end ScriptHost.Grammar
