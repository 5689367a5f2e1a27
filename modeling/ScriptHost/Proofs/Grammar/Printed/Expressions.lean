import ScriptHost.Proofs.Grammar.Bare
import ScriptHost.Proofs.Grammar.Printed.Basic
import ScriptHost.Tree.Printer
/-!
# Expressions are recovered from their tokens

The grammar reads the operands of one level in a loop, and so does it with the dots behind an
operand, whereas a tree has the last operator of a level outermost. So for the left operand of an
operator it is not enough that it can be read: `StartsWith` says that reading can begin with it and
go on behind it, in the same loop.

`Recovered` gathers what is known of an expression in each place that it can take, and the tree is
walked once.
-/

set_option autoImplicit false

namespace ScriptHost

theorem parenthesized_append (tokens rest : List Token) :
    parenthesized tokens ++ rest = .lparen :: (tokens ++ .rparen :: rest) := by
  rw [parenthesized, List.cons_append, List.append_assoc]
  rfl

/-- Whether an expression can begin with the token. -/
def Token.beginsExpr : Token → Bool
  | .int _ | .float _ | .str _ | .ident _ | .kwTrue | .kwFalse | .kwNull | .kwThis | .kwNew | .lparen
  | .minus | .bang => true
  | _ => false

theorem BinaryOp.token_injective {op other : BinaryOp} (h : op.token = other.token) :
    op = other := by
  cases op <;> cases other <;> first | rfl | cases h

theorem Expr.looseness_le (e : Expr) : e.looseness ≤ 7 := by
  cases e with
  | binary op left right span => cases op <;> exact Nat.le_of_ble_eq_true rfl
  | _ => exact Nat.le_of_ble_eq_true rfl

theorem Expr.tokensEach_eq (es : List Expr) : Expr.tokensEach es = es.map Expr.tokens := by
  induction es with
  | nil => rfl
  | cons e rest ih => rw [Expr.tokensEach, ih, List.map_cons]

namespace Grammar

/-- The operators that bind this loosely. -/
def levelOp? : Nat → Token → Option BinaryOp
  | 2 => productOp?
  | 3 => sumOp?
  | 4 => comparisonOp?
  | 5 => equalityOp?
  | 6 => andOp?
  | 7 => orOp?
  | _ => fun _ => none

/-- The lowest levels over an operand. -/
def rung (operand : Rule Expr) : Nat → Rule Expr
  | 0 => operand
  | n + 1 => level (levelOp? (n + 2)) (rung operand n)

theorem levels_eq (operand : Rule Expr) : levels operand = rung operand 6 :=
  rfl

theorem levelOp?_token (op : BinaryOp) : levelOp? op.looseness op.token = some op := by
  cases op <;> rfl

theorem eq_token_of_levelOp? {n : Nat} {token : Token} {op : BinaryOp}
    (h : levelOp? n token = some op) : token = op.token ∧ op.looseness = n := by
  unfold levelOp? at h
  split at h
  all_goals
    first
    | cases h
    | cases token <;> cases h <;> exact ⟨rfl, rfl⟩

/-- Nothing that holds together as loosely as `limit`, or more tightly, goes on with the token. -/
structure Stops (limit : Nat) (token : Token) : Prop where
  dot : token ≠ .dot
  paren : token ≠ .lparen
  operator : ∀ op : BinaryOp, token = op.token → limit < op.looseness

namespace Stops

variable {limit : Nat} {token : Token}

theorem mono {lower : Nat} (h : Stops limit token) (hle : lower ≤ limit) : Stops lower token :=
  ⟨h.dot, h.paren, fun op hop => Nat.lt_of_le_of_lt hle (h.operator op hop)⟩

theorem levelOp?_eq_none (h : Stops limit token) {n : Nat} (hn : n ≤ limit) :
    levelOp? n token = none := by
  refine Option.eq_none_iff_forall_ne_some.mpr fun op hop => ?_
  obtain ⟨htoken, hloose⟩ := eq_token_of_levelOp? hop
  have hlimit := h.operator op htoken
  omega

theorem of_operator {op : BinaryOp} (h : limit < op.looseness) : Stops limit op.token where
  dot := by cases op <;> nofun
  paren := by cases op <;> nofun
  operator := fun other hother => BinaryOp.token_injective hother ▸ h

/-- The marks that close an expression stop everything. -/
theorem of_mark (h : token ∈ [.rparen, .comma, .semicolon, .lbrace, .eq]) (limit : Nat) :
    Stops limit token := by
  simp only [List.mem_cons, List.not_mem_nil, or_false] at h
  obtain rfl | rfl | rfl | rfl | rfl := h
  all_goals exact ⟨nofun, nofun, fun op hop => by cases op <;> cases hop⟩

end Stops

/-! ## Lists of names and of arguments -/

/-- There are no more lists than tokens in them and in front of them. -/
theorem length_le_flatMap_cons (mark : Token) (lists : List (List Token)) (rest : List Token) :
    lists.length ≤ (lists.flatMap (mark :: ·) ++ rest).length := by
  induction lists with
  | nil => exact Nat.zero_le _
  | cons first others ih =>
    simp only [List.flatMap_cons, List.length_append, List.length_cons] at ih ⊢
    omega

theorem spells_moreNames {rest : List Token} (hrest : nextOf rest ≠ .dot) :
    ∀ (names found : List String) (fuel : Nat), names.length < fuel →
      Spells (· = found.reverse ++ names) (moreNames fuel found)
        ((names.map fun name => [Token.ident name]).flatMap (.dot :: ·) ++ rest) rest
  | _, _, 0, hfuel => absurd hfuel (Nat.not_lt_zero _)
  | [], found, fuel + 1, _ => by
    refine Spells.peek.bind fun token htoken => ?_
    rw [if_neg (htoken ▸ hrest)]
    exact .pure (List.append_nil _).symm
  | name :: names, found, fuel + 1, hfuel => by
    refine Spells.peek.bind fun token htoken => ?_
    subst htoken
    refine Spells.advance.bind fun _ _ => Spells.identifier.bind fun name' hname => ?_
    subst hname
    refine (spells_moreNames hrest names (name' :: found) fuel
      (Nat.lt_of_succ_lt_succ hfuel)).mono ?_
    rintro _ rfl
    rw [List.reverse_cons, List.append_assoc]
    rfl

/-- A dotted name is read back. -/
theorem spells_dottedName {path : List String} {rest : List Token} (hpath : path ≠ [])
    (hrest : nextOf rest ≠ .dot) : Spells (· = path) dottedName (dotted path ++ rest) rest := by
  obtain ⟨first, names, rfl⟩ := List.exists_cons_of_ne_nil hpath
  refine Spells.identifier.bind ?_
  rintro _ rfl
  refine Spells.budget.bind fun fuel hfuel => spells_moreNames hrest names [_] fuel ?_
  have hlength := length_le_flatMap_cons .dot (names.map fun name => [Token.ident name]) rest
  rw [List.length_map] at hlength
  exact Nat.lt_of_le_of_lt hlength hfuel

section Arguments

variable {expression : Rule Expr}

/-- What is known of each argument: it is read back in front of any token that can stand behind
it. -/
def ReadAlone (expression : Rule Expr) (e : Expr) : Prop :=
  ∀ rest : List Token, Stops 7 (nextOf rest) →
    Spells (·.bare = e.bare) expression (e.tokens ++ rest) rest

theorem stops_behind_argument (args : List Expr) (rest : List Token) :
    Stops 7 (nextOf ((args.map Expr.tokens).flatMap (.comma :: ·) ++ .rparen :: rest)) := by
  cases args with
  | nil => exact .of_mark (by simp) 7
  | cons _ _ => exact .of_mark (by simp) 7

theorem spells_moreArguments {rest : List Token} :
    ∀ (args found : List Expr) (fuel : Nat), args.length < fuel →
      (∀ e ∈ args, ReadAlone expression e) →
      Spells (·.map Expr.bare = (found.reverse ++ args).map Expr.bare)
        (moreArguments expression fuel found)
        ((args.map Expr.tokens).flatMap (.comma :: ·) ++ .rparen :: rest) (.rparen :: rest)
  | _, _, 0, hfuel, _ => absurd hfuel (Nat.not_lt_zero _)
  | [], found, fuel + 1, _, _ => by
    refine Spells.peek.bind fun token htoken => ?_
    subst htoken
    exact .pure (by rw [List.append_nil])
  | e :: args, found, fuel + 1, hfuel, hargs => by
    obtain ⟨hone, hargs⟩ := List.forall_mem_cons.mp hargs
    rw [List.map_cons, List.flatMap_cons, List.cons_append, List.cons_append, List.append_assoc]
    refine Spells.peek.bind fun token htoken => ?_
    subst htoken
    refine Spells.advance.bind fun _ _ => ?_
    refine (hone _ (stops_behind_argument args rest)).bind fun argument hargument => ?_
    refine (spells_moreArguments args (argument :: found) fuel
      (Nat.lt_of_succ_lt_succ hfuel) hargs).mono fun all hall => ?_
    rw [hall]
    simp [hargument]

/-- The arguments of a call are read back, with the parenthesis behind them. -/
theorem spells_arguments {args : List Expr} {rest : List Token}
    (hargs : ∀ e ∈ args, ReadAlone expression e)
    (hbegin : ∀ e ∈ args, ∀ behind, nextOf (e.tokens ++ behind) ≠ .rparen) :
    Spells (Expr.bareAll · = Expr.bareAll args) (arguments expression)
      (separated .comma (Expr.tokensEach args) ++ .rparen :: rest) rest := by
  rw [Expr.tokensEach_eq]
  simp only [Expr.bareAll_eq]
  cases args with
  | nil =>
    refine Spells.peek.bind fun token htoken => ?_
    subst htoken
    exact (Spells.answer []).bind fun found hfound =>
      Spells.expect.bind fun _ _ => .pure (hfound ▸ rfl)
  | cons first args =>
    obtain ⟨hone, hargs⟩ := List.forall_mem_cons.mp hargs
    have hsplit : separated .comma ((first :: args).map Expr.tokens) ++ .rparen :: rest =
        first.tokens ++ ((args.map Expr.tokens).flatMap (.comma :: ·) ++ .rparen :: rest) :=
      List.append_assoc ..
    rw [hsplit]
    refine Spells.peek.bind fun token htoken => ?_
    rw [if_neg (htoken ▸ hbegin first List.mem_cons_self _)]
    refine (hone _ (stops_behind_argument args rest)).bind fun found hfound =>
      Spells.budget.bind fun fuel hfuel => ?_
    have hlength := length_le_flatMap_cons .comma (args.map Expr.tokens) (.rparen :: rest)
    rw [List.length_map] at hlength
    refine (spells_moreArguments args [found] fuel (Nat.lt_of_le_of_lt hlength hfuel) hargs).bind
      fun all hall => Spells.expect.bind fun _ _ => .pure (hall.trans ?_)
    exact congrArg (· :: args.map Expr.bare) hfound

end Arguments

/-! ## What an expression begins with -/

/-- An expression begins with a token that can begin one, and only with an operator if one is
outermost. -/
def BeginsWell (e : Expr) (tokens : List Token) : Prop :=
  ∀ rest, (nextOf (tokens ++ rest)).beginsExpr = true ∧
    (e.looseness = 0 → unaryOp? (nextOf (tokens ++ rest)) = none)

theorem BeginsWell.within {e whole : Expr} {limit : Nat} (h : BeginsWell e e.tokens)
    (hlimit : whole.looseness = 0 → limit = 0) (behind : List Token) :
    BeginsWell whole (e.within limit e.tokens ++ behind) := by
  intro rest
  rw [List.append_assoc, Expr.within]
  split
  · rename_i hle
    obtain ⟨hbegin, hunary⟩ := h (behind ++ rest)
    refine ⟨hbegin, fun hwhole => hunary ?_⟩
    rw [hlimit hwhole] at hle
    exact Nat.le_zero.mp hle
  · exact ⟨rfl, fun _ => rfl⟩

theorem beginsWell_tokens : ∀ e : Expr, BeginsWell e e.tokens
  | .int .. | .float .. | .str .. | .null _ | .this _ | .ident .. | .call .. | .create .. =>
    fun _ => ⟨rfl, fun _ => rfl⟩
  | .bool value _ => fun _ => by cases value <;> exact ⟨rfl, fun _ => rfl⟩
  | .binary op left right _ => by
    rw [Expr.tokens]
    exact (beginsWell_tokens left).within
      (fun hzero => by cases op <;> cases hzero) _
  | .unary op operand _ => fun _ => by cases op <;> exact ⟨rfl, nofun⟩
  | .methodCall object method args _ => by
    rw [Expr.tokens]
    exact (beginsWell_tokens object).within (fun _ => rfl) _
  | .field object name _ => by
    rw [Expr.tokens]
    exact (beginsWell_tokens object).within (fun _ => rfl) _

theorem nextOf_tokens_ne {token : Token} (htoken : token.beginsExpr = false) (e : Expr)
    (rest : List Token) : nextOf (e.tokens ++ rest) ≠ token := by
  rintro rfl
  rw [(beginsWell_tokens e rest).1] at htoken
  cases htoken

/-! ## Reading in a loop -/

/-- What is read with `first` from these tokens is `e`, and reading goes on behind it with `more` as
it does from `e`, whatever is found in the end. -/
def StartsWith (first : Rule Expr) (more : Nat → Expr → Rule Expr) (e : Expr)
    (tokens rest : List Token) : Prop :=
  ∀ (right : Expr → Prop) (final : List Token),
    (∀ fuel found, found.bare = e.bare → Spells right (more fuel found) rest final) →
      ∀ fuel, Spells right (first >>= more fuel) (tokens ++ rest) final

section Loops

variable {first operand : Rule Expr} {more : Nat → Expr → Rule Expr} {e : Expr}
  {right : Expr → Prop} {tokens rest final : List Token}

theorem StartsWith.of_whole (h : Spells (·.bare = e.bare) first (tokens ++ rest) rest) :
    StartsWith first more e tokens rest :=
  fun _ _ hmore fuel => h.bind fun found hfound => hmore fuel found hfound

/-- A loop whose levels of nesting are given back behind it. -/
theorem spells_restoring (next : Expr → Rule Expr) (h : Spells right (first >>= next) tokens rest) :
    Spells right (do
      let start ← first
      let depth := (← get).depth
      let whole ← next start
      restoreDepth depth
      return whole) tokens rest := by
  intro s hs
  have hloop := h s hs
  cases hfirst : first s with
  | error e after =>
    rw [bind_of_error hfirst] at hloop ⊢
    exact hloop
  | ok start middle =>
    rw [bind_of_ok hfirst] at hloop ⊢
    change Comes right rest ((next start >>= fun whole => restoreDepth middle.depth >>= fun _ =>
      pure whole) middle)
    cases hnext : next start middle with
    | error e after =>
      rw [hnext] at hloop
      rw [bind_of_error hnext]
      exact hloop
    | ok whole after =>
      rw [hnext] at hloop
      rw [bind_of_ok hnext]
      obtain ⟨ha, hafter⟩ | _ := hloop
      exact .ok ha (hafter.withDepth _)

/-- A loop over operators ends where no operator of its level follows. -/
theorem spells_chain_stop {n : Nat} {found : Expr} (hfound : found.bare = e.bare)
    (hstop : levelOp? n (nextOf rest) = none) (fuel : Nat) :
    Spells (·.bare = e.bare) (chain (levelOp? n) operand fuel found) rest rest := by
  cases fuel with
  | zero => exact .tooDeep
  | succ fuel =>
    refine Spells.peek.bind fun token htoken => ?_
    rw [htoken, hstop]
    exact .pure hfound

/-- A loop over operators takes an operator of its level and the operand behind it. -/
theorem spells_chain_go {op : BinaryOp} {n : Nat} {found other : Expr} {middle : List Token}
    (hop : op.looseness = n)
    (hother : Spells (·.bare = other.bare) operand tokens middle)
    (hmore : ∀ fuel operand', operand'.bare = other.bare →
      Spells right (chain (levelOp? n) operand fuel (join op found operand')) middle final)
    (fuel : Nat) :
    Spells right (chain (levelOp? n) operand fuel found) (op.token :: tokens) final := by
  cases fuel with
  | zero => exact .tooDeep
  | succ fuel =>
    refine Spells.peek.bind fun token htoken => ?_
    rw [htoken, nextOf_cons, ← hop, levelOp?_token]
    refine Spells.descend.bind fun _ _ => Spells.advance.bind fun _ _ => hother.bind ?_
    rw [hop]
    exact fun operand' hoperand => hmore fuel operand' hoperand

/-- What can be read at a level can be read at a looser one. -/
theorem spells_rung_of_le (low : Nat) {high : Nat} (hle : low ≤ high)
    (h : Spells (·.bare = e.bare) (rung operand low) tokens rest)
    (hstop : Stops (high + 1) (nextOf rest)) :
    Spells (·.bare = e.bare) (rung operand high) tokens rest := by
  induction hle with
  | refl => exact h
  | @step high _ ih =>
    refine spells_restoring (chain (levelOp? (high + 2)) (rung operand high)
      (maxNesting + 1)) ?_
    refine (ih (hstop.mono (Nat.le_succ _))).bind fun found hfound => ?_
    exact spells_chain_stop hfound (hstop.levelOp?_eq_none (Nat.le_refl _)) _

end Loops

/-! ## An expression in each place -/

/-- An expression is read back from its tokens in each place that it can take: in front of a dot, as
the left operand of an operator, and as the whole of what a level reads. -/
structure Recovered (e : Expr) : Prop where
  object : ∀ (fuel : Nat) (rest : List Token), nextOf rest ≠ .lparen →
    StartsWith (primary (expressionOver (operand fuel)))
      (postfixChain (expressionOver (operand fuel))) e (e.within 0 e.tokens) rest
  left : ∀ (fuel n : Nat) (rest : List Token), Stops (n + 1) (nextOf rest) →
    StartsWith (rung (operand fuel) n) (chain (levelOp? (n + 2)) (rung (operand fuel) n)) e
      (e.within (n + 2) e.tokens) rest
  whole : ∀ (fuel n : Nat) (rest : List Token), Stops (n + 1) (nextOf rest) →
    Spells (·.bare = e.bare) (rung (operand fuel) n) (e.within (n + 1) e.tokens ++ rest) rest

section Places

variable {e : Expr} {fuel n : Nat} {tokens rest : List Token}

/-- A loop over dots ends where neither a dot nor a parenthesis follows. -/
theorem spells_postfixChain_stop {expression : Rule Expr} {found : Expr}
    (hfound : found.bare = e.bare) (hdot : nextOf rest ≠ .dot) (hparen : nextOf rest ≠ .lparen)
    (fuel : Nat) :
    Spells (·.bare = e.bare) (postfixChain expression fuel found) rest rest := by
  cases fuel with
  | zero => exact .tooDeep
  | succ fuel =>
    refine Spells.peek.bind fun token htoken => ?_
    rw [← htoken] at hdot hparen
    split
    · exact absurd rfl hdot
    · exact absurd rfl hparen
    · exact .pure hfound

/-- What a dot can stand behind is an operand. -/
theorem spells_operand_of_object
    (h : ∀ fuel, StartsWith (primary (expressionOver (operand fuel)))
      (postfixChain (expressionOver (operand fuel))) e tokens rest)
    (hbegin : unaryOp? (nextOf (tokens ++ rest)) = none) (hstop : Stops 1 (nextOf rest)) :
    Spells (·.bare = e.bare) (operand fuel) (tokens ++ rest) rest := by
  cases fuel with
  | zero => exact .tooDeep
  | succ fuel =>
    refine Spells.peek.bind fun token htoken => ?_
    rw [htoken, hbegin]
    refine spells_restoring (postfixChain (expressionOver (operand fuel)) _) ?_
    exact h fuel _ _ (fun _ _ hfound =>
      spells_postfixChain_stop hfound hstop.dot hstop.paren _) _

/-- An expression in parentheses is read back where there is room for it. -/
theorem spells_parenthesized {expression : Rule Expr} (h : ReadAlone expression e) :
    Spells (·.bare = e.bare) (primary expression) (parenthesized e.tokens ++ rest) rest := by
  rw [parenthesized_append]
  refine Spells.here.bind fun span _ => Spells.peek.bind fun token htoken => ?_
  subst htoken
  refine Spells.advance.bind fun _ _ => (h _ (.of_mark (by simp) 7)).bind fun inner hinner => ?_
  exact Spells.expect.bind fun _ _ => .pure hinner

/-- It is enough to read an expression back where it needs no parentheses: in front of a dot if no
operator is outermost, as an operand if one in front of it is, and else as the left operand of an
operator of its own level. -/
theorem Recovered.of_own
    (hobject : e.looseness = 0 → ∀ fuel rest, nextOf rest ≠ .lparen →
      StartsWith (primary (expressionOver (operand fuel)))
        (postfixChain (expressionOver (operand fuel))) e e.tokens rest)
    (hunary : e.looseness = 1 → ∀ fuel rest, Stops 1 (nextOf rest) →
      Spells (·.bare = e.bare) (operand fuel) (e.tokens ++ rest) rest)
    (hleft : ∀ n, e.looseness = n + 2 → ∀ fuel rest, Stops (n + 1) (nextOf rest) →
      StartsWith (rung (operand fuel) n) (chain (levelOp? (n + 2)) (rung (operand fuel) n)) e
        e.tokens rest) :
    Recovered e := by
  have hraw : ∀ fuel n rest, e.looseness ≤ n + 1 → Stops (n + 1) (nextOf rest) →
      Spells (·.bare = e.bare) (rung (operand fuel) n) (e.tokens ++ rest) rest := by
    intro fuel n rest hle hstop
    have hlow : Stops 1 (nextOf rest) := hstop.mono (by omega)
    cases hloose : e.looseness with
    | zero =>
      refine spells_rung_of_le 0 (Nat.zero_le n) ?_ hstop
      exact spells_operand_of_object (fun fuel => hobject hloose fuel rest hlow.paren)
        ((beginsWell_tokens e rest).2 hloose) hlow
    | succ k =>
      cases k with
      | zero => exact spells_rung_of_le 0 (Nat.zero_le n) (hunary hloose fuel rest hlow) hstop
      | succ k =>
        refine spells_rung_of_le (k + 1) (by omega) ?_ hstop
        refine spells_restoring (chain (levelOp? (k + 2)) (rung (operand fuel) k) _) ?_
        refine hleft k hloose fuel rest (hstop.mono (by omega)) _ _ (fun _ _ hfound => ?_) _
        exact spells_chain_stop hfound (hstop.levelOp?_eq_none (by omega)) _
  have hfull : ∀ fuel, ReadAlone (expressionOver (operand fuel)) e :=
    fun fuel rest hstop => (hraw fuel 6 rest e.looseness_le hstop).nested
  have hprinted : ∀ fuel n rest, Stops (n + 1) (nextOf rest) →
      Spells (·.bare = e.bare) (rung (operand fuel) n) (e.within (n + 1) e.tokens ++ rest) rest := by
    intro fuel n rest hstop
    rw [Expr.within]
    split
    · exact hraw fuel n rest ‹_› hstop
    · refine spells_rung_of_le 0 (Nat.zero_le n) ?_ hstop
      refine spells_operand_of_object (fun fuel => .of_whole ?_) rfl (hstop.mono (by omega))
      exact spells_parenthesized (hfull fuel)
  refine ⟨fun fuel rest hnext => ?_, fun fuel n rest hstop => ?_, hprinted⟩
  · rw [Expr.within]
    split
    · exact hobject (Nat.le_zero.mp ‹_›) fuel rest hnext
    · exact .of_whole (spells_parenthesized (hfull fuel))
  · obtain hlt | heq | hgt := Nat.lt_trichotomy e.looseness (n + 2)
    · -- the expression is read whole, as one operand of the level
      have hwhole := hprinted fuel n rest hstop
      rw [Expr.within, if_pos (by omega)] at hwhole
      rw [Expr.within, if_pos (by omega)]
      exact .of_whole hwhole
    · rw [Expr.within, if_pos (by omega)]
      exact hleft n heq fuel rest hstop
    · have hwhole := hprinted fuel n rest hstop
      rw [Expr.within, if_neg (by omega)] at hwhole
      rw [Expr.within, if_neg (by omega)]
      exact .of_whole hwhole

end Places

/-! ## Every expression is recovered -/

theorem Recovered.readAlone {e : Expr} (h : Recovered e) (fuel : Nat) :
    ReadAlone (expressionOver (operand fuel)) e := by
  intro rest hstop
  have hwhole := h.whole fuel 6 rest hstop
  rw [Expr.within, if_pos e.looseness_le] at hwhole
  exact hwhole.nested

/-- An expression with no operator outermost is recovered if it can be read in front of a dot. -/
theorem Recovered.of_object {e : Expr} (hloose : e.looseness = 0)
    (h : ∀ fuel rest, nextOf rest ≠ .lparen →
      StartsWith (primary (expressionOver (operand fuel)))
        (postfixChain (expressionOver (operand fuel))) e e.tokens rest) : Recovered e :=
  .of_own (fun _ => h) (fun hone => by omega) (fun n hn => by omega)

theorem Recovered.of_literal {e : Expr} {token : Token} (hloose : e.looseness = 0)
    (htokens : e.tokens = [token])
    (h : ∀ span, ∃ found, literal? span token = some found ∧ found.bare = e.bare) : Recovered e := by
  refine .of_object hloose fun fuel rest _ => .of_whole ?_
  rw [htokens]
  refine Spells.here.bind fun span _ => Spells.peek.bind fun next hnext => ?_
  obtain ⟨found, hfound, hbare⟩ := h span
  rw [hnext, List.cons_append, nextOf_cons, hfound]
  exact Spells.advance.bind fun _ _ => .pure hbare

section Calls

variable {fuel : Nat} {rest : List Token} {args : List Expr}

theorem Recovered.arguments (h : ∀ e ∈ args, Recovered e) (fuel : Nat) (rest : List Token) :
    Spells (Expr.bareAll · = Expr.bareAll args) (arguments (expressionOver (operand fuel)))
      (separated .comma (Expr.tokensEach args) ++ .rparen :: rest) rest :=
  spells_arguments (fun e he => (h e he).readAlone fuel)
    fun e _ behind => nextOf_tokens_ne rfl e behind

theorem Recovered.of_create {path : List String} {span : Span} (hpath : path ≠ [])
    (hargs : ∀ e ∈ args, Recovered e) : Recovered (.create path args span) := by
  refine .of_object rfl fun fuel rest _ => .of_whole ?_
  rw [Expr.tokens, List.cons_append, List.append_assoc, parenthesized_append]
  refine Spells.here.bind fun span _ => Spells.peek.bind fun next hnext => ?_
  subst hnext
  refine Spells.expect.bind fun _ _ => (spells_dottedName hpath (by simp)).bind ?_
  rintro _ rfl
  refine Spells.expect.bind fun _ _ => (Recovered.arguments hargs fuel rest).bind fun found hfound => ?_
  refine Spells.previous.bind fun _ _ => .pure ?_
  rw [Expr.bare, Expr.bare, hfound]

/-- A bare name and the arguments behind it. -/
theorem Recovered.of_call {name : String} {span : Span} (hargs : ∀ e ∈ args, Recovered e) :
    Recovered (.call name args span) := by
  refine .of_object rfl fun fuel rest _ right final hmore count => ?_
  rw [Expr.tokens, List.cons_append, parenthesized_append]
  have hname : Spells (fun found => ∃ span, found = .ident name span)
      (primary (expressionOver (operand fuel)))
      (.ident name :: .lparen :: (separated .comma (Expr.tokensEach args) ++ .rparen :: rest))
      (.lparen :: (separated .comma (Expr.tokensEach args) ++ .rparen :: rest)) := by
    refine Spells.here.bind fun span _ => Spells.peek.bind fun next hnext => ?_
    subst hnext
    exact Spells.advance.bind fun _ _ => .pure ⟨span, rfl⟩
  refine hname.bind ?_
  rintro _ ⟨span, rfl⟩
  cases count with
  | zero => exact .tooDeep
  | succ count =>
    refine Spells.peek.bind fun next hnext => ?_
    subst hnext
    refine Spells.descend.bind fun _ _ => Spells.advance.bind fun _ _ => ?_
    refine (Recovered.arguments hargs fuel rest).bind fun found hfound => ?_
    refine Spells.previous.bind fun _ _ => hmore count _ ?_
    rw [Expr.bare, Expr.bare, hfound]

/-- What stands behind a dot goes on with the object in front of it. -/
theorem Recovered.of_member {object whole : Expr} {tokens : List Token} (hobject : Recovered object)
    (hloose : whole.looseness = 0)
    (htokens : whole.tokens = object.within 0 object.tokens ++ .dot :: tokens)
    (hmember : ∀ fuel rest found, nextOf rest ≠ .lparen → found.bare = object.bare →
      Spells (·.bare = whole.bare) (member (expressionOver (operand fuel)) found)
        (.dot :: tokens ++ rest) rest) : Recovered whole := by
  refine .of_object hloose fun fuel rest hrest right final hmore count => ?_
  rw [htokens, List.append_assoc]
  refine hobject.object fuel _ (by simp) right final (fun count found hfound => ?_) count
  cases count with
  | zero => exact .tooDeep
  | succ count =>
    refine Spells.peek.bind fun next hnext => ?_
    subst hnext
    exact (hmember fuel rest found hrest hfound).bind (hmore count)

theorem Recovered.of_field {object : Expr} {name : String} {span : Span}
    (hobject : Recovered object) : Recovered (.field object name span) := by
  refine hobject.of_member rfl (by rw [Expr.tokens]) fun fuel rest found hrest hfound => ?_
  refine Spells.descend.bind fun _ _ => Spells.advance.bind fun _ _ => ?_
  refine Spells.here.bind fun _ _ => Spells.identifier.bind ?_
  rintro _ rfl
  refine Spells.peek.bind fun next hnext => ?_
  rw [if_neg (hnext ▸ hrest)]
  exact .pure (by rw [Expr.bare, Expr.bare, hfound])

theorem Recovered.of_methodCall {object : Expr} {name : String} {span : Span}
    (hobject : Recovered object) (hargs : ∀ e ∈ args, Recovered e) :
    Recovered (.methodCall object name args span) := by
  refine hobject.of_member rfl (by rw [Expr.tokens]) fun fuel rest found _ hfound => ?_
  rw [List.cons_append, List.cons_append, parenthesized_append]
  refine Spells.descend.bind fun _ _ => Spells.advance.bind fun _ _ => ?_
  refine Spells.here.bind fun _ _ => Spells.identifier.bind ?_
  rintro _ rfl
  refine Spells.peek.bind fun next hnext => ?_
  subst hnext
  refine Spells.advance.bind fun _ _ => (Recovered.arguments hargs fuel rest).bind fun args' hargs' => ?_
  exact Spells.previous.bind fun _ _ => .pure (by rw [Expr.bare, Expr.bare, hfound, hargs'])

end Calls

theorem Recovered.of_unary {op : UnaryOp} {inner : Expr} {span : Span} (hinner : Recovered inner) :
    Recovered (.unary op inner span) := by
  refine .of_own nofun (fun _ fuel rest hstop => ?_) nofun
  cases fuel with
  | zero => exact .tooDeep
  | succ fuel =>
    have hop : unaryOp? op.token = some op := by cases op <;> rfl
    rw [Expr.tokens, List.cons_append]
    refine Spells.peek.bind fun next hnext => ?_
    rw [hnext, nextOf_cons, hop]
    refine Spells.here.bind fun _ _ => Spells.advance.bind fun _ _ => ?_
    refine (hinner.whole fuel 0 rest hstop).nested.bind fun found hfound => .pure ?_
    rw [Expr.bare, Expr.bare, hfound]

theorem Recovered.of_binary {op : BinaryOp} {left right : Expr} {span : Span}
    (hleft : Recovered left) (hright : Recovered right) :
    Recovered (.binary op left right span) := by
  have hloose : (Expr.binary op left right span).looseness = op.looseness := rfl
  have htwo : 2 ≤ op.looseness := by cases op <;> decide
  refine .of_own (fun _ => by omega) (fun _ => by omega) fun n hn fuel rest hstop => ?_
  intro goal final hmore count
  have hlevel : op.looseness = n + 2 := hn
  rw [Expr.tokens, hlevel, List.append_assoc]
  refine hleft.left fuel n _ (.of_operator (by omega)) goal final (fun count found hfound => ?_) count
  refine spells_chain_go hlevel (hright.whole fuel n rest hstop) (fun count other hother => ?_) count
  refine hmore count _ ?_
  rw [join, Expr.bare, Expr.bare, hfound, hother]

variable {float : Float → List Char}

mutual

/-- Every expression that can be written is read back. -/
theorem recovered : ∀ e : Expr, e.Printable float → Recovered e
  | .int .., _ | .float .., _ | .str .., _ | .null _, _ | .this _, _ | .ident .., _ =>
    .of_literal rfl rfl fun _ => ⟨_, rfl, rfl⟩
  | .bool value _, _ => by cases value <;> exact .of_literal rfl rfl fun _ => ⟨_, rfl, rfl⟩
  | .binary _ left right _, h => .of_binary (recovered left h.1) (recovered right h.2)
  | .unary _ inner _, h => .of_unary (recovered inner h)
  | .call _ args _, h => .of_call (recoveredAll args h.2)
  | .methodCall object _ args _, h =>
    .of_methodCall (recovered object h.1) (recoveredAll args h.2.2)
  | .field object _ _, h => .of_field (recovered object h.1)
  | .create _ args _, h => .of_create h.1.1 (recoveredAll args h.2)

theorem recoveredAll : ∀ es : List Expr, Expr.AllPrintable float es → ∀ e ∈ es, Recovered e
  | [], _ => nofun
  | e :: rest, h => List.forall_mem_cons.mpr ⟨recovered e h.1, recoveredAll rest h.2⟩

end

/-- An expression in front of a mark that closes it. -/
theorem spells_expression {e : Expr} (he : e.Printable float) (token : Token)
    (htoken : token ∈ [.rparen, .comma, .semicolon, .lbrace, .eq]) (rest : List Token) :
    Spells (·.bare = e.bare) expression (e.tokens ++ token :: rest) (token :: rest) :=
  (recovered e he).readAlone _ _ (.of_mark htoken 7)

end Grammar

end ScriptHost
