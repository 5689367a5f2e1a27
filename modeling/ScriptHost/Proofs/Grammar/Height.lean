import Mathlib.Order.Monotone.Basic
import ScriptHost.Proofs.Grammar.Level
import ScriptHost.Scope.Resolve
/-!
# How tall an expression can be

Every operator, dot, call and pair of parentheses opens a level of nesting, but the loops over
operators of one strength, and over dots and calls, give their levels back when they end, while what
they have read becomes the leftmost operand of the next loop. So the heights of the six loops over
binary operators and of the loop over dots and calls add up, and where `free` levels are free, an
expression can be as tall as `tallest free`.

The main statement is `expression_bounded`. That the bound is met is shown in
`ScriptHost.Proofs.Grammar.Tallest`.
-/

set_option autoImplicit false

namespace ScriptHost

namespace Expr

mutual

/-- The number of nodes on the longest way from an expression down to a leaf. -/
def height : Expr → Nat
  | .int .. | .float .. | .str .. | .bool .. | .null _ | .this _ | .ident .. => 1
  | .binary _ left right _ => max left.height right.height + 1
  | .unary _ operand _ => operand.height + 1
  | .call _ args _ | .create _ args _ => heightAll args + 1
  | .methodCall object _ args _ => max object.height (heightAll args) + 1
  | .field object _ _ => object.height + 1

/-- The height of the tallest of some expressions. -/
def heightAll : List Expr → Nat
  | [] => 0
  | e :: rest => max e.height (heightAll rest)

end

theorem heightAll_le {bound : Nat} {es : List Expr} (h : ∀ e ∈ es, e.height ≤ bound) :
    heightAll es ≤ bound := by
  induction es with
  | nil => exact Nat.zero_le bound
  | cons e rest ih =>
    rw [heightAll]
    have hrest := ih fun e' he' => h e' (List.mem_cons_of_mem e he')
    exact Nat.max_le.mpr ⟨h e List.mem_cons_self, hrest⟩

theorem height_join (op : BinaryOp) (left right : Expr) :
    (Grammar.join op left right).height = max left.height right.height + 1 := by
  rw [Grammar.join, height]

end Expr

namespace Grammar

/-- The greatest height of an expression that is read where so many levels are free. To read it
takes one of them. With `free` left behind it, seven loops can each add so many nodes on the left,
and one more node takes an expression with `free` levels as its argument. -/
def tallest : Nat → Nat
  | 0 => 0
  | free + 1 => tallest free + 7 * free + 1

theorem two_mul_tallest (free : Nat) : 2 * tallest free + 5 * free = 7 * (free * free) := by
  induction free with
  | zero => rfl
  | succ free ih =>
    have hsquare : (free + 1) * (free + 1) = free * free + free + free + 1 := by
      rw [Nat.succ_mul, Nat.mul_succ]
      omega
    rw [tallest, hsquare]
    omega

theorem tallest_le_succ (free : Nat) : tallest free ≤ tallest (free + 1) := by
  rw [tallest]
  omega

theorem tallest_mono : Monotone tallest :=
  monotone_nat_of_le_succ tallest_le_succ

/-- The rule keeps the level, and what it reads is no taller than the bound allows for the levels
that are free. -/
def Bounded (bound : Nat → Nat) (rule : Rule Expr) : Prop :=
  ∀ depth, Keeps rule depth fun e => e.height ≤ bound (maxNesting - depth)

/-- A loop over operators adds a node for each level that it takes. -/
theorem chain_height {op? : Token → Option BinaryOp} {rule : Rule Expr} {bound : Nat → Nat}
    (hmono : Monotone bound) (hrule : Bounded bound rule) :
    ∀ (fuel : Nat) (left : Expr) (depth : Nat),
      Yields (chain op? rule fuel left) depth fun _ e =>
        e.height ≤ max left.height (bound (maxNesting - depth)) + (maxNesting - depth)
  | 0, _, _ => .failHere
  | fuel + 1, left, depth => by
    rw [chain]
    refine keeps_peek.bind fun token _ => ?_
    split
    · exact .pure (by omega)
    · rename_i op _
      refine yields_descend.bind fun after _ hroom => ?_
      obtain ⟨hroom, rfl⟩ := hroom
      refine keeps_advance.bind fun _ _ => (hrule (depth + 1)).bind fun right hright => ?_
      refine (chain_height hmono hrule fuel (join op left right) (depth + 1)).imp fun _ e he => ?_
      rw [Expr.height_join] at he
      have hfree : maxNesting - depth = maxNesting - (depth + 1) + 1 := by omega
      have hless : bound (maxNesting - (depth + 1)) ≤ bound (maxNesting - depth) :=
        hmono (by omega)
      omega

theorem level_bounded {op? : Token → Option BinaryOp} {rule : Rule Expr} {bound : Nat → Nat}
    (hmono : Monotone bound) (hrule : Bounded bound rule) :
    Bounded (fun free => bound free + free) (level op? rule) := by
  intro depth
  unfold level
  refine (hrule depth).bind fun left hleft => ?_
  refine keeps_get.bind fun s hs => ?_
  refine (chain_height hmono hrule _ left depth).bind fun after whole hwhole => ?_
  refine yields_restoreDepth.bind fun after' _ hafter => .pure ⟨hafter.trans hs, ?_⟩
  rw [max_eq_right hleft] at hwhole
  exact hwhole

/-- The bound of a level is monotone if the bound of its operands is. -/
theorem monotone_level {bound : Nat → Nat} (hmono : Monotone bound) :
    Monotone fun free => bound free + free :=
  fun _ _ hle => Nat.add_le_add (hmono hle) hle

/-- The six loops over operators add up. -/
theorem levels_bounded {rule : Rule Expr} {bound : Nat → Nat} (hmono : Monotone bound)
    (hrule : Bounded bound rule) : Bounded (fun free => bound free + 6 * free) (levels rule) := by
  have hproduct := monotone_level hmono
  have hsum := monotone_level hproduct
  have hcomparison := monotone_level hsum
  have hequality := monotone_level hcomparison
  have hand := monotone_level hequality
  have hall : Bounded _ (levels rule) :=
    level_bounded hand <| level_bounded hequality <| level_bounded hcomparison <|
      level_bounded hsum <| level_bounded hproduct <| level_bounded hmono hrule
  intro depth
  refine (hall depth).imp fun e he => ?_
  dsimp only at he ⊢
  omega

/-- An expression takes a level first. -/
theorem expressionOver_bounded {rule : Rule Expr}
    (hrule : Bounded (fun free => tallest free + free + 1) rule) :
    Bounded tallest (expressionOver rule) := by
  have hmono : Monotone fun free => tallest free + free + 1 :=
    fun _ _ hle => Nat.add_le_add_right (Nat.add_le_add (tallest_mono hle) hle) 1
  intro depth
  refine keeps_nested fun hroom => (levels_bounded hmono hrule (depth + 1)).imp fun e he => ?_
  have hfree : maxNesting - depth = maxNesting - (depth + 1) + 1 := by omega
  rw [hfree, tallest]
  dsimp only at he
  omega

variable {rule : Rule Expr}

theorem moreArguments_height (hrule : Bounded tallest rule) (depth : Nat) :
    ∀ (fuel : Nat) (found : List Expr),
      (∀ e ∈ found, e.height ≤ tallest (maxNesting - depth)) →
      Keeps (moreArguments rule fuel found) depth fun args =>
        ∀ e ∈ args, e.height ≤ tallest (maxNesting - depth)
  | 0, _, hfound => .pure fun e he => hfound e (List.mem_reverse.mp he)
  | fuel + 1, found, hfound => by
    rw [moreArguments]
    refine keeps_peek.bind fun _ _ => ?_
    split
    · refine keeps_advance.bind fun _ _ => (hrule depth).bind fun argument hargument => ?_
      exact moreArguments_height hrule depth fuel _ (List.forall_mem_cons.mpr ⟨hargument, hfound⟩)
    · exact .pure ⟨rfl, fun e he => hfound e (List.mem_reverse.mp he)⟩

theorem arguments_height (hrule : Bounded tallest rule) (depth : Nat) :
    Keeps (arguments rule) depth fun args =>
      Expr.heightAll args ≤ tallest (maxNesting - depth) := by
  have hclose : ∀ args, (∀ e ∈ args, e.height ≤ tallest (maxNesting - depth)) →
      Keeps (do let _ ← expect .rparen "')' after arguments"; return args) depth fun args =>
        Expr.heightAll args ≤ tallest (maxNesting - depth) := fun args hargs =>
    keeps_expect.bind fun _ _ => .pure ⟨rfl, Expr.heightAll_le hargs⟩
  unfold arguments
  refine keeps_peek.bind fun token _ => ?_
  split
  · exact Keeps.bind (.pure (List.forall_mem_nil _)) hclose
  · refine (hrule depth).bind fun first hfirst => keeps_budget.bind fun fuel _ => ?_
    exact (moreArguments_height hrule depth fuel _ (List.forall_mem_singleton.mpr hfirst)).bind
      hclose

theorem height_literal {span : Span} {token : Token} {e : Expr}
    (h : literal? span token = some e) : e.height = 1 := by
  cases token with
  | int _ | float _ | str _ | ident _ | kwTrue | kwFalse | kwNull | kwThis =>
    cases h
    rfl
  | _ => cases h

/-- Neither parentheses nor the arguments of a new object cost a level of their own: what stands in
them takes its level itself. -/
theorem primary_bounded (hrule : Bounded tallest rule) :
    Bounded (fun free => tallest free + 1) (primary rule) := by
  intro depth
  unfold primary
  refine keeps_here.bind fun span _ => keeps_peek.bind fun token _ => ?_
  split
  · rename_i e he
    refine keeps_advance.bind fun _ _ => .pure ⟨rfl, ?_⟩
    exact (height_literal he).trans_le (Nat.le_add_left 1 _)
  · split
    · refine keeps_advance.bind fun _ _ => (hrule depth).bind fun inner hinner => ?_
      exact keeps_expect.bind fun _ _ => .pure ⟨rfl, Nat.le_succ_of_le hinner⟩
    · split
      · unfold creation
        refine keeps_expect.bind fun start _ => keeps_dottedName.bind fun path _ => ?_
        refine keeps_expect.bind fun _ _ => (arguments_height hrule depth).bind fun args hargs => ?_
        refine keeps_previous.bind fun _ _ => .pure ⟨rfl, ?_⟩
        dsimp only
        rw [Expr.height]
        exact Nat.succ_le_succ hargs
      · exact .failHere

theorem member_height (hrule : Bounded tallest rule) (object : Expr) (depth : Nat) :
    Yields (member rule object) depth fun after e =>
      depth < maxNesting ∧ after = depth + 1 ∧
        e.height ≤ max object.height (tallest (maxNesting - after)) + 1 := by
  unfold member
  refine yields_descend.bind fun after _ hroom => ?_
  obtain ⟨hroom, rfl⟩ := hroom
  refine keeps_advance.bind fun _ _ => keeps_here.bind fun span _ => ?_
  refine keeps_identifier.bind fun name _ => keeps_peek.bind fun token _ => ?_
  split
  · refine keeps_advance.bind fun _ _ => ?_
    refine (arguments_height hrule (depth + 1)).bind fun args hargs => ?_
    refine keeps_previous.bind fun _ _ => .pure ⟨hroom, rfl, ?_⟩
    rw [Expr.height]
    omega
  · refine .pure ⟨hroom, rfl, ?_⟩
    rw [Expr.height]
    omega

/-- A loop over dots and calls adds a node for each level that it takes. -/
theorem postfixChain_height (hrule : Bounded tallest rule) :
    ∀ (fuel : Nat) (object : Expr) (depth : Nat),
      Yields (postfixChain rule fuel object) depth fun _ e =>
        e.height ≤ max object.height (tallest (maxNesting - depth) + 1) + (maxNesting - depth)
  | 0, _, _ => .failHere
  | fuel + 1, object, depth => by
    have hless : depth < maxNesting → maxNesting - depth = maxNesting - (depth + 1) + 1 ∧
        tallest (maxNesting - (depth + 1)) ≤ tallest (maxNesting - depth) :=
      fun _ => ⟨by omega, tallest_mono (by omega)⟩
    rw [postfixChain]
    refine keeps_peek.bind fun token _ => ?_
    split
    · refine (member_height hrule object depth).bind fun after whole hwhole => ?_
      obtain ⟨hroom, rfl, hwhole⟩ := hwhole
      refine (postfixChain_height hrule fuel whole (depth + 1)).imp fun _ e he => ?_
      have := hless hroom
      omega
    · rename_i name span
      refine yields_descend.bind fun after _ hroom => ?_
      obtain ⟨hroom, rfl⟩ := hroom
      refine keeps_advance.bind fun _ _ => ?_
      refine (arguments_height hrule (depth + 1)).bind fun args hargs => ?_
      refine keeps_previous.bind fun stop _ => ?_
      refine (postfixChain_height hrule fuel _ (depth + 1)).imp fun _ e he => ?_
      have := hless hroom
      rw [Expr.height] at he
      omega
    · exact .pure (by omega)

theorem postfixExpr_bounded (hrule : Bounded tallest rule) :
    Bounded (fun free => tallest free + free + 1) (postfixExpr rule) := by
  intro depth
  unfold postfixExpr
  refine (primary_bounded hrule depth).bind fun object hobject => ?_
  refine keeps_get.bind fun s hs => ?_
  refine (postfixChain_height hrule _ object depth).bind fun _ whole hwhole => ?_
  refine yields_restoreDepth.bind fun after' _ hafter => .pure ⟨hafter.trans hs, ?_⟩
  dsimp only at hobject ⊢
  omega

theorem operand_bounded : ∀ fuel : Nat,
    Bounded (fun free => tallest free + free + 1) (operand fuel)
  | 0 => fun _ => .failHere
  | fuel + 1 => by
    intro depth
    rw [operand]
    refine keeps_peek.bind fun token _ => ?_
    split
    · refine keeps_here.bind fun start _ => keeps_advance.bind fun _ _ => ?_
      have hinner : Keeps (nested (operand fuel)) depth fun e =>
          e.height ≤ tallest (maxNesting - depth) + (maxNesting - depth) := by
        refine keeps_nested fun hroom => (operand_bounded fuel (depth + 1)).imp fun e he => ?_
        have hless : tallest (maxNesting - (depth + 1)) ≤ tallest (maxNesting - depth) :=
          tallest_mono (by omega)
        dsimp only at he
        omega
      refine hinner.bind fun inner hinner => .pure ⟨rfl, ?_⟩
      dsimp only
      rw [Expr.height]
      exact Nat.succ_le_succ hinner
    · exact postfixExpr_bounded (expressionOver_bounded (operand_bounded fuel)) depth

theorem expression_bounded : Bounded tallest expression :=
  expressionOver_bounded (operand_bounded _)

end Grammar

end ScriptHost

/-! ## How tall a resolved expression can be

To resolve an expression makes no node that does not stand for a node of the source. So a resolved
tree is no taller than the tree it comes from, and the code emitter, which walks along resolved
trees, goes no deeper than the resolver. -/

namespace ScriptHost

namespace Resolved.Expr

mutual

/-- The number of nodes on the longest way from a resolved expression down to a leaf. -/
def height : Expr → Nat
  | .const _ | .loadLocal _ | .loadGlobal _ | .loadThis => 1
  | .getField object _ => object.height + 1
  | .binary _ left right => max left.height right.height + 1
  | .unary _ operand => operand.height + 1
  | .call _ args | .callHost _ _ args | .create _ args => heightAll args + 1
  | .callMethod object _ args => max object.height (heightAll args) + 1

/-- The height of the tallest of some resolved expressions. -/
def heightAll : List Expr → Nat
  | [] => 0
  | e :: rest => max e.height (heightAll rest)

end

theorem heightAll_append (front rest : List Expr) :
    heightAll (front ++ rest) = max (heightAll front) (heightAll rest) := by
  induction front with
  | nil => exact (Nat.zero_max _).symm
  | cons e front ih => rw [List.cons_append, heightAll, heightAll, ih, Nat.max_assoc]

end Resolved.Expr

namespace Scope

variable {α β : Type} {ctx : Context}

/-- Whatever the step answers is right. -/
def Answers (step : Resolver α) (right : α → Prop) : Prop :=
  ∀ ⦃body after : Body⦄ ⦃a : α⦄, step body = .ok a after → right a

theorem Answers.any (step : Resolver α) : Answers step fun _ => True :=
  fun _ _ _ _ => trivial

theorem Answers.pure {a : α} {right : α → Prop} (h : right a) :
    Answers (Pure.pure a : Resolver α) right := by
  intro body after b hok
  cases hok
  exact h

theorem Answers.fail {e : ScopeError} {span : Span} {right : α → Prop} :
    Answers (Resolver.fail e span) right := by
  intro body after a hok
  cases hok

theorem Answers.bind {step : Resolver α} {next : α → Resolver β} {first : α → Prop}
    {right : β → Prop} (hstep : Answers step first)
    (hnext : ∀ a, first a → Answers (next a) right) :
    Answers (step >>= next) right := by
  intro body after b hok
  obtain ⟨a, middle, hmiddle, hlast⟩ := bind_eq_ok.mp hok
  exact hnext a (hstep hmiddle) hlast

/-- A name becomes one node. -/
theorem resolveIdent_height (name : String) (span : Span) :
    Answers (resolveIdent ctx name span) fun tree => tree.height = 1 := by
  unfold resolveIdent
  refine (Answers.any _).bind fun body _ => ?_
  split
  · exact (Answers.any _).bind fun _ _ => .pure rfl
  · split
    · exact .pure rfl
    · split <;> exact .fail

mutual

theorem resolveExpr_height : ∀ e : ScriptHost.Expr,
    Answers (resolveExpr ctx e) fun tree => tree.height ≤ e.height
  | .int .. | .float .. | .str .. | .bool .. | .null _ => by
    rw [resolveExpr]
    exact .pure (Nat.le_refl 1)
  | .this _ => by
    rw [resolveExpr]
    exact (Answers.any _).bind fun _ _ => .pure (Nat.le_refl 1)
  | .ident name span => by
    rw [resolveExpr]
    exact fun _ _ _ hok => Nat.le_of_eq (resolveIdent_height name span hok)
  | .binary op left right _ => by
    rw [resolveExpr]
    refine (resolveExpr_height left).bind fun left' hleft => ?_
    refine (resolveExpr_height right).bind fun right' hright => .pure ?_
    rw [Resolved.Expr.height, ScriptHost.Expr.height]
    omega
  | .unary op operand _ => by
    rw [resolveExpr]
    refine (resolveExpr_height operand).bind fun operand' hoperand => .pure ?_
    rw [Resolved.Expr.height, ScriptHost.Expr.height]
    omega
  | .call name args span => by
    rw [resolveExpr]
    refine (Answers.any _).bind fun function _ => ?_
    refine (resolveArgs_height args []).bind fun args' hargs => .pure ?_
    rw [List.reverse_nil, Resolved.Expr.heightAll, Nat.zero_max] at hargs
    rw [Resolved.Expr.height, ScriptHost.Expr.height]
    omega
  | .methodCall object method args span => by
    rw [resolveExpr]
    refine (Answers.any _).bind fun callee _ => ?_
    have hargs := resolveArgs_height args []
    rw [List.reverse_nil, Resolved.Expr.heightAll] at hargs
    simp only [Nat.zero_max] at hargs
    cases callee with
    | host module function =>
      refine hargs.bind fun args' hargs => .pure ?_
      rw [Resolved.Expr.height, ScriptHost.Expr.height]
      omega
    | function id =>
      refine hargs.bind fun args' hargs => .pure ?_
      rw [Resolved.Expr.height, ScriptHost.Expr.height]
      omega
    | method =>
      refine (resolveExpr_height object).bind fun object' hobject => ?_
      refine hargs.bind fun args' hargs => .pure ?_
      rw [Resolved.Expr.height, ScriptHost.Expr.height]
      omega
  | .field object name span => by
    have hfield : Answers
        (do let object ← resolveExpr ctx object; return Resolved.Expr.getField object name)
        fun tree => tree.height ≤ (ScriptHost.Expr.field object name span).height := by
      refine (resolveExpr_height object).bind fun object' hobject => .pure ?_
      rw [Resolved.Expr.height, ScriptHost.Expr.height]
      omega
    rw [resolveExpr.eq_def]
    dsimp only
    split
    · exact (Answers.any _).bind fun _ _ => hfield
    · exact hfield
  | .create path args span => by
    rw [resolveExpr]
    refine (Answers.any _).bind fun classId _ => ?_
    refine (resolveArgs_height args []).bind fun args' hargs => .pure ?_
    rw [List.reverse_nil, Resolved.Expr.heightAll, Nat.zero_max] at hargs
    rw [Resolved.Expr.height, ScriptHost.Expr.height]
    omega

/-- Those found so far come last first. -/
theorem resolveArgs_height : ∀ (args : List ScriptHost.Expr) (found : List Resolved.Expr),
    Answers (resolveArgs ctx found args) fun trees =>
      Resolved.Expr.heightAll trees ≤
        max (Resolved.Expr.heightAll found.reverse) (ScriptHost.Expr.heightAll args)
  | [], found => by
    rw [resolveArgs]
    exact .pure (Nat.le_max_left ..)
  | arg :: rest, found => by
    rw [resolveArgs]
    refine (resolveExpr_height arg).bind fun tree htree => ?_
    refine fun body after trees hok => (resolveArgs_height rest (tree :: found) hok).trans ?_
    rw [List.reverse_cons, Resolved.Expr.heightAll_append, Resolved.Expr.heightAll,
      Resolved.Expr.heightAll, ScriptHost.Expr.heightAll]
    omega

end

end Scope

end ScriptHost
