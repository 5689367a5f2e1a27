import ScriptHost.Proofs.Code.Layout
import ScriptHost.Proofs.Scope.Renaming
/-!
# Code under other numbers

Trees that are the same but for the numbers of functions, classes and global variables become code
that is the same but for these numbers, and it can be made of both or of neither. The bindings of
host functions may be numbered differently besides, and counted from another start: what the number
of a binding stands for is read off the lists of host calls that the two units end up with.

`Twins` says of two steps in the making of code that they make the same. Its lemmas follow the ways
in which steps are put together.
-/

set_option autoImplicit false

namespace ScriptHost

/-- An instruction is another one under new numbers. `hosts` says which numbers of bindings stand
for the same. -/
def Op.Matches (r : Renaming) (hosts : Nat → Nat → Prop) : Op → Op → Prop
  | .loadGlobal id, other => other = .loadGlobal (r.global id)
  | .storeGlobal id, other => other = .storeGlobal (r.global id)
  | .call function argc, other => other = .call (r.function function) argc
  | .create classId argc, other => other = .create (r.classId classId) argc
  | .callHost id argc, other => ∃ id', hosts id id' ∧ other = .callHost id' argc
  | own, other => other = own

theorem Op.Matches.mono {r : Renaming} {hosts wider : Nat → Nat → Prop}
    (hwider : ∀ id id', hosts id id' → wider id id') {op other : Op}
    (h : op.Matches r hosts other) : op.Matches r wider other := by
  cases op with
  | callHost id argc =>
    obtain ⟨id', hid, hother⟩ := h
    exact ⟨id', hwider id id' hid, hother⟩
  | _ => exact h

namespace Code

/-- Two instructions follow each other in step, one after the other. -/
abbrev CodeMatches (r : Renaming) (hosts : Nat → Nat → Prop) : List Op → List Op → Prop :=
  List.Forall₂ (Op.Matches r hosts)

/-- The numbers of two bindings stand for one host function, counted from `base` in the one list and
from `base'` in the other. -/
def SameHost (base base' : Nat) (calls calls' : Array (String × String)) (id id' : Nat) : Prop :=
  ∃ (index index' : Nat) (call : String × String), id = base + index ∧ id' = base' + index' ∧
    calls[index]? = some call ∧ calls'[index']? = some call

/-- Host functions keep their numbers. -/
def Pool.KeepsHosts (pool after : Pool) : Prop :=
  ∀ (index : Nat) (call : String × String), pool.hostCalls[index]? = some call →
    after.hostCalls[index]? = some call

theorem Pool.KeepsHosts.refl (pool : Pool) : pool.KeepsHosts pool :=
  fun _ _ h => h

theorem Pool.KeepsHosts.trans {pool after later : Pool} (h : pool.KeepsHosts after)
    (h' : after.KeepsHosts later) : pool.KeepsHosts later :=
  fun index call hcall => h' index call (h index call hcall)

theorem SameHost.mono {base base' : Nat} {pool pool' after after' : Pool}
    (h : pool.KeepsHosts after) (h' : pool'.KeepsHosts after') {id id' : Nat}
    (hsame : SameHost base base' pool.hostCalls pool'.hostCalls id id') :
    SameHost base base' after.hostCalls after'.hostCalls id id' := by
  obtain ⟨index, index', call, hid, hid', hcall, hcall'⟩ := hsame
  exact ⟨index, index', call, hid, hid', h _ _ hcall, h' _ _ hcall'⟩

/-- Two steps have ended alike: both have failed with the same error, or they have made things that
are `related` for whatever the numbers of bindings come to stand for. Host functions keep their numbers,
and the constants are the same. -/
inductive EndAlike {α : Type} (base base' : Nat) (related : (Nat → Nat → Prop) → α → α → Prop)
    (pool pool' : Pool) : EStateM.Result CodeError Pool α → EStateM.Result CodeError Pool α → Prop
  | ok {a a' : α} {after after' : Pool} (constants : after'.constants = after.constants)
      (kept : pool.KeepsHosts after) (kept' : pool'.KeepsHosts after')
      (same : ∀ hosts, (∀ id id', SameHost base base' after.hostCalls after'.hostCalls id id' →
        hosts id id') → related hosts a a') :
      EndAlike base base' related pool pool' (.ok a after) (.ok a' after')
  | error {e : CodeError} {after after' : Pool} :
      EndAlike base base' related pool pool' (.error e after) (.error e after')

/-- From pools with the same constants on, two steps end alike. -/
def Twins {α : Type} (base base' : Nat) (step step' : Emit α)
    (related : (Nat → Nat → Prop) → α → α → Prop) : Prop :=
  ∀ pool pool', pool'.constants = pool.constants →
    EndAlike base base' related pool pool' (step pool) (step' pool')

variable {α β : Type} {base base' : Nat} {r : Renaming}

namespace Twins

theorem pure {a a' : α} {related : (Nat → Nat → Prop) → α → α → Prop}
    (h : ∀ hosts, related hosts a a') : Twins base base' (Pure.pure a) (Pure.pure a') related :=
  fun pool pool' hconstants => .ok hconstants (.refl pool) (.refl pool') fun hosts _ => h hosts

/-- What follows two steps that end alike. -/
theorem bind {step step' : Emit α} {next next' : α → Emit β}
    {related : (Nat → Nat → Prop) → α → α → Prop} {related' : (Nat → Nat → Prop) → β → β → Prop}
    (h : Twins base base' step step' related)
    (hnext : ∀ a a', (∃ hosts, related hosts a a') →
      Twins base base' (next a) (next' a') fun hosts b b' =>
        related hosts a a' → related' hosts b b') :
    Twins base base' (step >>= next) (step' >>= next') related' := by
  intro pool pool' hconstants
  have hstep := h pool pool' hconstants
  change EndAlike _ _ _ _ _ (EStateM.bind step next pool) (EStateM.bind step' next' pool')
  unfold EStateM.bind
  generalize step pool = ended at hstep
  generalize step' pool' = ended' at hstep
  cases hstep with
  | error => exact .error
  | @ok a a' after after' hafter hkept hkept' hrelated =>
    have hrest := hnext a a' ⟨_, hrelated _ fun _ _ h => h⟩ after after' hafter
    dsimp only
    generalize next a after = last at hrest
    generalize next' a' after' = last' at hrest
    cases hrest with
    | error => exact .error
    | ok hend hlater hlater' hboth =>
      refine .ok hend (hkept.trans hlater) (hkept'.trans hlater') fun hosts hhosts => ?_
      refine hboth hosts hhosts (hrelated hosts fun id id' hsame => ?_)
      exact hhosts id id' (hsame.mono hlater hlater')

/-- What follows from how two things are related, whatever they are. -/
theorem imp {step step' : Emit α} {related related' : (Nat → Nat → Prop) → α → α → Prop}
    (h : Twins base base' step step' related)
    (himp : ∀ hosts a a', related hosts a a' → related' hosts a a') :
    Twins base base' step step' related' := by
  intro pool pool' hconstants
  have hstep := h pool pool' hconstants
  generalize step pool = ended at hstep
  generalize step' pool' = ended' at hstep
  cases hstep with
  | error => exact .error
  | ok hafter hkept hkept' hrelated =>
    exact .ok hafter hkept hkept' fun hosts hhosts => himp _ _ _ (hrelated hosts hhosts)

end Twins

/-- What it comes to to number a constant. -/
theorem constant_run (value : Value) (pool : Pool) : constant value pool =
    match pool.constants.findIdx? (sameConstant value) with
    | some index => .ok index pool
    | none =>
      if pool.constants.size < maxConstants then
        .ok pool.constants.size { pool with constants := pool.constants.push value }
      else .error .tooManyConstants pool := by
  unfold constant
  change (match pool.constants.findIdx? (sameConstant value) with
    | some index => _
    | none => _ : Emit Nat) pool = _
  cases pool.constants.findIdx? (sameConstant value) with
  | some index => rfl
  | none =>
    dsimp only
    split <;> rfl

/-- A constant gets the same number. -/
theorem constant_twins (value : Value) :
    Twins base base' (constant value) (constant value) fun _ index index' => index' = index := by
  intro pool pool' hconstants
  have hrun := constant_run value pool
  have hrun' := constant_run value pool'
  rw [hconstants] at hrun'
  cases hfind : pool.constants.findIdx? (sameConstant value) with
  | some index =>
    simp only [hfind] at hrun hrun'
    rw [hrun, hrun']
    exact .ok hconstants (.refl pool) (.refl pool') fun _ _ => rfl
  | none =>
    simp only [hfind] at hrun hrun'
    split at hrun
    · rename_i hroom
      rw [if_pos hroom] at hrun'
      have hkept := (constant_ok hrun).1.hostCalls
      have hkept' := (constant_ok hrun').1.hostCalls
      rw [hrun, hrun']
      exact .ok rfl hkept hkept' fun _ _ => rfl
    · rename_i hfull
      rw [if_neg hfull] at hrun'
      rw [hrun, hrun']
      exact .error

/-- To number a host function never fails, and leaves the constants alone. -/
theorem binding_run (base : Nat) (module function : String) (pool : Pool) :
    ∃ id after, binding base module function pool = .ok id after ∧
      after.constants = pool.constants := by
  unfold binding
  change ∃ id after, (match pool.hostCalls.findIdx? (· == (module, function)) with
    | some index => _
    | none => _ : Emit Nat) pool = .ok id after ∧ _
  cases pool.hostCalls.findIdx? (· == (module, function)) with
  | some index => exact ⟨_, _, rfl, rfl⟩
  | none => exact ⟨_, _, rfl, rfl⟩

/-- A host function gets numbers that stand for it. -/
theorem binding_twins (module function : String) :
    Twins base base' (binding base module function) (binding base' module function)
      fun hosts id id' => hosts id id' := by
  intro pool pool' hconstants
  obtain ⟨id, after, hrun, hafter⟩ := binding_run base module function pool
  obtain ⟨id', after', hrun', hafter'⟩ := binding_run base' module function pool'
  obtain ⟨hkept, index, hid, hcall⟩ := binding_ok hrun
  obtain ⟨hkept', index', hid', hcall'⟩ := binding_ok hrun'
  rw [hrun, hrun']
  refine .ok (hafter'.trans (hconstants.trans hafter.symm)) hkept.hostCalls hkept'.hostCalls fun hosts hhosts => ?_
  exact hhosts id id' ⟨index, index', (module, function), hid, hid', hcall, hcall'⟩

theorem argumentCount_twins {args args' : List Resolved.Expr} (h : args'.length = args.length) :
    Twins base base' (argumentCount args) (argumentCount args')
      fun _ count count' => count = args.length ∧ count' = args.length := by
  unfold argumentCount
  rw [h]
  split
  · exact .pure fun _ => ⟨rfl, rfl⟩
  · exact fun _ _ _ => .error

/-! ## Expressions -/

theorem CodeMatches.length {code code' : List Op}
    (h : ∃ hosts, CodeMatches r hosts code code') : code'.length = code.length :=
  h.elim fun _ h => h.length_eq.symm

theorem CodeMatches.append {hosts : Nat → Nat → Prop} {front front' rest rest' : List Op}
    (h : CodeMatches r hosts front front') (h' : CodeMatches r hosts rest rest') :
    CodeMatches r hosts (front ++ rest) (front' ++ rest') :=
  List.rel_append h h'

/-- Behind two arrays of instructions more has been put that is the same, but for the numbers. -/
def Follows (r : Renaming) (front front' : Array Op) (hosts : Nat → Nat → Prop)
    (code code' : Array Op) : Prop :=
  ∃ more more', code.toList = front.toList ++ more ∧ code'.toList = front'.toList ++ more' ∧
    CodeMatches r hosts more more'

theorem Follows.size {front front' code code' : Array Op}
    (h : ∃ hosts, Follows r front front' hosts code code') (hsize : front'.size = front.size) :
    code'.size = code.size := by
  obtain ⟨hosts, more, more', hcode, hcode', hmore⟩ := h
  have hwhole : code.size = front.size + more.length := by
    rw [← Array.length_toList, hcode, List.length_append, Array.length_toList]
  have hwhole' : code'.size = front'.size + more'.length := by
    rw [← Array.length_toList, hcode', List.length_append, Array.length_toList]
  rw [hwhole, hwhole', hsize, hmore.length_eq]

/-- All of it is the same if what was there before is. -/
theorem Follows.all {hosts : Nat → Nat → Prop} {front front' code code' : Array Op}
    (h : Follows r front front' hosts code code')
    (hfront : CodeMatches r hosts front.toList front'.toList) :
    CodeMatches r hosts code.toList code'.toList := by
  obtain ⟨more, more', hcode, hcode', hmore⟩ := h
  rw [hcode, hcode']
  exact CodeMatches.append hfront hmore

theorem Follows.cons {hosts : Nat → Nat → Prop} {front front' code code' : Array Op}
    {next next' : List Op} (h : Follows r (front ++ next) (front' ++ next') hosts code code')
    (hnext : CodeMatches r hosts next next') : Follows r front front' hosts code code' := by
  obtain ⟨more, more', hcode, hcode', hmore⟩ := h
  rw [Array.toList_appendList, List.append_assoc] at hcode hcode'
  exact ⟨next ++ more, next' ++ more', hcode, hcode', CodeMatches.append hnext hmore⟩

theorem length_renameAll (r : Renaming) (args : List Resolved.Expr) :
    (Resolved.Expr.renameAll r args).length = args.length := by
  rw [Resolved.Expr.renameAll_eq, List.length_map]

/-- The operators that are carried out by one instruction have the same one. -/
theorem binaryOp_matches (hosts : Nat → Nat → Prop) (op : BinaryOp) :
    (binaryOp op).Matches r hosts (binaryOp op) := by
  cases op <;> rfl

theorem unaryOp_matches (hosts : Nat → Nat → Prop) (op : UnaryOp) :
    (unaryOp op).Matches r hosts (unaryOp op) := by
  cases op <;> rfl

mutual

/-- The code of an expression is the same, but for the numbers. -/
theorem expr_twins (r : Renaming) (base base' : Nat) : ∀ (e : Resolved.Expr) (start : Nat),
    Twins base base' (expr base start e) (expr base' start (e.rename r)) (CodeMatches r)
  | .const .null, start | .const (.bool true), start | .const (.bool false), start
  | .loadLocal _, start | .loadGlobal _, start | .loadThis, start => by
    simp only [Resolved.Expr.rename, expr]
    exact .pure fun _ => .cons rfl .nil
  | .const (.int _), start | .const (.float _), start | .const (.str _), start
  | .const (.object _), start => by
    simp only [Resolved.Expr.rename, expr]
    refine (constant_twins _).bind fun index index' _ => .pure fun _ hindex => ?_
    exact hindex ▸ .cons rfl .nil
  | .getField object name, start => by
    simp only [Resolved.Expr.rename, expr]
    refine (expr_twins r base base' object start).bind fun code code' _ => ?_
    refine (constant_twins _).bind fun index index' _ => .pure fun _ hindex hcode => ?_
    exact CodeMatches.append hcode (hindex ▸ .cons rfl .nil)
  | .binary op left right, start => by
    rw [Resolved.Expr.rename]
    by_cases hand : op = .and
    · subst hand
      simp only [expr]
      refine (expr_twins r base base' left start).bind fun l l' hl => ?_
      rw [CodeMatches.length hl]
      refine (expr_twins r base base' right _).bind fun c c' hc => ?_
      rw [CodeMatches.length hc]
      refine .pure fun _ hright hleft => ?_
      exact CodeMatches.append (CodeMatches.append hleft (.cons rfl hright)) (.cons rfl (.cons rfl .nil))
    · by_cases hor : op = .or
      · subst hor
        simp only [expr]
        refine (expr_twins r base base' left start).bind fun l l' hl => ?_
        rw [CodeMatches.length hl]
        refine (expr_twins r base base' right _).bind fun c c' hc => ?_
        rw [CodeMatches.length hc]
        refine .pure fun _ hright hleft => CodeMatches.append hleft ?_
        exact .cons rfl (.cons rfl (.cons rfl hright))
      · rw [expr, expr]
        · refine (expr_twins r base base' left start).bind fun l l' hl => ?_
          rw [CodeMatches.length hl]
          refine (expr_twins r base base' right _).bind fun c c' _ => ?_
          refine .pure fun hosts hright hleft => ?_
          exact CodeMatches.append (CodeMatches.append hleft hright)
            (.cons (binaryOp_matches hosts op) .nil)
        all_goals assumption
  | .unary op operand, start => by
    simp only [Resolved.Expr.rename, expr]
    refine (expr_twins r base base' operand start).bind fun code code' _ => ?_
    exact .pure fun hosts hcode => CodeMatches.append hcode (.cons (unaryOp_matches hosts op) .nil)
  | .call function args, start => by
    simp only [Resolved.Expr.rename, expr]
    refine (exprs_twins r base base' args start rfl).bind fun code code' _ => ?_
    refine (argumentCount_twins (length_renameAll r args)).bind fun count count' _ => ?_
    refine .pure fun _ ⟨hcount, hcount'⟩ hcode => CodeMatches.append (hcode.all .nil) ?_
    exact .cons (by rw [hcount, hcount']; rfl) .nil
  | .callMethod object method args, start => by
    simp only [Resolved.Expr.rename, expr]
    refine (expr_twins r base base' object start).bind fun o o' ho => ?_
    rw [CodeMatches.length ho]
    refine (exprs_twins r base base' args _ rfl).bind fun code code' _ => ?_
    refine (constant_twins _).bind fun index index' _ => ?_
    refine (argumentCount_twins (length_renameAll r args)).bind fun count count' _ => ?_
    refine .pure fun _ ⟨hcount, hcount'⟩ hindex hcode howner => ?_
    refine CodeMatches.append (CodeMatches.append howner (hcode.all .nil)) ?_
    exact .cons (by rw [hindex, hcount, hcount']; rfl) .nil
  | .callHost module function args, start => by
    simp only [Resolved.Expr.rename, expr]
    refine (exprs_twins r base base' args start rfl).bind fun code code' _ => ?_
    refine (binding_twins module function).bind fun id id' _ => ?_
    refine (argumentCount_twins (length_renameAll r args)).bind fun count count' _ => ?_
    refine .pure fun _ ⟨hcount, hcount'⟩ hid hcode => CodeMatches.append (hcode.all .nil) ?_
    exact .cons ⟨id', hid, by rw [hcount, hcount']⟩ .nil
  | .create classId args, start => by
    simp only [Resolved.Expr.rename, expr]
    refine (exprs_twins r base base' args start rfl).bind fun code code' _ => ?_
    refine (argumentCount_twins (length_renameAll r args)).bind fun count count' _ => ?_
    refine .pure fun _ ⟨hcount, hcount'⟩ hcode => CodeMatches.append (hcode.all .nil) ?_
    exact .cons (by rw [hcount, hcount']; rfl) .nil

/-- The code of expressions is the same, but for the numbers, behind code that is. -/
theorem exprs_twins (r : Renaming) (base base' : Nat) : ∀ (args : List Resolved.Expr)
    (start : Nat) {front front' : Array Op} (_ : front'.size = front.size),
    Twins base base' (exprs base start front args)
      (exprs base' start front' (Resolved.Expr.renameAll r args)) (Follows r front front')
  | [], start, front, front', _ => by
    simp only [Resolved.Expr.renameAll, exprs]
    exact .pure fun _ => ⟨[], [], by simp, by simp, .nil⟩
  | e :: rest, start, front, front', hsize => by
    simp only [Resolved.Expr.renameAll, exprs]
    rw [hsize]
    refine (expr_twins r base base' e _).bind fun code code' hcode => ?_
    have hsizes : (front' ++ code').size = (front ++ code).size := by
      rw [size_appendList, size_appendList, hsize, CodeMatches.length hcode]
    exact (exprs_twins r base base' rest start hsizes).imp fun _ _ _ hrest hfirst => hrest.cons hfirst

end

/-! ## Statements -/

mutual

/-- The code of a statement is the same, but for the numbers. -/
theorem stmt_twins (r : Renaming) (base base' : Nat) : ∀ (s : Resolved.Stmt) (start : Nat),
    Twins base base' (stmt base start s) (stmt base' start (s.rename r)) (CodeMatches r)
  | .storeLocal slot value, start | .storeGlobal slot value, start => by
    simp only [Resolved.Stmt.rename, stmt]
    refine (expr_twins r base base' value start).bind fun code code' _ => ?_
    exact .pure fun _ hcode => CodeMatches.append hcode (.cons rfl .nil)
  | .setField object name value, start => by
    simp only [Resolved.Stmt.rename, stmt]
    refine (expr_twins r base base' object start).bind fun o o' ho => ?_
    rw [CodeMatches.length ho]
    refine (expr_twins r base base' value _).bind fun v v' _ => ?_
    refine (constant_twins _).bind fun index index' _ => ?_
    refine .pure fun _ hindex hvalue howner => ?_
    exact CodeMatches.append (CodeMatches.append howner hvalue) (hindex ▸ .cons rfl .nil)
  | .branch condition body [], start => by
    simp only [Resolved.Stmt.rename, Resolved.Stmt.renameAll, stmt]
    refine (expr_twins r base base' condition start).bind fun c c' hc => ?_
    rw [CodeMatches.length hc]
    refine (stmts_twins r base base' body _ rfl).bind fun b b' hb => ?_
    rw [Follows.size hb rfl]
    exact .pure fun _ hbody htest => CodeMatches.append htest (.cons rfl (hbody.all .nil))
  | .branch condition body (first :: rest), start => by
    simp only [Resolved.Stmt.rename, Resolved.Stmt.renameAll, stmt]
    refine (expr_twins r base base' condition start).bind fun c c' hc => ?_
    rw [CodeMatches.length hc]
    refine (stmts_twins r base base' body _ rfl).bind fun b b' hb => ?_
    rw [Follows.size hb rfl]
    refine (stmt_twins r base base' first _).bind fun f f' hf => ?_
    have hsizes : f'.toArray.size = f.toArray.size := by
      rw [List.size_toArray, List.size_toArray, CodeMatches.length hf]
    refine (stmts_twins r base base' rest _ hsizes).bind fun a a' ha => ?_
    rw [Follows.size ha hsizes]
    refine .pure fun _ halternative hfirst hbody htest => ?_
    exact CodeMatches.append (CodeMatches.append htest (.cons rfl (hbody.all .nil)))
      (.cons rfl (halternative.all hfirst))
  | .loop condition body, start => by
    simp only [Resolved.Stmt.rename, stmt]
    refine (expr_twins r base base' condition start).bind fun c c' hc => ?_
    rw [CodeMatches.length hc]
    refine (stmts_twins r base base' body _ rfl).bind fun b b' hb => ?_
    rw [Follows.size hb rfl]
    refine .pure fun _ hbody htest => ?_
    exact CodeMatches.append (CodeMatches.append htest (.cons rfl (hbody.all .nil))) (.cons rfl .nil)
  | .ret none, start => by
    simp only [Resolved.Stmt.rename, Option.map_none, stmt]
    exact .pure fun _ => .cons rfl (.cons rfl .nil)
  | .ret (some value), start | .expr value, start => by
    simp only [Resolved.Stmt.rename, Option.map_some, stmt]
    refine (expr_twins r base base' value start).bind fun code code' _ => ?_
    exact .pure fun _ hcode => CodeMatches.append hcode (.cons rfl .nil)

/-- The code of statements is the same, but for the numbers, behind code that is. -/
theorem stmts_twins (r : Renaming) (base base' : Nat) : ∀ (body : List Resolved.Stmt)
    (start : Nat) {front front' : Array Op} (_ : front'.size = front.size),
    Twins base base' (stmts base start front body)
      (stmts base' start front' (Resolved.Stmt.renameAll r body)) (Follows r front front')
  | [], start, front, front', _ => by
    simp only [Resolved.Stmt.renameAll, stmts]
    exact .pure fun _ => ⟨[], [], by simp, by simp, .nil⟩
  | s :: rest, start, front, front', hsize => by
    simp only [Resolved.Stmt.renameAll, stmts]
    rw [hsize]
    refine (stmt_twins r base base' s _).bind fun code code' hcode => ?_
    have hsizes : (front' ++ code').size = (front ++ code).size := by
      rw [size_appendList, size_appendList, hsize, CodeMatches.length hcode]
    exact (stmts_twins r base base' rest start hsizes).imp fun _ _ _ hrest hfirst => hrest.cons hfirst

end

/-! ## Chunks -/

/-- The code of a function body is the same, but for the numbers. -/
theorem body_twins (r : Renaming) (base base' : Nat) (statements : List Resolved.Stmt) :
    Twins base base' (body base statements) (body base' (Resolved.Stmt.renameAll r statements))
      fun hosts code code' => CodeMatches r hosts code.toList code'.toList := by
  unfold body
  refine (stmts_twins r base base' statements 0 rfl).bind fun code code' _ => ?_
  refine .pure fun _ hcode => ?_
  rw [Array.toList_append, Array.toList_append]
  exact (hcode.all .nil).append (.cons rfl (.cons rfl .nil))

theorem resultOf_renameAll (r : Renaming) (returnsValue : Bool) (statements : List Resolved.Stmt) :
    Resolved.resultOf returnsValue (Resolved.Stmt.renameAll r statements) =
      (Resolved.resultOf returnsValue statements).map (Resolved.Expr.rename r) := by
  unfold Resolved.resultOf
  rw [Resolved.Stmt.renameAll_eq, List.getLast?_map]
  cases returnsValue with
  | false => rfl
  | true => cases statements.getLast? with
    | none => rfl
    | some s => cases s <;> rfl

/-- The code of a top level is the same, but for the numbers. -/
theorem topLevel_twins (r : Renaming) (base base' : Nat) (returnsValue : Bool)
    (statements : List Resolved.Stmt) :
    Twins base base' (topLevel base returnsValue statements)
      (topLevel base' returnsValue (Resolved.Stmt.renameAll r statements))
      fun hosts code code' => CodeMatches r hosts code.toList code'.toList := by
  rw [topLevel_eq, topLevel_eq, resultOf_renameAll]
  cases Resolved.resultOf returnsValue statements with
  | none => exact body_twins r base base' statements
  | some value =>
    dsimp only [Option.map_some]
    rw [Resolved.Stmt.renameAll_eq, ← List.map_dropLast, ← Resolved.Stmt.renameAll_eq]
    refine (stmts_twins r base base' _ 0 rfl).bind fun code code' hcode => ?_
    rw [Follows.size hcode rfl]
    refine (expr_twins r base base' value _).bind fun last last' _ => ?_
    refine .pure fun _ hlast hcode => ?_
    rw [Array.toList_append, Array.toList_append, Array.toList_appendList,
      Array.toList_appendList]
    exact ((hcode.all .nil).append hlast).append (.cons rfl (.cons rfl (.cons rfl .nil)))

end Code

/-- A chunk is another one under new numbers. -/
structure Chunk.Matches (r : Renaming) (hosts : Nat → Nat → Prop) (chunk other : Chunk) : Prop where
  ops : Code.CodeMatches r hosts chunk.ops.toList other.ops.toList
  constants : other.constants = chunk.constants
  localCount : other.localCount = chunk.localCount

theorem Chunk.Matches.mono {r : Renaming} {hosts wider : Nat → Nat → Prop}
    (hwider : ∀ id id', hosts id id' → wider id id') {chunk other : Chunk}
    (h : chunk.Matches r hosts other) : chunk.Matches r wider other :=
  { h with ops := h.ops.imp fun _ _ hop => hop.mono hwider }

/-- Two lists that follow each other in step have related members at every place, or none. -/
theorem getElem?_forall₂ {α β : Type} {related : α → β → Prop} {as : List α} {bs : List β}
    (h : List.Forall₂ related as bs) (place : Nat) : Option.Rel related as[place]? bs[place]? := by
  induction h generalizing place with
  | nil => exact .none
  | cons hfirst _ ih =>
    cases place with
    | zero => exact .some hfirst
    | succ place => exact ih place

/-- The instructions at a place are the same, but for the numbers. -/
theorem Chunk.Matches.opAt {r : Renaming} {hosts : Nat → Nat → Prop} {chunk other : Chunk}
    (h : chunk.Matches r hosts other) (place : Nat) :
    Option.Rel (Op.Matches r hosts) chunk.ops[place]? other.ops[place]? := by
  have hop := getElem?_forall₂ h.ops place
  rwa [Array.getElem?_toList, Array.getElem?_toList] at hop

namespace Code

/-- What it comes to to make a chunk. -/
theorem chunk_run (localCount : Nat) (code : Emit (Array Op)) (pool : Pool) :
    chunk localCount code pool =
      match code { pool with constants := #[] } with
      | .ok ops after => .ok ⟨ops, after.constants, localCount⟩ after
      | .error e after => .error e after := by
  change EStateM.bind code _ { pool with constants := #[] } = _
  unfold EStateM.bind
  cases code { pool with constants := #[] } <;> rfl

/-- A chunk has constants of its own, so it is the same whatever was made before it. -/
theorem chunk_twins {base base' : Nat} {r : Renaming} {code code' : Emit (Array Op)}
    (h : Twins base base' code code' fun hosts code code' =>
      CodeMatches r hosts code.toList code'.toList) (localCount : Nat) (pool pool' : Pool) :
    EndAlike base base' (Chunk.Matches r) pool pool' (chunk localCount code pool)
      (chunk localCount code' pool') := by
  have hends := h { pool with constants := #[] } { pool' with constants := #[] } rfl
  rw [chunk_run, chunk_run]
  generalize code { pool with constants := #[] } = ended at hends
  generalize code' { pool' with constants := #[] } = ended' at hends
  cases hends with
  | error => exact .error
  | ok hconstants hkept hkept' hsame =>
    exact .ok hconstants hkept hkept' fun hosts hhosts => ⟨hsame hosts hhosts, hconstants, rfl⟩

end Code

end ScriptHost
