import ScriptHost.Proofs.Code.Joined
import ScriptHost.Proofs.Machine.Renaming
import ScriptHost.Proofs.Scope.Bodies
import ScriptHost.Proofs.Trees.History
/-!
# What there must be room for

A body can be made into code if and only if no call in it passes too many arguments and there are
not too many different constants in it. So nothing depends on the order of its statements, nor on
what else there is in the unit: `Code.fits_perm`, `Code.compile_isSome_iff`.
-/

set_option autoImplicit false

namespace ScriptHost

namespace Resolved

mutual

/-- The constants that the code of an expression numbers, in order. -/
def Expr.constants : Expr → List Value
  | .const .null | .const (.bool _) => []
  | .const value => [value]
  | .loadLocal _ | .loadGlobal _ | .loadThis => []
  | .getField object name => object.constants ++ [.str name]
  | .binary _ left right => left.constants ++ right.constants
  | .unary _ operand => operand.constants
  | .call _ args | .callHost _ _ args | .create _ args => Expr.constantsAll args
  | .callMethod object method args => object.constants ++ (Expr.constantsAll args ++ [.str method])

/-- The constants of several expressions. -/
def Expr.constantsAll : List Expr → List Value
  | [] => []
  | e :: rest => e.constants ++ Expr.constantsAll rest

end

mutual

/-- No call in an expression passes too many arguments. -/
def Expr.Callable : Expr → Prop
  | .const _ | .loadLocal _ | .loadGlobal _ | .loadThis => True
  | .getField object _ => object.Callable
  | .binary _ left right => left.Callable ∧ right.Callable
  | .unary _ operand => operand.Callable
  | .call _ args | .callHost _ _ args | .create _ args =>
    Expr.CallableAll args ∧ args.length ≤ Code.maxArguments
  | .callMethod object _ args =>
    object.Callable ∧ Expr.CallableAll args ∧ args.length ≤ Code.maxArguments

/-- No call in several expressions passes too many arguments. -/
def Expr.CallableAll : List Expr → Prop
  | [] => True
  | e :: rest => e.Callable ∧ Expr.CallableAll rest

end

mutual

/-- The constants that the code of a statement numbers, in order. -/
def Stmt.constants : Stmt → List Value
  | .storeLocal _ value | .storeGlobal _ value | .ret (some value) | .expr value => value.constants
  | .setField object name value => object.constants ++ (value.constants ++ [.str name])
  | .branch condition body alternative =>
    condition.constants ++ (Stmt.constantsAll body ++ Stmt.constantsAll alternative)
  | .loop condition body => condition.constants ++ Stmt.constantsAll body
  | .ret none => []

/-- The constants of several statements. -/
def Stmt.constantsAll : List Stmt → List Value
  | [] => []
  | s :: rest => s.constants ++ Stmt.constantsAll rest

end

mutual

/-- No call in a statement passes too many arguments. -/
def Stmt.Callable : Stmt → Prop
  | .storeLocal _ value | .storeGlobal _ value | .ret (some value) | .expr value => value.Callable
  | .setField object _ value => object.Callable ∧ value.Callable
  | .branch condition body alternative =>
    condition.Callable ∧ Stmt.CallableAll body ∧ Stmt.CallableAll alternative
  | .loop condition body => condition.Callable ∧ Stmt.CallableAll body
  | .ret none => True

/-- No call in several statements passes too many arguments. -/
def Stmt.CallableAll : List Stmt → Prop
  | [] => True
  | s :: rest => s.Callable ∧ Stmt.CallableAll rest

end

theorem Stmt.constantsAll_eq (body : List Stmt) :
    Stmt.constantsAll body = body.flatMap Stmt.constants := by
  induction body with
  | nil => rfl
  | cons s rest ih => rw [Stmt.constantsAll, ih, List.flatMap_cons]

theorem Stmt.callableAll_iff {body : List Stmt} :
    Stmt.CallableAll body ↔ ∀ s ∈ body, s.Callable := by
  induction body with
  | nil => simp [Stmt.CallableAll]
  | cons s rest ih => rw [Stmt.CallableAll, ih, List.forall_mem_cons]

end Resolved

namespace Code

/-! ## Lists of constants -/

/-- A list of constants with one more, if it is new. -/
def listConstant (constants : Array Value) (value : Value) : Array Value :=
  if constants.any (sameConstant value) then constants else constants.push value

/-- A list of constants with more of them. -/
def listConstants (constants : Array Value) (values : List Value) : Array Value :=
  values.foldl listConstant constants

theorem listConstants_append (constants : Array Value) (front rest : List Value) :
    listConstants constants (front ++ rest) = listConstants (listConstants constants front) rest :=
  List.foldl_append

/-- Nothing is listed but what is to be listed. -/
theorem mem_listConstants {constants : Array Value} {values : List Value} {value : Value}
    (h : value ∈ listConstants constants values) : value ∈ constants ∨ value ∈ values := by
  induction values generalizing constants with
  | nil => exact .inl h
  | cons first rest ih =>
    obtain hone | hrest := ih h
    · unfold listConstant at hone
      split at hone
      · exact .inl hone
      · obtain hold | rfl := Array.mem_push.mp hone
        · exact .inl hold
        · exact .inr List.mem_cons_self
    · exact .inr (List.mem_cons_of_mem _ hrest)

theorem size_le_listConstants (constants : Array Value) (values : List Value) :
    constants.size ≤ (listConstants constants values).size := by
  induction values generalizing constants with
  | nil => exact Nat.le_refl _
  | cons value rest ih =>
    have hone : constants.size ≤ (listConstant constants value).size := by
      unfold listConstant
      split
      · exact Nat.le_refl _
      · rw [Array.size_push]
        exact Nat.le_succ _
    exact Nat.le_trans hone (ih _)

/-- Two lists have as many constants, and the same is new to both. -/
structure SameRoom (constants other : Array Value) : Prop where
  size : other.size = constants.size
  known : ∀ value, other.any (sameConstant value) = constants.any (sameConstant value)

theorem any_push (constants : Array Value) (value more : Value) :
    (constants.push more).any (sameConstant value) =
      (constants.any (sameConstant value) || sameConstant value more) := by
  simp

theorem SameRoom.add {constants other : Array Value} (h : SameRoom constants other)
    (value : Value) : SameRoom (listConstant constants value) (listConstant other value) := by
  unfold listConstant
  rw [h.known]
  split
  · exact h
  · refine ⟨by rw [Array.size_push, Array.size_push, h.size], fun more => ?_⟩
    rw [any_push, any_push, h.known]

theorem SameRoom.refl (constants : Array Value) : SameRoom constants constants :=
  ⟨rfl, fun _ => rfl⟩

theorem SameRoom.trans {constants other last : Array Value} (h : SameRoom constants other)
    (h' : SameRoom other last) : SameRoom constants last :=
  ⟨h'.size.trans h.size, fun value => (h'.known value).trans (h.known value)⟩

theorem any_listConstant {value more : Value} (h : value ≠ more) (constants : Array Value) :
    (listConstant constants more).any (sameConstant value) =
      constants.any (sameConstant value) := by
  have hnew : sameConstant value more = false :=
    Bool.eq_false_iff.mpr fun hsame => h (eq_of_sameConstant hsame)
  unfold listConstant
  split
  · rfl
  · rw [any_push, hnew, Bool.or_false]

/-- Which of two constants comes first makes no difference to how many there are. -/
theorem sameRoom_swap (constants : Array Value) (a b : Value) :
    SameRoom (listConstant (listConstant constants a) b)
      (listConstant (listConstant constants b) a) := by
  by_cases hsame : a = b
  · subst hsame
    exact .refl _
  · have hb := any_listConstant (Ne.symm hsame) constants
    have ha := any_listConstant hsame constants
    rw [listConstant, hb, listConstant.eq_def (listConstant constants b), ha]
    unfold listConstant
    cases constants.any (sameConstant a) <;> cases constants.any (sameConstant b)
    case false.false =>
      refine ⟨by simp, fun value => ?_⟩
      simp only [Bool.false_eq_true, if_false, any_push]
      exact Bool.or_right_comm ..
    all_goals exact .refl _

theorem sameRoom_perm {values others : List Value} (h : values.Perm others) :
    ∀ {constants other : Array Value}, SameRoom constants other →
      SameRoom (listConstants constants values) (listConstants other others) := by
  induction h with
  | nil => exact id
  | cons value _ ih => exact fun hsame => ih (hsame.add value)
  | swap a b rest =>
    intro constants other hsame
    have hswapped := (sameRoom_swap constants b a).trans ((hsame.add a).add b)
    have hrest (values : List Value) : ∀ {constants other : Array Value},
        SameRoom constants other →
          SameRoom (listConstants constants values) (listConstants other values) := by
      induction values with
      | nil => exact id
      | cons value rest ih => exact fun hsame => ih (hsame.add value)
    exact hrest rest hswapped
  | trans _ _ ih ih' => exact fun hsame => (ih (.refl _)).trans (ih' hsame)

/-! ## What a step needs -/

variable {α β : Type} {values more : List Value} {callable callable' : Prop}

/-- A step numbers some constants, and succeeds if there is room for them, as long as its calls do
not pass too many arguments. -/
structure Needs (values : List Value) (callable : Prop) (step : Emit α) : Prop where
  ok : ∀ {pool after : Pool} {a : α}, pool.constants.size ≤ maxConstants →
    step pool = .ok a after → callable ∧ after.constants = listConstants pool.constants values ∧
      after.constants.size ≤ maxConstants
  error : ∀ {pool after : Pool} {e : CodeError}, pool.constants.size ≤ maxConstants →
    step pool = .error e after → callable →
      maxConstants < (listConstants pool.constants values).size

/-- A constant is numbered already, or gets a number if there is one left. -/
theorem constant_cases (value : Value) (pool : Pool) :
    (pool.constants.any (sameConstant value) = true ∧
        ∃ index, constant value pool = .ok index pool) ∨
      (pool.constants.any (sameConstant value) = false ∧ pool.constants.size < maxConstants ∧
        constant value pool =
          .ok pool.constants.size { pool with constants := pool.constants.push value }) ∨
        (pool.constants.any (sameConstant value) = false ∧ maxConstants ≤ pool.constants.size ∧
          constant value pool = .error .tooManyConstants pool) := by
  rw [constant_run]
  cases hfind : pool.constants.findIdx? (sameConstant value) with
  | some index =>
    obtain ⟨hinside, hsame, -⟩ := Array.findIdx?_eq_some_iff_getElem.mp hfind
    exact .inl ⟨Array.any_eq_true.mpr ⟨index, hinside, hsame⟩, index, rfl⟩
  | none =>
    have hnew : pool.constants.any (sameConstant value) = false := by
      rw [Array.any_eq_false']
      intro v hv
      rw [Array.findIdx?_eq_none_iff.mp hfind v hv]
      exact Bool.false_ne_true
    by_cases hroom : pool.constants.size < maxConstants
    · exact .inr (.inl ⟨hnew, hroom, if_pos hroom⟩)
    · exact .inr (.inr ⟨hnew, Nat.le_of_not_lt hroom, if_neg hroom⟩)

namespace Needs

theorem pure (a : α) : Needs [] True (Pure.pure a : Emit α) where
  ok := fun hroom hrun => by
    cases hrun
    exact ⟨trivial, rfl, hroom⟩
  error := fun _ hrun => by cases hrun

theorem bind {step : Emit α} {next : α → Emit β} (h : Needs values callable step)
    (hnext : ∀ a, Needs more callable' (next a)) :
    Needs (values ++ more) (callable ∧ callable') (step >>= next) where
  ok := fun {pool after b} hroom hrun => by
    obtain ⟨a, middle, hstep, hrest⟩ := bind_eq_ok.mp hrun
    obtain ⟨hcallable, hmiddle, hroom'⟩ := h.ok hroom hstep
    obtain ⟨hcallable', hafter, hroom''⟩ := (hnext a).ok hroom' hrest
    refine ⟨⟨hcallable, hcallable'⟩, ?_, hroom''⟩
    rw [listConstants_append, ← hmiddle, hafter]
  error := fun {pool after e} hroom hrun hcallable => by
    rw [listConstants_append]
    obtain hstep | ⟨a, middle, hstep, hrest⟩ := bind_eq_error.mp hrun
    · have hfull := h.error hroom hstep hcallable.1
      exact Nat.lt_of_lt_of_le hfull (size_le_listConstants _ _)
    · obtain ⟨-, hmiddle, hroom'⟩ := h.ok hroom hstep
      rw [← hmiddle]
      exact (hnext a).error hroom' hrest hcallable.2

/-- What is needed may be said in another way. -/
theorem of_eq {step : Emit α} (h : Needs values callable step) (hvalues : more = values)
    (hcallable : callable' ↔ callable) : Needs more callable' step := by
  rw [hvalues, propext hcallable]
  exact h

theorem constant (value : Value) : Needs [value] True (Code.constant value) where
  ok := fun {pool after index} hroom hrun => by
    change _ ∧ after.constants = listConstant pool.constants value ∧ _
    unfold listConstant
    obtain ⟨hknown, _, hfound⟩ | ⟨hnew, hfew, hpushed⟩ | ⟨-, -, hfull⟩ := constant_cases value pool
    · rw [hfound] at hrun
      cases hrun
      exact ⟨trivial, by rw [if_pos hknown], hroom⟩
    · rw [hpushed] at hrun
      cases hrun
      exact ⟨trivial, by rw [hnew]; rfl, by rw [Array.size_push]; omega⟩
    · rw [hfull] at hrun
      cases hrun
  error := fun {pool after e} _ hrun _ => by
    change maxConstants < (listConstant pool.constants value).size
    unfold listConstant
    obtain ⟨-, _, hfound⟩ | ⟨-, -, hpushed⟩ | ⟨hnew, hmany, -⟩ := constant_cases value pool
    · rw [hfound] at hrun
      cases hrun
    · rw [hpushed] at hrun
      cases hrun
    · rw [hnew, if_neg Bool.false_ne_true, Array.size_push]
      omega

theorem binding (base : Nat) (module function : String) :
    Needs [] True (Code.binding base module function) where
  ok := fun {pool after id} hroom hrun => by
    obtain ⟨_, later, hfound, hconstants⟩ := binding_run base module function pool
    rw [hfound] at hrun
    cases hrun
    exact ⟨trivial, hconstants, hconstants ▸ hroom⟩
  error := fun {pool after e} _ hrun => by
    obtain ⟨_, later, hfound, -⟩ := binding_run base module function pool
    rw [hfound] at hrun
    cases hrun

theorem argumentCount (args : List Resolved.Expr) :
    Needs [] (args.length ≤ maxArguments) (Code.argumentCount args) := by
  unfold Code.argumentCount
  by_cases hfew : args.length ≤ maxArguments
  · rw [if_pos hfew]
    refine ⟨fun hroom hrun => ?_, fun _ hrun => ?_⟩
    · cases hrun
      exact ⟨hfew, rfl, hroom⟩
    · cases hrun
  · rw [if_neg hfew]
    refine ⟨fun _ hrun => ?_, fun _ _ h => absurd h hfew⟩
    cases hrun

end Needs

/-! ## Expressions and statements -/

section Trees

open Resolved (Expr.constants Expr.constantsAll Expr.Callable Expr.CallableAll Stmt.constants
  Stmt.constantsAll Stmt.Callable Stmt.CallableAll)

mutual

theorem expr_needs (base : Nat) : ∀ (e : Resolved.Expr) (start : Nat),
    Needs e.constants e.Callable (expr base start e)
  | .const .null, start | .const (.bool true), start | .const (.bool false), start
  | .loadLocal _, start | .loadGlobal _, start | .loadThis, start => by
    rw [expr]
    exact .pure _
  | .const (.int _), start | .const (.float _), start | .const (.str _), start
  | .const (.object _), start => by
    simp only [expr]
    refine .of_eq ((Needs.constant _).bind fun _ => .pure _) ?_ ?_
    · simp [Expr.constants]
    · simp [Expr.Callable]
  | .getField object name, start => by
    rw [expr]
    refine .of_eq ((expr_needs base object start).bind fun _ =>
      (Needs.constant _).bind fun _ => .pure _) ?_ ?_
    · simp [Expr.constants]
    · simp [Expr.Callable]
  | .binary op left right, start => by
    have hvalues : (Resolved.Expr.binary op left right).constants =
        left.constants ++ (right.constants ++ []) := by simp [Expr.constants]
    have hcallable : (Resolved.Expr.binary op left right).Callable ↔
        left.Callable ∧ right.Callable ∧ True := by simp [Expr.Callable]
    by_cases hand : op = .and
    · subst hand
      rw [expr]
      exact .of_eq ((expr_needs base left start).bind fun _ =>
        (expr_needs base right _).bind fun _ => .pure _) hvalues hcallable
    · by_cases hor : op = .or
      · subst hor
        rw [expr]
        exact .of_eq ((expr_needs base left start).bind fun _ =>
          (expr_needs base right _).bind fun _ => .pure _) hvalues hcallable
      · rw [expr]
        · exact .of_eq ((expr_needs base left start).bind fun _ =>
            (expr_needs base right _).bind fun _ => .pure _) hvalues hcallable
        all_goals assumption
  | .unary op operand, start => by
    rw [expr]
    refine .of_eq ((expr_needs base operand start).bind fun _ => .pure _) ?_ ?_
    · simp [Expr.constants]
    · simp [Expr.Callable]
  | .call function args, start => by
    rw [expr]
    refine .of_eq ((exprs_needs base args start #[]).bind fun _ =>
      (Needs.argumentCount args).bind fun _ => .pure _) ?_ ?_
    · simp [Expr.constants]
    · simp [Expr.Callable]
  | .callMethod object method args, start => by
    rw [expr]
    refine .of_eq ((expr_needs base object start).bind fun _ =>
      (exprs_needs base args _ #[]).bind fun _ => (Needs.constant _).bind fun _ =>
        (Needs.argumentCount args).bind fun _ => .pure _) ?_ ?_
    · simp [Expr.constants]
    · simp [Expr.Callable]
  | .callHost module function args, start => by
    rw [expr]
    refine .of_eq ((exprs_needs base args start #[]).bind fun _ =>
      (Needs.binding base module function).bind fun _ =>
        (Needs.argumentCount args).bind fun _ => .pure _) ?_ ?_
    · simp [Expr.constants]
    · simp [Expr.Callable]
  | .create classId args, start => by
    rw [expr]
    refine .of_eq ((exprs_needs base args start #[]).bind fun _ =>
      (Needs.argumentCount args).bind fun _ => .pure _) ?_ ?_
    · simp [Expr.constants]
    · simp [Expr.Callable]

theorem exprs_needs (base : Nat) : ∀ (args : List Resolved.Expr) (start : Nat) (front : Array Op),
    Needs (Expr.constantsAll args) (Expr.CallableAll args) (exprs base start front args)
  | [], start, front => by
    rw [exprs]
    exact .pure _
  | e :: rest, start, front => by
    rw [exprs]
    exact (expr_needs base e _).bind fun _ => exprs_needs base rest _ _

end

mutual

theorem stmt_needs (base : Nat) : ∀ (s : Resolved.Stmt) (start : Nat),
    Needs s.constants s.Callable (stmt base start s)
  | .storeLocal _ value, start | .storeGlobal _ value, start | .ret (some value), start
  | .expr value, start => by
    rw [stmt]
    refine .of_eq ((expr_needs base value start).bind fun _ => .pure _) ?_ ?_
    · simp [Stmt.constants]
    · simp [Stmt.Callable]
  | .setField object name value, start => by
    rw [stmt]
    refine .of_eq ((expr_needs base object start).bind fun _ =>
      (expr_needs base value _).bind fun _ => (Needs.constant _).bind fun _ => .pure _) ?_ ?_
    · simp [Stmt.constants]
    · simp [Stmt.Callable]
  | .branch condition body [], start => by
    rw [stmt]
    refine .of_eq ((expr_needs base condition start).bind fun _ =>
      (stmts_needs base body _ #[]).bind fun _ => .pure _) ?_ ?_
    · simp [Stmt.constants, Stmt.constantsAll]
    · simp [Stmt.Callable, Stmt.CallableAll]
  | .branch condition body (first :: rest), start => by
    rw [stmt]
    refine .of_eq ((expr_needs base condition start).bind fun _ =>
      (stmts_needs base body _ #[]).bind fun _ => (stmt_needs base first _).bind fun _ =>
        (stmts_needs base rest _ _).bind fun _ => .pure _) ?_ ?_
    · simp [Stmt.constants, Stmt.constantsAll]
    · simp [Stmt.Callable, Stmt.CallableAll]
  | .loop condition body, start => by
    rw [stmt]
    refine .of_eq ((expr_needs base condition start).bind fun _ =>
      (stmts_needs base body _ #[]).bind fun _ => .pure _) ?_ ?_
    · simp [Stmt.constants]
    · simp [Stmt.Callable]
  | .ret none, start => by
    rw [stmt]
    exact .pure _

theorem stmts_needs (base : Nat) : ∀ (body : List Resolved.Stmt) (start : Nat) (front : Array Op),
    Needs (Stmt.constantsAll body) (Stmt.CallableAll body) (stmts base start front body)
  | [], start, front => by
    rw [stmts]
    exact .pure _
  | s :: rest, start, front => by
    rw [stmts]
    exact (stmt_needs base s _).bind fun _ => stmts_needs base rest _ _

end

theorem body_needs (base : Nat) (body : List Resolved.Stmt) :
    Needs (Stmt.constantsAll body) (Stmt.CallableAll body) (Code.body base body) := by
  refine .of_eq ((stmts_needs base body 0 #[]).bind fun _ => .pure _) ?_ ?_
  · rw [List.append_nil]
  · rw [and_true]

/-- To return the value of the last expression takes no more constants than to forget it. -/
theorem topLevel_needs (base : Nat) (returnsValue : Bool) (body : List Resolved.Stmt) :
    Needs (Stmt.constantsAll body) (Stmt.CallableAll body)
      (topLevel base returnsValue body) := by
  unfold topLevel
  split
  · rename_i value hlast
    have hbody : body = body.dropLast ++ [.expr value] := by
      have hne : body ≠ [] := by
        rintro rfl
        cases hlast
      rw [List.getLast?_eq_some_getLast hne, Option.some.injEq] at hlast
      rw [← hlast, List.dropLast_append_getLast]
    refine .of_eq ((stmts_needs base body.dropLast 0 #[]).bind fun code =>
      (expr_needs base value code.size).bind fun _ => .pure _) ?_ ?_
    · rw [hbody, Resolved.Stmt.constantsAll_eq, Resolved.Stmt.constantsAll_eq]
      simp [Stmt.constants]
    · rw [hbody, Resolved.Stmt.callableAll_iff, Resolved.Stmt.callableAll_iff]
      simp [Stmt.Callable, or_imp, forall_and]
  · exact body_needs base body

end Trees

/-! ## Units -/

/-- There is room for the constants and the arguments in a body. -/
def Fits (body : List Resolved.Stmt) : Prop :=
  Resolved.Stmt.CallableAll body ∧
    (listConstants #[] (Resolved.Stmt.constantsAll body)).size ≤ maxConstants

theorem fits_nil : Fits [] :=
  ⟨trivial, Nat.zero_le _⟩

/-- The order of statements is nothing to whether there is room for them. -/
theorem fits_perm {body other : List Resolved.Stmt} (h : body.Perm other) :
    Fits body ↔ Fits other := by
  have hconstants := sameRoom_perm (h.flatMap_right Resolved.Stmt.constants) (.refl #[])
  unfold Fits
  rw [Resolved.Stmt.callableAll_iff, Resolved.Stmt.callableAll_iff,
    Resolved.Stmt.constantsAll_eq, Resolved.Stmt.constantsAll_eq, hconstants.size]
  simp only [h.mem_iff]

/-- A chunk is made if and only if there is room. -/
theorem chunk_isOk {body : List Resolved.Stmt} {code : Emit (Array Op)}
    (h : Needs (Resolved.Stmt.constantsAll body) (Resolved.Stmt.CallableAll body) code)
    (localCount : Nat) (pool : Pool) :
    (∃ made after, chunk localCount code pool = .ok made after) ↔ Fits body := by
  have hroom : (#[] : Array Value).size ≤ maxConstants := Nat.zero_le _
  rw [chunk_run]
  cases hcode : code { pool with constants := #[] } with
  | ok ops after =>
    obtain ⟨hcallable, hconstants, hfew⟩ := h.ok hroom hcode
    rw [hconstants] at hfew
    exact iff_of_true ⟨_, _, rfl⟩ ⟨hcallable, hfew⟩
  | error e after =>
    have hno : ¬ ∃ (made : Chunk) (later : Pool),
        (EStateM.Result.error e after : EStateM.Result CodeError Pool Chunk) = .ok made later := by
      rintro ⟨_, _, hrun⟩
      cases hrun
    refine iff_of_false hno fun hfits => ?_
    exact absurd hfits.2 (Nat.not_le_of_lt (h.error hroom hcode hfits.1))

/-- A chunk lists the constants of its body. -/
theorem chunk_constants {body : List Resolved.Stmt} {code : Emit (Array Op)}
    (h : Needs (Resolved.Stmt.constantsAll body) (Resolved.Stmt.CallableAll body) code)
    {localCount : Nat} {pool after : Pool} {made : Chunk}
    (hmade : chunk localCount code pool = .ok made after) :
    made.constants = listConstants #[] (Resolved.Stmt.constantsAll body) := by
  have hroom : (#[] : Array Value).size ≤ maxConstants := Nat.zero_le _
  obtain ⟨hcode, hconstants, -⟩ := chunk_ok hmade
  obtain ⟨-, hlisted, -⟩ := h.ok hroom hcode
  rw [hconstants, hlisted]

/-- Other numbers take as much room. -/
theorem fits_renameAll (r : Renaming) (body : List Resolved.Stmt) :
    Fits (Resolved.Stmt.renameAll r body) ↔ Fits body := by
  rw [← chunk_isOk (body_needs 0 (Resolved.Stmt.renameAll r body)) 0 {},
    ← chunk_isOk (body_needs 0 body) 0 {}]
  have hends := chunk_twins (body_twins r 0 0 body) 0 {} {}
  generalize chunk 0 (Code.body 0 body) {} = ended at hends ⊢
  generalize chunk 0 (Code.body 0 (Resolved.Stmt.renameAll r body)) {} = ended' at hends ⊢
  cases hends with
  | ok => exact iff_of_true ⟨_, _, rfl⟩ ⟨_, _, rfl⟩
  | error =>
    refine iff_of_false ?_ ?_ <;>
      · rintro ⟨_, _, h⟩
        cases h

theorem functions_isOk (base : Nat) (fs : List Resolved.Function) (pool : Pool) :
    (∃ made after, fs.mapM (function base) pool = .ok made after) ↔ ∀ f ∈ fs, Fits f.body := by
  induction fs generalizing pool with
  | nil => exact iff_of_true ⟨[], pool, rfl⟩ (by simp)
  | cons f rest ih =>
    have hfirst (pool : Pool) : (∃ made after, function base f pool = .ok made after) ↔
        Fits f.body := by
      rw [← chunk_isOk (body_needs base f.body) f.localCount pool]
      simp only [function, bind_eq_ok, pure_eq_ok]
      constructor
      · rintro ⟨_, _, made, after, hmade, -⟩
        exact ⟨made, after, hmade⟩
      · rintro ⟨made, after, hmade⟩
        exact ⟨_, _, made, after, hmade, rfl, rfl⟩
    rw [List.forall_mem_cons, ← hfirst pool]
    simp only [List.mapM_cons, bind_eq_ok, pure_eq_ok]
    constructor
    · rintro ⟨_, _, made, middle, hmade, others, after, hothers, -⟩
      exact ⟨⟨made, middle, hmade⟩, (ih middle).mp ⟨others, after, hothers⟩⟩
    · rintro ⟨⟨made, middle, hmade⟩, hrest⟩
      obtain ⟨others, after, hothers⟩ := (ih middle).mpr hrest
      exact ⟨_, _, made, middle, hmade, others, after, hothers, rfl, rfl⟩

/-- The functions of a unit are made one after the other. -/
theorem functions_run (u : Resolved.Unit) (base : Nat) (pool : Pool) :
    u.functions.mapM (function base) pool =
      EStateM.map List.toArray (u.functions.toList.mapM (function base)) pool := by
  rw [Array.mapM_eq_mapM_toList]
  rfl

/-- A unit can be made into code if and only if there is room in each of its bodies. -/
theorem compile_isOk (u : Resolved.Unit) (base : Nat) :
    (∃ unit, u.compile base = .ok unit) ↔
      (∀ f ∈ u.functions, Fits f.body) ∧ Fits u.topLevel := by
  have hfunctions := functions_isOk base u.functions.toList {}
  simp only [Array.mem_toList_iff] at hfunctions
  rw [compile_run, ← hfunctions, functions_run]
  unfold EStateM.map
  cases u.functions.toList.mapM (function base) {} with
  | error e after =>
    refine iff_of_false ?_ ?_
    · rintro ⟨_, h⟩
      cases h
    · rintro ⟨⟨_, _, h⟩, -⟩
      cases h
  | ok functions pool =>
    have htop := chunk_isOk (topLevel_needs base u.returnsValue u.topLevel) u.topLevelLocals pool
    dsimp only
    rw [← htop]
    cases chunk u.topLevelLocals (topLevel base u.returnsValue u.topLevel) pool with
    | error e after =>
      refine iff_of_false ?_ ?_
      · rintro ⟨_, h⟩
        cases h
      · rintro ⟨-, _, _, h⟩
        cases h
    | ok top after => exact iff_of_true ⟨_, rfl⟩ ⟨⟨_, _, rfl⟩, _, _, rfl⟩

end Code

namespace Scope

open Resolved (Expr.constants Expr.constantsAll Stmt.constants Stmt.constantsAll)

variable {rules : Rules}

/-- Values that hold no number of a class. -/
def Unnumbered (values : List Value) : Prop :=
  ∀ value ∈ values, ∀ r : Renaming, value.rename r = value

theorem unnumbered_append {front rest : List Value} :
    Unnumbered (front ++ rest) ↔ Unnumbered front ∧ Unnumbered rest :=
  List.forall_mem_append

theorem unnumbered_nil : Unnumbered [] := by
  simp [Unnumbered]

theorem unnumbered_singleton {value : Value} (h : ∀ r : Renaming, value.rename r = value) :
    Unnumbered [value] :=
  List.forall_mem_singleton.mpr h

mutual

/-- The constants of what an expression is resolved to hold no numbers. -/
theorem Resolves.unnumbered : ∀ {e : ScriptHost.Expr} {tree : Resolved.Expr},
    Resolves rules e tree → Unnumbered tree.constants
  | _, _, .int | _, _, .float | _, _, .str => unnumbered_singleton fun _ => rfl
  | _, _, .bool | _, _, .null | _, _, .this | _, _, .loadLocal | _, _, .loadGlobal =>
    unnumbered_nil
  | _, _, .binary first second => unnumbered_append.mpr ⟨first.unnumbered, second.unnumbered⟩
  | _, _, .unary first => first.unnumbered
  | _, _, .call _ all | _, _, .callHost _ _ all | _, _, .callFree _ _ all | _, _, .create all =>
    all.unnumbered
  | _, _, .callMethod receiver all _ => unnumbered_append.mpr ⟨receiver.unnumbered,
      unnumbered_append.mpr ⟨all.unnumbered, unnumbered_singleton fun _ => rfl⟩⟩
  | _, _, .field receiver _ => unnumbered_append.mpr
      ⟨receiver.unnumbered, unnumbered_singleton fun _ => rfl⟩

theorem ResolvesAll.unnumbered : ∀ {es : List ScriptHost.Expr} {trees : List Resolved.Expr},
    ResolvesAll rules es trees → Unnumbered (Expr.constantsAll trees)
  | _, _, .nil => unnumbered_nil
  | _, _, .cons first others => unnumbered_append.mpr ⟨first.unnumbered, others.unnumbered⟩

end

mutual

theorem ResolvesStmt.unnumbered : ∀ {s : ScriptHost.Stmt} {tree : Resolved.Stmt},
    ResolvesStmt rules s tree → Unnumbered tree.constants
  | _, _, .letLocal first | _, _, .letGlobal first | _, _, .assignLocal first
  | _, _, .assignGlobal first | _, _, .ret first | _, _, .expr first => first.unnumbered
  | _, _, .assignField receiver first _ => unnumbered_append.mpr ⟨receiver.unnumbered,
      unnumbered_append.mpr ⟨first.unnumbered, unnumbered_singleton fun _ => rfl⟩⟩
  | _, _, .ifThen test all => unnumbered_append.mpr ⟨test.unnumbered,
      unnumbered_append.mpr ⟨all.unnumbered, unnumbered_nil⟩⟩
  | _, _, .ifElse test all rest => unnumbered_append.mpr ⟨test.unnumbered,
      unnumbered_append.mpr ⟨all.unnumbered, rest.unnumbered⟩⟩
  | _, _, .loop test all => unnumbered_append.mpr ⟨test.unnumbered, all.unnumbered⟩
  | _, _, .retNull => unnumbered_nil
  | _, _, .block all => unnumbered_append.mpr ⟨unnumbered_nil,
      unnumbered_append.mpr ⟨all.unnumbered, unnumbered_nil⟩⟩

theorem ResolvesStmts.unnumbered : ∀ {body : List ScriptHost.Stmt} {trees : List Resolved.Stmt},
    ResolvesStmts rules body trees → Unnumbered (Stmt.constantsAll trees)
  | _, _, .nil => unnumbered_nil
  | _, _, .cons first others => unnumbered_append.mpr ⟨first.unnumbered, others.unnumbered⟩

end

theorem Source.Resolves.unnumbered {source : Source} {trees : List Resolved.Stmt}
    (h : Source.Resolves rules source trees) : Unnumbered (Stmt.constantsAll trees) := by
  cases h with
  | body all => exact all.unnumbered
  | fields each =>
    intro value hvalue r
    rw [Resolved.Stmt.constantsAll_eq, List.mem_flatMap] at hvalue
    obtain ⟨tree, htree, hvalue⟩ := hvalue
    obtain ⟨field, -, initial, first, -, hfirst, rfl⟩ := each tree htree
    have hall : Unnumbered (Resolved.Stmt.setField .loadThis field.name first).constants :=
      unnumbered_append.mpr ⟨unnumbered_nil,
        unnumbered_append.mpr ⟨hfirst.unnumbered, unnumbered_singleton fun _ => rfl⟩⟩
    exact hall value hvalue r

end Scope

end ScriptHost
