import ScriptHost.Proofs.Code.Renumbered
import ScriptHost.Proofs.Scope.Bare
/-!
# The code of a unit in two parts

A unit of declarations and statements can be cut in two, the declarations and then the statements.
The code of the functions stays, and so does the code of the top level but for the numbers of
bindings: in the one unit the statements share the bindings of the functions, in the other they have
bindings of their own.
-/

set_option autoImplicit false

namespace ScriptHost

namespace Code

/-- The code of a top level without statements. -/
def idle : Chunk where
  ops := #[.pushNull, .ret]

/-- A unit with functions and a top level that have been made. -/
def assembled (base : Nat) (u : Resolved.Unit) (functions : Array Function) (topLevel : Chunk)
    (pool : Pool) : CompiledUnit where
  functionBase := u.functionBase
  functions
  classBase := u.classBase
  classes := u.classes
  functionNames := u.functionNames
  globals := u.globals
  hostCalls := pool.hostCalls
  bindingBase := base
  topLevel
  returnsValue := u.returnsValue

/-- What it comes to to make the code of a unit: first that of its functions, then that of its top
level. -/
theorem compile_run (base : Nat) (u : Resolved.Unit) : u.compile base =
    match u.functions.mapM (function base) {} with
    | .error e _ => .error e
    | .ok functions pool =>
      match chunk u.topLevelLocals (topLevel base u.returnsValue u.topLevel) pool with
      | .error e _ => .error e
      | .ok top after => .ok (assembled base u functions top after) := by
  have hunit : unit base u {} =
      match u.functions.mapM (function base) {} with
      | .error e after => .error e after
      | .ok functions pool =>
        match chunk u.topLevelLocals (topLevel base u.returnsValue u.topLevel) pool with
        | .error e after => .error e after
        | .ok top after => .ok (assembled base u functions top after) after := by
    change EStateM.bind (u.functions.mapM (function base)) _ {} = _
    unfold EStateM.bind
    cases u.functions.mapM (function base) {} with
    | error e after => rfl
    | ok functions pool =>
      dsimp only
      change EStateM.bind (chunk _ _) _ pool = _
      unfold EStateM.bind
      cases chunk u.topLevelLocals (topLevel base u.returnsValue u.topLevel) pool <;> rfl
  unfold Resolved.Unit.compile
  rw [hunit]
  cases u.functions.mapM (function base) {} with
  | error e after => rfl
  | ok functions pool =>
    dsimp only
    cases chunk u.topLevelLocals (topLevel base u.returnsValue u.topLevel) pool <;> rfl

/-- What it comes to to make the code of a unit without statements. -/
theorem compile_run_of_declares {u : Resolved.Unit} (htop : u.topLevel = [])
    (hlocals : u.topLevelLocals = 0) (hvalue : u.returnsValue = false) (base : Nat) :
    u.compile base =
      match u.functions.mapM (function base) {} with
      | .error e _ => .error e
      | .ok functions pool => .ok (assembled base u functions idle pool) := by
  rw [compile_run, htop, hlocals, hvalue]
  cases u.functions.mapM (function base) {} <;> rfl

/-- Where declarations cannot be made into code, they cannot with statements behind them. -/
theorem compile_error_of_declares {u : Resolved.Unit} {base : Nat} {e : CodeError}
    (htop : u.topLevel = []) (hlocals : u.topLevelLocals = 0) (hvalue : u.returnsValue = false)
    (h : u.compile base = .error e) (topLevel : List Resolved.Stmt) (topLevelLocals : Nat)
    (returnsValue : Bool) :
    Resolved.Unit.compile { u with topLevel, topLevelLocals, returnsValue } base = .error e := by
  rw [compile_run_of_declares htop hlocals hvalue] at h
  rw [compile_run]
  dsimp only
  generalize u.functions.mapM (function base) {} = made at h ⊢
  cases made with
  | error e after => exact h
  | ok functions pool => cases h

end Code

/-- The code of a whole unit is that of its declarations and that of its statements, whose bindings
are numbered from where those of the declarations end. -/
structure CompiledUnit.Joins (base : Nat) (declared acts whole : CompiledUnit) : Prop where
  functions : whole.functions = declared.functions
  classes : whole.classes = declared.classes
  globals : whole.globals = declared.globals
  hosts : ∀ (index : Nat) (call : String × String), declared.hostCalls[index]? = some call →
    whole.hostCalls[index]? = some call
  noFunction : acts.functions = #[]
  noClass : acts.classes = #[]
  noGlobal : acts.globals = []
  returnsValue : acts.returnsValue = whole.returnsValue
  topLevel : whole.topLevel.Matches .refl
    (Code.SameHost base (base + declared.hostCalls.size) whole.hostCalls acts.hostCalls)
    acts.topLevel

open Code in
/-- Where the declarations have been made into code, so can be the statements behind them or in a
unit of their own, or neither. -/
theorem CompiledUnit.joins {u v : Resolved.Unit} {base : Nat} {declared : CompiledUnit}
    (htop : u.topLevel = []) (hlocals : u.topLevelLocals = 0) (hvalue : u.returnsValue = false)
    (hfunctions : v.functions = #[]) (hclasses : v.classes = #[]) (hglobals : v.globals = [])
    (hdeclared : u.compile base = .ok declared) :
    let whole : Resolved.Unit :=
      { u with
        topLevel := v.topLevel
        topLevelLocals := v.topLevelLocals
        returnsValue := v.returnsValue }
    (∃ e, whole.compile base = .error e ∧
        v.compile (base + declared.hostCalls.size) = .error e) ∨
      ∃ joined acts, whole.compile base = .ok joined ∧
        v.compile (base + declared.hostCalls.size) = .ok acts ∧
          declared.Joins base acts joined := by
  intro whole
  rw [compile_run_of_declares htop hlocals hvalue] at hdeclared
  rw [compile_run, compile_run, hfunctions]
  dsimp only [whole]
  generalize u.functions.mapM (function base) {} = made at hdeclared ⊢
  cases made with
  | error e after => cases hdeclared
  | ok functions pool =>
    cases hdeclared
    have hsize : (assembled base u functions idle pool).hostCalls.size = pool.hostCalls.size := rfl
    have hempty : (#[] : Array Resolved.Function).mapM (function (base + pool.hostCalls.size)) {} =
          EStateM.Result.ok #[] ({} : Pool) := by
      rw [Array.mapM_empty]
      rfl
    rw [hsize, hempty]
    dsimp only
    have hends := chunk_twins (topLevel_twins .refl base (base + pool.hostCalls.size)
      v.returnsValue v.topLevel) v.topLevelLocals pool {}
    rw [Resolved.Stmt.renameAll_refl] at hends
    generalize chunk v.topLevelLocals (Code.topLevel base v.returnsValue v.topLevel) pool = ended
      at hends ⊢
    generalize chunk v.topLevelLocals
      (Code.topLevel (base + pool.hostCalls.size) v.returnsValue v.topLevel) {} = ended' at hends ⊢
    cases hends with
    | error => exact .inl ⟨_, rfl, rfl⟩
    | ok _ hkept _ hmatches =>
      refine .inr ⟨_, _, rfl, rfl, rfl, rfl, rfl, hkept, rfl, hclasses, hglobals, rfl, ?_⟩
      exact hmatches _ fun _ _ h => h

end ScriptHost
