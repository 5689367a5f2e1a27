import ScriptHost.Proofs.Machine.Stack
import ScriptHost.Proofs.Machine.Steps
import ScriptHost.Proofs.Trees.History
import ScriptHost.Proofs.Trees.Statements
import ScriptHost.Scope.Resolve
/-!
# Machine and interpreter agree

The code of a program, run by the machine, does what the interpreter does with the trees that the
program was built from: the same value or the same fault, and the same world at the end, which holds
the global variables, the fields of all objects and whatever the host functions have done. Two
things can come between, and both are limits of the machine alone: the number of instructions, and
the size of an operand stack.

The main statement is `linked_code_does_what_its_trees_mean`.
-/

set_option autoImplicit false

namespace ScriptHost

namespace Resolved

/-- No operand of a function is deeper than a stack can hold. -/
def Trees.Shallow (trees : Trees) : Prop :=
  ∀ t ∈ trees.functions, ∀ depth ∈ bodyDepths t.function.body, depth < maxStack

/-- No operand of a top level is deeper than a stack can hold. -/
def Unit.Shallow (unit : Unit) : Prop :=
  ∀ depth ∈ topLevelDepths unit.returnsValue unit.topLevel, depth < maxStack

end Resolved

namespace Machine

open Resolved (Trees Activation Eval)

variable {σ : Type}

/-- The code of a function body follows the interpreter to its return. A body that comes to its end
returns null. -/
theorem body_follows {setting : Setting σ} {act : Activation σ} {time : Nat} {pool : Code.Pool}
    {base : Nat} {f : Frame} {callers : List Frame}
    (h : Stands setting act time pool base f callers) (hturns : act.turns = time + 1)
    {body : List Resolved.Stmt} (hbody : Code.BodyLowered pool base body f.chunk.ops.toList)
    {state : State σ} (hat : state.At (withLocals f f.locals) callers 0 []) :
    Follows setting (time + 1) state
      (fun value next => Returns setting f.resume value callers next)
      ((do
        let exit ← Resolved.Stmt.execAll act f.locals body
        return exit.value : Eval σ Value) state.world) := by
  obtain ⟨inner, hinner, hops⟩ := hbody
  have hcode : PartAt f.chunk.ops 0 (inner ++ [.pushNull, .ret]) := hops ▸ partAt_toList f.chunk.ops
  obtain ⟨hstatements, hnull, hret, -⟩ := partAt_append.mp hcode
  refine (execAll_follows h hturns hinner _ hstatements hat).bind fun exit next hnext => ?_
  cases exit with
  | ret value => exact .pure hnext
  | next locals =>
    refine .next h.limit hnext hnull (withLocals f locals) _ [.null] rfl
      fun last hlast hworld => ?_
    rw [← hworld]
    exact .ret h.limit hlast hret fun executed hstep => ⟨executed, hstep⟩

/-- A frame that runs the code of a function follows the interpreter to its return, whatever time
there is. -/
theorem invoke_follows {setting : Setting σ} (hlimit : setting.limit = none) {trees : Trees}
    (hmatch : Matches setting.program trees) (time active : Nat) :
    Invokes setting trees time active (Resolved.invoke trees setting.catalog time active) := by
  induction time generalizing active with
  | zero => exact fun _ _ _ _ _ _ _ _ _ _ _ _ => .late rfl
  | succ time ih =>
    intro id t f ht hf this args resume callers hactive state hat
    have hfunction := hmatch.functions id f t hf ht
    obtain ⟨pool, base, hconstants, hbody, hbound⟩ := hfunction.lowered
    let act : Activation σ :=
      { trees, catalog := setting.catalog, allowed := t.allowed, this, active, turns := time + 1
        invoke := Resolved.invoke trees setting.catalog time (active + 1) }
    let frame := Frame.start f.name f.chunk this args resume
    have hstands : Stands setting act time pool base frame callers :=
      { limit := hlimit, program := hmatch, catalog := rfl, invoke := ih (active + 1)
        active := hactive, this := rfl, constants := hconstants, bound := hbound }
    have hlocals : Resolved.initialLocals t.function.localCount args = frame.locals := by
      rw [← hfunction.localCount]
      rfl
    rw [Resolved.invoke, hlocals]
    exact body_follows hstands rfl hbody hat

/-- What is seen of the end of a run: its value or its fault, and the world that it leaves. -/
def Ending.outcome (ending : Ending σ) : Except Fault Value × World σ :=
  (ending.result.mapError (·.fault), ending.world)

/-- The operand stack of some frame was full. -/
def Ending.Overflowed (ending : Ending σ) : Prop :=
  ∃ trace, ending.result = .error ⟨.stackOverflow, trace⟩

/-- A run of the machine, with so much fuel, and what the interpreter gives, with so much time, come
to the same. Either of them ends with one only if the other does, unless the machine comes to a
limit of its own. -/
structure Agree (machine : Nat → Option (Ending σ))
    (trees : Nat → Option (Except Fault Value × World σ)) : Prop where
  /-- What the interpreter gives is what the machine ends with. -/
  machine_of_trees : ∀ time outcome, trees time = some outcome →
    ∃ fuel ending, machine fuel = some ending ∧
      (ending.CutOff ∨ ending.Overflowed ∨ ending.outcome = outcome)
  /-- What the machine ends with is what the interpreter gives. -/
  trees_of_machine : ∀ fuel ending, machine fuel = some ending →
    ending.CutOff ∨ ending.Overflowed ∨ ∃ time, trees time = some ending.outcome

/-- A run that cannot start agrees with an interpreter that faults at once. -/
theorem Agree.refuse {e : Fault} {world : World σ}
    {trees : Nat → Option (Except Fault Value × World σ)}
    (h : ∀ time, trees time = some (.error e, world)) :
    Agree (fun _ => some (Machine.refuse e world)) trees where
  machine_of_trees := by
    intro time outcome houtcome
    rw [h] at houtcome
    cases houtcome
    exact ⟨0, _, rfl, .inr (.inr rfl)⟩
  trees_of_machine := by
    intro fuel ending hending
    cases hending
    exact .inr (.inr ⟨0, h 0⟩)

/-- A machine without an instruction limit that follows the interpreter to the end of the run agrees
with it. -/
theorem Agree.of_follows {setting : Setting σ} {state : State σ}
    {trees : Nat → Option (Except Fault Value × World σ)}
    (h : ∀ time, Follows setting time state (fun value next => Delivers setting value [] next)
      (trees time)) : Agree (fun fuel => run setting fuel state) trees where
  machine_of_trees := by
    intro time outcome houtcome
    have hfollows := h time
    rw [houtcome] at hfollows
    cases hfollows with
    | overflow overflows =>
      obtain ⟨world, fuel, trace, executed, hrun⟩ := overflows
      exact ⟨fuel, _, hrun, .inr (.inl ⟨trace, rfl⟩)⟩
    | stop stops =>
      obtain ⟨fuel, trace, executed, hrun⟩ := stops
      exact ⟨fuel, _, hrun, .inr (.inr rfl)⟩
    | @ok value count next steps fits =>
      obtain ⟨executed, hdeliver⟩ := fits
      have hend : run setting (count + 1) state = some ⟨.ok value, executed, next.world⟩ := by
        rw [steps.run_eq, run, hdeliver]
        rfl
      exact ⟨_, _, hend, .inr (.inr rfl)⟩
  trees_of_machine := by
    intro fuel ending hending
    have hfollows := h fuel
    generalize houtcome : trees fuel = outcome at hfollows
    cases hfollows with
    | overflow overflows =>
      obtain ⟨world, fuel', trace, executed, hrun⟩ := overflows
      rw [run_unique hending hrun]
      exact .inr (.inl ⟨trace, rfl⟩)
    | late notEnded =>
      rw [notEnded] at hending
      cases hending
    | stop stops =>
      obtain ⟨fuel', trace, executed, hrun⟩ := stops
      rw [run_unique hending hrun]
      exact .inr (.inr ⟨fuel, houtcome⟩)
    | @ok value count next steps fits =>
      obtain ⟨executed, hdeliver⟩ := fits
      have hend : run setting (count + 1) state = some ⟨.ok value, executed, next.world⟩ := by
        rw [steps.run_eq, run, hdeliver]
        rfl
      rw [run_unique hending hend]
      exact .inr (.inr ⟨fuel, houtcome⟩)

/-- A machine agrees with the interpreter if it would without its instruction limit. -/
theorem Agree.of_unlimited {setting : Setting σ} {state : State σ}
    {trees : Nat → Option (Except Fault Value × World σ)}
    (h : Agree (fun fuel => run setting.unlimited fuel state) trees) :
    Agree (fun fuel => run setting fuel state) trees where
  machine_of_trees := by
    intro time outcome houtcome
    obtain ⟨fuel, ending, hrun, hending⟩ := h.machine_of_trees time outcome houtcome
    obtain ⟨limited, hlimited, hcut | rfl⟩ := run_of_unlimited hrun
    · exact ⟨fuel, limited, hlimited, .inl hcut⟩
    · exact ⟨fuel, limited, hlimited, hending⟩
  trees_of_machine := by
    intro fuel ending hending
    obtain hcut | hrun := run_unlimited hending
    · exact .inl hcut
    · exact h.trees_of_machine fuel ending hrun

variable {setting : Setting σ} {trees : Trees}

/-- Without an instruction limit, a frame that runs the code of a function can be followed. -/
theorem invoke_follows_unlimited (hmatch : Matches setting.program trees) (time active : Nat) :
    Invokes setting.unlimited trees time active
      (Resolved.invoke trees setting.catalog time active) :=
  have hfree : Matches setting.unlimited.program trees := hmatch
  invoke_follows rfl hfree time active

/-- The calls of a caller outside all scripts can be followed. -/
theorem outside_surrounds (hmatch : Matches setting.program trees) (time : Nat) :
    Surrounds setting.unlimited (Resolved.outside trees setting.catalog time) time :=
  ⟨rfl, hmatch, rfl, invoke_follows_unlimited hmatch time 1⟩

/-- The calls of a top level can be followed. -/
theorem topLevel_surrounds (hmatch : Matches setting.program trees) (allowed : AllowedModules)
    (time : Nat) :
    Surrounds setting.unlimited
      (Resolved.Unit.activation trees setting.catalog time allowed) time :=
  ⟨rfl, hmatch, rfl, invoke_follows_unlimited hmatch time 2⟩

/-- To call a function does what it means to call its tree. -/
theorem call_agrees (hmatch : Matches setting.program trees) (id : Nat) (this : Option ObjectRef)
    (args : List Value) (world : World σ) :
    Agree (fun fuel => call setting fuel id this args world)
      (fun time => (Resolved.outside trees setting.catalog time).call id this args world) := by
  unfold call Activation.call
  obtain ⟨e, hrefused⟩ | ⟨t, f, haccepted⟩ := refused_or_accepted hmatch id this args .value
  · simp only [hrefused.machine]
    refine .refuse fun time => ?_
    have htree : (Resolved.outside trees setting.catalog time).trees.callee id args.length =
        .error e := hrefused.tree
    rw [htree, Eval.error_bind]
  · simp only [haccepted.machine]
    refine .of_unlimited (.of_follows fun time => ?_)
    have htree : (Resolved.outside trees setting.catalog time).trees.callee id args.length =
        .ok t := haccepted.tree
    rw [htree, Eval.ok_bind]
    exact invoke_follows_unlimited hmatch time 1 id t f haccepted.treeAt haccepted.codeAt this args
      .value [] rfl _ ⟨rfl, rfl⟩

/-- To make an object does what it means to make one from the trees. -/
theorem instantiate_agrees (hmatch : Matches setting.program trees) (classId : Nat)
    (args : List Value) (world : World σ) :
    Agree (fun fuel => instantiate setting fuel classId args world)
      (fun time => (Resolved.outside trees setting.catalog time).create classId args world) := by
  unfold instantiate
  have hcases := fun time =>
    construct_cases (Resolved.outside trees setting.catalog time) hmatch classId args world
  cases hconstruct : construct setting.program classId args world.heap with
  | error e =>
    refine .refuse fun time => ?_
    obtain ⟨e', hmachine, htree⟩ | ⟨_, _, _, _, _, _, _, _, hmachine, _⟩ := hcases time
    · rw [hconstruct] at hmachine
      cases hmachine
      exact htree
    · rw [hconstruct] at hmachine
      cases hmachine
  | ok made =>
    obtain ⟨frame, fields⟩ := made
    refine .of_unlimited (.of_follows fun time => ?_)
    obtain ⟨e', hmachine, htree⟩ |
      ⟨c, object, fields', t, f, htreeAt, hcodeAt, _, hmachine, htree⟩ := hcases time
    · rw [hconstruct] at hmachine
      cases hmachine
    · rw [hconstruct] at hmachine
      cases hmachine
      rw [htree]
      have hroom : 0 < maxCallDepth := by decide
      exact initialise_follows (outside_surrounds hmatch time) rfl hroom htreeAt hcodeAt ⟨rfl, rfl⟩

/-- To run the top level of a unit does what its trees mean. -/
theorem topLevel_agrees (hmatch : Matches setting.program trees) {unit : Resolved.Unit}
    {base : Nat} {compiled : CompiledUnit} (hunit : Code.UnitLowered base compiled unit)
    {allowed : AllowedModules}
    (hbound : Bound setting.program ⟨compiled.topLevel.constants, compiled.hostCalls⟩ base allowed)
    (world : World σ) :
    Agree (fun fuel => runTopLevel setting fuel compiled.topLevel world)
      (fun time => unit.run trees setting.catalog allowed time world) := by
  unfold runTopLevel
  refine .of_unlimited (.of_follows fun time => ?_)
  have hsurrounds := topLevel_surrounds hmatch allowed time
  let frame := Frame.start topLevelName compiled.topLevel none [] .value
  have hstands : Stands setting.unlimited
      (Resolved.Unit.activation trees setting.catalog time allowed) time
      ⟨compiled.topLevel.constants, compiled.hostCalls⟩ base frame [] :=
    { toSurrounds := hsurrounds, active := rfl, this := rfl, constants := rfl, bound := hbound }
  have hstart : State.At ⟨frame, [], 0, world⟩ (withLocals frame frame.locals) [] 0 [] := ⟨rfl, rfl⟩
  have hlocals : Resolved.initialLocals unit.topLevelLocals [] = frame.locals := by
    rw [← hunit.topLevelLocals]
    rfl
  have hcode := partAt_toList compiled.topLevel.ops
  have hlowered := hunit.topLevel
  unfold Code.TopLevelLowered at hlowered
  unfold Resolved.Unit.run
  rw [hlocals]
  refine Follows.le (Nat.le_succ time) ?_
  cases hresult : Resolved.resultOf unit.returnsValue unit.topLevel with
  | some value =>
    simp only [hresult] at hlowered ⊢
    obtain ⟨inner, last, hinner, hlast, hops⟩ := hlowered
    rw [hops] at hcode
    simp only [partAt_append, PartAt] at hcode
    obtain ⟨⟨hbody, hvalue⟩, hret, -⟩ := hcode
    refine (execAll_follows hstands rfl hinner _ hbody hstart).bind fun exit next hnext => ?_
    cases exit with
    | ret early => exact .pure hnext
    | next locals =>
      rw [Nat.zero_add] at hnext hvalue
      refine (eval_follows (hstands.withLocals locals) hlast hvalue hnext).more
        fun v final hfinal => ?_
      rw [Nat.zero_add, List.length_append] at hret
      exact .ret rfl hfinal hret fun executed hstep => ⟨executed, hstep⟩
  | none =>
    simp only [hresult] at hlowered ⊢
    exact body_follows hstands rfl hlowered hstart

/-- A program is as shallow as the trees that it is made from. -/
theorem levelled_of_shallow {program : Program} (hmatch : Matches program trees)
    (hshallow : trees.Shallow) : program.Levelled (· < maxStack) := by
  intro id f hf
  have hinside : id < trees.functions.size := by
    rw [← hmatch.size]
    exact (Array.getElem?_eq_some_iff.mp hf).1
  have ht : trees.functions[id]? = some trees.functions[id] := Array.getElem?_eq_getElem hinside
  obtain ⟨pool, base, -, hbody, -⟩ := (hmatch.functions id f _ hf ht).lowered
  exact ⟨_, hbody.balanced, hshallow _ (Array.getElem_mem hinside)⟩

/-- A run that keeps to depths below the size of the stack does not fill it. -/
theorem not_overflowed {ending : Ending σ}
    (h : (Outcome.ended ending).Levelled (· < maxStack)) : ¬ ending.Overflowed := by
  rintro ⟨trace, hresult⟩
  obtain ⟨depth, hallowed, hfull⟩ := (h _ hresult).2 rfl
  exact Nat.not_le.mpr hallowed hfull

/-- Agreement, and room on the operand stack where the code is shallow. -/
structure AgreeWithRoom (shallow : Prop) (machine : Nat → Option (Ending σ))
    (trees : Nat → Option (Except Fault Value × World σ)) : Prop
    extends Agree machine trees where
  room : shallow → ∀ fuel ending, machine fuel = some ending → ¬ ending.Overflowed

/-- A call of a shallow program does not fill the operand stack. -/
theorem call_room (hmatch : Matches setting.program trees) (hshallow : trees.Shallow) {id : Nat}
    {this : Option ObjectRef} {args : List Value} {world : World σ} {fuel : Nat}
    {ending : Ending σ} (h : call setting fuel id this args world = some ending) :
    ¬ ending.Overflowed := by
  have hprogram := levelled_of_shallow hmatch hshallow
  unfold call at h
  split at h
  · rename_i e henter
    cases h
    rintro ⟨trace, hresult⟩
    obtain ⟨-, rfl⟩ | ⟨_, -, -, rfl⟩ := enter_error henter <;> cases hresult
  · rename_i frame henter
    have hstart : State.Levelled (· < maxStack) ⟨frame, [], 0, world⟩ :=
      ⟨enter_levelled hprogram henter, fun caller hcaller => by cases hcaller⟩
    exact not_overflowed (run_levelled hprogram hstart h)

/-- The creation of an object does not fill the operand stack of a shallow program. -/
theorem instantiate_room (hmatch : Matches setting.program trees) (hshallow : trees.Shallow)
    {classId : Nat} {args : List Value} {world : World σ} {fuel : Nat} {ending : Ending σ}
    (h : instantiate setting fuel classId args world = some ending) : ¬ ending.Overflowed := by
  have hprogram := levelled_of_shallow hmatch hshallow
  unfold instantiate at h
  split at h
  · rename_i e hconstruct
    cases h
    rintro ⟨trace, hresult⟩
    obtain ⟨-, rfl⟩ | ⟨_, -, ⟨-, -, rfl⟩ | ⟨_, _, henter⟩⟩ := construct_error hconstruct
    · cases hresult
    · cases hresult
    · obtain ⟨-, rfl⟩ | ⟨_, -, -, rfl⟩ := enter_error henter <;> cases hresult
  · rename_i frame fields hconstruct
    refine not_overflowed (run_levelled hprogram ⟨construct_levelled hprogram hconstruct, ?_⟩ h)
    exact fun caller hcaller => by cases hcaller

/-- A shallow top level does not fill the operand stack of a shallow program. -/
theorem topLevel_room (hmatch : Matches setting.program trees) (hshallow : trees.Shallow)
    {unit : Resolved.Unit} {base : Nat} {compiled : CompiledUnit}
    (hunit : Code.UnitLowered base compiled unit) (hdepths : unit.Shallow) {world : World σ}
    {fuel : Nat} {ending : Ending σ}
    (h : runTopLevel setting fuel compiled.topLevel world = some ending) :
    ¬ ending.Overflowed := by
  have hprogram := levelled_of_shallow hmatch hshallow
  have hchunk : compiled.topLevel.Levelled (· < maxStack) :=
    ⟨_, hunit.topLevel.balanced, hdepths⟩
  refine not_overflowed (run_levelled hprogram ⟨hchunk.start _ _ _ _, ?_⟩ h)
  exact fun caller hcaller => by cases hcaller

/-- A function that adds its argument to itself, and a call of it. -/
def twice : Resolved.Unit where
  functionBase := 0
  functions := #[⟨"twice", 1, [.ret (some (.binary .add (.loadLocal 0) (.loadLocal 0)))], 1⟩]
  classBase := 0
  classes := #[]
  functionNames := [("twice", 0)]
  globals := []
  topLevel := [.expr (.call 0 [.const (.int 21)])]
  topLevelLocals := 0
  returnsValue := true

/-- The code of `twice`. -/
def twiceCode : CompiledUnit where
  functionBase := 0
  functions := #[⟨"twice", 1, ⟨#[.loadLocal 0, .loadLocal 0, .add, .ret, .pushNull, .ret], #[], 1⟩⟩]
  classBase := 0
  classes := #[]
  functionNames := [("twice", 0)]
  globals := []
  hostCalls := #[]
  bindingBase := 0
  topLevel := ⟨#[.pushConst 0, .call 0 1, .ret, .pushNull, .ret], #[.int 21], 0⟩
  returnsValue := true

/-- A call of a method on null, whose 255 arguments end with another call of a method on null. When
the argument of the inner call is due, there are 256 operands on the stack. -/
def overfullText : List (List Item) :=
  [[.stmt (.expr (.methodCall (.null .nowhere) "m" (List.replicate 254 (.null .nowhere) ++
    [.methodCall (.null .nowhere) "m" [.null .nowhere] .nowhere]) .nowhere))]]

/-- What the names in the call stand for. -/
def overfull : Resolved.Unit where
  functionBase := 0
  functions := #[]
  classBase := 0
  classes := #[]
  functionNames := []
  globals := []
  topLevel := [.expr (.callMethod (.const .null) "m" (List.replicate 254 (.const .null) ++
    [.callMethod (.const .null) "m" [.const .null]]))]
  topLevelLocals := 0
  returnsValue := true

/-- The code of the call. -/
def overfullCode : CompiledUnit where
  functionBase := 0
  functions := #[]
  classBase := 0
  classes := #[]
  functionNames := []
  globals := []
  hostCalls := #[]
  bindingBase := 0
  topLevel :=
    { ops := (List.replicate 257 Op.pushNull ++
        [Op.callMethod 0 1, Op.callMethod 0 255, Op.ret, Op.pushNull, Op.ret]).toArray
      constants := #[.str "m"] }
  returnsValue := true

end Machine

end ScriptHost
