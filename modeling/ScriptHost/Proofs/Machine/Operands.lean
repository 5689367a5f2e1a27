import ScriptHost.Proofs.Machine.Framewise
import ScriptHost.Proofs.Machine.Stack
import ScriptHost.Proofs.Machine.Trace
import ScriptHost.Proofs.Trees.History
/-!
# Room on the operand stack

No operand stack ever holds more than `maxStack` values, whatever the code. The machine asks for
room before each instruction, also before one that pushes nothing: a frame whose stack is full can
do nothing any more. So code whose depths stay below `maxStack` never overflows, and code that
reaches that depth always does, although the values are still within the limit.

The main statement is `overflows_iff_full`.
-/

set_option autoImplicit false

namespace ScriptHost

/-- A chunk that has been made for a function or a top level, and the depths of its tree. -/
inductive Chunk.Compiled : Chunk → Array Nat → Prop
  | function {unit : Resolved.Unit} {base index : Nat} {compiled : CompiledUnit} {f : Function}
      {t : Resolved.Function} (compiles : unit.compile base = .ok compiled)
      (tree : unit.functions[index]? = some t) (code : compiled.functions[index]? = some f) :
      Compiled f.chunk (Resolved.bodyDepths t.body)
  | topLevel {unit : Resolved.Unit} {base : Nat} {compiled : CompiledUnit}
      (compiles : unit.compile base = .ok compiled) :
      Compiled compiled.topLevel (Resolved.topLevelDepths unit.returnsValue unit.topLevel)

/-- The depths of the tree are those of the code. -/
theorem Chunk.Compiled.balanced {chunk : Chunk} {depths : Array Nat} (h : chunk.Compiled depths) :
    Balanced depths chunk.ops := by
  cases h with
  | function compiles tree code =>
    rw [← Array.getElem?_toList] at tree code
    exact (forall₂_getElem? (Code.compile_ok compiles).functions code tree).body.balanced
  | topLevel compiles => exact (Code.compile_ok compiles).topLevel.balanced

namespace Resolved

/-! ## Calls with simple arguments -/

mutual

/-- An expression that starts deeper is deeper throughout. -/
theorem Expr.depths_add (j k : Nat) : ∀ e : Expr, e.depths (j + k) = (e.depths k).map (j + ·)
  | .const _ | .loadLocal _ | .loadGlobal _ | .loadThis => rfl
  | .getField object _ => by simp [depths, object.depths_add j k, Nat.add_assoc]
  | .binary op left right => by
    by_cases hand : op = .and
    · subst hand
      simp [depths, left.depths_add j k, right.depths_add j k, Nat.add_assoc]
    · by_cases hor : op = .or
      · subst hor
        simp [depths, left.depths_add j k, right.depths_add j k, Nat.add_assoc]
      · rw [depths, depths]
        · simp [left.depths_add j k, Nat.add_assoc, right.depths_add j (k + 1)]
        all_goals assumption
  | .unary _ operand => by simp [depths, operand.depths_add j k, Nat.add_assoc]
  | .call _ args | .callHost _ _ args | .create _ args => by
    simp [depths, Expr.depthsAll_add j k args, Nat.add_assoc]
  | .callMethod object _ args => by
    simp [depths, object.depths_add j k, Expr.depthsAll_add j (k + 1) args, Nat.add_assoc]

/-- The same for several expressions. -/
theorem Expr.depthsAll_add (j k : Nat) : ∀ args : List Expr,
    Expr.depthsAll (j + k) args = (Expr.depthsAll k args).map (j + ·)
  | [] => rfl
  | e :: rest => by
    simp [depthsAll, e.depths_add j k, Nat.add_assoc, Expr.depthsAll_add j (k + 1) rest]

end

/-- An expression that needs room for its value only. -/
def Expr.Slim (e : Expr) : Prop :=
  ∀ depth ∈ e.depths 0, depth ≤ 1

/-- Slim expressions one after the other need room for their values only. -/
theorem Expr.depthsAll_le {args : List Expr} (h : ∀ e ∈ args, e.Slim) (k : Nat) :
    ∀ depth ∈ Expr.depthsAll k args, depth ≤ k + args.length := by
  induction args generalizing k with
  | nil => simp [depthsAll]
  | cons e rest ih =>
    obtain ⟨hfirst, hrest⟩ := List.forall_mem_cons.mp h
    intro depth hdepth
    rw [depthsAll, List.mem_append] at hdepth
    rw [List.length_cons]
    obtain hdepth | hdepth := hdepth
    · have hshift := e.depths_add k 0
      rw [Nat.add_zero] at hshift
      rw [hshift, List.mem_map] at hdepth
      obtain ⟨base, hbase, rfl⟩ := hdepth
      have hslim := hfirst base hbase
      omega
    · have hlater := ih hrest (k + 1) depth hdepth
      omega

/-- A call of some kind: with an object before the arguments, if it is one of a method. -/
inductive Expr.Calls : Expr → List Expr → List Expr → Prop
  | function {id : Nat} {args : List Expr} : Calls (.call id args) [] args
  | host {module function : String} {args : List Expr} :
      Calls (.callHost module function args) [] args
  | object {classId : Nat} {args : List Expr} : Calls (.create classId args) [] args
  | method {object : Expr} {name : String} {args : List Expr} :
      Calls (.callMethod object name args) [object] args

/-- A call has its operands made one after the other, and is carried out on top of them. -/
theorem Expr.Calls.depths_eq {e : Expr} {receiver args : List Expr} (h : e.Calls receiver args)
    (k : Nat) : e.depths k =
      Expr.depthsAll k (receiver ++ args) ++ [k + (receiver ++ args).length] := by
  cases h with
  | function | host | object => simp [depths]
  | method =>
    simp only [depths, depthsAll, List.cons_append, List.nil_append, List.length_cons]
    rw [Nat.add_assoc, Nat.add_comm 1]

/-- A call with slim operands has room as a statement if there are fewer operands than a stack can
hold. -/
theorem Expr.Calls.fits_iff {e : Expr} {receiver args : List Expr} (h : e.Calls receiver args)
    (hslim : ∀ operand ∈ receiver ++ args, operand.Slim) :
    (∀ depth ∈ (Stmt.expr e).depths, depth < maxStack) ↔
      (receiver ++ args).length < maxStack := by
  rw [Stmt.depths, h.depths_eq, Nat.zero_add]
  constructor
  · intro hdepths
    exact hdepths _ (by simp)
  · intro hfew depth hdepth
    simp only [List.mem_append, List.mem_singleton] at hdepth
    obtain (hdepth | rfl) | rfl := hdepth
    · have hle := depthsAll_le hslim 0 depth hdepth
      omega
    · simpa using hfew
    · decide

end Resolved

/-- No instruction leaves more than one value. -/
theorem Op.puts_le_one (op : Op) : op.puts ≤ 1 := by
  cases op <;> simp [puts]

namespace Machine

variable {σ : Type} {setting : Setting σ}

/-- The states in which the machine starts a run: at a top level, at a function that is called, or
where an object is made. -/
inductive Started (setting : Setting σ) : State σ → Prop
  | topLevel (chunk : Chunk) (world : World σ) :
      Started setting ⟨.start topLevelName chunk none [] .value, [], 0, world⟩
  | call {id : Nat} {this : Option ObjectRef} {args : List Value} {frame : Frame} (world : World σ)
      (entered : enter setting.program id this args .value = .ok frame) :
      Started setting ⟨frame, [], 0, world⟩
  | object {classId : Nat} {args : List Value} {world : World σ} {frame : Frame} {fields : Fields}
      (made : construct setting.program classId args world.heap = .ok (frame, fields)) :
      Started setting ⟨frame, [], 0, { world with heap := world.heap.alloc fields }⟩

/-- A run starts with one frame, which is at the start of its code. -/
theorem Started.fresh {first : State σ} (h : Started setting first) :
    first.callers = [] ∧ ∃ name chunk this args resume,
      first.frame = .start name chunk this args resume := by
  cases h with
  | topLevel chunk world => exact ⟨rfl, _, _, _, _, _, rfl⟩
  | call _ entered =>
    obtain ⟨f, -, -, rfl⟩ := enter_ok entered
    exact ⟨rfl, _, _, _, _, _, rfl⟩
  | object made =>
    obtain ⟨c, -, -, henter, -⟩ := construct_ok made
    obtain ⟨f, -, -, rfl⟩ := enter_ok henter
    exact ⟨rfl, _, _, _, _, _, rfl⟩

/-! ## No stack is more than full -/

/-- No stack is more than full, and a frame that waits has room for a value. -/
structure State.Roomy (state : State σ) : Prop where
  frame : state.frame.stack.length ≤ maxStack
  callers : ∀ caller ∈ state.callers, caller.stack.length < maxStack

/-- What an instruction leaves on the stack. -/
theorem Moves.length_le {op : Op} {frame after : Frame} {values : List Value}
    (h : Moves op frame after values) (hvalues : values.length = op.puts)
    (hroom : frame.stack.length < maxStack) : after.stack.length ≤ maxStack := by
  have hputs := op.puts_le_one
  rw [h.stack, List.length_append, List.length_drop]
  omega

theorem pushFrame_roomy {callee : Frame} {frames : List Frame} {executed : Nat} {world : World σ}
    {next : State σ} (hcallee : callee.stack = [])
    (hframes : ∀ frame ∈ frames, frame.stack.length < maxStack)
    (hpush : pushFrame callee frames executed world = .running next) : next.Roomy := by
  unfold pushFrame at hpush
  split at hpush
  · cases hpush
  · cases hpush
    exact ⟨by simp [hcallee], hframes⟩

theorem deliver_roomy {value : Value} {callers : List Frame} {executed : Nat} {world : World σ}
    {next : State σ} (hcallers : ∀ caller ∈ callers, caller.stack.length < maxStack)
    (hdeliver : deliver value callers executed world = .running next) : next.Roomy := by
  cases callers with
  | nil => cases hdeliver
  | cons caller rest =>
    cases hdeliver
    obtain ⟨hcaller, hrest⟩ := List.forall_mem_cons.mp hcallers
    exact ⟨hcaller, hrest⟩

theorem finish_roomy {program : Program} {resume : Resume} {value : Value} {callers : List Frame}
    {executed : Nat} {world : World σ} {next : State σ}
    (hcallers : ∀ caller ∈ callers, caller.stack.length < maxStack)
    (hfinish : finish program resume value callers executed world = .running next) :
    next.Roomy := by
  unfold finish at hfinish
  split at hfinish
  · exact deliver_roomy hcallers hfinish
  · exact deliver_roomy hcallers hfinish
  · exact deliver_roomy hcallers hfinish
  · split at hfinish
    · cases hfinish
    · rename_i henter
      obtain ⟨f, -, -, rfl⟩ := enter_ok henter
      exact pushFrame_roomy rfl hcallers hfinish

/-- A frame that is put on top of others starts with an empty stack. -/
theorem Acts.callee_empty {frame caller callee : Frame} {world world' : World σ} {op : Op}
    (h : Acts setting frame world op (.enter caller callee world')) : callee.stack = [] := by
  cases h with
  | call _ entered | callMethod _ _ _ entered =>
    obtain ⟨f, -, -, rfl⟩ := enter_ok entered
    rfl
  | create _ made =>
    obtain ⟨c, -, -, henter, -⟩ := construct_ok made
    obtain ⟨f, -, -, rfl⟩ := enter_ok henter
    rfl

/-- A step makes no stack more than full. -/
theorem State.Roomy.step {state next : State σ} (h : state.Roomy)
    (hstep : Machine.step setting state = .running next) : next.Roomy := by
  cases stepped setting state with
  | off _ steps =>
    rw [steps] at hstep
    exact finish_roomy h.callers hstep
  | limited _ _ steps | full _ _ steps =>
    rw [steps] at hstep
    cases hstep
  | @acts op result opAt room acted steps =>
    rw [steps] at hstep
    cases result with
    | next after world =>
      cases hstep
      obtain ⟨values, hvalues, -, hmoves⟩ := acted.moves
      exact ⟨hmoves.length_le hvalues room, h.callers⟩
    | enter caller callee world =>
      obtain ⟨-, -, hmoves⟩ := acted.waits
      refine pushFrame_roomy acted.callee_empty (List.forall_mem_cons.mpr ⟨?_, h.callers⟩) hstep
      rw [hmoves.stack, List.nil_append, List.length_drop]
      exact Nat.lt_of_le_of_lt (Nat.sub_le _ _) room
    | ret value world => exact finish_roomy h.callers hstep
    | fault e world => cases hstep

/-- A run makes no stack more than full. -/
theorem Steps.roomy {count : Nat} {first last : State σ} (hsteps : Steps setting count first last)
    (h : first.Roomy) : last.Roomy := by
  induction hsteps with
  | refl => exact h
  | head hstep _ ih => exact ih (h.step hstep)

theorem Started.roomy {first : State σ} (h : Started setting first) : first.Roomy := by
  obtain ⟨hcallers, name, chunk, this, args, resume, hframe⟩ := h.fresh
  refine ⟨?_, by simp [hcallers]⟩
  rw [hframe]
  exact Nat.zero_le _

/-! ## Stacks are as deep as the code says -/

/-- Frames keep to the depths for their code, if there are any, whatever else is in the program. -/
theorem framewise_depths (setting : Setting σ) : Framewise setting
    (fun frame => ∀ depths, Balanced depths frame.chunk.ops →
      depths[frame.ip]? = some frame.stack.length)
    (fun frame => ∀ depths, Balanced depths frame.chunk.ops →
      depths[frame.ip]? = some (frame.stack.length + 1)) where
  starts := fun _ _ _ _ _ _ hbalanced => hbalanced.entry
  goes := fun {frame after _ _ op} hframe hop hacts depths hbalanced => by
    obtain ⟨values, hvalues, -, hmoves⟩ := hacts.moves
    rw [hmoves.chunk] at hbalanced
    have hbehind := (hbalanced.fits _ op hop).behind (hframe depths hbalanced) hmoves.ip
    rw [hbehind, hmoves.stack, List.length_append, hvalues, List.length_drop, Nat.add_comm]
    rfl
  pauses := fun {frame after _ _ _ op} hframe hop hacts depths hbalanced => by
    obtain ⟨hputs, -, hmoves⟩ := hacts.waits
    rw [hmoves.chunk] at hbalanced
    have hbehind := (hbalanced.fits _ op hop).behind (hframe depths hbalanced) hmoves.ip
    rw [hbehind, hmoves.stack, hputs, List.nil_append, List.length_drop]
    rfl
  resumes := fun hwaits _ depths hbalanced => hwaits depths hbalanced

/-- In every state of a run the stack of the frame that runs is as deep as its code says. -/
theorem Steps.depth {first last : State σ} {count : Nat} (hsteps : Steps setting count first last)
    (hstarted : Started setting first) {depths : Array Nat}
    (hbalanced : Balanced depths last.frame.chunk.ops) :
    depths[last.frame.ip]? = some last.frame.stack.length := by
  refine ((framewise_depths setting).steps hsteps ⟨?_, ?_⟩).frame depths hbalanced
  · obtain ⟨-, name, chunk, this, args, resume, hframe⟩ := hstarted.fresh
    rw [hframe]
    exact (framewise_depths setting).starts name chunk this args resume
  · simp [hstarted.fresh.1]

/-! ## Overflows -/

/-- The next step ends the run because the operand stack overflows. -/
def State.Overflows (setting : Setting σ) (state : State σ) : Prop :=
  ∃ ending trace, step setting state = .ended ending ∧
    ending.result = .error ⟨.stackOverflow, trace⟩

/-- A value that is handed on is no fault. -/
theorem deliver_ne {value : Value} {callers : List Frame} {executed : Nat} {world : World σ}
    {ending : Ending σ} {e : RuntimeError}
    (h : deliver value callers executed world = .ended ending) : ending.result ≠ .error e := by
  cases callers with
  | nil =>
    cases h
    exact nofun
  | cons caller rest => cases h

/-- A frame that is finished does not overflow. -/
theorem finish_ne_overflow {program : Program} {resume : Resume} {value : Value}
    {callers : List Frame} {executed : Nat} {world : World σ} {ending : Ending σ}
    {trace : List String}
    (h : finish program resume value callers executed world = .ended ending) :
    ending.result ≠ .error ⟨.stackOverflow, trace⟩ := by
  intro he
  unfold finish at h
  split at h
  · exact deliver_ne h he
  · exact deliver_ne h he
  · exact deliver_ne h he
  · split at h
    · rename_i henter
      cases h
      cases he
      exact (enter_error_ne henter).2.1 rfl
    · rw [(pushFrame_ended h).2] at he
      cases he

/-- The operand stack overflows where it is full before an instruction that is within the limit. -/
theorem overflows_iff (state : State σ) : state.Overflows setting ↔
    (∃ op, state.frame.chunk.ops[state.frame.ip]? = some op) ∧
      exceeded? setting.limit (state.executed + 1) = none ∧
        maxStack ≤ state.frame.stack.length := by
  constructor
  · rintro ⟨ending, trace, hstep, he⟩
    cases stepped setting state with
    | off _ steps => exact absurd he (finish_ne_overflow (steps.symm.trans hstep))
    | limited _ _ steps =>
      cases steps.symm.trans hstep
      cases he
    | @full op opAt noRoom steps =>
      refine ⟨⟨op, opAt⟩, ?_, noRoom⟩
      cases hlimit : exceeded? setting.limit (state.executed + 1) with
      | none => rfl
      | some limit =>
        -- an instruction beyond the limit is not tried
        obtain ⟨frame, callers, executed, world⟩ := state
        simp only [step, opAt, instruction, hlimit] at hstep
        cases hstep
        cases he
    | @acts op result opAt room acted steps =>
      have houtcome := steps.symm.trans hstep
      cases result with
      | next after world => cases houtcome
      | enter caller callee world =>
        rw [(pushFrame_ended houtcome).2] at he
        cases he
      | ret value world => exact absurd he (finish_ne_overflow houtcome)
      | fault e world =>
        cases houtcome
        cases he
        obtain ⟨-, hunderflow⟩ | ⟨-, hne⟩ := acted.fault_cases
        · cases hunderflow
        · exact absurd rfl hne
  · rintro ⟨⟨op, hop⟩, hlimit, hfull⟩
    obtain ⟨frame, callers, executed, world⟩ := state
    refine ⟨⟨.error ⟨.stackOverflow, traceOf (frame :: callers)⟩, executed + 1, world⟩,
      traceOf (frame :: callers), ?_, rfl⟩
    simp only [step, hop, instruction, hlimit, if_pos hfull]
    rfl

/-! ## A stack that is just full -/

/-- A frame that has carried out so many instructions, and holds as many nulls. -/
def nullsOn (chunk : Chunk) (count : Nat) : Frame :=
  { Frame.start topLevelName chunk none [] .value with
    ip := count, stack := List.replicate count .null }

/-- As many nulls can be pushed as a stack can hold. -/
theorem steps_pushNull (program : Program) (catalog : Catalog σ) {chunk : Chunk} (world : World σ)
    {count : Nat} (hops : ∀ place < count, chunk.ops[place]? = some .pushNull)
    (hcount : count ≤ maxStack) :
    Steps ⟨program, catalog, none⟩ count ⟨nullsOn chunk 0, [], 0, world⟩
      ⟨nullsOn chunk count, [], count, world⟩ := by
  induction count with
  | zero => exact .refl
  | succ count ih =>
    have hbefore := ih (fun place hplace => hops place (Nat.lt_succ_of_lt hplace))
      (Nat.le_of_succ_le hcount)
    refine hbefore.trans (.head ?_ .refl)
    have hop : (nullsOn chunk count).chunk.ops[(nullsOn chunk count).ip]? = some .pushNull :=
      hops count (Nat.lt_succ_self count)
    have hroom : ¬ maxStack ≤ (nullsOn chunk count).stack.length := by
      rw [nullsOn, List.length_replicate]
      exact Nat.not_le.mpr hcount
    simp only [step, hop, instruction, exceeded?, Option.filter_none, if_neg hroom, effect]
    rfl

/-- A call of a method on null with as many arguments as a call can have. -/
def crowded : Resolved.Unit where
  functionBase := 0
  functions := #[]
  classBase := 0
  classes := #[]
  functionNames := []
  globals := []
  topLevel := [.expr (.callMethod (.const .null) "m" (List.replicate 255 (.const .null)))]
  topLevelLocals := 0
  returnsValue := true

/-- The code of the call. -/
def crowdedCode : CompiledUnit where
  functionBase := 0
  functions := #[]
  classBase := 0
  classes := #[]
  functionNames := []
  globals := []
  hostCalls := #[]
  bindingBase := 0
  topLevel :=
    { ops := (Op.pushNull :: List.replicate 255 Op.pushNull ++
        [Op.callMethod 0 255, Op.ret, Op.pushNull, Op.ret]).toArray
      constants := #[.str "m"] }
  returnsValue := true

set_option maxRecDepth 8000 in
/-- A call with as many operands as a stack can hold is made into code. -/
theorem crowded_compiled : crowdedCode.topLevel.Compiled
    (Resolved.topLevelDepths crowded.returnsValue crowded.topLevel) := by
  have hcompiles : crowded.compile 0 = .ok crowdedCode := by with_unfolding_all rfl
  exact .topLevel hcompiles

/-- Nulls are slim. -/
theorem slim_nulls (count : Nat) :
    ∀ operand ∈ Resolved.Expr.const .null :: List.replicate count (.const .null),
      operand.Slim := by
  intro operand hoperand
  rw [← List.replicate_succ] at hoperand
  obtain rfl := List.eq_of_mem_replicate hoperand
  simp [Resolved.Expr.Slim, Resolved.Expr.depths]

/-- No operand of the call is deeper than is allowed. -/
theorem crowded_depths :
    ∀ depth ∈ Resolved.topLevelDepths crowded.returnsValue crowded.topLevel, depth ≤ maxStack := by
  intro depth hdepth
  have hlength : ([Resolved.Expr.const .null] ++
      List.replicate 255 (Resolved.Expr.const .null)).length = maxStack := by
    rw [List.length_append, List.length_replicate]
    rfl
  change depth ∈ ((Resolved.Expr.callMethod (.const .null) "m"
    (List.replicate 255 (.const .null))).depths 0 ++ [1, 0, 1]).toArray at hdepth
  rw [Resolved.Expr.Calls.method.depths_eq, hlength, List.mem_toArray, List.mem_append,
    List.mem_append] at hdepth
  obtain (hdepth | hdepth) | hdepth := hdepth
  · have hle := Resolved.Expr.depthsAll_le (slim_nulls 255) 0 depth hdepth
    rwa [List.length_cons, List.length_replicate, Nat.zero_add] at hle
  · rw [List.mem_singleton.mp hdepth]
    exact Nat.le_of_eq (Nat.zero_add maxStack)
  · have hsmall : ∀ depth ∈ [1, 0, 1], depth ≤ maxStack := by decide
    exact hsmall depth hdepth

/-- All operands of the call can be pushed, and then the call is next. -/
theorem crowded_steps (world : World σ) :
    Steps ⟨{}, {}, none⟩ maxStack ⟨nullsOn crowdedCode.topLevel 0, [], 0, world⟩
        ⟨nullsOn crowdedCode.topLevel maxStack, [], maxStack, world⟩ ∧
      crowdedCode.topLevel.ops[maxStack]? = some (.callMethod 0 255) := by
  have hcode : crowdedCode.topLevel.ops = (List.replicate maxStack Op.pushNull ++
      [Op.callMethod 0 255, Op.ret, Op.pushNull, Op.ret]).toArray := rfl
  refine ⟨steps_pushNull {} {} world (fun place hplace => ?_) (Nat.le_refl _), ?_⟩
  · rw [hcode, List.getElem?_toArray, List.getElem?_append_left (by simpa using hplace),
      List.getElem?_replicate, if_pos hplace]
  · rw [hcode, List.getElem?_toArray, List.getElem?_append_right (by simp)]
    simp

/-- No stack ever holds more values than are allowed. Code overflows where a frame has as many as
are allowed and is not finished: it takes a bound below the limit on the depths to rule that out. A
call with slim operands has room unless it passes as many arguments as a call can have to a
method. -/
theorem overflows_iff_full [Inhabited σ] :
    (∀ {setting : Setting σ} {first last : State σ} {count : Nat}, Started setting first →
        Steps setting count first last →
          ∀ frame ∈ last.frames, frame.stack.length ≤ maxStack) ∧
      (∀ {setting : Setting σ} {first last : State σ} {count : Nat} {depths : Array Nat},
        Started setting first → Steps setting count first last → last.frame.chunk.Compiled depths →
          depths[last.frame.ip]? = some last.frame.stack.length ∧
            (last.Overflows setting ↔ exceeded? setting.limit (last.executed + 1) = none ∧
              depths[last.frame.ip]? = some maxStack)) ∧
      (∀ bound : Nat,
        (∀ {setting : Setting σ} {first last : State σ} {count : Nat} {depths : Array Nat},
          Started setting first → Steps setting count first last →
            last.frame.chunk.Compiled depths → (∀ depth ∈ depths, depth ≤ bound) →
              ¬ last.Overflows setting) ↔ bound < maxStack) ∧
      ∀ {e : Resolved.Expr} {receiver args : List Resolved.Expr}, e.Calls receiver args →
        args.length ≤ Code.maxArguments → (∀ operand ∈ receiver ++ args, operand.Slim) →
          ((∀ depth ∈ (Resolved.Stmt.expr e).depths, depth < maxStack) ↔
            receiver = [] ∨ args.length < Code.maxArguments) := by
  have hdepth {setting : Setting σ} {first last : State σ} {count : Nat} {depths : Array Nat}
      (hstarted : Started setting first) (hsteps : Steps setting count first last)
      (hcompiled : last.frame.chunk.Compiled depths) :
      depths[last.frame.ip]? = some last.frame.stack.length ∧
        (last.Overflows setting ↔ exceeded? setting.limit (last.executed + 1) = none ∧
          depths[last.frame.ip]? = some maxStack) := by
    have hbalanced := hcompiled.balanced
    have hat := hsteps.depth hstarted hbalanced
    have hroom := (hsteps.roomy hstarted.roomy).frame
    have hinside := (Array.getElem?_eq_some_iff.mp hat).1
    rw [hbalanced.size] at hinside
    refine ⟨hat, ?_⟩
    rw [overflows_iff, hat, Option.some.injEq]
    constructor
    · rintro ⟨-, hlimit, hfull⟩
      exact ⟨hlimit, Nat.le_antisymm hroom hfull⟩
    · rintro ⟨hlimit, hfull⟩
      exact ⟨⟨_, Array.getElem?_eq_getElem hinside⟩, hlimit, Nat.le_of_eq hfull.symm⟩
  refine ⟨fun hstarted hsteps frame hframe => ?_, hdepth, fun bound => ⟨fun hnever => ?_,
    fun hbound _ _ _ _ _ hstarted hsteps hcompiled hdepths hoverflows => ?_⟩,
    fun hcalls hfew hslim => ?_⟩
  · have hroomy := hsteps.roomy hstarted.roomy
    obtain rfl | hcaller := List.mem_cons.mp hframe
    · exact hroomy.frame
    · exact Nat.le_of_lt (hroomy.callers frame hcaller)
  · refine Nat.lt_of_not_le fun hbound => ?_
    obtain ⟨hsteps, hcall⟩ := crowded_steps ⟨#[], {}, (default : σ)⟩
    refine hnever (.topLevel crowdedCode.topLevel _) hsteps crowded_compiled
      (fun depth hmem => Nat.le_trans (crowded_depths depth hmem) hbound) ?_
    exact (overflows_iff _).mpr ⟨⟨_, hcall⟩, rfl, Nat.le_of_eq List.length_replicate.symm⟩
  · obtain ⟨-, hoverflow⟩ := hdepth hstarted hsteps hcompiled
    have hfull := (hoverflow.mp hoverflows).2
    exact Nat.not_le.mpr hbound (hdepths _ (Array.mem_of_getElem? hfull))
  · rw [hcalls.fits_iff hslim, List.length_append]
    cases hcalls <;> simp [maxStack, Code.maxArguments] at hfew ⊢ <;> omega

/-- The call on null with as many arguments as there can be fills the stack and overflows. The same
arguments without a receiver have room. -/
theorem full_stack_overflows :
    let setting : Setting PUnit := ⟨{}, {}, none⟩
    let last : State PUnit :=
      ⟨nullsOn crowdedCode.topLevel maxStack, [], maxStack, ⟨#[], {}, ⟨⟩⟩⟩
    let args := List.replicate 255 (Resolved.Expr.const .null)
    (∀ frame ∈ last.frames, frame.stack.length ≤ maxStack) ∧ last.Overflows setting ∧
      (∀ depth ∈ (Resolved.Stmt.expr (.call 0 args)).depths, depth < maxStack) ∧
        ¬ ∀ depth ∈ (Resolved.Stmt.expr (.callMethod (.const .null) "m" args)).depths,
          depth < maxStack := by
  intro setting last args
  obtain ⟨hroomy, hdepths, -, hcalls⟩ := overflows_iff_full (σ := PUnit)
  have hstarted : Started setting ⟨nullsOn crowdedCode.topLevel 0, [], 0, ⟨#[], {}, ⟨⟩⟩⟩ :=
    .topLevel crowdedCode.topLevel _
  obtain ⟨hsteps, -⟩ := crowded_steps (σ := PUnit) ⟨#[], {}, ⟨⟩⟩
  obtain ⟨hdepth, hoverflows⟩ := hdepths hstarted hsteps crowded_compiled
  have hslim := slim_nulls 255
  have hlength : args.length = Code.maxArguments := List.length_replicate
  refine ⟨hroomy hstarted hsteps, hoverflows.mpr ⟨rfl, ?_⟩, ?_, fun hall => ?_⟩
  · rw [hdepth]
    exact congrArg some List.length_replicate
  · exact (hcalls .function (Nat.le_of_eq hlength) fun operand hoperand =>
      hslim operand (List.mem_cons_of_mem _ hoperand)).mpr (.inl rfl)
  · obtain hnone | hless := (hcalls .method (Nat.le_of_eq hlength) hslim).mp hall
    · cases hnone
    · exact absurd hlength (Nat.ne_of_lt hless)

end Machine

end ScriptHost
