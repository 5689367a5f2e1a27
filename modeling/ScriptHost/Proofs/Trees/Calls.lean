import ScriptHost.Proofs.Trees.Follow
/-!
# Following calls

A program and trees match if they have the same classes, and functions of the same names and
arities, the code of each having the layout of its tree. A call then leads both to the same function
or to the same fault; what the callee does is a hypothesis here (`Invokes`), to be discharged by
induction on the time that calls may take.
-/

set_option autoImplicit false

namespace ScriptHost

open Resolved (Trees LinkedFunction Activation Eval)

/-- The bindings of a pool's host calls are in the program, with the modules of a unit. -/
def Bound (program : Program) (pool : Code.Pool) (base : Nat) (allowed : AllowedModules) : Prop :=
  ∀ index module function, pool.hostCalls[index]? = some (module, function) →
    program.bindings[base + index]? = some ⟨allowed.get? module, module, function⟩

/-- A linked function is made from a tree. -/
structure FunctionMatches (program : Program) (f : Function) (t : LinkedFunction) : Prop where
  name : f.name = t.function.name
  arity : f.arity = t.function.arity
  localCount : f.chunk.localCount = t.function.localCount
  lowered : ∃ pool base, f.chunk.constants = pool.constants ∧
    Code.BodyLowered pool base t.function.body f.chunk.ops.toList ∧
    Bound program pool base t.allowed

/-- A program is made from trees. -/
structure Matches (program : Program) (trees : Trees) : Prop where
  classes : program.classes = trees.classes
  size : program.functions.size = trees.functions.size
  functions : ∀ (id : Nat) (f : Function) (t : LinkedFunction),
    program.functions[id]? = some f → trees.functions[id]? = some t → FunctionMatches program f t

namespace Machine

variable {σ : Type} {setting : Setting σ} {trees : Trees}

/-- A call leads to a fault in both, the same one. -/
structure Refused (program : Program) (trees : Trees) (id : Nat) (this : Option ObjectRef)
    (args : List Value) (resume : Resume) (e : Fault) : Prop where
  tree : trees.callee id args.length = .error e
  machine : enter program id this args resume = .error e

/-- A call leads to a function in both, to a tree and the code made from it. -/
structure Accepted (program : Program) (trees : Trees) (id : Nat) (this : Option ObjectRef)
    (args : List Value) (resume : Resume) (t : LinkedFunction) (f : Function) : Prop where
  tree : trees.callee id args.length = .ok t
  machine : enter program id this args resume = .ok (.start f.name f.chunk this args resume)
  treeAt : trees.functions[id]? = some t
  codeAt : program.functions[id]? = some f
  name : f.name = t.function.name

/-- A call is refused in both or accepted in both. -/
theorem refused_or_accepted {program : Program} (hmatch : Matches program trees) (id : Nat)
    (this : Option ObjectRef) (args : List Value) (resume : Resume) :
    (∃ e, Refused program trees id this args resume e) ∨
      ∃ t f, Accepted program trees id this args resume t f := by
  cases hf : program.functions[id]? with
  | none =>
    have ht : trees.functions[id]? = none := by
      rw [Array.getElem?_eq_none_iff, ← hmatch.size]
      exact Array.getElem?_eq_none_iff.mp hf
    exact .inl ⟨.invalidFunction id, by simp [Trees.callee, ht], by simp [enter, hf]⟩
  | some f =>
    have hinside : id < trees.functions.size := by
      rw [← hmatch.size]
      exact (Array.getElem?_eq_some_iff.mp hf).1
    have ht : trees.functions[id]? = some trees.functions[id] := Array.getElem?_eq_getElem hinside
    have hfunction := hmatch.functions id f _ hf ht
    by_cases hargs : args.length = f.arity
    · refine .inr ⟨trees.functions[id], f, ?_, ?_, ht, hf, hfunction.name⟩
      · simp [Trees.callee, ht, hargs, hfunction.arity]
      · simp [enter, hf, hargs]
    · refine .inl ⟨.argumentCount f.name (toString f.arity) args.length, ?_, ?_⟩
      · rw [hfunction.arity] at hargs
        simp [Trees.callee, ht, hargs, hfunction.name, hfunction.arity]
      · simp [enter, hf, hargs]

/-- A method is found in both or in neither. -/
theorem method_eq {program : Program} (hmatch : Matches program trees) (receiver : Value)
    (name : String) : method program receiver name = trees.method receiver name := by
  unfold method Trees.method
  have hclasses := hmatch.classes
  cases receiver with
  | object object =>
    cases hclass : trees.classes[object.classId]? with
    | none => simp only [hclasses, hclass]
    | some c => cases hmethod : c.methods.get? name <;> simp only [hclasses, hclass, hmethod]
  | _ => rfl

/-- The next step hands a value to the frame that waits for it. -/
def Delivers (setting : Setting σ) (value : Value) (callers : List Frame) (state : State σ) :
    Prop :=
  ∃ executed, step setting state = deliver value callers executed state.world

/-- The next step finishes a frame, which returns a value. -/
def Returns (setting : Setting σ) (resume : Resume) (value : Value) (callers : List Frame)
    (state : State σ) : Prop :=
  ∃ executed,
    step setting state = finish setting.program resume value callers executed state.world

/-- A frame about to run a function follows `invoke` to its return, where `active` calls are active
with it. -/
def Invokes (setting : Setting σ) (trees : Trees) (time active : Nat)
    (invoke : LinkedFunction → Option ObjectRef → List Value → Eval σ Value) : Prop :=
  ∀ (id : Nat) (t : LinkedFunction) (f : Function), trees.functions[id]? = some t →
    setting.program.functions[id]? = some f →
    ∀ (this : Option ObjectRef) (args : List Value) (resume : Resume) (callers : List Frame),
      callers.length + 1 = active →
      ∀ state : State σ, state.At (.start f.name f.chunk this args resume) callers 0 [] →
        Follows setting time state (fun value next => Returns setting resume value callers next)
          (invoke t this args state.world)

/-- What the calls of an activation need to be followed. -/
structure Surrounds (setting : Setting σ) (act : Activation σ) (time : Nat) : Prop where
  limit : setting.limit = none
  program : Matches setting.program act.trees
  catalog : act.catalog = setting.catalog
  invoke : Invokes setting act.trees time (act.active + 1) act.invoke

/-- There is room for a call, or else both have the same fault. -/
theorem Follows.room {α : Type} {time active : Nat} {callee : String} {state : State σ}
    {after : α → State σ → Prop} {rest : Eval σ α} {world : World σ}
    (hfull : maxCallDepth ≤ active → Stops setting state (.callDepth callee) world)
    (hroom : active < maxCallDepth → Follows setting time state after (rest world)) :
    Follows setting time state after ((Eval.room active callee >>= fun _ => rest) world) := by
  unfold Eval.room
  by_cases hactive : maxCallDepth ≤ active
  · rw [if_pos hactive]
    exact .stop (hfull hactive)
  · rw [if_neg hactive]
    exact hroom (Nat.lt_of_not_le hactive)

/-- A frame is put on top of those that wait, if there is room, and its value is handed to the frame
of the instruction. -/
theorem Follows.entered {time active executed : Nat} {state : State σ} {f callee : Frame}
    {callers : List Frame} {ip : Nat} {rest : List Value} {world : World σ} {name : String}
    {body : Eval σ Value} (hactive : callers.length + 1 = active) (hname : callee.name = name)
    (hstep : step setting state = pushFrame callee (f.at ip rest :: callers) executed world)
    (hbody : active < maxCallDepth →
      Follows setting time ⟨callee, f.at ip rest :: callers, executed, world⟩
        (fun value next => Delivers setting value (f.at ip rest :: callers) next) (body world)) :
    Follows setting (time + 1) state (fun value next => next.At f callers ip (value :: rest))
      ((Eval.room active name >>= fun _ => body) world) := by
  have hdepth : (f.at ip rest :: callers).length = active := hactive
  refine .room (fun hfull => ?_) fun hroom => ?_
  · rw [pushFrame, hdepth, if_pos hfull, hname] at hstep
    exact .of_step hstep
  · rw [pushFrame, hdepth, if_neg (Nat.not_le.mpr hroom)] at hstep
    refine .of_step hstep ((hbody hroom).more ?_)
    rintro value next ⟨executed', hdeliver⟩
    exact .of_steps (.head hdeliver .refl) (.done ⟨rfl, rfl⟩ rfl)

/-- A call by an instruction, which has taken its operands from the stack. -/
theorem call_follows {act : Activation σ} {time : Nat} (hact : Surrounds setting act time)
    {f : Frame} {callers : List Frame} (hactive : callers.length + 1 = act.active)
    {state : State σ} {ip : Nat} {stack rest : List Value} {op : Op}
    (hat : state.At f callers ip stack) (hop : f.chunk.ops[ip]? = some op) {id : Nat}
    {this : Option ObjectRef} {args : List Value}
    (heffect : effect setting (f.at (ip + 1) stack) state.world op =
      .attempt state.world (enter setting.program id this args .value)
        fun callee => .enter (f.at (ip + 1) rest) callee) :
    Follows setting (time + 1) state
      (fun value next => next.At f callers (ip + 1) (value :: rest))
      (act.call id this args state.world) := by
  refine .instruction hact.limit hat hop fun hstep => ?_
  rw [heffect] at hstep
  unfold Activation.call
  obtain ⟨e, hrefused⟩ | ⟨t, g, haccepted⟩ :=
    refused_or_accepted hact.program id this args .value
  · rw [hrefused.machine] at hstep
    rw [hrefused.tree]
    exact .stop (.of_step hstep)
  · rw [haccepted.machine] at hstep
    rw [haccepted.tree]
    have hdepth : (f.at (ip + 1) rest :: callers).length = act.active := hactive
    exact .entered hactive haccepted.name hstep fun _ =>
      hact.invoke id t g haccepted.treeAt haccepted.codeAt this args .value _
        (congrArg (· + 1) hdepth) _ ⟨rfl, rfl⟩

/-- The two calls that make an object: the initialisation of its fields and its constructor. -/
theorem initialise_follows {act : Activation σ} {time : Nat} (hact : Surrounds setting act time)
    {callers : List Frame} (hactive : callers.length = act.active)
    (hroom : act.active < maxCallDepth) {id : Nat} {t : LinkedFunction} {f : Function}
    (htree : act.trees.functions[id]? = some t)
    (hcode : setting.program.functions[id]? = some f) {object : ObjectRef}
    {constructor? : Option Nat} {args : List Value} {state : State σ}
    (hat : state.At (.start f.name f.chunk (some object) []
      (.construct object (constructor?.map fun id => (id, args)))) callers 0 []) :
    Follows setting time state (fun value next => Delivers setting value callers next)
      (act.initialise t object constructor? args state.world) := by
  have hdepth : callers.length + 1 = act.active + 1 := by rw [hactive]
  unfold Activation.initialise
  refine (hact.invoke id t f htree hcode _ _ _ callers hdepth state hat).bind ?_
  rintro value next ⟨executed, hreturn⟩
  cases constructor? with
  | none => exact .pure ⟨executed, hreturn⟩
  | some constructor =>
    obtain ⟨e, hrefused⟩ | ⟨t', g, haccepted⟩ :=
      refused_or_accepted hact.program constructor (some object) args (.object object)
    · simp only [hrefused.tree]
      have hstop : step setting next =
          .ended ⟨.error ⟨e, traceOf callers⟩, executed, next.world⟩ := by
        rw [hreturn]
        simp only [Option.map_some, finish, hrefused.machine]
        rfl
      exact .stop (.of_step hstop)
    · simp only [haccepted.tree, Eval.ok_bind]
      have hpush : step setting next =
          .running ⟨.start g.name g.chunk (some object) args (.object object), callers, executed,
            next.world⟩ := by
        rw [hreturn]
        simp only [Option.map_some, finish, haccepted.machine, pushFrame, hactive,
          if_neg (Nat.not_le.mpr hroom)]
      refine .of_steps (.head hpush .refl) ?_
      refine .bind (hact.invoke constructor t' g haccepted.treeAt haccepted.codeAt _ _
        (.object object) callers hdepth _ ⟨rfl, rfl⟩) ?_
      rintro _ last ⟨executed', hreturn'⟩
      exact .pure ⟨executed', hreturn'⟩

/-- The start of an object's creation: refused in both, or begun in both with the same object. -/
theorem construct_cases (act : Activation σ) {program : Program}
    (hmatch : Matches program act.trees) (classId : Nat) (args : List Value) (world : World σ) :
    (∃ e, construct program classId args world.heap = .error e ∧
        act.create classId args world = some (.error e, world)) ∨
      ∃ (c : Class) (object : ObjectRef) (fields : Fields) (t : LinkedFunction) (f : Function),
        act.trees.functions[c.fieldInit]? = some t ∧
        program.functions[c.fieldInit]? = some f ∧
        f.name = t.function.name ∧
        construct program classId args world.heap =
          .ok (.start f.name f.chunk (some object) []
            (.construct object (c.constructor?.map fun id => (id, args))), fields) ∧
        act.create classId args world =
          (do
            Eval.room act.active t.function.name
            act.initialise t object c.constructor? args : Eval σ Value)
            { world with heap := world.heap.alloc fields } := by
  unfold construct Activation.create Trees.madeFrom
  rw [hmatch.classes]
  cases act.trees.classes[classId]? with
  | none => exact .inl ⟨_, rfl, rfl⟩
  | some c =>
    have hsame : (c.constructor?.isNone && !args.isEmpty) =
        decide (c.constructor? = none ∧ args.length ≠ 0) := by
      cases c.constructor? <;> cases args <;> simp
    by_cases hnone : c.constructor? = none ∧ args.length ≠ 0
    · have hrefuse : (c.constructor?.isNone && !args.isEmpty) = true := by
        rw [hsame]
        exact decide_eq_true hnone
      refine .inl ⟨.noConstructor c.name args.length, ?_, ?_⟩
      · simp only [hrefuse, if_true]
      · simp only [if_pos hnone]
        rfl
    · have hmade : (c.constructor?.isNone && !args.isEmpty) = false := by
        rw [hsame]
        exact decide_eq_false hnone
      simp only [hmade, Bool.false_eq_true, if_false, if_neg hnone, Eval.ok_bind]
      obtain ⟨e, hrefused⟩ | ⟨t, f, haccepted⟩ :=
        refused_or_accepted hmatch c.fieldInit (some (world.heap.next classId c.name)) []
          (.construct (world.heap.next classId c.name) (c.constructor?.map fun id => (id, args)))
      · have htree : act.trees.callee c.fieldInit 0 = .error e := hrefused.tree
        refine .inl ⟨e, ?_, ?_⟩
        · rw [hrefused.machine]
          rfl
        · rw [htree, Eval.error_bind]
      · have htree : act.trees.callee c.fieldInit 0 = .ok t := haccepted.tree
        refine .inr ⟨c, world.heap.next classId c.name,
          .ofList (c.fields.map fun name => (name, .null)), t, f, haccepted.treeAt,
          haccepted.codeAt, haccepted.name, ?_, ?_⟩
        · rw [haccepted.machine]
          rfl
        · rw [htree, Eval.ok_bind]
          rfl

/-- The creation of an object by an instruction, which has taken its operands from the stack. -/
theorem create_follows {act : Activation σ} {time : Nat} (hact : Surrounds setting act time)
    {f : Frame} {callers : List Frame} (hactive : callers.length + 1 = act.active)
    {state : State σ} {ip : Nat} {stack rest : List Value} {op : Op}
    (hat : state.At f callers ip stack) (hop : f.chunk.ops[ip]? = some op) {classId : Nat}
    {args : List Value}
    (heffect : effect setting (f.at (ip + 1) stack) state.world op =
      .attempt state.world (construct setting.program classId args state.world.heap)
        fun made world => .enter (f.at (ip + 1) rest) made.1
          { world with heap := world.heap.alloc made.2 }) :
    Follows setting (time + 1) state
      (fun value next => next.At f callers (ip + 1) (value :: rest))
      (act.create classId args state.world) := by
  refine .instruction hact.limit hat hop fun hstep => ?_
  rw [heffect] at hstep
  obtain ⟨e, hmachine, htree⟩ |
    ⟨c, object, fields, t, g, htreeAt, hcodeAt, hname, hmachine, htree⟩ :=
    construct_cases act hact.program classId args state.world
  · rw [hmachine] at hstep
    rw [htree]
    exact .stop (.of_step hstep)
  · rw [hmachine] at hstep
    rw [htree]
    have hdepth : (f.at (ip + 1) rest :: callers).length = act.active := hactive
    exact .entered hactive hname hstep fun hroom =>
      initialise_follows hact hdepth hroom htreeAt hcodeAt ⟨rfl, rfl⟩

end Machine

end ScriptHost
