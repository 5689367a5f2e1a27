import ScriptHost.Machine.Basic
/-!
# What an instruction can do

`Machine.Acts` lists all that an instruction can do to a frame and its world, with the operands that
it finds on the stack. Invariants of the machine are read off this list, none of them looks at the
instructions themselves again.
-/

set_option autoImplicit false

namespace ScriptHost

namespace Op

/-- The number of operands that an instruction takes from the stack. -/
def needs : Op → Nat
  | .pushConst _ | .pushNull | .pushTrue | .pushFalse | .loadLocal _ | .loadGlobal _ | .loadThis
  | .jump _ => 0
  | .storeLocal _ | .storeGlobal _ | .getField _ | .pop | .neg | .not | .jumpIfFalse _ | .ret => 1
  | .setField _ | .add | .sub | .mul | .div | .mod | .lt | .gt | .le | .ge | .eq | .ne => 2
  | .call _ argc | .callHost _ argc | .create _ argc => argc
  | .callMethod _ argc => argc + 1

/-- The number of values that an instruction leaves on the stack, a call when it has returned. -/
def puts : Op → Nat
  | .storeLocal _ | .storeGlobal _ | .setField _ | .pop | .jumpIfFalse _ | .jump _ | .ret => 0
  | _ => 1

/-- The places where a frame can go on after an instruction, which has `next` behind it. -/
def successors (next : Nat) : Op → List Nat
  | .jump target => [target]
  | .jumpIfFalse target => [next, target]
  | .ret => []
  | _ => [next]

/-- The operator that an instruction applies to one operand. -/
def unary? : Op → Option (Value → Except Fault Value)
  | .neg => some Machine.negate
  | .not => some Machine.invert
  | _ => none

/-- The operator that an instruction applies to two operands, the lower one first. -/
def binary? : Op → Option (Value → Value → Except Fault Value)
  | .add => some (Machine.arith .add)
  | .sub => some (Machine.arith .sub)
  | .mul => some (Machine.arith .mul)
  | .div => some (Machine.arith .div)
  | .mod => some (Machine.arith .mod)
  | .lt => some (Machine.inOrder .lt)
  | .gt => some (Machine.inOrder .gt)
  | .le => some (Machine.inOrder .le)
  | .ge => some (Machine.inOrder .ge)
  | .eq => some fun a b => .ok (.bool (a.same b))
  | .ne => some fun a b => .ok (.bool !(a.same b))
  | _ => none

/-- The constant of the chunk that an instruction takes for a name. -/
def name? : Op → Option Nat
  | .getField index | .setField index | .callMethod index _ => some index
  | _ => none

end Op

namespace Machine

variable {σ : Type}

/-- The value that an instruction pushes which takes nothing from the stack. -/
def loaded? (frame : Frame) (world : World σ) : Op → Option Value
  | .pushConst index => some (frame.chunk.constants[index]?.getD .null)
  | .pushNull => some .null
  | .pushTrue => some (.bool true)
  | .pushFalse => some (.bool false)
  | .loadLocal slot => some (frame.locals[slot]?.getD .null)
  | .loadGlobal id => some (world.globals[id]?.getD .null)
  | .loadThis => some ((frame.this.map Value.object).getD .null)
  | _ => none

/-- What an instruction can do to a frame, which has moved past it, and to the world. -/
inductive Acts (setting : Setting σ) (frame : Frame) (world : World σ) : Op → Effect σ → Prop
  | load {op : Op} {value : Value} (loads : loaded? frame world op = some value) :
      Acts setting frame world op (.next (frame.push value) world)
  | jump {target : Nat} :
      Acts setting frame world (.jump target) (.next { frame with ip := target } world)
  | test {target : Nat} {value : Value} {holds : Bool} {rest : List Value}
      (operands : frame.stack = value :: rest) (truth : condition value = .ok holds) :
      Acts setting frame world (.jumpIfFalse target)
        (.next { frame with ip := if holds then frame.ip else target, stack := rest } world)
  | pop {value : Value} {rest : List Value} (operands : frame.stack = value :: rest) :
      Acts setting frame world .pop (.next { frame with stack := rest } world)
  | storeLocal {slot : Nat} {value : Value} {rest : List Value}
      (operands : frame.stack = value :: rest) :
      Acts setting frame world (.storeLocal slot)
        (.next { frame with stack := rest, locals := frame.locals.setIfInBounds slot value } world)
  | storeGlobal {id : Nat} {value : Value} {rest : List Value}
      (operands : frame.stack = value :: rest) :
      Acts setting frame world (.storeGlobal id)
        (.next { frame with stack := rest }
          { world with globals := Machine.storeGlobal world.globals id value })
  | getField {index : Nat} {name : String} {owner : Value} {object : ObjectRef}
      {rest : List Value} (operands : frame.stack = owner :: rest)
      (named : frame.constantName index = .ok name)
      (owned : fieldOwner world.heap owner name = .ok object) :
      Acts setting frame world (.getField index)
        (.next { frame with stack := (world.heap.getField? object name).getD .null :: rest } world)
  | setField {index : Nat} {name : String} {owner value : Value} {object : ObjectRef}
      {rest : List Value} (operands : frame.stack = value :: owner :: rest)
      (named : frame.constantName index = .ok name)
      (owned : fieldOwner world.heap owner name = .ok object) :
      Acts setting frame world (.setField index)
        (.next { frame with stack := rest }
          { world with heap := world.heap.setField object name value })
  | unary {op : Op} {f : Value → Except Fault Value} {a value : Value} {rest : List Value}
      (operator : op.unary? = some f) (operands : frame.stack = a :: rest)
      (computed : f a = .ok value) :
      Acts setting frame world op (.next { frame with stack := value :: rest } world)
  | binary {op : Op} {f : Value → Value → Except Fault Value} {a b value : Value}
      {rest : List Value} (operator : op.binary? = some f)
      (operands : frame.stack = b :: a :: rest) (computed : f a b = .ok value) :
      Acts setting frame world op (.next { frame with stack := value :: rest } world)
  | host {binding : Nat} {args rest : List Value} {value : Value} {after : σ}
      (operands : frame.stack = args.reverse ++ rest)
      (called : callHost setting binding args world.host = (.ok value, after)) :
      Acts setting frame world (.callHost binding args.length)
        (.next { frame with stack := value :: rest } { world with host := after })
  | call {id : Nat} {args rest : List Value} {callee : Frame}
      (operands : frame.stack = args.reverse ++ rest)
      (entered : enter setting.program id none args .value = .ok callee) :
      Acts setting frame world (.call id args.length)
        (.enter { frame with stack := rest } callee world)
  | callMethod {index : Nat} {name : String} {receiver : Value} {id : Nat} {object : ObjectRef}
      {args rest : List Value} {callee : Frame}
      (operands : frame.stack = args.reverse ++ receiver :: rest)
      (named : frame.constantName index = .ok name)
      (found : method setting.program receiver name = .ok (id, object))
      (entered : enter setting.program id (some object) args .value = .ok callee) :
      Acts setting frame world (.callMethod index args.length)
        (.enter { frame with stack := rest } callee world)
  | create {classId : Nat} {args rest : List Value} {callee : Frame} {fields : Fields}
      (operands : frame.stack = args.reverse ++ rest)
      (made : construct setting.program classId args world.heap = .ok (callee, fields)) :
      Acts setting frame world (.create classId args.length)
        (.enter { frame with stack := rest } callee { world with heap := world.heap.alloc fields })
  | ret : Acts setting frame world .ret (.ret (frame.stack.headD .null) world)
  | underflow {op : Op} (few : frame.stack.length < op.needs) :
      Acts setting frame world op (.fault .stackUnderflow world)
  | unnamed {op : Op} {index : Nat} {e : Fault} (names : op.name? = some index)
      (missing : frame.constantName index = .error e) :
      Acts setting frame world op (.fault e world)
  | noTruth {target : Nat} {value : Value} {rest : List Value} {e : Fault}
      (operands : frame.stack = value :: rest) (truth : condition value = .error e) :
      Acts setting frame world (.jumpIfFalse target) (.fault e world)
  | noField {index : Nat} {name : String} {owner : Value} {rest : List Value} {e : Fault}
      (operands : frame.stack = owner :: rest) (named : frame.constantName index = .ok name)
      (unowned : fieldOwner world.heap owner name = .error e) :
      Acts setting frame world (.getField index) (.fault e world)
  | noTarget {index : Nat} {name : String} {owner value : Value} {rest : List Value} {e : Fault}
      (operands : frame.stack = value :: owner :: rest)
      (named : frame.constantName index = .ok name)
      (unowned : fieldOwner world.heap owner name = .error e) :
      Acts setting frame world (.setField index) (.fault e world)
  | noUnary {op : Op} {f : Value → Except Fault Value} {a : Value} {rest : List Value} {e : Fault}
      (operator : op.unary? = some f) (operands : frame.stack = a :: rest)
      (computed : f a = .error e) : Acts setting frame world op (.fault e world)
  | noBinary {op : Op} {f : Value → Value → Except Fault Value} {a b : Value} {rest : List Value}
      {e : Fault} (operator : op.binary? = some f) (operands : frame.stack = b :: a :: rest)
      (computed : f a b = .error e) : Acts setting frame world op (.fault e world)
  | noHost {binding : Nat} {args rest : List Value} {e : Fault} {after : σ}
      (operands : frame.stack = args.reverse ++ rest)
      (called : callHost setting binding args world.host = (.error e, after)) :
      Acts setting frame world (.callHost binding args.length)
        (.fault e { world with host := after })
  | noCall {id : Nat} {args rest : List Value} {e : Fault}
      (operands : frame.stack = args.reverse ++ rest)
      (entered : enter setting.program id none args .value = .error e) :
      Acts setting frame world (.call id args.length) (.fault e world)
  | noMethod {index : Nat} {name : String} {receiver : Value} {args rest : List Value} {e : Fault}
      (operands : frame.stack = args.reverse ++ receiver :: rest)
      (named : frame.constantName index = .ok name)
      (found : method setting.program receiver name = .error e) :
      Acts setting frame world (.callMethod index args.length) (.fault e world)
  | noEntry {index : Nat} {name : String} {receiver : Value} {id : Nat} {object : ObjectRef}
      {args rest : List Value} {e : Fault}
      (operands : frame.stack = args.reverse ++ receiver :: rest)
      (named : frame.constantName index = .ok name)
      (found : method setting.program receiver name = .ok (id, object))
      (entered : enter setting.program id (some object) args .value = .error e) :
      Acts setting frame world (.callMethod index args.length) (.fault e world)
  | noObject {classId : Nat} {args rest : List Value} {e : Fault}
      (operands : frame.stack = args.reverse ++ rest)
      (made : construct setting.program classId args world.heap = .error e) :
      Acts setting frame world (.create classId args.length) (.fault e world)

variable {setting : Setting σ} {frame : Frame} {world : World σ}

/-- A frame with an operand on its stack gives it up; one without faults. -/
theorem pop_cases (frame : Frame) :
    (∃ value rest, frame.stack = value :: rest ∧
        frame.pop = .ok (value, { frame with stack := rest })) ∨
      (frame.stack.length < 1 ∧ frame.pop = .error .stackUnderflow) := by
  unfold Frame.pop
  cases hstack : frame.stack with
  | nil => exact .inr ⟨by simp, rfl⟩
  | cons value rest => exact .inl ⟨value, rest, rfl, rfl⟩

/-- The same for two operands. -/
theorem pop₂_cases (frame : Frame) :
    (∃ a b rest, frame.stack = b :: a :: rest ∧
        frame.pop₂ = .ok (a, b, { frame with stack := rest })) ∨
      (frame.stack.length < 2 ∧ frame.pop₂ = .error .stackUnderflow) := by
  unfold Frame.pop₂
  obtain ⟨b, rest, hstack, hpop⟩ | ⟨hfew, hpop⟩ := pop_cases frame
  · rw [hpop]
    obtain ⟨a, rest', hrest, hpop'⟩ | ⟨hfew, hpop'⟩ := pop_cases { frame with stack := rest }
    · have hrest' : rest = a :: rest' := hrest
      refine .inl ⟨a, b, rest', by rw [hstack, hrest'], ?_⟩
      simp only [bind, Except.bind, hpop']
      rfl
    · have hfew' : rest.length < 1 := hfew
      refine .inr ⟨by rw [hstack, List.length_cons]; omega, ?_⟩
      simp only [bind, Except.bind, hpop']
  · exact .inr ⟨by omega, by rw [hpop]; rfl⟩

/-- The same for the arguments of a call. -/
theorem popArgs_cases (frame : Frame) (count : Nat) :
    (∃ args rest, frame.stack = args.reverse ++ rest ∧ args.length = count ∧
        frame.popArgs count = .ok (args, { frame with stack := rest })) ∨
      (frame.stack.length < count ∧ frame.popArgs count = .error .stackUnderflow) := by
  unfold Frame.popArgs
  by_cases hle : count ≤ frame.stack.length
  · refine .inl ⟨(frame.stack.take count).reverse, frame.stack.drop count, ?_, ?_, if_pos hle⟩
    · rw [List.reverse_reverse, List.take_append_drop]
    · rw [List.length_reverse, List.length_take, Nat.min_eq_left hle]
  · exact .inr ⟨Nat.lt_of_not_le hle, if_neg hle⟩

/-- The operand below the arguments of a call. -/
theorem getElem?_below_args (args rest : List Value) (value : Value) :
    (args.reverse ++ value :: rest)[args.length]? = some value := by
  rw [List.getElem?_append_right (by simp)]
  simp

/-- An operator on one operand. -/
theorem acts_unary {op : Op} {f : Value → Except Fault Value} (operator : op.unary? = some f)
    (hneeds : op.needs = 1) :
    Acts setting frame world op (.attempt world (operate frame f) .next) := by
  unfold operate
  obtain ⟨a, rest, hstack, hpop⟩ | ⟨hfew, hpop⟩ := pop_cases frame
  · rw [hpop]
    cases hvalue : f a with
    | ok value =>
      simp only [bind, Except.bind, hvalue]
      exact .unary operator hstack hvalue
    | error e =>
      simp only [bind, Except.bind, hvalue]
      exact .noUnary operator hstack hvalue
  · rw [hpop]
    exact .underflow (hneeds ▸ hfew)

/-- An operator on two operands. -/
theorem acts_binary {op : Op} {f : Value → Value → Except Fault Value}
    (operator : op.binary? = some f) (hneeds : op.needs = 2) :
    Acts setting frame world op (.attempt world (operate₂ frame f) .next) := by
  unfold operate₂
  obtain ⟨a, b, rest, hstack, hpop⟩ | ⟨hfew, hpop⟩ := pop₂_cases frame
  · rw [hpop]
    cases hvalue : f a b with
    | ok value =>
      simp only [bind, Except.bind, hvalue]
      exact .binary operator hstack hvalue
    | error e =>
      simp only [bind, Except.bind, hvalue]
      exact .noBinary operator hstack hvalue
  · rw [hpop]
    exact .underflow (hneeds ▸ hfew)

/-- An instruction that takes its operand from the stack and cannot fail otherwise. -/
theorem acts_pop {op : Op} {act : Value × Frame → World σ → Effect σ} (hneeds : op.needs = 1)
    (h : ∀ value rest, frame.stack = value :: rest →
      Acts setting frame world op (act (value, { frame with stack := rest }) world)) :
    Acts setting frame world op (.attempt world frame.pop act) := by
  obtain ⟨value, rest, hstack, hpop⟩ | ⟨hfew, hpop⟩ := pop_cases frame
  · rw [hpop]
    exact h value rest hstack
  · rw [hpop]
    exact .underflow (hneeds ▸ hfew)

/-- The test of a condition. -/
theorem acts_test (target : Nat) :
    Acts setting frame world (.jumpIfFalse target)
      (.attempt world (jumpIfFalse frame target) .next) := by
  unfold jumpIfFalse
  obtain ⟨value, rest, hstack, hpop⟩ | ⟨hfew, hpop⟩ := pop_cases frame
  · rw [hpop]
    cases htruth : condition value with
    | error e =>
      simp only [bind, Except.bind, htruth]
      exact .noTruth hstack htruth
    | ok holds =>
      have hacts : Acts setting frame world (.jumpIfFalse target) _ := .test hstack htruth
      simp only [bind, Except.bind, htruth]
      cases holds <;> exact hacts
  · rw [hpop]
    exact .underflow hfew

/-- The reading of a field. -/
theorem acts_getField (index : Nat) :
    Acts setting frame world (.getField index)
      (.attempt world (readField world.heap frame index) .next) := by
  unfold readField
  obtain ⟨owner, rest, hstack, hpop⟩ | ⟨hfew, hpop⟩ := pop_cases frame
  · rw [hpop]
    change Acts setting frame world (.getField index)
      (.attempt world (frame.constantName index >>= _) .next)
    cases hname : frame.constantName index with
    | error e => exact .unnamed rfl hname
    | ok name =>
      cases howner : fieldOwner world.heap owner name with
      | error e =>
        simp only [bind, Except.bind, howner]
        exact .noField hstack hname howner
      | ok object =>
        simp only [bind, Except.bind, howner]
        exact .getField hstack hname howner
  · rw [hpop]
    exact .underflow hfew

/-- The writing of a field. -/
theorem acts_setField (index : Nat) :
    Acts setting frame world (.setField index)
      (effect setting frame world (.setField index)) := by
  simp only [effect, prepareField]
  obtain ⟨owner, value, rest, hstack, hpop⟩ | ⟨hfew, hpop⟩ := pop₂_cases frame
  · rw [hpop]
    change Acts setting frame world (.setField index)
      (.attempt world (frame.constantName index >>= _) _)
    cases hname : frame.constantName index with
    | error e => exact .unnamed rfl hname
    | ok name =>
      cases howner : fieldOwner world.heap owner name with
      | error e =>
        simp only [bind, Except.bind, howner]
        exact .noTarget hstack hname howner
      | ok object =>
        simp only [bind, Except.bind, howner]
        exact .setField hstack hname howner
  · rw [hpop]
    exact .underflow hfew

/-- A call of a function. -/
theorem acts_call (id argc : Nat) :
    Acts setting frame world (.call id argc) (effect setting frame world (.call id argc)) := by
  simp only [effect, prepareCall]
  obtain ⟨args, rest, hstack, rfl, hpop⟩ | ⟨hfew, hpop⟩ := popArgs_cases frame argc
  · rw [hpop]
    cases henter : enter setting.program id none args .value with
    | error e =>
      simp only [bind, Except.bind, henter]
      exact .noCall hstack henter
    | ok callee =>
      simp only [bind, Except.bind, henter]
      exact .call hstack henter
  · rw [hpop]
    exact .underflow hfew

/-- A call of a method. -/
theorem acts_callMethod (index argc : Nat) :
    Acts setting frame world (.callMethod index argc)
      (effect setting frame world (.callMethod index argc)) := by
  simp only [effect, prepareMethod]
  obtain ⟨args, rest, hstack, rfl, hpop⟩ | ⟨hfew, hpop⟩ := popArgs_cases frame argc
  · rw [hpop]
    simp only [bind, Except.bind]
    obtain ⟨receiver, rest', hrest, hpop'⟩ | ⟨hfew, hpop'⟩ := pop_cases { frame with stack := rest }
    · have hrest' : rest = receiver :: rest' := hrest
      subst hrest'
      rw [hpop']
      simp only
      have hsame : Frame.constantName { frame with stack := rest' } index =
          frame.constantName index := rfl
      rw [hsame]
      cases hname : frame.constantName index with
      | error e => exact .unnamed rfl hname
      | ok name =>
        cases hmethod : method setting.program receiver name with
        | error e =>
          simp only [hmethod]
          exact .noMethod hstack hname hmethod
        | ok found =>
          obtain ⟨id, object⟩ := found
          cases henter : enter setting.program id (some object) args .value with
          | error e =>
            simp only [hmethod, henter]
            exact .noEntry hstack hname hmethod henter
          | ok callee =>
            simp only [hmethod, henter]
            exact .callMethod hstack hname hmethod henter
    · have hfew' : rest.length < 1 := hfew
      have hlength := congrArg List.length hstack
      rw [List.length_append, List.length_reverse] at hlength
      rw [hpop']
      exact .underflow (by simp only [Op.needs]; omega)
  · rw [hpop]
    exact .underflow (by simp only [Op.needs]; omega)

/-- A call of a host function. -/
theorem acts_callHost (binding argc : Nat) :
    Acts setting frame world (.callHost binding argc)
      (effect setting frame world (.callHost binding argc)) := by
  simp only [effect]
  obtain ⟨args, rest, hstack, rfl, hpop⟩ | ⟨hfew, hpop⟩ := popArgs_cases frame argc
  · rw [hpop]
    obtain ⟨globals, heap, host⟩ := world
    simp only [Effect.attempt, hostEffect]
    cases hcall : callHost setting binding args host with
    | mk result after =>
      cases result with
      | error e => exact .noHost hstack hcall
      | ok value => exact .host hstack hcall
  · rw [hpop]
    exact .underflow hfew

/-- The creation of an object. -/
theorem acts_create (classId argc : Nat) :
    Acts setting frame world (.create classId argc)
      (effect setting frame world (.create classId argc)) := by
  simp only [effect, prepareObject]
  obtain ⟨args, rest, hstack, rfl, hpop⟩ | ⟨hfew, hpop⟩ := popArgs_cases frame argc
  · rw [hpop]
    cases hmade : construct setting.program classId args world.heap with
    | error e =>
      simp only [bind, Except.bind, hmade]
      exact .noObject hstack hmade
    | ok made =>
      simp only [bind, Except.bind, hmade]
      exact .create hstack hmade
  · rw [hpop]
    exact .underflow hfew

/-- What an instruction does is on the list. -/
theorem effect_acts (setting : Setting σ) (frame : Frame) (world : World σ) (op : Op) :
    Acts setting frame world op (effect setting frame world op) := by
  cases op with
  | pushConst _ | pushNull | pushTrue | pushFalse | loadLocal _ | loadGlobal _ | loadThis =>
    exact .load rfl
  | storeLocal slot =>
    rw [effect]
    exact acts_pop rfl fun _ _ => .storeLocal
  | storeGlobal id =>
    rw [effect]
    exact acts_pop rfl fun _ _ => .storeGlobal
  | pop =>
    rw [effect]
    exact acts_pop rfl fun _ _ => .pop
  | getField index => exact acts_getField index
  | setField index => exact acts_setField index
  | add | sub | mul | div | mod | lt | gt | le | ge | eq | ne => exact acts_binary rfl rfl
  | neg | not => exact acts_unary rfl rfl
  | jumpIfFalse target => exact acts_test target
  | jump target => exact .jump
  | call id argc => exact acts_call id argc
  | callMethod index argc => exact acts_callMethod index argc
  | callHost binding argc => exact acts_callHost binding argc
  | create classId argc => exact acts_create classId argc
  | ret => exact .ret

/-- What becomes of the effect of an instruction, for a frame with others waiting. -/
def Effect.outcome (program : Program) (frame : Frame) (callers : List Frame) (executed : Nat) :
    Effect σ → Outcome σ
  | .next frame world => .running ⟨frame, callers, executed, world⟩
  | .enter caller callee world => pushFrame callee (caller :: callers) executed world
  | .ret value world => finish program frame.resume value callers executed world
  | .fault e world => Machine.fault e (frame :: callers) executed world

/-- The frame, moved past the instruction that it carries out. -/
def advance (frame : Frame) : Frame :=
  { frame with ip := frame.ip + 1 }

/-- The four kinds of steps. -/
inductive Stepped (setting : Setting σ) (state : State σ) : Prop
  | off (noOp : state.frame.chunk.ops[state.frame.ip]? = none)
      (steps : step setting state =
        finish setting.program state.frame.resume .null state.callers state.executed state.world)
  | limited {op : Op} {limit : Nat} (opAt : state.frame.chunk.ops[state.frame.ip]? = some op)
      (exceeds : exceeded? setting.limit (state.executed + 1) = some limit)
      (steps : step setting state =
        fault (.instructionLimit limit) (state.frame :: state.callers) (state.executed + 1)
          state.world)
  | full {op : Op} (opAt : state.frame.chunk.ops[state.frame.ip]? = some op)
      (noRoom : maxStack ≤ state.frame.stack.length)
      (steps : step setting state =
        fault .stackOverflow (state.frame :: state.callers) (state.executed + 1) state.world)
  | acts {op : Op} {result : Effect σ} (opAt : state.frame.chunk.ops[state.frame.ip]? = some op)
      (room : state.frame.stack.length < maxStack)
      (acted : Acts setting (advance state.frame) state.world op result)
      (steps : step setting state =
        result.outcome setting.program state.frame state.callers (state.executed + 1))

/-- Every step is of one of the four kinds. -/
theorem stepped (setting : Setting σ) (state : State σ) : Stepped setting state := by
  obtain ⟨frame, callers, executed, world⟩ := state
  cases hop : frame.chunk.ops[frame.ip]? with
  | none => exact .off hop (by simp only [step, hop])
  | some op =>
    cases hlimit : exceeded? setting.limit (executed + 1) with
    | some limit => exact .limited hop hlimit (by simp only [step, hop, instruction, hlimit])
    | none =>
      by_cases hfull : maxStack ≤ frame.stack.length
      · exact .full hop hfull (by simp only [step, hop, instruction, hlimit, if_pos hfull])
      · refine .acts hop (Nat.lt_of_not_le hfull) (effect_acts setting (advance frame) world op) ?_
        simp only [step, hop, instruction, hlimit, if_neg hfull, advance]
        cases effect setting { frame with ip := frame.ip + 1 } world op <;> rfl

end Machine

end ScriptHost

/-! ## How an instruction moves a frame

Whatever an instruction does, it takes its operands from the top of the stack, leaves what is below
alone, and the frame goes on at one of the places behind the instruction. `Acts.moves` and
`Acts.waits` say so once for all instructions. -/

namespace ScriptHost

/-- What `this` is as a value. -/
def Frame.thisValue (frame : Frame) : Value :=
  (frame.this.map Value.object).getD .null

namespace Machine

variable {σ : Type} {setting : Setting σ} {frame after callee : Frame} {world world' : World σ}
  {op : Op}

/-- A frame has moved past an instruction, and these values have taken the place of the operands. -/
structure Moves (op : Op) (frame after : Frame) (values : List Value) : Prop where
  chunk : after.chunk = frame.chunk
  this : after.this = frame.this
  resume : after.resume = frame.resume
  ip : after.ip ∈ op.successors frame.ip
  enough : op.needs ≤ frame.stack.length
  stack : after.stack = values ++ frame.stack.drop op.needs

/-- A frame that has moved on to the next place, with values instead of its operands. -/
theorem Moves.withStack {rest : List Value} {locals : Array Value} (values taken : List Value)
    (hoperands : frame.stack = taken ++ rest) (htaken : taken.length = op.needs)
    (hsuccessors : op.successors frame.ip = [frame.ip]) :
    Moves op frame { frame with stack := values ++ rest, locals := locals } values where
  chunk := rfl
  this := rfl
  resume := rfl
  ip := by simp [hsuccessors]
  enough := by simp [hoperands, htaken]
  stack := by rw [hoperands, ← htaken, List.drop_left]

/-- An instruction that takes nothing and pushes a value. -/
theorem loaded_shape {value : Value} (h : loaded? frame world op = some value) (next : Nat) :
    op.needs = 0 ∧ op.puts = 1 ∧ op.successors next = [next] := by
  cases op <;> first | exact ⟨rfl, rfl, rfl⟩ | cases h

/-- An instruction that applies an operator to one operand. -/
theorem unary_shape {f : Value → Except Fault Value} (h : op.unary? = some f) (next : Nat) :
    op.needs = 1 ∧ op.puts = 1 ∧ op.successors next = [next] := by
  cases op <;> first | exact ⟨rfl, rfl, rfl⟩ | cases h

/-- An instruction that applies an operator to two operands. -/
theorem binary_shape {f : Value → Value → Except Fault Value} (h : op.binary? = some f)
    (next : Nat) : op.needs = 2 ∧ op.puts = 1 ∧ op.successors next = [next] := by
  cases op <;> first | exact ⟨rfl, rfl, rfl⟩ | cases h

/-- How a frame moves that goes on. -/
theorem Acts.moves (h : Acts setting frame world op (.next after world')) :
    ∃ values, values.length = op.puts ∧ (op = .loadThis → values = [frame.thisValue]) ∧
      Moves op frame after values := by
  cases h with
  | @load _ value loads =>
    obtain ⟨hneeds, hputs, hsuccessors⟩ := loaded_shape loads frame.ip
    refine ⟨[value], hputs.symm, ?_, .withStack [value] [] rfl hneeds.symm hsuccessors⟩
    rintro rfl
    cases loads
    rfl
  | jump => exact ⟨[], rfl, by simp, rfl, rfl, rfl, List.mem_singleton.mpr rfl, Nat.zero_le _, rfl⟩
  | @test target value holds rest operands truth =>
    refine ⟨[], rfl, by simp, rfl, rfl, rfl, ?_, ?_, ?_⟩
    · cases holds <;> simp [Op.successors]
    · simp [operands, Op.needs]
    · simp [operands, Op.needs]
  | @pop value _ operands | @storeLocal _ value _ operands | @storeGlobal _ value _ operands =>
    exact ⟨[], rfl, by simp, .withStack [] [value] operands rfl rfl⟩
  | @getField _ name owner object rest operands =>
    exact ⟨[_], rfl, by simp, .withStack [(world.heap.getField? object name).getD .null] [owner]
      operands rfl rfl⟩
  | @setField _ _ owner value _ _ operands =>
    exact ⟨[], rfl, by simp, .withStack [] [value, owner] operands rfl rfl⟩
  | @unary _ _ a value _ operator operands _ =>
    obtain ⟨hneeds, hputs, hsuccessors⟩ := unary_shape operator frame.ip
    refine ⟨[value], hputs.symm, ?_, .withStack [value] [a] operands hneeds.symm hsuccessors⟩
    rintro rfl
    cases operator
  | @binary _ _ a b value _ operator operands _ =>
    obtain ⟨hneeds, hputs, hsuccessors⟩ := binary_shape operator frame.ip
    refine ⟨[value], hputs.symm, ?_, .withStack [value] [b, a] operands hneeds.symm hsuccessors⟩
    rintro rfl
    cases operator
  | @host _ args _ value _ operands _ =>
    exact ⟨[value], rfl, by simp, .withStack [value] args.reverse operands args.length_reverse rfl⟩

/-- How a frame moves that waits for another. The value that it waits for is still missing. -/
theorem Acts.waits (h : Acts setting frame world op (.enter after callee world')) :
    op.puts = 1 ∧ op ≠ .loadThis ∧ Moves op frame after [] := by
  cases h with
  | @call _ args _ _ operands _ | @create _ args _ _ _ operands _ =>
    exact ⟨rfl, nofun, .withStack [] args.reverse operands args.length_reverse rfl⟩
  | @callMethod _ _ receiver _ _ args _ _ operands _ _ _ =>
    refine ⟨rfl, nofun, .withStack [] (args.reverse ++ [receiver]) ?_ ?_ rfl⟩
    · rw [operands, List.append_assoc]
      rfl
    · simp [Op.needs]

end Machine

end ScriptHost
