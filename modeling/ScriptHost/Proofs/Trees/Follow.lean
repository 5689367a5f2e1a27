import ScriptHost.Proofs.Code.Layout
import ScriptHost.Proofs.Machine.Actions
import ScriptHost.Proofs.Machine.Steps
import ScriptHost.Proofs.Trees.Meaning
/-!
# A machine that follows an interpreter

`Follows` relates a state of the machine to what the interpreter of trees gives from there on. Where
the interpreter has a value, the machine gets to a state that fits the value; where it has a fault,
the machine stops with the same fault and the same world; where it needs more time than it was
given, the machine has not ended after as many steps. The machine alone can run out of operand
stack, and then nothing more is said.

The rules here take the relation through the interpreter's steps in order, one rule for each kind of
effect that an instruction can have.
-/

set_option autoImplicit false

namespace ScriptHost

/-- The frame at another place, with another operand stack. -/
def Frame.at (frame : Frame) (ip : Nat) (stack : List Value) : Frame :=
  { frame with ip, stack }

namespace Machine

variable {σ : Type} {setting : Setting σ}

/-- The machine is at a place of a frame with an operand stack, and these frames wait. -/
structure State.At (state : State σ) (frame : Frame) (callers : List Frame) (ip : Nat)
    (stack : List Value) : Prop where
  frame : state.frame = frame.at ip stack
  callers : state.callers = callers

/-- The same place, counted in another way. -/
theorem State.At.cast {state : State σ} {frame : Frame} {callers : List Frame} {ip place : Nat}
    {stack : List Value} (hat : state.At frame callers ip stack) (heq : ip = place) :
    state.At frame callers place stack :=
  heq ▸ hat

/-- The run from a state ends with a fault. -/
def Stops (setting : Setting σ) (state : State σ) (fault : Fault) (world : World σ) : Prop :=
  ∃ fuel trace executed,
    run setting fuel state = some ⟨.error ⟨fault, trace⟩, executed, world⟩

/-- The run from a state ends for want of operand stack. -/
def Overflows (setting : Setting σ) (state : State σ) : Prop :=
  ∃ world, Stops setting state .stackOverflow world

/-- Where steps lead to a fault, so does the run that begins with them. -/
theorem Stops.of_steps {n : Nat} {a b : State σ} {fault : Fault} {world : World σ}
    (hab : Steps setting n a b) (h : Stops setting b fault world) :
    Stops setting a fault world := by
  obtain ⟨fuel, trace, executed, hrun⟩ := h
  exact ⟨n + fuel, trace, executed, by rw [hab.run_eq, hrun]⟩

/-- A step that ends with a fault. -/
theorem Stops.of_step {state : State σ} {fault : Fault} {trace : List String} {executed : Nat}
    {world : World σ}
    (h : step setting state = .ended ⟨.error ⟨fault, trace⟩, executed, world⟩) :
    Stops setting state fault world :=
  ⟨1, trace, executed, by rw [run, h]⟩

/-- What the machine does from a state, next to what the interpreter gives. -/
inductive Follows (setting : Setting σ) {α : Type} (time : Nat) (state : State σ)
    (after : α → State σ → Prop) : Option (Except Fault α × World σ) → Prop
  | overflow {outcome : Option (Except Fault α × World σ)}
      (overflows : Overflows setting state) : Follows setting time state after outcome
  | late (notEnded : run setting time state = none) : Follows setting time state after none
  | stop {fault : Fault} {world : World σ} (stops : Stops setting state fault world) :
      Follows setting time state after (some (.error fault, world))
  | ok {value : α} {count : Nat} {next : State σ} (steps : Steps setting count state next)
      (fits : after value next) : Follows setting time state after (some (.ok value, next.world))

namespace Follows

variable {α β : Type} {time : Nat} {state : State σ} {after : α → State σ → Prop}
  {outcome : Option (Except Fault α × World σ)}

/-- Steps in front change nothing. -/
theorem of_steps {n : Nat} {next : State σ} (hsteps : Steps setting n state next)
    (h : Follows setting time next after outcome) : Follows setting time state after outcome := by
  cases h with
  | overflow overflows =>
    obtain ⟨world, hstop⟩ := overflows
    exact .overflow ⟨world, hstop.of_steps hsteps⟩
  | late notEnded =>
    exact .late (run_eq_none_of_le (Nat.le_add_left time n) (hsteps.run_eq_none notEnded))
  | stop stops => exact .stop (stops.of_steps hsteps)
  | ok steps fits => exact .ok (hsteps.trans steps) fits

/-- A step in front makes up for time. -/
theorem of_step {next : State σ} (hstep : step setting state = .running next)
    (h : Follows setting time next after outcome) :
    Follows setting (time + 1) state after outcome := by
  have hsteps : Steps setting 1 state next := .head hstep .refl
  cases h with
  | overflow overflows =>
    obtain ⟨world, hstop⟩ := overflows
    exact .overflow ⟨world, hstop.of_steps hsteps⟩
  | late notEnded =>
    refine .late ?_
    rw [Nat.add_comm]
    exact hsteps.run_eq_none notEnded
  | stop stops => exact .stop (stops.of_steps hsteps)
  | ok steps fits => exact .ok (hsteps.trans steps) fits

/-- With less time less is said. -/
theorem le {less : Nat} (hle : less ≤ time) (h : Follows setting time state after outcome) :
    Follows setting less state after outcome := by
  cases h with
  | overflow overflows => exact .overflow overflows
  | late notEnded => exact .late (run_eq_none_of_le hle notEnded)
  | stop stops => exact .stop stops
  | ok steps fits => exact .ok steps fits

/-- A weaker condition on the state at the end. -/
theorem imp {weaker : α → State σ → Prop} (h : Follows setting time state after outcome)
    (himp : ∀ value next, after value next → weaker value next) :
    Follows setting time state weaker outcome := by
  cases h with
  | overflow overflows => exact .overflow overflows
  | late notEnded => exact .late notEnded
  | stop stops => exact .stop stops
  | ok steps fits => exact .ok steps (himp _ _ fits)

/-- A value that is there already. -/
theorem done {value : α} {world : World σ} (h : after value state) (hworld : state.world = world) :
    Follows setting time state after (some (.ok value, world)) :=
  hworld ▸ .ok .refl h

/-- An answer of the interpreter that takes nothing. -/
theorem pure {value : α} (h : after value state) :
    Follows setting time state after ((Pure.pure value : Resolved.Eval σ α) state.world) :=
  done h rfl

/-- One part of the interpreter's work after the other. -/
theorem bind {first : Resolved.Eval σ α} {rest : α → Resolved.Eval σ β} {world : World σ}
    {last : β → State σ → Prop} (hfirst : Follows setting time state after (first world))
    (hrest : ∀ value next, after value next →
      Follows setting time next last (rest value next.world)) :
    Follows setting time state last ((first >>= rest) world) := by
  change Follows setting time state last (ExceptT.bind first rest world)
  unfold ExceptT.bind
  change Follows setting time state last
    (StateT.bind first (ExceptT.bindCont rest) world)
  unfold StateT.bind
  generalize first world = outcome at hfirst
  cases hfirst with
  | overflow overflows => exact .overflow overflows
  | late notEnded => exact .late notEnded
  | stop stops => exact .stop stops
  | ok steps fits => exact (hrest _ _ fits).of_steps steps

/-- More work of the machine alone, after the interpreter has its value. -/
theorem more {last : α → State σ → Prop} (h : Follows setting time state after outcome)
    (hmore : ∀ value next, after value next →
      Follows setting time next last (some (.ok value, next.world))) :
    Follows setting time state last outcome := by
  cases h with
  | overflow overflows => exact .overflow overflows
  | late notEnded => exact .late notEnded
  | stop stops => exact .stop stops
  | ok steps fits => exact (hmore _ _ fits).of_steps steps

end Follows

end Machine

end ScriptHost

/-! ## Following one instruction

What one instruction does to a machine that is at a place of a frame, as rules for `Follows`. A
machine whose operand stack is full stops instead, whatever the instruction is. -/

namespace ScriptHost

namespace Machine

variable {σ : Type} {setting : Setting σ}

/-- A machine without an instruction limit carries out the next instruction if there is room on the
operand stack. -/
theorem step_eq_outcome (hlimit : setting.limit = none) {state : State σ} {f : Frame}
    {callers : List Frame} {ip : Nat} {stack : List Value} {op : Op}
    (hat : state.At f callers ip stack) (hop : f.chunk.ops[ip]? = some op)
    (hroom : stack.length < maxStack) :
    step setting state =
      (effect setting (f.at (ip + 1) stack) state.world op).outcome setting.program
        (f.at ip stack) callers (state.executed + 1) := by
  obtain ⟨frame, callers', executed, world⟩ := state
  obtain ⟨rfl, rfl⟩ := hat
  have hop' : (f.at ip stack).chunk.ops[(f.at ip stack).ip]? = some op := hop
  have hroom' : ¬ maxStack ≤ (f.at ip stack).stack.length := Nat.not_le.mpr hroom
  have hframe : { f.at ip stack with ip := (f.at ip stack).ip + 1 } = f.at (ip + 1) stack := rfl
  simp only [step, hop', instruction, exceeded?, hlimit, Option.filter_none, hroom', if_false,
    hframe]
  cases effect setting (f.at (ip + 1) stack) world op <;> rfl

/-- A machine whose operand stack is full stops. -/
theorem overflows_of_full (hlimit : setting.limit = none) {state : State σ} {f : Frame}
    {callers : List Frame} {ip : Nat} {stack : List Value} {op : Op}
    (hat : state.At f callers ip stack) (hop : f.chunk.ops[ip]? = some op)
    (hfull : maxStack ≤ stack.length) : Overflows setting state := by
  obtain ⟨frame, callers', executed, world⟩ := state
  obtain ⟨rfl, rfl⟩ := hat
  have hop' : (f.at ip stack).chunk.ops[(f.at ip stack).ip]? = some op := hop
  have hfull' : maxStack ≤ (f.at ip stack).stack.length := hfull
  have hstop : step setting ⟨f.at ip stack, callers', executed, world⟩ =
      .ended
        ⟨.error ⟨.stackOverflow, traceOf (f.at ip stack :: callers')⟩, executed + 1, world⟩ := by
    simp only [step, hop', instruction, exceeded?, hlimit, Option.filter_none, hfull', if_true,
      fault]
  exact ⟨world, .of_step hstop⟩

namespace Follows

variable {α β : Type} {time : Nat} {state : State σ} {after : α → State σ → Prop}
  {outcome : Option (Except Fault α × World σ)} {f : Frame} {callers : List Frame} {ip : Nat}
  {stack : List Value} {op : Op}

/-- The step of an instruction, unless the operand stack is full. -/
theorem instruction (hlimit : setting.limit = none) (hat : state.At f callers ip stack)
    (hop : f.chunk.ops[ip]? = some op)
    (h : step setting state =
        (effect setting (f.at (ip + 1) stack) state.world op).outcome setting.program
          (f.at ip stack) callers (state.executed + 1) →
      Follows setting time state after outcome) : Follows setting time state after outcome := by
  by_cases hroom : stack.length < maxStack
  · exact h (step_eq_outcome hlimit hat hop hroom)
  · exact .overflow (overflows_of_full hlimit hat hop (Nat.not_lt.mp hroom))

/-- An instruction after which the frame goes on. -/
theorem next_succ (hlimit : setting.limit = none) (hat : state.At f callers ip stack)
    (hop : f.chunk.ops[ip]? = some op) (f' : Frame) (ip' : Nat) (stack' : List Value)
    {world : World σ}
    (heffect : effect setting (f.at (ip + 1) stack) state.world op =
      .next (f'.at ip' stack') world)
    (hrest : ∀ next : State σ, next.At f' callers ip' stack' → next.world = world →
      Follows setting time next after outcome) :
    Follows setting (time + 1) state after outcome := by
  refine instruction hlimit hat hop fun hstep => ?_
  rw [heffect] at hstep
  exact of_step hstep (hrest _ ⟨rfl, rfl⟩ rfl)

/-- An instruction after which the frame goes on, where time does not matter. -/
theorem next (hlimit : setting.limit = none) (hat : state.At f callers ip stack)
    (hop : f.chunk.ops[ip]? = some op) (f' : Frame) (ip' : Nat) (stack' : List Value)
    {world : World σ}
    (heffect : effect setting (f.at (ip + 1) stack) state.world op =
      .next (f'.at ip' stack') world)
    (hrest : ∀ next : State σ, next.At f' callers ip' stack' → next.world = world →
      Follows setting time next after outcome) : Follows setting time state after outcome :=
  (next_succ hlimit hat hop f' ip' stack' heffect hrest).le (Nat.le_succ time)

/-- An instruction that pushes a value and changes nothing else. -/
theorem push (hlimit : setting.limit = none) (hat : state.At f callers ip stack)
    (hop : f.chunk.ops[ip]? = some op) (value : Value)
    (heffect : effect setting (f.at (ip + 1) stack) state.world op =
      .next (f.at (ip + 1) (value :: stack)) state.world) :
    Follows setting time state (fun v next => next.At f callers (ip + 1) (v :: stack))
      ((Pure.pure value : Resolved.Eval σ Value) state.world) :=
  next hlimit hat hop f (ip + 1) (value :: stack) heffect fun _ hnext hworld =>
    hworld ▸ .pure hnext

/-- An instruction that faults. -/
theorem fault (hlimit : setting.limit = none) (hat : state.At f callers ip stack)
    (hop : f.chunk.ops[ip]? = some op) {e : Fault} {world : World σ}
    (heffect : effect setting (f.at (ip + 1) stack) state.world op = .fault e world) :
    Follows setting time state after (some (.error e, world)) := by
  refine instruction hlimit hat hop fun hstep => ?_
  rw [heffect] at hstep
  exact .stop (.of_step hstep)

/-- An instruction that puts the value of a computation in the place of its operands, or faults as
the computation does. -/
theorem compute (hlimit : setting.limit = none) (hat : state.At f callers ip stack)
    (hop : f.chunk.ops[ip]? = some op) {checked : Except Fault Value} {stack' : List Value}
    (heffect : effect setting (f.at (ip + 1) stack) state.world op =
      .attempt state.world (checked.map fun v => f.at (ip + 1) (v :: stack')) .next) :
    Follows setting time state (fun v next => next.At f callers (ip + 1) (v :: stack'))
      (some (checked, state.world)) := by
  cases checked with
  | error e => exact fault hlimit hat hop heffect
  | ok value =>
    exact next hlimit hat hop f (ip + 1) (value :: stack') heffect fun _ hnext hworld =>
      hworld ▸ .pure hnext

/-- The test of a condition on top of the operand stack: where the machine is tells what came
out. -/
theorem test (hlimit : setting.limit = none) {value : Value} {target : Nat}
    (hat : state.At f callers ip (value :: stack))
    (hop : f.chunk.ops[ip]? = some (.jumpIfFalse target)) :
    Follows setting time state
      (fun holds next => next.At f callers (cond holds (ip + 1) target) stack)
      ((liftM (condition value) : Resolved.Eval σ Bool) state.world) := by
  have hjump : effect setting (f.at (ip + 1) (value :: stack)) state.world (.jumpIfFalse target) =
      .attempt state.world
        ((condition value).map fun holds => f.at (cond holds (ip + 1) target) stack) .next := by
    change Effect.attempt state.world (condition value >>= fun holds =>
      Pure.pure (if holds then f.at (ip + 1) stack else f.at target stack)) .next = _
    cases condition value with
    | error e => rfl
    | ok holds => cases holds <;> rfl
  change Follows setting time state _ (some (condition value, state.world))
  cases hvalue : condition value with
  | error e =>
    rw [hvalue] at hjump
    exact fault hlimit hat hop hjump
  | ok holds =>
    rw [hvalue] at hjump
    exact next hlimit hat hop f (cond holds (ip + 1) target) stack hjump
      fun _ hnext hworld => done hnext hworld

/-- A return of the value on top of the operand stack. -/
theorem ret (hlimit : setting.limit = none) (hat : state.At f callers ip stack)
    (hop : f.chunk.ops[ip]? = some .ret) {value : α}
    (hafter : ∀ executed,
      step setting state =
        finish setting.program f.resume (stack.headD .null) callers executed state.world →
      after value state) :
    Follows setting time state after ((Pure.pure value : Resolved.Eval σ α) state.world) :=
  instruction hlimit hat hop fun hstep => .pure (hafter _ hstep)

end Follows

end Machine

end ScriptHost
