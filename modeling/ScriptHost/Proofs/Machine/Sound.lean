import ScriptHost.Proofs.Host.Catalog
import ScriptHost.Proofs.Machine.Stack
import ScriptHost.Proofs.Program.Sound
/-!
# Runs of sound programs

In a run of a sound program every frame runs sound code, so no run ends because an instruction
refers to what is not there. Two faults have to do with values: a method may be called with a wrong
number of arguments, and on an object whose class the program does not have. `Machine.Explained`
says so of the state in which a run ends.
-/

set_option autoImplicit false

namespace ScriptHost

/-- Whether a fault shows that code refers to what is not there, whatever values it works on. -/
def Fault.ofCode : Fault → Bool
  | .stackUnderflow | .invalidName _ | .invalidFunction _ | .invalidBinding _
  | .unknownHostFunction .. | .noConstructor .. => true
  | _ => false

/-- Whether a fault has nothing to do with what code refers to. -/
def Fault.plain : Fault → Bool
  | .argumentCount .. | .invalidClass _ => false
  | e => !e.ofCode

/-- A fault of operands has nothing to do with what code refers to. -/
theorem Fault.plain_of_ofOperands {e : Fault} (h : e.ofOperands = true) : e.plain = true := by
  cases e <;> first | rfl | cases h

/-- A fault of the host has nothing to do with what code refers to. -/
theorem Fault.plain_of_ofHost {e : Fault} (h : e.ofHost = true) : e.plain = true := by
  cases e <;> first | rfl | cases h

/-- A frame runs sound code, and goes on to a function of the program, if to any. -/
structure Frame.Sound (program : Program) (accepts : HostBinding → Nat → Prop) (frame : Frame) :
    Prop where
  code : Code.CodeSound program accepts (fun _ => True) frame.chunk.constants
    frame.chunk.ops.toList
  next : ∀ object id args, frame.resume = .construct object (some (id, args)) →
    id < program.functions.size

/-- The constructor that a frame goes on to takes the arguments kept for it. -/
def Frame.Fits (program : Program) (frame : Frame) : Prop :=
  ∀ object id args, frame.resume = .construct object (some (id, args)) →
    program.Takes id args.length

namespace Machine

variable {σ : Type}

/-- All frames run sound code. The one at the bottom has been started from outside, perhaps with a
wrong number of arguments for a constructor; all others fit. -/
structure FramesSound (program : Program) (accepts : HostBinding → Nat → Prop)
    (frames : List Frame) : Prop where
  sound : ∀ frame ∈ frames, frame.Sound program accepts
  fits : ∀ frame ∈ frames.dropLast, frame.Fits program

/-- All frames of a state are sound. -/
def State.Sound (program : Program) (accepts : HostBinding → Nat → Prop) (state : State σ) : Prop :=
  FramesSound program accepts (state.frame :: state.callers)

/-- A run ends with this fault in this state for a reason that sound code allows. A number of
arguments is only found wrong by the call of a method, or by the constructor that the run was
started for. A class is only missing for an object at hand. -/
structure Explained (program : Program) (state : State σ) (e : Fault) : Prop where
  ofCode : e.ofCode = false
  arguments : ∀ name takes given, e = .argumentCount name takes given →
    (∃ index argc, state.frame.chunk.ops[state.frame.ip]? = some (.callMethod index argc)) ∨
      (state.callers = [] ∧ ∃ object next, state.frame.resume = .construct object (some next))
  unknownClass : ∀ id, e = .invalidClass id →
    ∃ object, .object object ∈ state.frame.stack ∧ program.classes[object.classId]? = none

/-- A fault that has nothing to do with what code refers to is explained. -/
theorem Explained.of_plain {program : Program} {state : State σ} {e : Fault}
    (h : e.plain = true) : Explained program state e where
  ofCode := by cases e <;> first | rfl | cases h
  arguments := by
    rintro name takes given rfl
    cases h
  unknownClass := by
    rintro id rfl
    cases h

variable {setting : Setting σ} {accepts : HostBinding → Nat → Prop}

/-- The frames below are sound. -/
theorem FramesSound.below {program : Program} {frame : Frame} {callers : List Frame}
    (h : FramesSound program accepts (frame :: callers)) : FramesSound program accepts callers := by
  refine ⟨fun other hother => h.sound other (List.mem_cons_of_mem frame hother), ?_⟩
  cases callers with
  | nil => exact nofun
  | cons caller rest => exact fun other hother => h.fits other (List.mem_cons_of_mem frame hother)

/-- A frame that goes on in the same code, and to the same end, stays sound. -/
theorem FramesSound.replace {program : Program} {frame after : Frame} {callers : List Frame}
    (h : FramesSound program accepts (frame :: callers)) (hchunk : after.chunk = frame.chunk)
    (hresume : after.resume = frame.resume) : FramesSound program accepts (after :: callers) := by
  refine ⟨List.forall_mem_cons.mpr ⟨?_, h.below.sound⟩, ?_⟩
  · obtain ⟨hcode, hnext⟩ := h.sound frame List.mem_cons_self
    exact ⟨hchunk ▸ hcode, hresume ▸ hnext⟩
  · cases callers with
    | nil => exact nofun
    | cons caller rest =>
      have hfits := List.forall_mem_cons.mp h.fits
      refine List.forall_mem_cons.mpr ⟨?_, hfits.2⟩
      rw [Frame.Fits, hresume]
      exact hfits.1

/-- A sound frame that fits may be put on top of others. -/
theorem FramesSound.push {program : Program} {callee : Frame} {frames : List Frame}
    (h : FramesSound program accepts frames) (hcallee : callee.Sound program accepts)
    (hfits : callee.Fits program) : FramesSound program accepts (callee :: frames) := by
  refine ⟨List.forall_mem_cons.mpr ⟨hcallee, h.sound⟩, ?_⟩
  cases frames with
  | nil => exact nofun
  | cons frame rest => exact List.forall_mem_cons.mpr ⟨hfits, h.fits⟩

/-- A function of a sound program that takes the arguments is entered. -/
theorem enter_takes {program : Program} {id : Nat} {args : List Value}
    (h : program.Takes id args.length) (this : Option ObjectRef) (resume : Resume) :
    ∃ f, program.functions[id]? = some f ∧
      enter program id this args resume = .ok (.start f.name f.chunk this args resume) := by
  obtain ⟨f, hf, harity⟩ := h
  exact ⟨f, hf, by simp only [enter, hf, if_pos harity.symm]⟩

/-- A function that is entered is a sound frame. -/
theorem enter_sound {program : Program} (hprogram : program.Sound accepts) {id : Nat}
    {this : Option ObjectRef} {args : List Value} {resume : Resume} {frame : Frame}
    (h : enter program id this args resume = .ok frame)
    (hnext : ∀ object function kept, resume = .construct object (some (function, kept)) →
      function < program.functions.size) : frame.Sound program accepts := by
  obtain ⟨f, hf, -, rfl⟩ := enter_ok h
  refine ⟨fun op hop => ?_, hnext⟩
  exact ((hprogram.functions id f hf).ops op hop).mono (.refl program)
    (fun _ _ _ haccepted => haccepted) fun _ _ => trivial

/-- The creation of an object starts with a sound frame, which goes on to the constructor. -/
theorem construct_sound {program : Program} (hprogram : program.Sound accepts) {classId : Nat}
    {args : List Value} {heap : Heap} {frame : Frame} {fields : Fields}
    (h : construct program classId args heap = .ok (frame, fields)) :
    frame.Sound program accepts ∧ (program.Creates classId args.length → frame.Fits program) := by
  obtain ⟨c, hc, -, henter, -⟩ := construct_ok h
  have hresume : frame.resume = .construct (heap.next classId c.name)
      (c.constructor?.map fun id => (id, args)) := by
    obtain ⟨f, -, -, rfl⟩ := enter_ok henter
    rfl
  have hnext : ∀ object id kept, Resume.construct (heap.next classId c.name)
      (c.constructor?.map fun id => (id, args)) = .construct object (some (id, kept)) →
        c.constructor? = some id ∧ kept = args := by
    intro object id kept hsame
    simp only [Resume.construct.injEq, Option.map_eq_some_iff, Prod.mk.injEq] at hsame
    obtain ⟨-, _, hid, rfl, rfl⟩ := hsame
    exact ⟨hid, rfl⟩
  refine ⟨enter_sound hprogram henter fun object id kept hsame => ?_, ?_⟩
  · exact (hprogram.classes classId c hc).constructor_lt (hnext object id kept hsame).1
  · rintro ⟨c', hc', htakes⟩ object id kept hkept
    rw [hc, Option.some.injEq] at hc'
    subst hc'
    obtain ⟨hid, rfl⟩ := hnext object id kept (hresume.symm.trans hkept)
    simpa only [hid] using htakes

/-- A creation starts, unless there are arguments but no constructor. -/
theorem construct_starts {program : Program} (hprogram : program.Indexed) {classId : Nat}
    {c : Class} (hc : program.classes[classId]? = some c) {args : List Value}
    (hargs : c.constructor? = none → args = []) (heap : Heap) :
    ∃ made, construct program classId args heap = .ok made := by
  cases hmade : construct program classId args heap with
  | ok made => exact ⟨made, rfl⟩
  | error e =>
    obtain ⟨hnone, -⟩ | ⟨c', hc', hwrong⟩ := construct_error hmade
    · rw [hc] at hnone
      cases hnone
    · rw [hc, Option.some.injEq] at hc'
      subst hc'
      obtain ⟨hnone, hsome, -⟩ | ⟨this, resume, henter⟩ := hwrong
      · exact absurd (hargs hnone) hsome
      · obtain ⟨f, hf, harity⟩ := (hprogram.classes classId c hc).fieldInit
        have htakes : program.Takes c.fieldInit ([] : List Value).length := ⟨f, hf, harity⟩
        obtain ⟨_, -, hok⟩ := enter_takes htakes this resume
        rw [hok] at henter
        cases henter

/-- A creation with as many arguments as the constructor takes starts. -/
theorem construct_creates {program : Program} (hprogram : program.Indexed) {classId : Nat}
    {args : List Value} (h : program.Creates classId args.length) (heap : Heap) :
    ∃ made, construct program classId args heap = .ok made := by
  obtain ⟨c, hc, htakes⟩ := h
  refine construct_starts hprogram hc (fun hnone => ?_) heap
  simp only [hnone] at htakes
  exact List.length_eq_zero_iff.mp htakes

/-- What a sound instruction leads to. Frames that go on or wait run the code that they ran before,
one that is called is sound and fits. -/
def Effect.Sound (program : Program) (accepts : HostBinding → Nat → Prop) (frame : Frame)
    (op : Op) : Effect σ → Prop
  | .next after _ => after.chunk = frame.chunk ∧ after.resume = frame.resume
  | .enter caller callee _ =>
    caller.chunk = frame.chunk ∧ caller.resume = frame.resume ∧
      callee.Sound program accepts ∧ callee.Fits program
  | .ret _ _ => True
  | .fault e _ => e.ofCode = false ∧
    (∀ name takes given, e = .argumentCount name takes given →
      ∃ index argc, op = .callMethod index argc) ∧
    ∀ id, e = .invalidClass id →
      ∃ object, .object object ∈ frame.stack ∧ program.classes[object.classId]? = none

/-- A fault that has nothing to do with what code refers to may come of any instruction. -/
theorem Effect.sound_of_plain {program : Program} {frame : Frame} {op : Op} {e : Fault}
    {world : World σ} (h : e.plain = true) :
    (Effect.fault e world).Sound program accepts frame op := by
  refine ⟨?_, ?_, ?_⟩
  · cases e <;> first | rfl | cases h
  · rintro name takes given rfl
    cases h
  · rintro id rfl
    cases h

/-- A call without an object to be made leaves nothing to go on to. -/
theorem enter_fits {program : Program} {id : Nat} {this : Option ObjectRef} {args : List Value}
    {frame : Frame} (h : enter program id this args .value = .ok frame) : frame.Fits program := by
  obtain ⟨f, -, -, rfl⟩ := enter_ok h
  exact nofun

/-- What a sound instruction does, with enough operands on the stack. -/
theorem Acts.sound {frame : Frame} {world : World σ} {op : Op} {result : Effect σ}
    {slot : Nat → Prop} (h : Acts setting (advance frame) world op result)
    (hprogram : setting.program.Sound (HostBinding.Accepted setting.catalog))
    (hop : op.Sound setting.program (HostBinding.Accepted setting.catalog) slot
      frame.chunk.constants)
    (henough : op.needs ≤ frame.stack.length) :
    result.Sound setting.program (HostBinding.Accepted setting.catalog) frame op := by
  have hnamed : ∀ {index : Nat} {e : Fault}, (∃ name, frame.chunk.constants[index]? =
      some (.str name)) → (advance frame).constantName index ≠ .error e := by
    rintro index e ⟨name, hname⟩ hnone
    have hnone := (constantName_error hnone).2
    rw [show (advance frame).chunk = frame.chunk from rfl, hname] at hnone
    cases hnone
  cases h with
  | load | jump | test | pop | storeLocal | storeGlobal | getField | setField | unary | binary
  | host => exact ⟨rfl, rfl⟩
  | ret => trivial
  | call _ entered =>
    exact ⟨rfl, rfl, enter_sound hprogram entered nofun, enter_fits entered⟩
  | callMethod _ _ _ entered =>
    exact ⟨rfl, rfl, enter_sound hprogram entered nofun, enter_fits entered⟩
  | create _ made =>
    obtain ⟨hsound, hfits⟩ := construct_sound hprogram made
    exact ⟨rfl, rfl, hsound, hfits hop⟩
  | underflow few => exact absurd henough (Nat.not_le.mpr few)
  | unnamed named missing =>
    cases op <;> cases named <;> exact absurd missing (hnamed hop)
  | noTruth _ truth =>
    exact Effect.sound_of_plain (Fault.plain_of_ofOperands (condition_error truth))
  | noField _ _ unowned | noTarget _ _ unowned =>
    exact Effect.sound_of_plain (Fault.plain_of_ofOperands (fieldOwner_error unowned))
  | noUnary operator _ computed =>
    exact Effect.sound_of_plain (Fault.plain_of_ofOperands (unary_error operator computed))
  | noBinary operator _ computed =>
    exact Effect.sound_of_plain (Fault.plain_of_ofOperands (binary_error operator computed))
  | noHost _ called =>
    obtain ⟨binding, hbinding, id, hhandle, -, hlive⟩ := hop
    obtain ⟨hnone, -⟩ | ⟨other, hother, hwhy⟩ := callHost_error called
    · rw [hbinding] at hnone
      cases hnone
    · rw [hbinding, Option.some.injEq] at hother
      subst hother
      obtain hhost | ⟨module, hmodule, hwrong⟩ := hwhy
      · exact Effect.sound_of_plain (Fault.plain_of_ofHost hhost)
      · rw [hhandle] at hmodule
        obtain ⟨f, hf, haccepts⟩ := hlive module hmodule
        obtain ⟨hnone, -⟩ | ⟨f', hf', hrefused, -⟩ := hwrong
        · rw [hf] at hnone
          cases hnone
        · rw [hf, Option.some.injEq] at hf'
          rw [← hf', haccepts] at hrefused
          cases hrefused
  | noCall _ entered =>
    obtain ⟨_, -, hok⟩ := enter_takes hop none .value
    rw [hok] at entered
    cases entered
  | noMethod operands _ found =>
    obtain ⟨object, rfl, hclass, rfl⟩ | he := method_error found
    · refine ⟨rfl, nofun, fun _ _ => ⟨object, ?_, hclass⟩⟩
      rw [show frame.stack = _ from operands]
      simp
    · exact Effect.sound_of_plain (Fault.plain_of_ofOperands he)
  | noEntry _ _ found entered =>
    obtain ⟨-, c, hc, hid⟩ := method_ok found
    have hinside := (hprogram.classes _ c hc).methods _ _ hid
    obtain ⟨hnone, -⟩ | ⟨f, -, -, rfl⟩ := enter_error entered
    · exact absurd hinside (Nat.not_lt.mpr (Array.getElem?_eq_none_iff.mp hnone))
    · exact ⟨rfl, fun _ _ _ _ => ⟨_, _, rfl⟩, nofun⟩
  | noObject _ made =>
    obtain ⟨_, hok⟩ := construct_creates hprogram.toIndexed hop world.heap
    rw [hok] at made
    cases made

/-- What becomes of a step: the frames stay sound, or the run ends for a reason that sound code
allows. -/
def Outcome.Sound (program : Program) (accepts : HostBinding → Nat → Prop) (state : State σ) :
    Outcome σ → Prop
  | .running next => next.Sound program accepts
  | .ended ending => ∀ e, ending.result = .error e → Explained program state e.fault

/-- A step that ends with a fault that is explained. -/
theorem fault_sound {program : Program} {state : State σ} {e : Fault} {frames : List Frame}
    {executed : Nat} {world : World σ} (h : Explained program state e) :
    (fault e frames executed world).Sound program accepts state := by
  rintro e' he
  cases he
  exact h

/-- A sound frame that fits goes on top of others, if there is room. -/
theorem pushFrame_sound {program : Program} {state : State σ} {callee : Frame}
    {frames : List Frame} {executed : Nat} {world : World σ}
    (h : FramesSound program accepts frames) (hcallee : callee.Sound program accepts)
    (hfits : callee.Fits program) :
    (pushFrame callee frames executed world).Sound program accepts state := by
  unfold pushFrame
  split
  · exact fault_sound (.of_plain rfl)
  · exact h.push hcallee hfits

/-- A value is handed to a sound frame. -/
theorem deliver_sound {program : Program} {state : State σ} {value : Value}
    {callers : List Frame} {executed : Nat} {world : World σ}
    (h : FramesSound program accepts callers) :
    (deliver value callers executed world).Sound program accepts state := by
  cases callers with
  | nil => exact fun e he => by cases he
  | cons caller rest => exact FramesSound.replace h rfl rfl

/-- What follows the return of a sound frame. -/
theorem finish_sound {program : Program} (hprogram : program.Sound accepts) {state : State σ}
    (h : state.Sound program accepts) {value : Value} {executed : Nat} {world : World σ} :
    (finish program state.frame.resume value state.callers executed world).Sound program accepts
      state := by
  have hbelow := h.below
  unfold finish
  split
  · exact deliver_sound hbelow
  · exact deliver_sound hbelow
  · exact deliver_sound hbelow
  · rename_i object id args hresume
    split
    · rename_i e henter
      refine fault_sound ?_
      have hinside := (h.sound _ List.mem_cons_self).next _ _ _ hresume
      obtain ⟨hnone, -⟩ | ⟨f, hf, hargs, rfl⟩ := enter_error henter
      · exact absurd hinside (Nat.not_lt.mpr (Array.getElem?_eq_none_iff.mp hnone))
      · refine ⟨rfl, fun _ _ _ _ => .inr ⟨?_, object, _, hresume⟩, nofun⟩
        -- a frame with others below it fits, so its constructor would have been entered
        cases hcallers : state.callers with
        | nil => rfl
        | cons caller rest =>
          have hfits := h.fits state.frame (by rw [hcallers]; exact List.mem_cons_self)
          obtain ⟨_, -, hok⟩ := enter_takes (hfits _ _ _ hresume) (some object) (.object object)
          rw [hok] at henter
          cases henter
    · rename_i callee henter
      exact pushFrame_sound hbelow (enter_sound hprogram henter nofun) (by
        obtain ⟨f, -, -, rfl⟩ := enter_ok henter
        exact nofun)

/-- In a sound program there are depths for the code of all functions. -/
theorem levelled_of_sound {program : Program} (h : program.Sound accepts) :
    program.Levelled fun _ => True := fun id f hf => by
  obtain ⟨body, depths, hflows⟩ := (h.functions id f hf).flows
  exact ⟨depths, hflows.balanced, fun _ _ => trivial⟩

/-- Every step of sound frames leads to sound frames, or ends for a reason that sound code
allows. -/
theorem step_sound (hprogram : setting.program.Sound (HostBinding.Accepted setting.catalog))
    {state : State σ} (hlevelled : state.Levelled fun _ => True)
    (h : state.Sound setting.program (HostBinding.Accepted setting.catalog)) :
    (step setting state).Sound setting.program (HostBinding.Accepted setting.catalog) state := by
  cases stepped setting state with
  | off _ steps =>
    rw [steps]
    exact finish_sound hprogram h
  | limited _ _ steps =>
    rw [steps]
    exact fault_sound (.of_plain rfl)
  | full _ _ steps =>
    rw [steps]
    exact fault_sound (.of_plain rfl)
  | @acts op result opAt room acted steps =>
    rw [steps]
    have hcode := (h.sound _ List.mem_cons_self).code op
      (Array.mem_toList_iff.mpr (Array.mem_of_getElem? opAt))
    have hresult := acted.sound hprogram hcode (hlevelled.frame.enough opAt)
    cases result with
    | next after world => exact FramesSound.replace h hresult.1 hresult.2
    | enter caller callee world =>
      obtain ⟨hchunk, hresume, hcallee, hfits⟩ := hresult
      exact pushFrame_sound (FramesSound.replace h hchunk hresume) hcallee hfits
    | ret value world => exact finish_sound hprogram h
    | fault e world =>
      obtain ⟨hofCode, harguments, hclass⟩ := hresult
      refine fault_sound ⟨hofCode, fun name takes given he => .inl ?_, hclass⟩
      obtain ⟨index, argc, rfl⟩ := harguments name takes given he
      exact ⟨index, argc, opAt⟩

/-- A state in a run of sound code: the frames are sound, and their operand stacks are as deep as
their code says. -/
structure State.Safe (setting : Setting σ) (state : State σ) : Prop where
  levelled : state.Levelled fun _ => True
  sound : state.Sound setting.program (HostBinding.Accepted setting.catalog)

variable (hprogram : setting.program.Sound (HostBinding.Accepted setting.catalog))

include hprogram

/-- A step leads from a safe state to a safe state. -/
theorem State.Safe.next {state after : State σ} (h : state.Safe setting)
    (hstep : step setting state = .running after) : after.Safe setting := by
  have hsound := step_sound hprogram h.levelled h.sound
  have hlevelled := step_levelled (levelled_of_sound hprogram) h.levelled
  rw [hstep] at hsound hlevelled
  exact ⟨hlevelled, hsound⟩

/-- A run ends after a safe state only for a reason that sound code allows. -/
theorem State.Safe.explained {state : State σ} {ending : Ending σ} {e : RuntimeError}
    (h : state.Safe setting) (hstep : step setting state = .ended ending)
    (he : ending.result = .error e) : Explained setting.program state e.fault := by
  have hsound := step_sound hprogram h.levelled h.sound
  rw [hstep] at hsound
  exact hsound e he

/-- All steps lead from a safe state to a safe state. -/
theorem Steps.safe {count : Nat} {first last : State σ} (hsteps : Steps setting count first last)
    (h : first.Safe setting) : last.Safe setting := by
  induction hsteps with
  | refl => exact h
  | head hstep _ ih => exact ih (h.next hprogram hstep)

/-- A call from outside starts in a safe state. -/
theorem safe_of_enter {id : Nat} {this : Option ObjectRef} {args : List Value} {frame : Frame}
    (h : enter setting.program id this args .value = .ok frame) (world : World σ) :
    State.Safe setting ⟨frame, [], 0, world⟩ where
  levelled := ⟨enter_levelled (levelled_of_sound hprogram) h, nofun⟩
  sound := ⟨List.forall_mem_singleton.mpr (enter_sound hprogram h nofun), nofun⟩

/-- The creation of an object from outside starts in a safe state. -/
theorem safe_of_construct {classId : Nat} {args : List Value} {heap : Heap} {frame : Frame}
    {fields : Fields} (h : construct setting.program classId args heap = .ok (frame, fields))
    (world : World σ) : State.Safe setting ⟨frame, [], 0, world⟩ where
  levelled := ⟨construct_levelled (levelled_of_sound hprogram) h, nofun⟩
  sound := ⟨List.forall_mem_singleton.mpr (construct_sound hprogram h).1, nofun⟩

omit hprogram in
/-- A sound top level starts in a safe state. -/
theorem safe_of_topLevel {wide : Prop} {chunk : Chunk}
    (h : chunk.Sound setting.program (HostBinding.Accepted setting.catalog) wide)
    (world : World σ) :
    State.Safe setting ⟨.start topLevelName chunk none [] .value, [], 0, world⟩ where
  levelled := by
    obtain ⟨body, depths, hflows⟩ := h.flows
    have hchunk : chunk.Levelled fun _ => True := ⟨depths, hflows.balanced, fun _ _ => trivial⟩
    exact ⟨hchunk.start topLevelName none [] .value, nofun⟩
  sound := by
    refine ⟨List.forall_mem_singleton.mpr ⟨fun op hop => ?_, nofun⟩, nofun⟩
    exact (h.ops op hop).mono (.refl _) (fun _ _ _ haccepted => haccepted) fun _ _ => trivial

end Machine

end ScriptHost

/-! ## Objects that have what is asked of them

The instructions that access a field or call a method turn to a value on the operand stack. If that
is an object with the fields of its class, and the class has what is asked for, the instruction does
not fail: `step_of_served`. Only a limit of the machine can stop the run there. -/

namespace ScriptHost

/-- Where the operand stack has the value that an instruction turns to. -/
def Op.receiver? : Op → Option Nat
  | .getField _ => some 0
  | .setField _ => some 1
  | .callMethod _ argc => some argc
  | _ => none

theorem Op.needs_of_receiver {op : Op} {place : Nat} (h : op.receiver? = some place) :
    op.needs = place + 1 := by
  cases op <;> cases h <;> rfl

/-- A class has what an instruction asks for under a name: a field, or a method that takes so many
arguments. -/
def Class.Serves (c : Class) (program : Program) (name : String) : Op → Prop
  | .getField _ | .setField _ => name ∈ c.fields
  | .callMethod _ argc => ∃ id, c.methods.get? name = some id ∧ program.Takes id argc
  | _ => False

/-- A class still has what is asked for when there is more in the program. -/
theorem Class.Serves.mono {c : Class} {program next : Program} {name : String} {op : Op}
    (h : c.Serves program name op) (hext : next.Extends program) : c.Serves next name op := by
  cases op with
  | callMethod index argc =>
    obtain ⟨id, hid, htakes⟩ := h
    exact ⟨id, hid, htakes.mono hext⟩
  | _ => exact h

/-- Whether a fault tells of a limit that a run has come to. -/
def Fault.ofLimit : Fault → Bool
  | .instructionLimit _ | .stackOverflow | .callDepth _ => true
  | _ => false

namespace Machine

/-- An instruction turns to an object that has the fields of its class, and the class has what is
asked for. -/
inductive Served (program : Program) (heap : Heap) (frame : Frame) (op : Op) : Prop
  | mk {place index : Nat} {name : String} {object : ObjectRef} {c : Class} {fields : Fields}
      (receiver : op.receiver? = some place)
      (operand : frame.stack[place]? = some (.object object))
      (names : op.name? = some index)
      (named : frame.constantName index = .ok name)
      (known : program.classes[object.classId]? = some c)
      (stored : heap.objects[object.id]? = some fields)
      (typed : fields.names = c.fields)
      (serves : c.Serves program name op)

variable {σ : Type} {setting : Setting σ} {frame : Frame} {world after : World σ} {op : Op}

theorem fieldOwner_of_mem {heap : Heap} {object : ObjectRef} {fields : Fields} {name : String}
    (h : heap.objects[object.id]? = some fields) (hname : name ∈ fields.names) :
    fieldOwner heap (.object object) name = .ok object := by
  have hfield : heap.hasField object name = true := by
    rw [Heap.hasField, Heap.fields, h]
    exact (Table.contains_iff fields name).mpr hname
  simp only [fieldOwner, hfield, if_true]

theorem method_of_get? {program : Program} {object : ObjectRef} {c : Class} {name : String}
    {id : Nat} (hc : program.classes[object.classId]? = some c)
    (hid : c.methods.get? name = some id) :
    method program (.object object) name = .ok (id, object) := by
  simp only [method, hc, hid]

/-- An instruction that is served does not fail. -/
theorem Served.acts {e : Fault} (h : Served setting.program world.heap frame op) :
    ¬ Acts setting frame world op (.fault e after) := by
  obtain @⟨_, _, _, object, _, _, receiver, operand, names, named, known, stored, typed, serves⟩ :=
    h
  intro hacts
  cases hacts with
  | underflow few =>
    rw [Op.needs_of_receiver receiver] at few
    exact absurd (List.getElem?_eq_some_iff.mp operand).1 (by omega)
  | unnamed names' missing =>
    obtain rfl := Option.some.inj (names.symm.trans names')
    rw [named] at missing
    cases missing
  | noField operands named' unowned =>
    cases receiver
    cases names
    obtain rfl := Except.ok.inj (named.symm.trans named')
    rw [operands, List.getElem?_cons_zero, Option.some.injEq] at operand
    rw [operand, fieldOwner_of_mem stored (typed ▸ serves)] at unowned
    cases unowned
  | noTarget operands named' unowned =>
    cases receiver
    cases names
    obtain rfl := Except.ok.inj (named.symm.trans named')
    rw [operands, List.getElem?_cons_succ, List.getElem?_cons_zero, Option.some.injEq] at operand
    rw [operand, fieldOwner_of_mem stored (typed ▸ serves)] at unowned
    cases unowned
  | noMethod operands named' found =>
    cases receiver
    cases names
    obtain rfl := Except.ok.inj (named.symm.trans named')
    rw [operands, getElem?_below_args, Option.some.injEq] at operand
    obtain ⟨id, hid, -⟩ := serves
    rw [operand, method_of_get? known hid] at found
    cases found
  | noEntry operands named' found entered =>
    cases receiver
    cases names
    obtain rfl := Except.ok.inj (named.symm.trans named')
    rw [operands, getElem?_below_args, Option.some.injEq] at operand
    obtain ⟨id, hid, htakes⟩ := serves
    rw [operand, method_of_get? known hid] at found
    cases found
    obtain ⟨_, -, henter⟩ := enter_takes htakes (some object) .value
    rw [henter] at entered
    cases entered
  | noUnary operator _ _ | noBinary operator _ _ => cases op <;> cases operator <;> cases receiver
  | noTruth _ _ | noHost _ _ | noCall _ _ | noObject _ _ => cases receiver

/-- Where an instruction is served only a limit of the machine can stop the run. -/
theorem step_of_served {state : State σ} {ending : Ending σ} {e : RuntimeError}
    (h : Served setting.program state.world.heap state.frame op)
    (hop : state.frame.chunk.ops[state.frame.ip]? = some op)
    (hstep : step setting state = .ended ending) (herror : ending.result = .error e) :
    e.fault.ofLimit = true := by
  have hsame : ∀ {other : Op}, state.frame.chunk.ops[state.frame.ip]? = some other → other = op :=
    fun hother => Option.some.inj (hother.symm.trans hop)
  cases stepped setting state with
  | off noOp _ =>
    rw [noOp] at hop
    cases hop
  | limited _ _ steps | full _ _ steps =>
    rw [steps] at hstep
    cases hstep
    cases herror
    rfl
  | @acts other result opAt _ acted steps =>
    obtain rfl := hsame opAt
    rw [steps] at hstep
    cases result with
    | next _ _ => cases hstep
    | enter caller callee world =>
      simp only [Effect.outcome, pushFrame] at hstep
      split at hstep
      · cases hstep
        cases herror
        rfl
      · cases hstep
    | ret _ _ =>
      cases acted
      cases h with
      | mk receiver => cases receiver
    | fault e world =>
      have hserved : Served setting.program state.world.heap (advance state.frame) other := by
        obtain ⟨receiver, operand, names, named, known, stored, typed, serves⟩ := h
        exact ⟨receiver, operand, names, named, known, stored, typed, serves⟩
      exact absurd acted hserved.acts

end Machine

end ScriptHost
