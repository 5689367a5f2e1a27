import ScriptHost.Proofs.Machine.Known
/-!
# Runs on a program that has grown

Sound code refers to entries that a larger program has as well, and known objects are of classes
that it has as well. So every step on the larger program is the step on the smaller one, and a run
of old code does not see what has been added.
-/

set_option autoImplicit false

namespace ScriptHost

namespace Machine

variable {σ : Type} {setting : Setting σ} {next : Program} {known : ObjectRef → Prop}
  {held : σ → ObjectRef → Prop}

/-- The same setting with another program. -/
def Setting.on (setting : Setting σ) (next : Program) : Setting σ :=
  { setting with program := next }

/-- A function that was there is entered as before. -/
theorem enter_extends {program : Program} (hext : next.Extends program) {id : Nat}
    (hid : id < program.functions.size) (this : Option ObjectRef) (args : List Value)
    (resume : Resume) : enter next id this args resume = enter program id this args resume := by
  have hold := Array.getElem?_eq_getElem hid
  simp only [enter, hold, hext.functions hold]

/-- An object of a class that was there is made as before. -/
theorem construct_extends {program : Program} (hext : next.Extends program)
    (hprogram : program.Indexed) {classId : Nat} (hclass : classId < program.classes.size)
    (args : List Value) (heap : Heap) :
    construct next classId args heap = construct program classId args heap := by
  have hold := Array.getElem?_eq_getElem hclass
  obtain ⟨f, hf, -⟩ := (hprogram.classes classId _ hold).fieldInit
  simp only [construct, hold, hext.classes hold,
    enter_extends hext (Array.getElem?_eq_some_iff.mp hf).1]

/-- A method of an object whose class was there is found as before. -/
theorem method_extends {program : Program} (hext : next.Extends program) {receiver : Value}
    (hreceiver : receiver.Among fun object => object.classId < program.classes.size)
    (name : String) : method next receiver name = method program receiver name := by
  cases receiver with
  | object object =>
    have hold := Array.getElem?_eq_getElem (hreceiver object rfl)
    simp only [method, hold, hext.classes hold]
  | _ => rfl

/-- A method is called as before. -/
theorem prepareMethod_extends {program : Program} (hext : next.Extends program)
    (hprogram : program.Indexed) {frame : Frame}
    (hframe : ∀ value ∈ frame.stack,
      value.Among fun object => object.classId < program.classes.size)
    (index argc : Nat) :
    prepareMethod next frame index argc = prepareMethod program frame index argc := by
  unfold prepareMethod
  obtain ⟨args, rest, hstack, -, hargs⟩ | ⟨-, hargs⟩ := popArgs_cases frame argc
  · rw [hargs]
    simp only [bind, Except.bind]
    obtain ⟨receiver, below, hrest, hpop⟩ | ⟨-, hpop⟩ := pop_cases { frame with stack := rest }
    · have hreceiver : receiver ∈ frame.stack := by
        rw [hstack, show rest = receiver :: below from hrest]
        exact List.mem_append_right _ List.mem_cons_self
      rw [hpop]
      simp only
      cases Frame.constantName { frame with stack := below } index with
      | error e => rfl
      | ok name =>
        simp only [method_extends hext (hframe receiver hreceiver)]
        cases hmethod : method program receiver name with
        | error e => rfl
        | ok found =>
          obtain ⟨id, object⟩ := found
          obtain ⟨-, c, hc, hid⟩ := method_ok hmethod
          have hinside := (hprogram.classes _ c hc).methods name id hid
          simp only [enter_extends hext hinside]
    · rw [hpop]
  · rw [hargs]
    rfl

/-- A sound instruction on known objects does what it did before. -/
theorem effect_extends {accepts : HostBinding → Nat → Prop} {slot : Nat → Prop}
    (hext : next.Extends setting.program) (hprogram : setting.program.Indexed) (frame : Frame)
    {op : Op} (hop : op.Sound setting.program accepts slot frame.chunk.constants)
    (hframe : ∀ value ∈ frame.stack,
      value.Among fun object => object.classId < setting.program.classes.size)
    (world : World σ) :
    effect (setting.on next) frame world op = effect setting frame world op := by
  cases op with
  | call id argc =>
    obtain ⟨f, hf, -⟩ := hop
    have hinside := (Array.getElem?_eq_some_iff.mp hf).1
    simp only [effect, prepareCall, Setting.on, enter_extends hext hinside]
  | callMethod index argc =>
    simp only [effect, Setting.on, prepareMethod_extends hext hprogram hframe]
  | callHost id argc =>
    obtain ⟨binding, hbinding, -⟩ := hop
    have hsame : ∀ args host, callHost (setting.on next) id args host =
        callHost setting id args host := fun args host => by
      simp only [callHost, Setting.on, hbinding, hext.bindings hbinding]
    simp only [effect, hostEffect, hsame]
  | create id argc =>
    obtain ⟨c, hc, -⟩ := hop
    have hinside := (Array.getElem?_eq_some_iff.mp hc).1
    simp only [effect, prepareObject, Setting.on, construct_extends hext hprogram hinside]
  | _ => rfl

/-- What follows a return is what followed it before. -/
theorem finish_extends {accepts : HostBinding → Nat → Prop} {program : Program}
    (hext : next.Extends program) {frame : Frame} (hframe : frame.Sound program accepts)
    (value : Value) (callers : List Frame) (executed : Nat) (world : World σ) :
    finish next frame.resume value callers executed world =
      finish program frame.resume value callers executed world := by
  unfold finish
  split
  · rfl
  · rfl
  · rfl
  · rename_i object id args hresume
    rw [enter_extends hext (hframe.next object id args hresume)]

/-- A step on the program that has grown is the step on the program before. -/
theorem step_extends {accepts : HostBinding → Nat → Prop} (hext : next.Extends setting.program)
    (hprogram : setting.program.Indexed)
    (hclasses : ∀ object, known object → object.classId < setting.program.classes.size)
    {state : State σ} (hsound : state.Sound setting.program accepts)
    (h : state.Encloses held known) : step (setting.on next) state = step setting state := by
  obtain ⟨frame, callers, executed, world⟩ := state
  have hframe := hsound.sound frame List.mem_cons_self
  have hstack : ∀ value ∈ frame.stack,
      value.Among fun object => object.classId < setting.program.classes.size :=
    fun value hvalue => ((h.frames frame List.mem_cons_self).stack value hvalue).mono hclasses
  have hfinish : ∀ (value : Value) (executed : Nat) (world : World σ),
      finish (setting.on next).program frame.resume value callers executed world =
        finish setting.program frame.resume value callers executed world :=
    fun value executed world => finish_extends hext hframe value callers executed world
  cases hop : frame.chunk.ops[frame.ip]? with
  | none => simp only [step, hop, hfinish]
  | some op =>
    have hcode := hframe.code op (Array.mem_toList_iff.mpr (Array.mem_of_getElem? hop))
    have hinstruction : instruction (setting.on next) (executed + 1) frame world op =
        instruction setting (executed + 1) frame world op := by
      unfold instruction
      rw [effect_extends hext hprogram { frame with ip := frame.ip + 1 } hcode hstack world]
      rfl
    simp only [step, hop, hinstruction, hfinish]

/-- A run on the program that has grown is the run on the program before. -/
theorem run_extends (hext : next.Extends setting.program)
    (hprogram : setting.program.Sound (HostBinding.Accepted setting.catalog))
    (hkeeps : setting.catalog.Keeps held) (fuel : Nat) {state : State σ}
    (hsafe : state.Safe setting) (h : state.Encloses held known)
    (hclasses : ∀ object, known object → object.classId < setting.program.classes.size) :
    run (setting.on next) fuel state = run setting fuel state := by
  induction fuel generalizing state known with
  | zero => rfl
  | succ fuel ih =>
    rw [run, run, step_extends hext hprogram.toIndexed hclasses hsafe.sound h]
    have hafter := step_encloses hsafe.sound hkeeps h
    cases hstep : step setting state with
    | ended ending => rfl
    | running after =>
      rw [hstep] at hafter
      obtain hsame | ⟨made, hmade, hmore⟩ := hafter
      · exact ih (hsafe.next hprogram hstep) hsame hclasses
      · refine ih (hsafe.next hprogram hstep) hmore ?_
        rintro object (hobject | rfl)
        · exact hclasses object hobject
        · exact hmade.class_lt

section Calls

variable {world : World σ} {args : List Value}
  (hext : next.Extends setting.program)
  (hprogram : setting.program.Sound (HostBinding.Accepted setting.catalog))
  (hkeeps : setting.catalog.Keeps held)
  (hclasses : ∀ object, known object → object.classId < setting.program.classes.size)
  (hworld : world.Encloses held known)

include hext hprogram hkeeps hclasses hworld

/-- A call of an old function on known objects is what it was before. -/
theorem call_extends {id : Nat} (hid : id < setting.program.functions.size)
    {this : Option ObjectRef} (hthis : ∀ object, this = some object → known object)
    (hargs : ∀ value ∈ args, value.Among known) (fuel : Nat) :
    call (setting.on next) fuel id this args world = call setting fuel id this args world := by
  unfold call
  rw [show enter (setting.on next).program id this args .value = enter setting.program id this args
    .value from enter_extends hext hid this args .value]
  cases henter : enter setting.program id this args .value with
  | error e => rfl
  | ok frame =>
    have hframe := enter_among henter hargs hthis trivial
    exact run_extends hext hprogram hkeeps fuel (safe_of_enter hprogram henter world)
      (encloses_of_start hframe hworld) hclasses

/-- An object of an old class is made as before. -/
theorem instantiate_extends {classId : Nat} (hclass : classId < setting.program.classes.size)
    (hargs : ∀ value ∈ args, value.Among known) (fuel : Nat) :
    instantiate (setting.on next) fuel classId args world =
      instantiate setting fuel classId args world := by
  unfold instantiate
  rw [show construct (setting.on next).program classId args world.heap =
    construct setting.program classId args world.heap from
      construct_extends hext hprogram.toIndexed hclass args world.heap]
  cases hmade : construct setting.program classId args world.heap with
  | error e => rfl
  | ok made =>
    obtain ⟨object, hobject, hframe, hafter⟩ := construct_encloses hmade hargs hworld
    refine run_extends hext hprogram hkeeps fuel (safe_of_construct hprogram hmade _)
      (encloses_of_start hframe hafter) ?_
    rintro other (hother | rfl)
    · exact hclasses other hother
    · exact hobject.class_lt

/-- An old top level does what it did before. -/
theorem runTopLevel_extends {wide : Prop} {chunk : Chunk}
    (hchunk : chunk.Sound setting.program (HostBinding.Accepted setting.catalog) wide)
    (fuel : Nat) :
    runTopLevel (setting.on next) fuel chunk world = runTopLevel setting fuel chunk world := by
  have hresume : Resume.Among known .value := trivial
  exact run_extends hext hprogram hkeeps fuel (safe_of_topLevel hchunk world)
    (encloses_of_start (.start nofun nofun hresume _) hworld) hclasses

end Calls

end Machine

end ScriptHost
