import Mathlib.Data.List.Forall2
import ScriptHost.Proofs.Machine.Actions
import ScriptHost.Proofs.Machine.Faults
import ScriptHost.Proofs.Machine.Steps
import ScriptHost.Proofs.Program.Names
/-!
# Which function a frame runs

A frame does not know the number of its function. `labelsAfter` keeps the numbers of all active
calls beside a run, as the machine dispatches them: a top level has none. What a frame has as `this`
is read off its label: a member of a class runs on an object of that class and no other.
-/

set_option autoImplicit false

namespace ScriptHost

/-- The function that runs next where a frame has returned: the constructor of an object whose
fields are initialised. -/
def Resume.next? : Resume → Option Nat
  | .construct _ (some (id, _)) => some id
  | _ => none

namespace Machine

variable {σ : Type}

/-- The function that an instruction enters. -/
def entered? (setting : Setting σ) (frame : Frame) : Op → Option Nat
  | .call id _ => some id
  | .callMethod index argc => do
    let name ← (frame.constantName index).toOption
    let receiver ← frame.stack[argc]?
    let (id, _) ← (method setting.program receiver name).toOption
    return id
  | .create classId _ => setting.program.classes[classId]?.map (·.fieldInit)
  | _ => none

/-- The functions that the frames run after a step, the innermost first. -/
def labelsAfter (setting : Setting σ) (state : State σ) (labels : List (Option Nat)) :
    List (Option Nat) :=
  match state.frame.chunk.ops[state.frame.ip]? with
  | none | some .ret => state.frame.resume.next?.toList.map some ++ labels.tail
  | some op => (entered? setting state.frame op).toList.map some ++ labels

theorem labelsAfter_of_ne_ret {setting : Setting σ} {state : State σ} {op : Op}
    (h : state.frame.chunk.ops[state.frame.ip]? = some op) (hne : op ≠ .ret)
    (labels : List (Option Nat)) :
    labelsAfter setting state labels =
      (entered? setting state.frame op).toList.map some ++ labels := by
  unfold labelsAfter
  rw [h]
  cases op <;> first | exact absurd rfl hne | rfl

/-- So many steps lead from one state to another, and the frames run these functions. -/
inductive Traced (setting : Setting σ) :
    Nat → State σ → List (Option Nat) → State σ → List (Option Nat) → Prop
  | refl {state : State σ} {labels : List (Option Nat)} :
      Traced setting 0 state labels state labels
  | head {count : Nat} {first second last : State σ} {labels others : List (Option Nat)}
      (step : step setting first = .running second)
      (rest : Traced setting count second (labelsAfter setting first labels) last others) :
      Traced setting (count + 1) first labels last others

variable {setting : Setting σ}

theorem Traced.steps {count : Nat} {first last : State σ} {labels others : List (Option Nat)}
    (h : Traced setting count first labels last others) : Steps setting count first last := by
  induction h with
  | refl => exact .refl
  | head hstep _ ih => exact .head hstep ih

/-- Every run can be followed. -/
theorem Steps.traced {count : Nat} {first last : State σ} (h : Steps setting count first last)
    (labels : List (Option Nat)) : ∃ others, Traced setting count first labels last others := by
  induction h generalizing labels with
  | refl => exact ⟨labels, .refl⟩
  | head hstep _ ih =>
    obtain ⟨others, hrest⟩ := ih (labelsAfter setting _ labels)
    exact ⟨others, .head hstep hrest⟩

end Machine

/-! ## What a frame has as `this` -/

/-- Code is known by the functions that it belongs to, functions belong to classes as they should,
and no code calls a member by its number. -/
structure Program.Labelled (program : Program) (code : Option Nat → Chunk → Prop) : Prop
    extends program.Membered where
  functions : ∀ {id : Nat} {f : Function}, program.functions[id]? = some f →
    code (some id) f.chunk
  calls : ∀ {label : Option Nat} {chunk : Chunk} {place id argc index : Nat} {c : Class},
    code label chunk → chunk.ops[place]? = some (.call id argc) →
      program.classes[index]? = some c → ¬ c.Member id

/-- A frame runs the code of its function, on an object of the class that the function belongs to,
and so will the constructor that is to follow. -/
structure Frame.Labelled (program : Program) (code : Option Nat → Chunk → Prop)
    (label : Option Nat) (frame : Frame) : Prop where
  code : code label frame.chunk
  this : ∀ (id index : Nat) (c : Class), label = some id → program.classes[index]? = some c →
    c.Member id → ∃ object : ObjectRef, frame.this = some object ∧ object.classId = index
  next : ∀ (object : ObjectRef) (id : Nat) (args : List Value),
    frame.resume = .construct object (some (id, args)) →
      ∃ c, program.classes[object.classId]? = some c ∧ c.Member id

variable {program : Program} {code : Option Nat → Chunk → Prop} {label : Option Nat}

/-- What matters of a frame is its code, `this` and what follows. -/
theorem Frame.Labelled.same {frame after : Frame} (h : frame.Labelled program code label)
    (hchunk : after.chunk = frame.chunk) (hthis : after.this = frame.this)
    (hresume : after.resume = frame.resume) : after.Labelled program code label :=
  ⟨hchunk ▸ h.code, hthis ▸ h.this, hresume ▸ h.next⟩

/-- A member runs on an object of its class, as it belongs to no other. -/
theorem Program.Membered.this_eq (h : program.Membered) {object : ObjectRef} {c : Class} {id : Nat}
    (hc : program.classes[object.classId]? = some c) (hid : c.Member id) (index : Nat)
    (other : Class) (hother : program.classes[index]? = some other) (hid' : other.Member id) :
    ∃ o : ObjectRef, some object = some o ∧ o.classId = index :=
  ⟨object, rfl, h.unique hc hother hid hid'⟩

namespace Machine

variable {σ : Type} {setting : Setting σ} {labels : List (Option Nat)}

/-- Every frame runs the function of its label. -/
def State.Labelled (program : Program) (code : Option Nat → Chunk → Prop)
    (labels : List (Option Nat)) (state : State σ) : Prop :=
  List.Forall₂ (fun frame label => frame.Labelled program code label)
    (state.frame :: state.callers) labels

/-- A function is entered. -/
theorem enter_labelled (hprogram : program.Labelled code) {id : Nat} {this : Option ObjectRef}
    {args : List Value} {resume : Resume} {frame : Frame}
    (h : enter program id this args resume = .ok frame)
    (hthis : ∀ index c, program.classes[index]? = some c → c.Member id →
      ∃ object : ObjectRef, this = some object ∧ object.classId = index)
    (hnext : ∀ object next rest, resume = .construct object (some (next, rest)) →
      ∃ c, program.classes[object.classId]? = some c ∧ c.Member next) :
    frame.Labelled program code (some id) := by
  obtain ⟨f, hf, -, rfl⟩ := enter_ok h
  refine ⟨hprogram.functions hf, ?_, hnext⟩
  rintro _ index c ⟨⟩ hc hid
  exact hthis index c hc hid

/-- The creation of an object starts with the function that initialises its fields. -/
theorem construct_labelled (hprogram : program.Labelled code) {classId : Nat} {args : List Value}
    {heap : Heap} {frame : Frame} {fields : Fields}
    (h : construct program classId args heap = .ok (frame, fields)) :
    ∃ c, program.classes[classId]? = some c ∧ frame.Labelled program code (some c.fieldInit) := by
  obtain ⟨c, hc, -, henter, -⟩ := construct_ok h
  have hc' : program.classes[(heap.next classId c.name).classId]? = some c := hc
  refine ⟨c, hc, enter_labelled hprogram henter (hprogram.this_eq hc' (.inl rfl)) ?_⟩
  intro object next rest hresume
  simp only [Resume.construct.injEq] at hresume
  obtain ⟨rfl, hnext⟩ := hresume
  obtain ⟨id, hid, hsame⟩ := Option.map_eq_some_iff.mp hnext
  cases hsame
  exact ⟨c, hc, (hprogram.classes _ c hc).constructor_member hid⟩

/-- An instruction with which a frame goes on enters nothing. -/
theorem Acts.stays {frame after : Frame} {world world' : World σ} {op : Op}
    (h : Acts setting frame world op (.next after world')) (other : Frame) :
    op ≠ .ret ∧ entered? setting other op = none := by
  cases h with
  | load loads => cases op <;> first | (cases loads; done) | exact ⟨nofun, rfl⟩
  | unary operator => cases op <;> first | (cases operator; done) | exact ⟨nofun, rfl⟩
  | binary operator => cases op <;> first | (cases operator; done) | exact ⟨nofun, rfl⟩
  | jump | test | pop | storeLocal | storeGlobal | getField | setField | host =>
    exact ⟨nofun, rfl⟩

/-- What an instruction enters. -/
theorem Acts.enters (hprogram : setting.program.Labelled code) {frame caller callee : Frame}
    {place : Nat} {world world' : World σ} {op : Op} (hcode : code label frame.chunk)
    (hop : frame.chunk.ops[place]? = some op)
    (h : Acts setting frame world op (.enter caller callee world')) :
    op ≠ .ret ∧ ∃ id, entered? setting frame op = some id ∧
      callee.Labelled setting.program code (some id) := by
  cases h with
  | @call id args _ _ _ entered =>
    refine ⟨nofun, id, rfl, enter_labelled hprogram entered (fun index c hc hid => ?_) nofun⟩
    exact absurd hid (hprogram.calls hcode hop hc)
  | @callMethod index name receiver id object args rest _ operands named found entered =>
    obtain ⟨-, c, hc, hid⟩ := method_ok found
    refine ⟨nofun, id, ?_,
      enter_labelled hprogram entered (hprogram.this_eq hc (.inr ⟨_, hid⟩)) nofun⟩
    have hreceiver := getElem?_below_args args rest receiver
    rw [← operands] at hreceiver
    simp [entered?, named, hreceiver, found, Except.toOption]
  | create operands made =>
    obtain ⟨c, hc, hcallee⟩ := construct_labelled hprogram made
    exact ⟨nofun, _, by simp [entered?, hc], hcallee⟩

theorem pushFrame_labelled {callee : Frame} {frames : List Frame} {executed : Nat}
    {world : World σ} {next : State σ} (hcallee : callee.Labelled program code label)
    (hframes : List.Forall₂ (fun frame label => frame.Labelled program code label) frames labels)
    (h : pushFrame callee frames executed world = .running next) :
    next.Labelled program code (label :: labels) := by
  unfold pushFrame at h
  split at h
  · cases h
  · cases h
    exact .cons hcallee hframes

theorem deliver_labelled {value : Value} {callers : List Frame} {executed : Nat}
    {world : World σ} {next : State σ}
    (hcallers : List.Forall₂ (fun frame label => frame.Labelled program code label) callers labels)
    (h : deliver value callers executed world = .running next) :
    next.Labelled program code labels := by
  cases hcallers with
  | nil => cases h
  | cons hcaller hrest =>
    cases h
    exact .cons (hcaller.same rfl rfl rfl) hrest

theorem finish_labelled (hprogram : program.Labelled code) {resume : Resume} {value : Value}
    {callers : List Frame} {executed : Nat} {world : World σ} {next : State σ}
    (hresume : ∀ object id args, resume = .construct object (some (id, args)) →
      ∃ c, program.classes[object.classId]? = some c ∧ c.Member id)
    (hcallers : List.Forall₂ (fun frame label => frame.Labelled program code label) callers labels)
    (h : finish program resume value callers executed world = .running next) :
    next.Labelled program code (resume.next?.toList.map some ++ labels) := by
  unfold finish at h
  split at h
  · exact deliver_labelled hcallers h
  · exact deliver_labelled hcallers h
  · exact deliver_labelled hcallers h
  · rename_i object id args
    obtain ⟨c, hc, hid⟩ := hresume object id args rfl
    split at h
    · cases h
    · rename_i henter
      exact pushFrame_labelled (enter_labelled hprogram henter (hprogram.this_eq hc hid) nofun)
        hcallers h

/-- Every step keeps to the labels. -/
theorem step_labelled (hprogram : setting.program.Labelled code) {state next : State σ}
    (h : state.Labelled setting.program code labels) (hstep : step setting state = .running next) :
    next.Labelled setting.program code (labelsAfter setting state labels) := by
  cases h with
  | @cons _ label _ rest hframe hcallers =>
    cases stepped setting state with
    | off noOp steps =>
      rw [steps] at hstep
      simp only [labelsAfter, noOp]
      exact finish_labelled hprogram hframe.next hcallers hstep
    | limited _ _ steps | full _ _ steps =>
      rw [steps] at hstep
      cases hstep
    | @acts op result opAt _ acted steps =>
      rw [steps] at hstep
      cases result with
      | next after world =>
        obtain ⟨hret, hnone⟩ := acted.stays state.frame
        obtain ⟨_, -, -, hmoves⟩ := acted.moves
        rw [labelsAfter_of_ne_ret opAt hret, hnone]
        cases hstep
        exact .cons (hframe.same hmoves.chunk hmoves.this hmoves.resume) hcallers
      | enter caller callee world =>
        have hcode : code label (advance state.frame).chunk := hframe.code
        obtain ⟨hret, id, hid, hcallee⟩ := acted.enters hprogram hcode opAt
        obtain ⟨-, -, hmoves⟩ := acted.waits
        have hsame :
            entered? setting (advance state.frame) op = entered? setting state.frame op := by
          cases op <;> rfl
        rw [labelsAfter_of_ne_ret opAt hret, ← hsame, hid]
        exact pushFrame_labelled hcallee
          (.cons (hframe.same hmoves.chunk hmoves.this hmoves.resume) hcallers) hstep
      | ret value world =>
        cases acted
        simp only [labelsAfter, opAt]
        exact finish_labelled hprogram hframe.next hcallers hstep
      | fault e world => cases hstep

/-- Every run keeps to the labels. -/
theorem Traced.labelled (hprogram : setting.program.Labelled code) {count : Nat}
    {first last : State σ} {others : List (Option Nat)}
    (htraced : Traced setting count first labels last others)
    (h : first.Labelled setting.program code labels) :
    last.Labelled setting.program code others := by
  induction htraced with
  | refl => exact h
  | head hstep _ ih => exact ih (step_labelled hprogram h hstep)

end Machine

end ScriptHost
