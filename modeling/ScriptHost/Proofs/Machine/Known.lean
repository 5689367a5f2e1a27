import ScriptHost.Proofs.Machine.Objects
import ScriptHost.Proofs.Machine.Sound
/-!
# Which objects a run comes to know

A run works on the objects that it was given and on those that it makes, as long as host functions
hand out no others: `step_encloses`. A set that encloses a state is one from which nothing in the
state leads out.
-/

set_option autoImplicit false

namespace ScriptHost

variable {σ : Type} {known : ObjectRef → Prop} {held : σ → ObjectRef → Prop}

/-- A value that is an object is one of these. -/
def Value.Among (known : ObjectRef → Prop) (value : Value) : Prop :=
  ∀ object, value = .object object → known object

/-- A value that is no object is none of the others either. -/
theorem Value.among_of_ne {value : Value} (h : ∀ object, value ≠ .object object) :
    value.Among known :=
  fun object hobject => absurd hobject (h object)

/-- Null is no object. -/
theorem Value.among_null : Value.null.Among known := by
  intro object hobject
  cases hobject

/-- An object is one of these. -/
theorem Value.among_object {object : ObjectRef} :
    (Value.object object).Among known ↔ known object := by
  constructor
  · exact fun h => h object rfl
  · rintro h other hsame
    cases hsame
    exact h

/-- One of these is one of others if they are all. -/
theorem Value.Among.mono {others : ObjectRef → Prop} {value : Value} (h : value.Among known)
    (hsub : ∀ object, known object → others object) : value.Among others :=
  fun object hobject => hsub object (h object hobject)

/-! ## Host functions -/

/-- A host function hands out no objects but those that it is passed or that the host has at hand,
and the host gets hold of no others. What the host has at hand is for `held` to say. -/
structure HostFunction.Keeps (held : σ → ObjectRef → Prop) (f : HostFunction σ) : Prop where
  returned : ∀ args host value, (f.call args host).1 = .value value →
    value.Among fun object => held host object ∨ .object object ∈ args
  kept : ∀ args host object, held (f.call args host).2 object →
    held host object ∨ .object object ∈ args

/-- All functions of a module keep to the objects at hand. -/
def HostModule.Keeps (held : σ → ObjectRef → Prop) (module : HostModule σ) : Prop :=
  ∀ (name : String) (f : HostFunction σ), module.functions.get? name = some f → f.Keeps held

/-- All loaded modules keep to the objects at hand. -/
def Catalog.Keeps (held : σ → ObjectRef → Prop) (catalog : Catalog σ) : Prop :=
  ∀ loaded ∈ catalog.modules, loaded.module.Keeps held

/-- An empty catalog keeps to the objects at hand. -/
theorem Catalog.keeps_empty : ({} : Catalog σ).Keeps held :=
  nofun

/-- A catalog keeps to the objects at hand when a module is loaded that does. -/
theorem Catalog.Keeps.load {catalog : Catalog σ} (h : catalog.Keeps held) {module : HostModule σ}
    (hmodule : module.Keeps held) : (catalog.load module).Keeps held := fun loaded hloaded => by
  obtain rfl | hold := mem_place hloaded
  · exact hmodule
  · exact h loaded hold

/-- A catalog keeps to the objects at hand when a module is unloaded. -/
theorem Catalog.Keeps.unload {catalog : Catalog σ} (h : catalog.Keeps held) (name : String) :
    (catalog.unload name).2.Keeps held :=
  fun loaded hloaded => h loaded (List.mem_filter.mp hloaded).1

/-! ## The heap -/

/-- What is in a field after an assignment. -/
theorem Heap.getField?_setField_cases {heap : Heap} {owner object : ObjectRef}
    {field name : String} {value found : Value}
    (h : (heap.setField owner field value).getField? object name = some found) :
    found = value ∨ heap.getField? object name = some found := by
  have hfields : (heap.setField owner field value).fields object =
      if owner.id = object.id then
        (heap.objects[object.id]?.map fun fields => fields.insert field value).getD {}
      else heap.fields object := by
    simp only [Heap.setField, Heap.fields, Array.getElem?_modify]
    split <;> rfl
  rw [Heap.getField?, hfields] at h
  split at h
  · cases hobject : heap.objects[object.id]? with
    | none =>
      rw [hobject] at h
      cases h
    | some fields =>
      rw [hobject, Option.map_some, Option.getD_some, Table.get?_insert] at h
      split at h
      · exact .inl (Option.some.inj h).symm
      · exact .inr (by rw [Heap.getField?, Heap.fields, hobject]; exact h)
  · exact .inr h

/-- What is in a field after an object has been made. -/
theorem Heap.getField?_alloc_cases {heap : Heap} {fields : Fields} {object : ObjectRef}
    {name : String} {found : Value}
    (h : (heap.alloc fields).getField? object name = some found) :
    fields.get? name = some found ∨ heap.getField? object name = some found := by
  simp only [Heap.getField?, Heap.fields, Heap.alloc, Array.getElem?_push] at h
  split at h
  · exact .inl h
  · exact .inr h

/-- The fields of an object that has just been made hold nothing but null. -/
theorem null_of_get?_fresh {names : List String} {name : String} {found : Value}
    (h : (Table.ofList (names.map fun name => (name, Value.null))).get? name = some found) :
    found = .null := by
  obtain hmem | hold := Table.get?_insertAll_cases h
  · obtain ⟨_, -, heq⟩ := List.mem_map.mp hmem
    cases heq
    rfl
  · cases hold

/-! ## States -/

/-- From the objects of a set, from the global variables and from what the host has at hand only
objects of the set can be reached. -/
structure World.Encloses {σ : Type} (held : σ → ObjectRef → Prop) (known : ObjectRef → Prop)
    (world : World σ) : Prop where
  globals : ∀ value ∈ world.globals, value.Among known
  fields : ∀ object, known object → ∀ name value,
    world.heap.getField? object name = some value → value.Among known
  held : ∀ object, held world.host object → known object

/-- What a frame goes on to has to do with objects of a set only. -/
def Resume.Among (known : ObjectRef → Prop) : Resume → Prop
  | .value => True
  | .object made => known made
  | .construct made next =>
    known made ∧ ∀ id args, next = some (id, args) → ∀ value ∈ args, value.Among known

/-- All objects of a frame are in a set. -/
structure Frame.Among (known : ObjectRef → Prop) (frame : Frame) : Prop where
  stack : ∀ value ∈ frame.stack, value.Among known
  locals : ∀ value ∈ frame.locals, value.Among known
  this : ∀ object, frame.this = some object → known object
  resume : frame.resume.Among known

/-- A frame at the start of its code knows what it is given. -/
theorem Frame.Among.start {chunk : Chunk} {this : Option ObjectRef} {args : List Value}
    {resume : Resume} (hargs : ∀ value ∈ args, value.Among known)
    (hthis : ∀ object, this = some object → known object) (hresume : resume.Among known)
    (name : String) : (Frame.start name chunk this args resume).Among known where
  stack := nofun
  locals := fun value hvalue => by
    simp only [Frame.start, Array.mem_append, List.mem_toArray, Array.mem_replicate] at hvalue
    obtain hvalue | ⟨-, rfl⟩ := hvalue
    · exact hargs value hvalue
    · exact Value.among_null
  this := hthis
  resume := hresume

theorem Resume.Among.mono {others : ObjectRef → Prop} {resume : Resume} (h : resume.Among known)
    (hsub : ∀ object, known object → others object) : resume.Among others := by
  cases resume with
  | value => trivial
  | object made => exact hsub made h
  | construct made next =>
    exact ⟨hsub made h.1, fun id args hnext value hvalue =>
      (h.2 id args hnext value hvalue).mono hsub⟩

theorem Frame.Among.mono {others : ObjectRef → Prop} {frame : Frame} (h : frame.Among known)
    (hsub : ∀ object, known object → others object) : frame.Among others where
  stack := fun value hvalue => (h.stack value hvalue).mono hsub
  locals := fun value hvalue => (h.locals value hvalue).mono hsub
  this := fun object hobject => hsub object (h.this object hobject)
  resume := h.resume.mono hsub

/-- A frame goes on with another stack. -/
theorem Frame.Among.withStack {frame : Frame} (h : frame.Among known) {stack : List Value}
    (hstack : ∀ value ∈ stack, value.Among known) : { frame with stack := stack }.Among known :=
  { h with stack := hstack }

variable {world : World σ}

/-- A field is assigned a known value. -/
theorem World.Encloses.setField (h : world.Encloses held known) {owner : ObjectRef}
    {field : String} {value : Value} (hvalue : value.Among known) :
    World.Encloses held known { world with heap := world.heap.setField owner field value } where
  globals := h.globals
  fields := fun object hobject name found hfound => by
    obtain rfl | hold := Heap.getField?_setField_cases hfound
    · exact hvalue
    · exact h.fields object hobject name found hold
  held := h.held

/-- A known value is kept in a global variable. -/
theorem World.Encloses.storeGlobal (h : world.Encloses held known) {id : Nat} {value : Value}
    (hvalue : value.Among known) :
    World.Encloses held known
      { world with globals := Machine.storeGlobal world.globals id value } where
  globals := fun found hfound => by
    obtain hold | rfl := Array.mem_or_eq_of_mem_setIfInBounds hfound
    · obtain hold | hnull := Array.mem_append.mp hold
      · exact h.globals found hold
      · rw [(Array.mem_replicate.mp hnull).2]
        exact Value.among_null
    · exact hvalue
  fields := h.fields
  held := h.held

/-- An object is made whose fields hold nothing but null. -/
theorem World.Encloses.alloc (h : world.Encloses held known) {fields : Fields} {made : ObjectRef}
    (hmade : made.id = world.heap.objects.size)
    (hfields : ∀ name found, fields.get? name = some found → found = .null) :
    World.Encloses held (fun object => known object ∨ object = made)
      { world with heap := world.heap.alloc fields } where
  globals := fun value hvalue => (h.globals value hvalue).mono fun _ => .inl
  fields := fun object hobject name found hfound => by
    obtain hnew | hold := Heap.getField?_alloc_cases hfound
    · rw [hfields name found hnew]
      exact Value.among_null
    · obtain hknown | rfl := hobject
      · exact (h.fields object hknown name found hold).mono fun _ => .inl
      · rw [Heap.getField?, Heap.fields, hmade, Array.getElem?_eq_none (Nat.le_refl _)] at hold
        cases hold
  held := fun object hobject => .inl (h.held object hobject)

/-- An object of a class has been made, which has the fields of the class. -/
def Program.Makes (program : Program) (before after : Heap) (object : ObjectRef) : Prop :=
  ∃ c, program.classes[object.classId]? = some c ∧ object = before.next object.classId c.name ∧
    after = before.alloc (.ofList (c.fields.map fun name => (name, .null)))

/-- The class is one of the program. -/
theorem Program.Makes.class_lt {program : Program} {before after : Heap} {object : ObjectRef}
    (h : program.Makes before after object) : object.classId < program.classes.size := by
  obtain ⟨c, hc, -⟩ := h
  exact (Array.getElem?_eq_some_iff.mp hc).1

namespace Machine

variable {setting : Setting σ}

/-- An operator on one operand never gives an object. -/
theorem unary_among {op : Op} {f : Value → Except Fault Value} {a value : Value}
    (hop : op.unary? = some f) (h : f a = .ok value) : value.Among known := by
  rintro object rfl
  cases op with
  | neg =>
    cases hop
    unfold negate at h
    split at h
    · split at h <;> cases h
    · cases h
    · cases h
  | not =>
    cases hop
    unfold invert at h
    split at h <;> cases h
  | _ => cases hop

/-- An operator that computes never gives an object. -/
theorem arith_ne_object {op : ArithOp} {a b : Value} {object : ObjectRef} :
    arith op a b ≠ .ok (.object object) := by
  intro h
  unfold arith at h
  split at h
  · rename_i x y
    cases hint : intArith op x y with
    | ok n =>
      rw [hint] at h
      cases h
    | error e =>
      rw [hint] at h
      cases h
  · cases h
  · cases h
  · unfold wideArith at h
    split at h <;> cases h

/-- A comparison never gives an object. -/
theorem inOrder_ne_object {op : OrderOp} {a b : Value} {object : ObjectRef} :
    inOrder op a b ≠ .ok (.object object) := by
  intro h
  unfold inOrder at h
  cases horder : order op a b with
  | error e =>
    rw [horder] at h
    cases h
  | ok found =>
    rw [horder] at h
    cases found <;> cases h

/-- An operator on two operands never gives an object. -/
theorem binary_among {op : Op} {f : Value → Value → Except Fault Value} {a b value : Value}
    (hop : op.binary? = some f) (h : f a b = .ok value) : value.Among known := by
  rintro object rfl
  cases op with
  | add | sub | mul | div | mod =>
    cases hop
    exact absurd h arith_ne_object
  | lt | gt | le | ge =>
    cases hop
    exact absurd h inOrder_ne_object
  | eq | ne =>
    cases hop
    cases h
  | _ => cases hop

/-- The value that an instruction pushes which takes nothing from the stack. -/
theorem loaded_among {accepts : HostBinding → Nat → Prop} {slot : Nat → Prop} {program : Program}
    {frame : Frame} {world : World σ} {op : Op} {value : Value}
    (hop : op.Sound program accepts slot frame.chunk.constants) (hframe : frame.Among known)
    (hworld : world.Encloses held known) (h : loaded? frame world op = some value) :
    value.Among known := by
  cases op with
  | pushConst index =>
    cases h
    obtain ⟨constant, hconstant, hno⟩ := hop
    rw [hconstant]
    exact Value.among_of_ne hno
  | pushNull | pushTrue | pushFalse =>
    cases h
    intro object hobject
    cases hobject
  | loadLocal slot =>
    cases h
    cases hslot : frame.locals[slot]? with
    | none => exact Value.among_null
    | some found => exact hframe.locals found (Array.mem_of_getElem? hslot)
  | loadGlobal id =>
    cases h
    cases hglobal : world.globals[id]? with
    | none => exact Value.among_null
    | some found => exact hworld.globals found (Array.mem_of_getElem? hglobal)
  | loadThis =>
    cases h
    cases hthis : frame.this with
    | none => exact Value.among_null
    | some object => exact Value.among_object.mpr (hframe.this object hthis)
  | _ => cases h

/-- A host function that keeps to the objects at hand is called with known objects. -/
theorem callHost_among (hkeeps : setting.catalog.Keeps held) {id : Nat} {args : List Value}
    {world : World σ} {result : Except Fault Value} {after : σ}
    (hworld : world.Encloses held known) (hargs : ∀ value ∈ args, value.Among known)
    (h : callHost setting id args world.host = (result, after)) :
    (∀ value, result = .ok value → value.Among known) ∧
      World.Encloses held known { world with host := after } := by
  have hno : ∀ e : Fault, ∀ value, (Except.error e : Except Fault Value) = .ok value →
      value.Among known := by
    intro e value hvalue
    cases hvalue
  have hargument : ∀ object, .object object ∈ args → known object := fun object hobject =>
    hargs _ hobject object rfl
  unfold callHost at h
  split at h
  · cases h
    exact ⟨hno _, hworld⟩
  · unfold callBound at h
    split at h
    · cases h
      exact ⟨hno _, hworld⟩
    · rename_i binding _ f hbound
      have hf : f.Keeps held := by
        obtain ⟨number, module, hlive, hget⟩ := function_of_bound hbound
        exact hkeeps _ (Catalog.mem_of_live? hlive) _ _ hget
      cases hcall : f.call args world.host with
      | mk outcome host =>
        have hheld : ∀ object, held host object → known object := fun object hobject => by
          obtain hold | harg := hf.kept args world.host object (by rw [hcall]; exact hobject)
          · exact hworld.held object hold
          · exact hargument object harg
        rw [hcall] at h
        cases outcome with
        | failure message | panic detail =>
          cases h
          exact ⟨hno _, hworld.globals, hworld.fields, hheld⟩
        | value value =>
          cases h
          refine ⟨?_, hworld.globals, hworld.fields, hheld⟩
          rintro _ ⟨⟩
          refine (hf.returned args world.host value (by rw [hcall])).mono fun object hobject => ?_
          exact hobject.elim (hworld.held object) (hargument object)

/-- A function that is entered knows what it is given. -/
theorem enter_among {program : Program} {id : Nat} {this : Option ObjectRef} {args : List Value}
    {resume : Resume} {frame : Frame} (h : enter program id this args resume = .ok frame)
    (hargs : ∀ value ∈ args, value.Among known)
    (hthis : ∀ object, this = some object → known object) (hresume : resume.Among known) :
    frame.Among known := by
  obtain ⟨f, -, -, rfl⟩ := enter_ok h
  exact .start hargs hthis hresume f.name

/-- The creation of an object starts with a frame that knows the object, which is a new one. -/
theorem construct_encloses {program : Program} {classId : Nat} {args : List Value}
    {world : World σ} {frame : Frame} {fields : Fields}
    (h : construct program classId args world.heap = .ok (frame, fields))
    (hargs : ∀ value ∈ args, value.Among known) (hworld : world.Encloses held known) :
    ∃ made, program.Makes world.heap (world.heap.alloc fields) made ∧
      frame.Among (fun object => known object ∨ object = made) ∧
      World.Encloses held (fun object => known object ∨ object = made)
        { world with heap := world.heap.alloc fields } := by
  obtain ⟨c, hc, -, henter, rfl⟩ := construct_ok h
  refine ⟨world.heap.next classId c.name, ⟨c, hc, rfl, rfl⟩,
    enter_among henter nofun ?_ ⟨.inr rfl, ?_⟩, hworld.alloc rfl fun _ _ => null_of_get?_fresh⟩
  · rintro object ⟨⟩
    exact .inr rfl
  · intro id kept hkept value hvalue
    obtain ⟨_, -, heq⟩ := Option.map_eq_some_iff.mp hkept
    cases heq
    exact (hargs value hvalue).mono fun _ => .inl

/-- All that an instruction leads to has to do with known objects only. -/
def Effect.Encloses (held : σ → ObjectRef → Prop) (known : ObjectRef → Prop) : Effect σ → Prop
  | .next frame world => frame.Among known ∧ world.Encloses held known
  | .enter caller callee world =>
    caller.Among known ∧ callee.Among known ∧ world.Encloses held known
  | .ret value world => value.Among known ∧ world.Encloses held known
  | .fault _ world => world.Encloses held known

/-- What comes after something that happens to known objects has to do with known objects, and with
one that has been made, if any. -/
def Spreads (program : Program) (before after : Heap) (known : ObjectRef → Prop)
    (encloses : (ObjectRef → Prop) → Prop) : Prop :=
  encloses known ∨ ∃ made, program.Makes before after made ∧
    encloses fun object => known object ∨ object = made

/-- What an instruction does to known objects. -/
theorem Acts.encloses {accepts : HostBinding → Nat → Prop} {slot : Nat → Prop} {frame : Frame}
    {world : World σ} {op : Op} {result : Effect σ}
    (h : Acts setting (advance frame) world op result)
    (hop : op.Sound setting.program accepts slot frame.chunk.constants)
    (hkeeps : setting.catalog.Keeps held) (hframe : frame.Among known)
    (hworld : world.Encloses held known) :
    Spreads setting.program world.heap result.world.heap known (result.Encloses held) := by
  have hstack : ∀ {values : List Value}, (advance frame).stack = values →
      ∀ value ∈ values, value.Among known := fun hvalues => hvalues ▸ hframe.stack
  have hargs : ∀ {args rest : List Value}, (advance frame).stack = args.reverse ++ rest →
      (∀ value ∈ args, value.Among known) ∧ ∀ value ∈ rest, value.Among known := by
    intro args rest hvalues
    obtain ⟨hargs, hrest⟩ := List.forall_mem_append.mp (hstack hvalues)
    exact ⟨fun value hvalue => hargs value (List.mem_reverse.mpr hvalue), hrest⟩
  have hnext : (advance frame).Among known := { hframe with }
  cases h with
  | load loads =>
    refine .inl ⟨hnext.withStack (List.forall_mem_cons.mpr ⟨?_, hframe.stack⟩), hworld⟩
    have hsame : op.Sound setting.program accepts slot (advance frame).chunk.constants := hop
    exact loaded_among hsame hnext hworld loads
  | jump => exact .inl ⟨{ hframe with }, hworld⟩
  | test operands _ =>
    exact .inl ⟨{ hframe with stack := (List.forall_mem_cons.mp (hstack operands)).2 }, hworld⟩
  | pop operands =>
    exact .inl ⟨hnext.withStack (List.forall_mem_cons.mp (hstack operands)).2, hworld⟩
  | storeLocal operands =>
    obtain ⟨hvalue, hrest⟩ := List.forall_mem_cons.mp (hstack operands)
    refine .inl ⟨{ hframe with stack := hrest, locals := fun found hfound => ?_ }, hworld⟩
    obtain hold | rfl := Array.mem_or_eq_of_mem_setIfInBounds hfound
    · exact hframe.locals found hold
    · exact hvalue
  | storeGlobal operands =>
    obtain ⟨hvalue, hrest⟩ := List.forall_mem_cons.mp (hstack operands)
    exact .inl ⟨hnext.withStack hrest, hworld.storeGlobal hvalue⟩
  | @getField index name owner object rest operands _ owned =>
    obtain ⟨howner, hrest⟩ := List.forall_mem_cons.mp (hstack operands)
    refine .inl ⟨hnext.withStack (List.forall_mem_cons.mpr ⟨?_, hrest⟩), hworld⟩
    cases hfield : world.heap.getField? object name with
    | none => exact Value.among_null
    | some found =>
      exact hworld.fields object (howner object (fieldOwner_ok owned)) name found hfield
  | setField operands _ _ =>
    obtain ⟨hvalue, hrest⟩ := List.forall_mem_cons.mp (hstack operands)
    exact .inl ⟨hnext.withStack (List.forall_mem_cons.mp hrest).2, hworld.setField hvalue⟩
  | unary operator operands computed =>
    have hrest := (List.forall_mem_cons.mp (hstack operands)).2
    exact .inl ⟨hnext.withStack (List.forall_mem_cons.mpr ⟨unary_among operator computed, hrest⟩),
      hworld⟩
  | binary operator operands computed =>
    have hrest := (List.forall_mem_cons.mp (List.forall_mem_cons.mp (hstack operands)).2).2
    exact .inl ⟨hnext.withStack (List.forall_mem_cons.mpr ⟨binary_among operator computed, hrest⟩),
      hworld⟩
  | host operands called =>
    obtain ⟨hargs, hrest⟩ := hargs operands
    obtain ⟨hvalue, hafter⟩ := callHost_among hkeeps hworld hargs called
    exact .inl ⟨hnext.withStack (List.forall_mem_cons.mpr ⟨hvalue _ rfl, hrest⟩), hafter⟩
  | call operands entered =>
    obtain ⟨hargs, hrest⟩ := hargs operands
    exact .inl ⟨hnext.withStack hrest, enter_among entered hargs nofun trivial, hworld⟩
  | @callMethod index name receiver id object args rest callee operands _ found entered =>
    obtain ⟨hargs, hrest⟩ := hargs operands
    obtain ⟨hreceiver, hbelow⟩ := List.forall_mem_cons.mp hrest
    obtain ⟨rfl, -⟩ := method_ok found
    refine .inl ⟨hnext.withStack hbelow, enter_among entered hargs ?_ trivial, hworld⟩
    rintro _ ⟨⟩
    exact Value.among_object.mp hreceiver
  | create operands made =>
    obtain ⟨hargs, hrest⟩ := hargs operands
    obtain ⟨object, hmade, hcallee, hafter⟩ := construct_encloses made hargs hworld
    exact .inr ⟨object, hmade, (hnext.withStack hrest).mono fun _ => .inl, hcallee, hafter⟩
  | ret =>
    refine .inl ⟨?_, hworld⟩
    cases hvalues : (advance frame).stack with
    | nil => exact Value.among_null
    | cons value rest => exact hstack hvalues value List.mem_cons_self
  | noHost operands called =>
    exact .inl (callHost_among hkeeps hworld (hargs operands).1 called).2
  | underflow | unnamed | noTruth | noField | noTarget | noUnary | noBinary | noCall | noMethod
  | noEntry | noObject => exact .inl hworld

/-- All objects of a state are in a set. -/
structure State.Encloses (held : σ → ObjectRef → Prop) (known : ObjectRef → Prop)
    (state : State σ) : Prop where
  frames : ∀ frame ∈ state.frame :: state.callers, frame.Among known
  world : state.world.Encloses held known

/-- All objects at the end of a run are in a set. -/
structure Ending.Encloses (held : σ → ObjectRef → Prop) (known : ObjectRef → Prop)
    (ending : Ending σ) : Prop where
  value : ∀ value, ending.result = .ok value → value.Among known
  world : ending.world.Encloses held known

/-- A run that ends with a fault gives no value. -/
theorem Ending.encloses_error {e : RuntimeError} {executed : Nat}
    (h : world.Encloses held known) : Ending.Encloses held known ⟨.error e, executed, world⟩ where
  value := by
    intro value hvalue
    cases hvalue
  world := h

/-- All objects that a step leads to are in a set. -/
def Outcome.Encloses (held : σ → ObjectRef → Prop) (known : ObjectRef → Prop) :
    Outcome σ → Prop
  | .running next => next.Encloses held known
  | .ended ending => ending.Encloses held known

/-- A frame goes on top of others. -/
theorem pushFrame_encloses {callee : Frame} {frames : List Frame} {executed : Nat}
    {world : World σ} (hcallee : callee.Among known) (hframes : ∀ frame ∈ frames, frame.Among known)
    (hworld : world.Encloses held known) :
    (pushFrame callee frames executed world).Encloses held known := by
  unfold pushFrame
  split
  · exact Ending.encloses_error hworld
  · exact ⟨List.forall_mem_cons.mpr ⟨hcallee, hframes⟩, hworld⟩

/-- A known value is handed to a frame. -/
theorem deliver_encloses {value : Value} {callers : List Frame} {executed : Nat} {world : World σ}
    (hvalue : value.Among known) (hcallers : ∀ caller ∈ callers, caller.Among known)
    (hworld : world.Encloses held known) :
    (deliver value callers executed world).Encloses held known := by
  cases callers with
  | nil =>
    refine ⟨?_, hworld⟩
    rintro _ ⟨⟩
    exact hvalue
  | cons caller rest =>
    obtain ⟨hcaller, hrest⟩ := List.forall_mem_cons.mp hcallers
    refine ⟨List.forall_mem_cons.mpr ⟨?_, hrest⟩, hworld⟩
    exact hcaller.withStack (List.forall_mem_cons.mpr ⟨hvalue, hcaller.stack⟩)

/-- What follows the return of a known value. -/
theorem finish_encloses {program : Program} {resume : Resume} {value : Value}
    {callers : List Frame} {executed : Nat} {world : World σ} (hresume : resume.Among known)
    (hvalue : value.Among known) (hcallers : ∀ caller ∈ callers, caller.Among known)
    (hworld : world.Encloses held known) :
    (finish program resume value callers executed world).Encloses held known := by
  unfold finish
  split
  · exact deliver_encloses hvalue hcallers hworld
  · exact deliver_encloses (Value.among_object.mpr hresume) hcallers hworld
  · exact deliver_encloses (Value.among_object.mpr hresume.1) hcallers hworld
  · rename_i object id args
    split
    · exact Ending.encloses_error hworld
    · rename_i callee henter
      refine pushFrame_encloses (enter_among henter (hresume.2 id args rfl) ?_ hresume.1) hcallers
        hworld
      rintro _ ⟨⟩
      exact hresume.1

/-- What becomes of an instruction that has to do with known objects. -/
theorem Effect.Encloses.outcome {result : Effect σ} (h : result.Encloses held known)
    (program : Program) {frame : Frame} (hframe : frame.Among known) {callers : List Frame}
    (hcallers : ∀ caller ∈ callers, caller.Among known) (executed : Nat) :
    (result.outcome program frame callers executed).Encloses held known := by
  cases result with
  | next after world => exact ⟨List.forall_mem_cons.mpr ⟨h.1, hcallers⟩, h.2⟩
  | enter caller callee world =>
    obtain ⟨hcaller, hcallee, hworld⟩ := h
    exact pushFrame_encloses hcallee (List.forall_mem_cons.mpr ⟨hcaller, hcallers⟩) hworld
  | ret value world => exact finish_encloses hframe.resume h.1 hcallers h.2
  | fault e world => exact Ending.encloses_error h

/-- A step has to do with known objects, and with one that it makes, if any. -/
theorem step_encloses {accepts : HostBinding → Nat → Prop} {state : State σ}
    (hsound : state.Sound setting.program accepts) (hkeeps : setting.catalog.Keeps held)
    (h : state.Encloses held known) :
    Spreads setting.program state.world.heap (step setting state).world.heap known
      ((step setting state).Encloses held) := by
  obtain ⟨hframe, hcallers⟩ := List.forall_mem_cons.mp h.frames
  cases stepped setting state with
  | off _ steps =>
    rw [steps]
    exact .inl (finish_encloses hframe.resume Value.among_null hcallers h.world)
  | limited _ _ steps | full _ _ steps =>
    rw [steps]
    exact .inl (Ending.encloses_error h.world)
  | @acts op result opAt room acted steps =>
    rw [steps, Effect.outcome_world]
    have hcode := (hsound.sound _ List.mem_cons_self).code op
      (Array.mem_toList_iff.mpr (Array.mem_of_getElem? opAt))
    obtain hsame | ⟨made, hmade, hmore⟩ := acted.encloses hcode hkeeps hframe h.world
    · exact .inl (hsame.outcome _ hframe hcallers _)
    · refine .inr ⟨made, hmade, hmore.outcome _ (hframe.mono fun _ => .inl) ?_ _⟩
      exact fun caller hcaller => (hcallers caller hcaller).mono fun _ => .inl

/-- No class is missing where all objects are of classes of the program. -/
theorem Explained.class_known {program : Program} {state : State σ} {e : Fault}
    (h : Explained program state e) (hstate : state.Encloses held known)
    (hclasses : ∀ object, known object → object.classId < program.classes.size) (id : Nat) :
    e ≠ .invalidClass id := by
  rintro rfl
  obtain ⟨object, hobject, hnone⟩ := h.unknownClass id rfl
  have hknown := (hstate.frames _ List.mem_cons_self).stack _ hobject object rfl
  exact absurd (hclasses object hknown) (Nat.not_lt.mpr (Array.getElem?_eq_none_iff.mp hnone))

/-- A run that is started from outside knows what it is given. -/
theorem encloses_of_start {frame : Frame} {world : World σ} (hframe : frame.Among known)
    (hworld : world.Encloses held known) :
    State.Encloses held known ⟨frame, [], 0, world⟩ :=
  ⟨List.forall_mem_singleton.mpr hframe, hworld⟩

end Machine

end ScriptHost
