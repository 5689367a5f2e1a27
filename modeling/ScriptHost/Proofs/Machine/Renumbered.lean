import ScriptHost.Proofs.Code.Renumbered
import ScriptHost.Proofs.Machine.Actions
import ScriptHost.Proofs.Machine.Extended
import ScriptHost.Proofs.Machine.HostCalls
import ScriptHost.Proofs.Machine.Renaming
import ScriptHost.Proofs.Scope.Renamed
/-!
# Runs under other numbers

Two programs have the same functions, classes and bindings, but not under the same numbers. A run on
the one is followed step by step by a run on the other, whose frames, objects and worlds are the same
but for the numbers: `step_renumbered` for one step, `run_renumbered` for a whole run. Both come to
the same calls of host functions: `hostCalls_renumbered`.

The states of the host are related by a relation that all host functions keep to, and nothing more is
asked of them.
-/

set_option autoImplicit false

namespace ScriptHost

variable {σ : Type} {r : Renaming} {hosts : Nat → Nat → Prop} {agree : σ → σ → Prop}

/-- A chunk is another one under new numbers, and has no objects for constants. -/
structure Chunk.Renumbers (r : Renaming) (hosts : Nat → Nat → Prop) (chunk other : Chunk) : Prop
    extends chunk.Matches r hosts other where
  plain : ∀ value ∈ chunk.constants, value.rename r = value

/-- The functions, classes and bindings of a program are those of another under new numbers. Numbers
that stand for nothing stay, and global variables keep their slots. -/
structure Program.Renumbers (r : Renaming) (hosts : Nat → Nat → Prop) (program other : Program) :
    Prop where
  functions : ∀ (id : Nat) (f : Function), program.functions[id]? = some f →
    ∃ chunk, other.functions[r.function id]? = some { f with chunk } ∧
      f.chunk.Renumbers r hosts chunk
  noFunction : ∀ id : Nat, program.functions[id]? = none →
    r.function id = id ∧ other.functions[id]? = none
  classes : ∀ id : Nat, other.classes[r.classId id]? = program.classes[id]?.map (Class.rename r)
  noClass : ∀ id : Nat, program.classes[id]? = none → r.classId id = id
  bindings : ∀ id id', hosts id id' → ∃ binding, program.bindings[id]? = some binding ∧
    other.bindings[id']? = some binding
  globals : ∀ id : Nat, r.global id = id

/-- The function goes by nothing that distinguishes states of the host which agree, nor by the
numbers of classes. -/
def HostFunction.Blind (r : Renaming) (agree : σ → σ → Prop) (f : HostFunction σ) : Prop :=
  ∀ args a b, agree a b →
    (f.call (args.map (Value.rename r)) b).1 = (f.call args a).1.rename r ∧
      agree (f.call args a).2 (f.call (args.map (Value.rename r)) b).2

/-- All functions of all modules are blind. -/
def Catalog.Blind (r : Renaming) (agree : σ → σ → Prop) (catalog : Catalog σ) : Prop :=
  ∀ loaded ∈ catalog.modules, ∀ name f, loaded.module.functions.get? name = some f →
    f.Blind r agree

/-- A world is another one under new numbers. -/
structure World.Renumbers (r : Renaming) (agree : σ → σ → Prop) (world other : World σ) : Prop where
  globals : other.globals = world.globals.map (Value.rename r)
  heap : other.heap = world.heap.rename r
  host : agree world.host other.host

/-- What becomes of a value, with new numbers. -/
def Resume.rename (r : Renaming) : Resume → Resume
  | .value => .value
  | .construct made next => .construct (made.rename r)
      (next.map (Prod.map r.function (List.map (Value.rename r))))
  | .object made => .object (made.rename r)

namespace Frame

/-- A frame with new numbers that runs another chunk. -/
def rename (r : Renaming) (chunk : Chunk) (frame : Frame) : Frame where
  name := frame.name
  chunk := chunk
  ip := frame.ip
  locals := frame.locals.map (Value.rename r)
  stack := frame.stack.map (Value.rename r)
  this := frame.this.map (ObjectRef.rename r)
  resume := frame.resume.rename r

/-- A frame is another one under new numbers. -/
def Renumbers (r : Renaming) (hosts : Nat → Nat → Prop) (frame other : Frame) : Prop :=
  ∃ chunk, frame.chunk.Renumbers r hosts chunk ∧ other = frame.rename r chunk

variable {chunk : Chunk}

@[simp]
theorem rename_chunk (frame : Frame) : (frame.rename r chunk).chunk = chunk :=
  rfl

@[simp]
theorem rename_ip (frame : Frame) : (frame.rename r chunk).ip = frame.ip :=
  rfl

theorem push_rename (frame : Frame) (value : Value) :
    (frame.rename r chunk).push (value.rename r) = (frame.push value).rename r chunk :=
  rfl

theorem pop_rename (frame : Frame) : (frame.rename r chunk).pop =
    frame.pop.map (Prod.map (Value.rename r) (rename r chunk)) := by
  unfold pop
  cases hstack : frame.stack with
  | nil => simp [rename, hstack, Except.map]
  | cons value rest => simp [rename, hstack, Except.map]

theorem pop₂_rename (frame : Frame) : (frame.rename r chunk).pop₂ =
    frame.pop₂.map (Prod.map (Value.rename r) (Prod.map (Value.rename r) (rename r chunk))) := by
  unfold pop₂
  rw [pop_rename]
  cases frame.pop with
  | error e => rfl
  | ok popped =>
    change (popped.2.rename r chunk).pop >>= _ = Except.map _ (popped.2.pop >>= _)
    rw [pop_rename]
    cases popped.2.pop <;> rfl

theorem popArgs_rename (frame : Frame) (count : Nat) : (frame.rename r chunk).popArgs count =
    (frame.popArgs count).map (Prod.map (List.map (Value.rename r)) (rename r chunk)) := by
  unfold popArgs
  have hlength : (frame.rename r chunk).stack.length = frame.stack.length := List.length_map ..
  rw [hlength]
  split
  · simp [rename, Except.map]
  · rfl

theorem constantName_rename (frame : Frame) (h : frame.chunk.Matches r hosts chunk)
    (index : Nat) : (frame.rename r chunk).constantName index = frame.constantName index := by
  unfold constantName rename
  rw [h.constants]

theorem start_rename {own : Chunk} (h : own.Matches r hosts chunk) (name : String)
    (this : Option ObjectRef) (args : List Value) (resume : Resume) :
    Frame.start name chunk (this.map (ObjectRef.rename r)) (args.map (Value.rename r))
      (resume.rename r) = (Frame.start name own this args resume).rename r chunk := by
  unfold start rename
  rw [h.localCount, List.length_map]
  simp

end Frame

namespace Machine

variable {setting : Setting σ} {next : Program} {world other : World σ}

/-- The effects on two frames, of which the second one runs `chunk`, are the same but for the
numbers. -/
inductive Effect.Renumbers (r : Renaming) (hosts : Nat → Nat → Prop) (agree : σ → σ → Prop)
    (chunk : Chunk) : Effect σ → Effect σ → Prop
  | next {frame : Frame} {world other : World σ} (worlds : world.Renumbers r agree other) :
      Renumbers r hosts agree chunk (.next frame world) (.next (frame.rename r chunk) other)
  | enter {caller callee entered : Frame} {world other : World σ}
      (runs : callee.Renumbers r hosts entered) (worlds : world.Renumbers r agree other) :
      Renumbers r hosts agree chunk (.enter caller callee world)
        (.enter (caller.rename r chunk) entered other)
  | ret {value : Value} {world other : World σ} (worlds : world.Renumbers r agree other) :
      Renumbers r hosts agree chunk (.ret value world) (.ret (value.rename r) other)
  | fault {e : Fault} {world other : World σ} (worlds : world.Renumbers r agree other) :
      Renumbers r hosts agree chunk (.fault e world) (.fault e other)

/-- Two things have been prepared that are related, or both fail alike. -/
inductive Prepared {α β : Type} (related : α → β → Prop) : Except Fault α → Except Fault β → Prop
  | ok {a : α} {b : β} (h : related a b) : Prepared related (.ok a) (.ok b)
  | error {e : Fault} : Prepared related (.error e) (.error e)

namespace Prepared

variable {α β γ δ : Type} {related : α → β → Prop}

theorem map (g : α → β) (prepared : Except Fault α) :
    Prepared (fun a b => b = g a) prepared (prepared.map g) := by
  cases prepared with
  | error e => exact .error
  | ok a => exact .ok rfl

theorem bind {related' : γ → δ → Prop} {prepared : Except Fault α} {prepared' : Except Fault β}
    {next : α → Except Fault γ} {next' : β → Except Fault δ} (h : Prepared related prepared prepared')
    (hnext : ∀ a b, related a b → Prepared related' (next a) (next' b)) :
    Prepared related' (prepared >>= next) (prepared' >>= next') := by
  cases h with
  | error => exact .error
  | ok h => exact hnext _ _ h

/-- What can fail before it changes the world has the same effect, but for the numbers. -/
theorem attempt {chunk : Chunk} {prepared : Except Fault α} {prepared' : Except Fault β}
    {act : α → World σ → Effect σ} {act' : β → World σ → Effect σ}
    (h : Prepared related prepared prepared') (hworld : world.Renumbers r agree other)
    (hact : ∀ a b, related a b →
      Effect.Renumbers r hosts agree chunk (act a world) (act' b other)) :
    Effect.Renumbers r hosts agree chunk (.attempt world prepared act)
      (.attempt other prepared' act') := by
  cases h with
  | error => exact .fault hworld
  | ok h => exact hact _ _ h

end Prepared

/-! ## Calls -/

/-- A function is entered in both programs, or in neither. -/
theorem enter_renumbered {program : Program} (h : program.Renumbers r hosts next) (id : Nat)
    (this : Option ObjectRef) (args : List Value) (resume : Resume) :
    Prepared (Frame.Renumbers r hosts) (enter program id this args resume)
      (enter next (r.function id) (this.map (ObjectRef.rename r)) (args.map (Value.rename r))
        (resume.rename r)) := by
  unfold enter
  cases hf : program.functions[id]? with
  | none =>
    obtain ⟨hid, hnone⟩ := h.noFunction id hf
    rw [hid, hnone]
    exact .error
  | some f =>
    obtain ⟨chunk, hother, hchunk⟩ := h.functions id f hf
    rw [hother]
    dsimp only
    rw [List.length_map]
    split
    · exact .ok ⟨chunk, hchunk, Frame.start_rename hchunk.toMatches ..⟩
    · exact .error

/-- An object is made in both programs, or in neither. -/
theorem construct_renumbered {program : Program} (h : program.Renumbers r hosts next)
    (classId : Nat) (args : List Value) (heap : Heap) :
    Prepared (fun made made' => made.1.Renumbers r hosts made'.1 ∧
        made'.2 = Fields.rename r made.2)
      (construct program classId args heap)
      (construct next (r.classId classId) (args.map (Value.rename r)) (heap.rename r)) := by
  have hclass := h.classes classId
  unfold construct
  cases hc : program.classes[classId]? with
  | none =>
    rw [hc] at hclass
    rw [hclass, h.noClass classId hc]
    exact .error
  | some c =>
    rw [hc] at hclass
    rw [hclass]
    dsimp only [Option.map_some]
    rw [Class.constructor?_rename, Option.isNone_map, List.isEmpty_map, List.length_map,
      Class.name_rename, Class.fields_rename, Heap.next_rename]
    split
    · exact .error
    · have hresume : Resume.construct ((heap.next classId c.name).rename r)
          ((c.constructor?.map r.function).map fun id => (id, args.map (Value.rename r))) =
          (Resume.construct (heap.next classId c.name)
            (c.constructor?.map fun id => (id, args))).rename r := by
        rw [Resume.rename, Option.map_map, Option.map_map]
        rfl
      rw [hresume]
      exact (enter_renumbered h c.fieldInit (some (heap.next classId c.name)) [] _).bind
        fun frame entered hentered => .ok ⟨hentered, (Fields.ofList_null_rename _).symm⟩

/-- The receiver of a call has the method in both programs, or in neither. -/
theorem method_renumbered {program : Program} (h : program.Renumbers r hosts next)
    (receiver : Value) (name : String) :
    method next (receiver.rename r) name =
      (method program receiver name).map (Prod.map r.function (ObjectRef.rename r)) := by
  cases receiver with
  | object object =>
    have hclass := h.classes object.classId
    unfold method
    dsimp only [Value.rename, ObjectRef.rename]
    rw [hclass]
    cases hc : program.classes[object.classId]? with
    | none =>
      exact congrArg (fun id => Except.error (Fault.invalidClass id)) (h.noClass _ hc)
    | some c =>
      dsimp only [Option.map_some]
      rw [Class.get?_methods_rename]
      cases c.methods.get? name <;> rfl
  | _ => rfl

theorem blind_of_bound {catalog : Catalog σ} (h : catalog.Blind r agree) {binding : HostBinding}
    {argc : Nat} {f : HostFunction σ} (hf : boundFunction catalog binding argc = .ok f) :
    f.Blind r agree := by
  obtain ⟨id, module, hlive, hg⟩ := function_of_bound hf
  exact h _ (Catalog.mem_of_live? hlive) _ _ hg

/-- A host function is called in both programs, with the same outcome but for the numbers. -/
theorem callHost_renumbered (hprogram : setting.program.Renumbers r hosts next)
    (hcatalog : setting.catalog.Blind r agree) {id id' : Nat} (hid : hosts id id')
    (args : List Value) {a b : σ} (h : agree a b) :
    (callHost (setting.on next) id' (args.map (Value.rename r)) b).1 =
        (callHost setting id args a).1.map (Value.rename r) ∧
      agree (callHost setting id args a).2
        (callHost (setting.on next) id' (args.map (Value.rename r)) b).2 := by
  obtain ⟨binding, hbinding, hother⟩ := hprogram.bindings id id' hid
  have hbound : (setting.on next).catalog = setting.catalog := rfl
  have hbindings : (setting.on next).program.bindings[id']? = some binding := hother
  unfold callHost
  rw [hbinding, hbindings, hbound]
  unfold callBound
  dsimp only
  rw [List.length_map]
  cases hf : boundFunction setting.catalog binding args.length with
  | error e => exact ⟨rfl, h⟩
  | ok f =>
    obtain ⟨houtcome, hafter⟩ := (blind_of_bound hcatalog hf) args a b h
    refine ⟨?_, hafter⟩
    dsimp only
    rw [houtcome]
    cases (f.call args a).1 <;> rfl

/-! ## Instructions -/

section Instructions

variable {frame : Frame} {chunk : Chunk}

theorem operate_rename {f : Value → Except Fault Value}
    (hf : ∀ a : Value, f (a.rename r) = (f a).map (Value.rename r)) :
    operate (frame.rename r chunk) f = (operate frame f).map (Frame.rename r chunk) := by
  unfold operate
  rw [Frame.pop_rename]
  cases frame.pop with
  | error e => rfl
  | ok popped =>
    change (f (popped.1.rename r) >>= _) = Except.map _ (f popped.1 >>= _)
    rw [hf]
    cases f popped.1 <;> rfl

theorem operate₂_rename {f : Value → Value → Except Fault Value}
    (hf : ∀ a b : Value, f (a.rename r) (b.rename r) = (f a b).map (Value.rename r)) :
    operate₂ (frame.rename r chunk) f = (operate₂ frame f).map (Frame.rename r chunk) := by
  unfold operate₂
  rw [Frame.pop₂_rename]
  cases frame.pop₂ with
  | error e => rfl
  | ok popped =>
    change (f (popped.1.rename r) (popped.2.1.rename r) >>= _) =
      Except.map _ (f popped.1 popped.2.1 >>= _)
    rw [hf]
    cases f popped.1 popped.2.1 <;> rfl

theorem jumpIfFalse_rename (target : Nat) : jumpIfFalse (frame.rename r chunk) target =
    (jumpIfFalse frame target).map (Frame.rename r chunk) := by
  unfold jumpIfFalse
  rw [Frame.pop_rename]
  cases frame.pop with
  | error e => rfl
  | ok popped =>
    change (condition (popped.1.rename r) >>= _) = Except.map _ (condition popped.1 >>= _)
    rw [condition_rename]
    cases condition popped.1 with
    | error e => rfl
    | ok holds => cases holds <;> rfl

theorem readField_rename (heap : Heap) (h : frame.chunk.Matches r hosts chunk) (index : Nat) :
    readField (heap.rename r) (frame.rename r chunk) index =
      (readField heap frame index).map (Frame.rename r chunk) := by
  unfold readField
  rw [Frame.pop_rename]
  obtain ⟨owner, rest, -, hpop⟩ | ⟨-, hpop⟩ := pop_cases frame
  · rw [hpop]
    generalize hafter : { frame with stack := rest } = after
    have hchunk : after.chunk.Matches r hosts chunk := hafter ▸ h
    change ((after.rename r chunk).constantName index >>= _) =
      Except.map _ (after.constantName index >>= _)
    rw [Frame.constantName_rename _ hchunk]
    cases after.constantName index with
    | error e => rfl
    | ok name =>
      change (fieldOwner (heap.rename r) (owner.rename r) name >>= _) =
        Except.map _ (fieldOwner heap owner name >>= _)
      rw [fieldOwner_rename]
      cases fieldOwner heap owner name with
      | error e => rfl
      | ok object =>
        change Except.ok ((after.rename r chunk).push
          (((heap.rename r).getField? (object.rename r) name).getD .null)) = _
        rw [Heap.getField?_rename, Value.getD_rename]
        rfl
  · rw [hpop]
    rfl

/-- What an assignment to a field has prepared, with new numbers. -/
def renameTarget (r : Renaming) (chunk : Chunk) :
    ObjectRef × String × Value × Frame → ObjectRef × String × Value × Frame :=
  Prod.map (ObjectRef.rename r) (Prod.map id (Prod.map (Value.rename r) (Frame.rename r chunk)))

theorem prepareField_rename (heap : Heap) (h : frame.chunk.Matches r hosts chunk) (index : Nat) :
    prepareField (heap.rename r) (frame.rename r chunk) index =
      (prepareField heap frame index).map (renameTarget r chunk) := by
  unfold prepareField
  rw [Frame.pop₂_rename]
  obtain ⟨owner, value, rest, -, hpop⟩ | ⟨-, hpop⟩ := pop₂_cases frame
  · rw [hpop]
    generalize hafter : { frame with stack := rest } = after
    have hchunk : after.chunk.Matches r hosts chunk := hafter ▸ h
    change ((after.rename r chunk).constantName index >>= _) =
      Except.map _ (after.constantName index >>= _)
    rw [Frame.constantName_rename _ hchunk]
    cases after.constantName index with
    | error e => rfl
    | ok name =>
      change (fieldOwner (heap.rename r) (owner.rename r) name >>= _) =
        Except.map _ (fieldOwner heap owner name >>= _)
      rw [fieldOwner_rename]
      cases fieldOwner heap owner name <;> rfl
  · rw [hpop]
    rfl

/-- A caller and the frame of its call are the same, but for the numbers. -/
def CallRenumbers (r : Renaming) (hosts : Nat → Nat → Prop) (chunk : Chunk)
    (frames frames' : Frame × Frame) : Prop :=
  frames'.1 = frames.1.rename r chunk ∧ frames.2.Renumbers r hosts frames'.2

theorem prepareCall_renumbered {program : Program} (h : program.Renumbers r hosts next)
    (function argc : Nat) : Prepared (CallRenumbers r hosts chunk)
      (prepareCall program frame function argc)
      (prepareCall next (frame.rename r chunk) (r.function function) argc) := by
  unfold prepareCall
  rw [Frame.popArgs_rename]
  refine (Prepared.map ..).bind fun (args, after) _ hpopped => ?_
  subst hpopped
  exact (enter_renumbered h function none args .value).bind
    fun callee entered hentered => .ok ⟨rfl, hentered⟩

theorem prepareMethod_renumbered {program : Program} (h : program.Renumbers r hosts next)
    (hchunk : frame.chunk.Matches r hosts chunk) (index argc : Nat) :
    Prepared (CallRenumbers r hosts chunk) (prepareMethod program frame index argc)
      (prepareMethod next (frame.rename r chunk) index argc) := by
  unfold prepareMethod
  rw [Frame.popArgs_rename]
  obtain ⟨args, rest, -, -, hargs⟩ | ⟨-, hargs⟩ := popArgs_cases frame argc
  · rw [hargs]
    change Prepared _ (Frame.pop { frame with stack := rest } >>= _)
      (Frame.pop (Frame.rename r chunk { frame with stack := rest }) >>= _)
    rw [Frame.pop_rename]
    obtain ⟨receiver, below, -, hpop⟩ | ⟨-, hpop⟩ := pop_cases { frame with stack := rest }
    · rw [hpop]
      generalize hafter : { frame with stack := below } = after
      have hafterChunk : after.chunk.Matches r hosts chunk := hafter ▸ hchunk
      change Prepared _ (after.constantName index >>= _)
        ((after.rename r chunk).constantName index >>= _)
      rw [Frame.constantName_rename _ hafterChunk]
      cases after.constantName index with
      | error e => exact .error
      | ok name =>
        change Prepared _ (method program receiver name >>= _)
          (method next (receiver.rename r) name >>= _)
        rw [method_renumbered h]
        refine (Prepared.map ..).bind fun (id, object) _ hfound => ?_
        subst hfound
        exact (enter_renumbered h id (some object) args .value).bind
          fun callee entered hentered => .ok ⟨rfl, hentered⟩
    · rw [hpop]
      exact .error
  · rw [hargs]
    exact .error

theorem prepareObject_renumbered {program : Program} (h : program.Renumbers r hosts next)
    (heap : Heap) (classId argc : Nat) :
    Prepared (fun made made' => made'.1 = made.1.rename r chunk ∧
        made.2.1.Renumbers r hosts made'.2.1 ∧ made'.2.2 = Fields.rename r made.2.2)
      (prepareObject program heap frame classId argc)
      (prepareObject next (heap.rename r) (frame.rename r chunk) (r.classId classId) argc) := by
  unfold prepareObject
  rw [Frame.popArgs_rename]
  refine (Prepared.map ..).bind fun (args, after) _ hpopped => ?_
  subst hpopped
  exact (construct_renumbered h classId args heap).bind
    fun (callee, fields) (entered, fields') hmade => .ok ⟨rfl, hmade⟩

/-! ### Effects -/

/-- What changes the frame only has the same effect, but for the numbers. -/
theorem attempt_next_renumbered {prepared prepared' : Except Fault Frame}
    (h : prepared' = prepared.map (Frame.rename r chunk)) (hworld : world.Renumbers r agree other) :
    Effect.Renumbers r hosts agree chunk (.attempt world prepared .next)
      (.attempt other prepared' .next) := by
  subst h
  exact (Prepared.map ..).attempt hworld fun _ _ h => h ▸ .next hworld

/-- A call that has been prepared has the same effect, but for the numbers. -/
theorem attempt_enter_renumbered {prepared prepared' : Except Fault (Frame × Frame)}
    (h : Prepared (CallRenumbers r hosts chunk) prepared prepared')
    (hworld : world.Renumbers r agree other) :
    Effect.Renumbers r hosts agree chunk
      (.attempt world prepared fun (caller, callee) => .enter caller callee)
      (.attempt other prepared' fun (caller, callee) => .enter caller callee) := by
  refine h.attempt hworld ?_
  rintro ⟨caller, callee⟩ ⟨_, entered⟩ ⟨rfl, hentered⟩
  exact .enter hentered hworld

theorem next_push_renumbered {value value' : Value} (h : value' = value.rename r)
    (hworld : world.Renumbers r agree other) :
    Effect.Renumbers r hosts agree chunk (.next (frame.push value) world)
      (.next ((frame.rename r chunk).push value') other) := by
  subst h
  rw [Frame.push_rename]
  exact .next hworld

theorem constant_rename (h : frame.chunk.Renumbers r hosts chunk) (index : Nat) :
    (frame.rename r chunk).chunk.constants[index]?.getD .null =
      (frame.chunk.constants[index]?.getD .null).rename r := by
  rw [Frame.rename_chunk, h.constants]
  cases hvalue : frame.chunk.constants[index]? with
  | none => rfl
  | some value => exact (h.plain value (Array.mem_of_getElem? hvalue)).symm

theorem local_rename (slot : Nat) : (frame.rename r chunk).locals[slot]?.getD .null =
    (frame.locals[slot]?.getD .null).rename r := by
  rw [Frame.rename, Array.getElem?_map, Value.getD_rename]

theorem this_rename : ((frame.rename r chunk).this.map Value.object).getD .null =
    ((frame.this.map Value.object).getD .null).rename r := by
  rw [Frame.rename]
  cases frame.this <;> rfl

theorem storeLocal_rename (slot : Nat) (value : Value) :
    ({ frame with locals := frame.locals.setIfInBounds slot value } : Frame).rename r chunk =
      { frame.rename r chunk with
        locals := (frame.rename r chunk).locals.setIfInBounds slot (value.rename r) } := by
  simp [Frame.rename]

theorem headD_rename : (frame.rename r chunk).stack.headD .null =
    (frame.stack.headD .null).rename r := by
  rw [Frame.rename]
  cases frame.stack <;> rfl

/-- A call of a host function has the same effect, but for the numbers. -/
theorem hostEffect_renumbered (hprogram : setting.program.Renumbers r hosts next)
    (hcatalog : setting.catalog.Blind r agree) {id id' : Nat} (hid : hosts id id')
    (args : List Value) (h : world.Renumbers r agree other) :
    Effect.Renumbers r hosts agree chunk (hostEffect setting id args frame world)
      (hostEffect (setting.on next) id' (args.map (Value.rename r)) (frame.rename r chunk)
        other) := by
  obtain ⟨globals, heap, host⟩ := world
  obtain ⟨globals', heap', host'⟩ := other
  obtain ⟨hglobals, hheap, hhost⟩ := h
  obtain ⟨hresult, hafter⟩ := callHost_renumbered hprogram hcatalog hid args hhost
  unfold hostEffect
  dsimp only at hresult hafter ⊢
  cases hcalled : callHost setting id args host with
  | mk result left =>
    cases hother : callHost (setting.on next) id' (args.map (Value.rename r)) host' with
    | mk result' left' =>
      rw [hcalled, hother] at hresult hafter
      cases hresult
      cases result with
      | ok value => exact .next ⟨hglobals, hheap, hafter⟩
      | error e => exact .fault ⟨hglobals, hheap, hafter⟩

/-- An instruction has the same effect in both programs, but for the numbers. -/
theorem effect_renumbered (hprogram : setting.program.Renumbers r hosts next)
    (hcatalog : setting.catalog.Blind r agree) (hchunk : frame.chunk.Renumbers r hosts chunk)
    (h : world.Renumbers r agree other) {op op' : Op} (hop : op.Matches r hosts op') :
    Effect.Renumbers r hosts agree chunk (effect setting frame world op)
      (effect (setting.on next) (frame.rename r chunk) other op') := by
  obtain ⟨globals, heap, a⟩ := world
  obtain ⟨globals', heap', b⟩ := other
  obtain ⟨hglobals, hheap, hhost⟩ := h
  dsimp only at hglobals hheap hhost
  subst hglobals hheap
  have hworld : World.Renumbers r agree ⟨globals, heap, a⟩
      ⟨globals.map (Value.rename r), heap.rename r, b⟩ := ⟨rfl, rfl, hhost⟩
  cases op with
  | pushConst index =>
    cases hop
    exact next_push_renumbered (constant_rename hchunk index) hworld
  | pushNull | pushTrue | pushFalse =>
    cases hop
    exact .next hworld
  | loadLocal slot =>
    cases hop
    exact next_push_renumbered (local_rename slot) hworld
  | loadGlobal id =>
    cases hop
    rw [effect, effect, hprogram.globals]
    refine next_push_renumbered ?_ hworld
    rw [Array.getElem?_map, Value.getD_rename]
  | loadThis =>
    cases hop
    exact next_push_renumbered this_rename hworld
  | storeLocal slot =>
    cases hop
    rw [effect, effect, Frame.pop_rename]
    refine (Prepared.map ..).attempt hworld fun (value, after) _ h => ?_
    subst h
    dsimp only [Prod.map]
    rw [← storeLocal_rename]
    exact .next hworld
  | storeGlobal id =>
    cases hop
    rw [effect, effect, hprogram.globals, Frame.pop_rename]
    refine (Prepared.map ..).attempt hworld fun (value, after) _ h => h ▸ .next ⟨?_, rfl, hhost⟩
    simp [storeGlobal]
  | jump target =>
    cases hop
    exact .next hworld
  | jumpIfFalse target =>
    cases hop
    exact attempt_next_renumbered (jumpIfFalse_rename target) hworld
  | getField index =>
    cases hop
    exact attempt_next_renumbered (readField_rename heap hchunk.toMatches index) hworld
  | setField index =>
    cases hop
    rw [effect, effect, prepareField_rename heap hchunk.toMatches]
    refine (Prepared.map ..).attempt hworld fun target _ h => h ▸ .next ⟨rfl, ?_, hhost⟩
    exact Heap.setField_rename ..
  | pop =>
    cases hop
    rw [effect, effect, Frame.pop_rename]
    exact (Prepared.map ..).attempt hworld fun _ _ h => h ▸ .next hworld
  | add | sub | mul | div | mod =>
    cases hop
    exact attempt_next_renumbered (operate₂_rename (arith_rename _)) hworld
  | lt | gt | le | ge =>
    cases hop
    exact attempt_next_renumbered (operate₂_rename (inOrder_rename _)) hworld
  | eq | ne =>
    cases hop
    refine attempt_next_renumbered (operate₂_rename fun a b => ?_) hworld
    rw [Value.same_rename]
    rfl
  | neg =>
    cases hop
    exact attempt_next_renumbered (operate_rename negate_rename) hworld
  | not =>
    cases hop
    exact attempt_next_renumbered (operate_rename invert_rename) hworld
  | call function argc =>
    cases hop
    exact attempt_enter_renumbered (prepareCall_renumbered hprogram function argc) hworld
  | callMethod index argc =>
    cases hop
    exact attempt_enter_renumbered
      (prepareMethod_renumbered hprogram hchunk.toMatches index argc) hworld
  | callHost id argc =>
    obtain ⟨id', hid, rfl⟩ := hop
    rw [effect, effect, Frame.popArgs_rename]
    refine (Prepared.map ..).attempt hworld fun (args, after) _ h => ?_
    subst h
    exact hostEffect_renumbered hprogram hcatalog hid args hworld
  | create classId argc =>
    cases hop
    rw [effect, effect]
    refine (prepareObject_renumbered hprogram heap classId argc).attempt hworld ?_
    rintro ⟨caller, callee, fields⟩ ⟨_, entered, _⟩ ⟨rfl, hentered, rfl⟩
    exact .enter hentered ⟨rfl, Heap.alloc_rename heap fields, hhost⟩
  | ret =>
    cases hop
    rw [effect, effect, headD_rename]
    exact .ret hworld

end Instructions

/-! ## Steps and runs -/

/-- The frames, the innermost first, are the same but for the numbers. -/
abbrev FramesRenumber (r : Renaming) (hosts : Nat → Nat → Prop) : List Frame → List Frame → Prop :=
  List.Forall₂ (Frame.Renumbers r hosts)

/-- The states are the same, but for the numbers. -/
structure State.Renumbers (r : Renaming) (hosts : Nat → Nat → Prop) (agree : σ → σ → Prop)
    (state twin : State σ) : Prop where
  frame : state.frame.Renumbers r hosts twin.frame
  callers : FramesRenumber r hosts state.callers twin.callers
  executed : twin.executed = state.executed
  world : state.world.Renumbers r agree twin.world

/-- The endings are the same, but for the numbers. -/
structure Ending.Renumbers (r : Renaming) (agree : σ → σ → Prop) (ending twin : Ending σ) :
    Prop where
  result : twin.result = ending.result.map (Value.rename r)
  executed : twin.executed = ending.executed
  world : ending.world.Renumbers r agree twin.world

/-- The outcomes are the same, but for the numbers. -/
inductive Outcome.Renumbers (r : Renaming) (hosts : Nat → Nat → Prop) (agree : σ → σ → Prop) :
    Outcome σ → Outcome σ → Prop
  | running {state twin : State σ} (h : state.Renumbers r hosts agree twin) :
      Renumbers r hosts agree (.running state) (.running twin)
  | ended {ending twin : Ending σ} (h : ending.Renumbers r agree twin) :
      Renumbers r hosts agree (.ended ending) (.ended twin)

theorem traceOf_renumbered {frames frames' : List Frame} (h : FramesRenumber r hosts frames frames') :
    traceOf frames' = traceOf frames := by
  induction h with
  | nil => rfl
  | cons hframe _ ih =>
    obtain ⟨chunk, -, rfl⟩ := hframe
    exact congrArg (_ :: ·) ih

theorem fault_renumbered (e : Fault) {frames frames' : List Frame}
    (hframes : FramesRenumber r hosts frames frames') (executed : Nat)
    (h : world.Renumbers r agree other) :
    Outcome.Renumbers r hosts agree (fault e frames executed world)
      (fault e frames' executed other) := by
  unfold fault
  rw [traceOf_renumbered hframes]
  exact .ended ⟨rfl, rfl, h⟩

theorem pushFrame_renumbered {callee entered : Frame} (hcallee : callee.Renumbers r hosts entered)
    {frames frames' : List Frame} (hframes : FramesRenumber r hosts frames frames')
    (executed : Nat) (h : world.Renumbers r agree other) :
    Outcome.Renumbers r hosts agree (pushFrame callee frames executed world)
      (pushFrame entered frames' executed other) := by
  have hname : entered.name = callee.name := by
    obtain ⟨chunk, -, rfl⟩ := hcallee
    rfl
  unfold pushFrame
  rw [← hframes.length_eq, hname]
  split
  · exact fault_renumbered _ hframes executed h
  · exact .running ⟨hcallee, hframes, rfl, h⟩

theorem deliver_renumbered (value : Value) {callers callers' : List Frame}
    (hcallers : FramesRenumber r hosts callers callers') (executed : Nat)
    (h : world.Renumbers r agree other) :
    Outcome.Renumbers r hosts agree (deliver value callers executed world)
      (deliver (value.rename r) callers' executed other) := by
  cases hcallers with
  | nil => exact .ended ⟨rfl, rfl, h⟩
  | cons hcaller hrest =>
    obtain ⟨chunk, hchunk, rfl⟩ := hcaller
    exact .running ⟨⟨chunk, hchunk, Frame.push_rename ..⟩, hrest, rfl, h⟩

theorem finish_renumbered {program : Program} (hprogram : program.Renumbers r hosts next)
    (resume : Resume) (value : Value) {callers callers' : List Frame}
    (hcallers : FramesRenumber r hosts callers callers') (executed : Nat)
    (h : world.Renumbers r agree other) :
    Outcome.Renumbers r hosts agree (finish program resume value callers executed world)
      (finish next (resume.rename r) (value.rename r) callers' executed other) := by
  have hobject (object : ObjectRef) := deliver_renumbered (.object object) hcallers executed h
  cases resume with
  | value => exact deliver_renumbered value hcallers executed h
  | object object => exact hobject object
  | construct object left =>
    cases left with
    | none => exact hobject object
    | some call =>
      obtain ⟨id, args⟩ := call
      have hentered := enter_renumbered hprogram id (some object) args (.object object)
      unfold finish
      dsimp only [Resume.rename, Option.map_some, Prod.map] at hentered ⊢
      generalize enter program id (some object) args (.object object) = entered at hentered ⊢
      generalize enter next (r.function id) _ _ _ = entered' at hentered ⊢
      cases hentered with
      | error => exact fault_renumbered _ hcallers executed h
      | ok hcallee => exact pushFrame_renumbered hcallee hcallers executed h

/-- An instruction that is carried out, or for which there is no room, has the same effect. -/
theorem instruction_renumbered (hprogram : setting.program.Renumbers r hosts next)
    (hcatalog : setting.catalog.Blind r agree) {frame : Frame} {chunk : Chunk}
    (hchunk : frame.chunk.Renumbers r hosts chunk) (h : world.Renumbers r agree other)
    {op op' : Op} (hop : op.Matches r hosts op') (executed : Nat) :
    Effect.Renumbers r hosts agree chunk (instruction setting executed frame world op)
      (instruction (setting.on next) executed (frame.rename r chunk) other op') := by
  have hlimit : (setting.on next).limit = setting.limit := rfl
  have hlength : (frame.rename r chunk).stack.length = frame.stack.length := List.length_map ..
  unfold instruction
  rw [hlimit, hlength]
  split
  · exact .fault h
  · split
    · exact .fault h
    · have hadvanced : (advance frame).chunk.Renumbers r hosts chunk := hchunk
      exact effect_renumbered hprogram hcatalog hadvanced h hop

/-- A frame that goes on or waits runs the chunk that it ran. -/
def Effect.Keeps (chunk : Chunk) : Effect σ → Prop
  | .next after _ => after.chunk = chunk
  | .enter caller _ _ => caller.chunk = chunk
  | _ => True

theorem instruction_keeps (executed : Nat) (frame : Frame) (world : World σ) (op : Op) :
    (instruction setting executed frame world op).Keeps frame.chunk := by
  unfold instruction
  split
  · trivial
  · split
    · trivial
    · have hacts := effect_acts setting (advance frame) world op
      change (effect setting (advance frame) world op).Keeps (advance frame).chunk
      generalize effect setting (advance frame) world op = done at hacts
      cases done with
      | next after world' =>
        obtain ⟨_, -, -, hmoves⟩ := hacts.moves
        exact hmoves.chunk
      | enter caller callee world' => exact hacts.waits.2.2.chunk
      | ret | fault => trivial

/-- One step keeps two states the same, but for the numbers. -/
theorem step_renumbered (hprogram : setting.program.Renumbers r hosts next)
    (hcatalog : setting.catalog.Blind r agree) {state twin : State σ}
    (h : state.Renumbers r hosts agree twin) :
    Outcome.Renumbers r hosts agree (step setting state) (step (setting.on next) twin) := by
  obtain ⟨frame, callers, executed, world⟩ := state
  obtain ⟨frame', callers', executed', other⟩ := twin
  obtain ⟨⟨chunk, hchunk, hframe⟩, hcallers, hexecuted, hworld⟩ := h
  dsimp only at hchunk hframe hcallers hexecuted hworld
  subst hframe hexecuted
  have hop := hchunk.opAt frame.ip
  have hframes (after : Frame) (hafter : after.chunk = frame.chunk) :
      after.Renumbers r hosts (after.rename r chunk) := ⟨chunk, hafter ▸ hchunk, rfl⟩
  unfold step
  dsimp only [Frame.rename_chunk, Frame.rename_ip]
  generalize frame.chunk.ops[frame.ip]? = op? at hop
  generalize chunk.ops[frame.ip]? = op'? at hop
  cases hop with
  | none => exact finish_renumbered hprogram frame.resume .null hcallers _ hworld
  | some hop =>
    rename_i op op'
    have heffect := instruction_renumbered hprogram hcatalog hchunk hworld hop (executed' + 1)
    have hkeeps : (instruction setting (executed' + 1) frame world op).Keeps frame.chunk :=
      instruction_keeps _ frame world op
    dsimp only
    generalize instruction setting _ frame world op = done at heffect hkeeps
    generalize instruction (setting.on next) _ _ other op' = done' at heffect
    cases heffect with
    | next hafter => exact .running ⟨hframes _ hkeeps, hcallers, rfl, hafter⟩
    | enter hcallee hafter =>
      exact pushFrame_renumbered hcallee (.cons (hframes _ hkeeps) hcallers) _ hafter
    | ret hafter => exact finish_renumbered hprogram frame.resume _ hcallers _ hafter
    | fault hafter => exact fault_renumbered _ (.cons (hframes _ rfl) hcallers) _ hafter

/-- Two runs that start the same, but for the numbers, end the same, or neither of them ends. -/
theorem run_renumbered (hprogram : setting.program.Renumbers r hosts next)
    (hcatalog : setting.catalog.Blind r agree) (fuel : Nat) {state twin : State σ}
    (h : state.Renumbers r hosts agree twin) :
    Option.Rel (Ending.Renumbers r agree) (run setting fuel state)
      (run (setting.on next) fuel twin) := by
  induction fuel generalizing state twin with
  | zero => exact .none
  | succ fuel ih =>
    have hstep := step_renumbered hprogram hcatalog h
    rw [run, run]
    generalize step setting state = outcome at hstep
    generalize step (setting.on next) twin = outcome' at hstep
    cases hstep with
    | running hrest => exact ih hrest
    | ended hend => exact .some hend

/-! ## Calls of host functions -/

/-- A call with new numbers in its arguments. -/
def HostCall.rename (r : Renaming) (call : HostCall σ) : HostCall σ :=
  { call with args := call.args.map (Value.rename r) }

theorem hostCall?_renumbered (hprogram : setting.program.Renumbers r hosts next) {id id' : Nat}
    (hid : hosts id id') (args : List Value) :
    hostCall? (setting.on next) id' (args.map (Value.rename r)) =
      (hostCall? setting id args).map (HostCall.rename r) := by
  obtain ⟨binding, hbinding, hother⟩ := hprogram.bindings id id' hid
  have hbindings : (setting.on next).program.bindings[id']? = some binding := hother
  have hcatalog : (setting.on next).catalog = setting.catalog := rfl
  unfold hostCall?
  rw [hbinding, hbindings, hcatalog]
  dsimp only
  rw [List.length_map]
  cases boundFunction setting.catalog binding args.length <;> rfl

/-- The next steps of two states make the same call, but for the numbers. -/
theorem State.hostCall?_renumbered (hprogram : setting.program.Renumbers r hosts next)
    {state twin : State σ} (h : state.Renumbers r hosts agree twin) :
    twin.hostCall? (setting.on next) = (state.hostCall? setting).map (HostCall.rename r) := by
  obtain ⟨frame, callers, executed, world⟩ := state
  obtain ⟨frame', callers', executed', other⟩ := twin
  obtain ⟨⟨chunk, hchunk, hframe⟩, -, hexecuted, -⟩ := h
  dsimp only at hchunk hframe hexecuted
  subst hframe hexecuted
  have hop := hchunk.opAt frame.ip
  have hlength : (frame.rename r chunk).stack.length = frame.stack.length := List.length_map ..
  have hlimit : (setting.on next).limit = setting.limit := rfl
  unfold State.hostCall?
  dsimp only [Frame.rename_chunk, Frame.rename_ip]
  generalize frame.chunk.ops[frame.ip]? = op? at hop
  generalize chunk.ops[frame.ip]? = op'? at hop
  cases hop with
  | none => rfl
  | some hop =>
    rename_i op op'
    dsimp only
    rw [hlength, hlimit]
    split
    · rfl
    · cases op with
      | callHost id argc =>
        obtain ⟨id', hid, rfl⟩ := hop
        have hpop : ((advance frame).rename r chunk).popArgs argc =
            ((advance frame).popArgs argc).map (Prod.map (List.map (Value.rename r)) (Frame.rename r chunk)) :=
          Frame.popArgs_rename (advance frame) argc
        change opCall? _ ((advance frame).rename r chunk) _ = _
        unfold opCall?
        dsimp only
        rw [hpop]
        cases (advance frame).popArgs argc with
        | error e => rfl
        | ok popped => exact Machine.hostCall?_renumbered hprogram hid popped.1
      | _ =>
        cases hop
        rfl

/-- Two runs that start the same, but for the numbers, make the same calls in the same order. -/
theorem hostCalls_renumbered (hprogram : setting.program.Renumbers r hosts next)
    (hcatalog : setting.catalog.Blind r agree) (fuel : Nat) {state twin : State σ}
    (h : state.Renumbers r hosts agree twin) :
    hostCalls (setting.on next) fuel twin =
      (hostCalls setting fuel state).map (HostCall.rename r) := by
  induction fuel generalizing state twin with
  | zero => rfl
  | succ fuel ih =>
    have hstep := step_renumbered hprogram hcatalog h
    rw [hostCalls, hostCalls, State.hostCall?_renumbered hprogram h, List.map_append,
      Option.toList_map]
    generalize step setting state = outcome at hstep
    generalize step (setting.on next) twin = outcome' at hstep
    cases hstep with
    | running hrest => exact congrArg (_ ++ ·) (ih hrest)
    | ended _ => rfl

end Machine

end ScriptHost
