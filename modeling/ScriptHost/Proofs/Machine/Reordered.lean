import ScriptHost.Proofs.Machine.Alike
import ScriptHost.Proofs.Machine.Renumbered
import ScriptHost.Proofs.Program.Closed
import ScriptHost.Proofs.Program.Sound
/-!
# Programs in another order

A program has what another one has, under other numbers, and its names lead to the same things. What
was there before both keeps its numbers. This is transitive: `Program.Reordered.trans`. A call of a
function, or the making of an object, comes to the same in both programs, but for the numbers:
`Machine.callCourse_renumbered` and `Machine.instantiateCourse_renumbered`.

A special case are programs that have the same under the same numbers, but in which some code uses
other bindings to the same host functions: `Machine.runTopLevel_rebound`.
-/

set_option autoImplicit false

namespace ScriptHost

/-! ## Other bindings -/

/-- Two numbers stand for one binding. -/
def Program.SameBinding (program other : Program) (id id' : Nat) : Prop :=
  ∃ binding, program.bindings[id]? = some binding ∧ other.bindings[id']? = some binding

/-- An instruction is itself under the numbers that it has, if its binding keeps its own. -/
theorem Op.matches_refl {hosts : Nat → Nat → Prop} {op : Op}
    (h : ∀ id argc, op = .callHost id argc → hosts id id) : op.Matches .refl hosts op := by
  cases op with
  | callHost id argc => exact ⟨id, h id argc rfl, rfl⟩
  | _ => rfl

/-- Code that refers to what is there is itself under other numbers, if the bindings that are there
keep theirs. -/
theorem Chunk.Sound.renumbers {program : Program} {accepts : HostBinding → Nat → Prop} {wide : Prop}
    {chunk : Chunk} {hosts : Nat → Nat → Prop} (h : chunk.Sound program accepts wide)
    (hhosts : ∀ (id : Nat) (binding : HostBinding), program.bindings[id]? = some binding →
      hosts id id) : chunk.Renumbers .refl hosts chunk where
  ops := List.forall₂_same.mpr fun op hop => Op.matches_refl fun id argc hcall => by
    subst hcall
    obtain ⟨binding, hbinding, -⟩ := h.ops _ hop
    exact hhosts id binding hbinding
  constants := rfl
  localCount := rfl
  plain := fun value _ => Value.rename_refl value

/-- Host functions that go by a view do not see the numbers of bindings. -/
theorem Catalog.GoesBy.blind {σ τ : Type} {view : σ → τ} {catalog : Catalog σ}
    (h : catalog.GoesBy view) : catalog.Blind .refl fun a b => view b = view a := by
  intro loaded hloaded name f hf args a b hview
  have hargs : args.map (Value.rename .refl) = args := by
    rw [show Value.rename .refl = id from funext Value.rename_refl, List.map_id]
  have houtcome (outcome : HostOutcome) : outcome.rename .refl = outcome := by
    cases outcome with
    | value result => exact congrArg HostOutcome.value (Value.rename_refl result)
    | _ => rfl
  obtain ⟨hresult, hafter⟩ := h loaded hloaded name f hf args b a hview
  rw [hargs, houtcome]
  exact ⟨hresult, hafter⟩

namespace Machine

variable {σ τ : Type} {view : σ → τ} {setting : Setting σ} {next : Program}
  {hosts : Nat → Nat → Prop} {world other : World σ}

theorem world_rebound (h : world.Alike view other) :
    world.Renumbers .refl (fun a b => view b = view a) other where
  globals := by
    rw [show Value.rename .refl = id from funext Value.rename_refl, Array.map_id]
    exact h.globals
  heap := h.heap.trans (Heap.rename_refl _).symm
  host := h.host

theorem Ending.Renumbers.alike {ending twin : Ending σ}
    (h : ending.Renumbers .refl (fun a b => view b = view a) twin) : ending.Alike view twin where
  result := by
    rw [h.result, show Value.rename .refl = id from funext Value.rename_refl]
    cases ending.result <;> rfl
  world :=
    { globals := by
        rw [h.world.globals, show Value.rename .refl = id from funext Value.rename_refl,
          Array.map_id]
      heap := h.world.heap.trans (Heap.rename_refl _)
      host := h.world.host }

/-- The machine before the first instruction of a top level. -/
def topLevelState (chunk : Chunk) (world : World σ) : State σ :=
  ⟨.start topLevelName chunk none [] .value, [], 0, world⟩

/-- A top level runs the same under other bindings, and calls the same host functions. -/
theorem runTopLevel_rebound (hprogram : setting.program.Renumbers .refl hosts next)
    (hcatalog : setting.catalog.GoesBy view) {chunk twin : Chunk}
    (hchunk : chunk.Renumbers .refl hosts twin) (h : world.Alike view other) (fuel : Nat) :
    Option.Rel (Ending.Alike view) (runTopLevel setting fuel chunk world)
        (runTopLevel (setting.on next) fuel twin other) ∧
      hostCalls (setting.on next) fuel (topLevelState twin other) =
        hostCalls setting fuel (topLevelState chunk world) := by
  have hstate : (topLevelState chunk world).Renumbers .refl hosts (fun a b => view b = view a)
      (topLevelState twin other) :=
    { frame := ⟨twin, hchunk, Frame.start_rename hchunk.toMatches topLevelName none [] .value⟩
      callers := .nil
      executed := rfl
      world := world_rebound h }
  have hcall : HostCall.rename .refl = (id : HostCall σ → HostCall σ) := funext fun call => by
    unfold HostCall.rename
    rw [show Value.rename .refl = id from funext Value.rename_refl, List.map_id]
    rfl
  constructor
  · have hrun := run_renumbered hprogram hcatalog.blind fuel hstate
    unfold runTopLevel
    change Option.Rel _ (run setting fuel (topLevelState chunk world))
      (run (setting.on next) fuel (topLevelState twin other))
    generalize run setting fuel (topLevelState chunk world) = ended at hrun
    generalize run (setting.on next) fuel (topLevelState twin other) = ended' at hrun
    cases hrun with
    | none => exact .none
    | some hend => exact .some hend.alike
  · rw [hostCalls_renumbered hprogram hcatalog.blind fuel hstate, hcall, List.map_id]

end Machine

/-! ## One renaming after the other -/

/-- First one renaming, then another one. -/
def Renaming.andThen (r r' : Renaming) : Renaming where
  function := fun id => r'.function (r.function id)
  classId := fun id => r'.classId (r.classId id)
  global := fun id => r'.global (r.global id)

variable {r r' : Renaming}

theorem Value.rename_andThen (value : Value) :
    value.rename (r.andThen r') = (value.rename r).rename r' := by
  cases value <;> rfl

theorem Class.rename_andThen (c : Class) : c.rename (r.andThen r') = (c.rename r).rename r' := by
  unfold Class.rename Renaming.andThen
  simp [Function.comp_def]

theorem Op.Matches.trans {hosts hosts' wider : Nat → Nat → Prop}
    (hwider : ∀ id id' id'', hosts id id' → hosts' id' id'' → wider id id'') {op middle other : Op}
    (h : op.Matches r hosts middle) (h' : middle.Matches r' hosts' other) :
    op.Matches (r.andThen r') wider other := by
  cases op with
  | callHost id argc =>
    obtain ⟨id', hid, rfl⟩ := h
    obtain ⟨id'', hid', hother⟩ := h'
    exact ⟨id'', hwider id id' id'' hid hid', hother⟩
  | _ =>
    cases h
    exact h'

theorem Chunk.Renumbers.trans {hosts hosts' wider : Nat → Nat → Prop}
    (hwider : ∀ id id' id'', hosts id id' → hosts' id' id'' → wider id id'')
    {chunk middle other : Chunk} (h : chunk.Renumbers r hosts middle)
    (h' : middle.Renumbers r' hosts' other) : chunk.Renumbers (r.andThen r') wider other where
  ops := by
    have hops := h.ops
    have hops' := h'.ops
    generalize chunk.ops.toList = ops at hops ⊢
    generalize middle.ops.toList = ops' at hops hops'
    generalize other.ops.toList = ops'' at hops' ⊢
    induction hops generalizing ops'' with
    | nil =>
      cases hops'
      exact .nil
    | cons hop _ ih =>
      cases hops' with
      | cons hop' hrest => exact .cons (hop.trans hwider hop') (ih _ hrest)
  constants := h'.constants.trans h.constants
  localCount := h'.localCount.trans h.localCount
  plain := fun value hvalue => by
    rw [Value.rename_andThen, h.plain value hvalue, h'.plain value (h.constants ▸ hvalue)]

/-- The binding is the same in all of three programs. -/
theorem Program.SameBinding.trans {program middle other : Program} {id id' id'' : Nat}
    (h : program.SameBinding middle id id') (h' : middle.SameBinding other id' id'') :
    program.SameBinding other id id'' := by
  obtain ⟨binding, hbinding, hmiddle⟩ := h
  obtain ⟨binding', hmiddle', hother⟩ := h'
  rw [hmiddle, Option.some.injEq] at hmiddle'
  subst hmiddle'
  exact ⟨binding, hbinding, hother⟩

/-! ## Programs -/

/-- Code that refers to what is there stays the same if what is there keeps its numbers. -/
theorem Chunk.Closed.renumbers {program : Program} {hosts : Nat → Nat → Prop} {chunk : Chunk}
    (h : chunk.Closed program) (hfunctions : ∀ id < program.functions.size, r.function id = id)
    (hclasses : ∀ id < program.classes.size, r.classId id = id)
    (hglobals : ∀ id : Nat, r.global id = id)
    (hhosts : ∀ id < program.bindings.size, hosts id id) : chunk.Renumbers r hosts chunk where
  ops := List.forall₂_same.mpr fun op hop => by
    have hop := h.ops op hop
    cases op with
    | loadGlobal id => exact congrArg Op.loadGlobal (hglobals id).symm
    | storeGlobal id => exact congrArg Op.storeGlobal (hglobals id).symm
    | call function argc => exact congrArg (Op.call · argc) (hfunctions function hop).symm
    | create classId argc => exact congrArg (Op.create · argc) (hclasses classId hop).symm
    | callHost id argc => exact ⟨id, hhosts id hop, rfl⟩
    | _ => rfl
  constants := rfl
  localCount := rfl
  plain := fun value hvalue => by
    cases value with
    | object object =>
      have hobject : object.rename r = object := by
        unfold ObjectRef.rename
        rw [hclasses _ (h.constants object hvalue)]
      exact congrArg Value.object hobject
    | _ => rfl

/-- Another program has the same functions, classes and bindings under other numbers, and names lead
to them. What is in `base` keeps its numbers, and no two numbers become one. -/
structure Program.Reordered (base program other : Program) (r : Renaming) : Prop
    extends program.Renumbers r (program.SameBinding other) other where
  keptFunctions : ∀ id < base.functions.size, r.function id = id
  keptClasses : ∀ id < base.classes.size, r.classId id = id
  functionsApart : Function.Injective r.function
  classesApart : Function.Injective r.classId
  functionNames : ∀ name, other.functionNames.get? name =
    (program.functionNames.get? name).map r.function
  classNames : ∀ name, other.classNames.get? name = (program.classNames.get? name).map r.classId
  globalNames : other.globalNames = program.globalNames

namespace Program.Reordered

variable {base program middle other : Program}

theorem trans (h : base.Reordered program middle r) (h' : base.Reordered middle other r') :
    base.Reordered program other (r.andThen r') where
  functions := fun id f hf => by
    obtain ⟨chunk, hmiddle, hchunk⟩ := h.functions id f hf
    obtain ⟨chunk', hother, hchunk'⟩ := h'.functions _ _ hmiddle
    exact ⟨chunk', hother, hchunk.trans (fun _ _ _ hsame hsame' => hsame.trans hsame') hchunk'⟩
  noFunction := fun id hid => by
    obtain ⟨hkept, hmiddle⟩ := h.noFunction id hid
    obtain ⟨hkept', hother⟩ := h'.noFunction id hmiddle
    refine ⟨?_, hother⟩
    unfold Renaming.andThen
    dsimp only
    rw [hkept, hkept']
  classes := fun id => by
    have hclass := h'.classes (r.classId id)
    rw [h.classes, Option.map_map] at hclass
    refine hclass.trans (congrArg (Option.map · _) (funext fun c => ?_))
    rw [Function.comp_apply, Class.rename_andThen]
  noClass := fun id hid => by
    have hkept := h.noClass id hid
    have hmiddle := h.classes id
    rw [hid, hkept] at hmiddle
    unfold Renaming.andThen
    dsimp only
    rw [hkept, h'.noClass id hmiddle]
  bindings := fun _ _ hsame => hsame
  globals := fun id => by
    unfold Renaming.andThen
    dsimp only
    rw [h.globals, h'.globals]
  keptFunctions := fun id hid => by
    unfold Renaming.andThen
    dsimp only
    rw [h.keptFunctions id hid, h'.keptFunctions id hid]
  keptClasses := fun id hid => by
    unfold Renaming.andThen
    dsimp only
    rw [h.keptClasses id hid, h'.keptClasses id hid]
  functionsApart := h'.functionsApart.comp h.functionsApart
  classesApart := h'.classesApart.comp h.classesApart
  functionNames := fun name => by
    rw [h'.functionNames, h.functionNames, Option.map_map]
    rfl
  classNames := fun name => by
    rw [h'.classNames, h.classNames, Option.map_map]
    rfl
  globalNames := h'.globalNames.trans h.globalNames

end Program.Reordered

/-! ## Calls -/

namespace Machine

variable {σ : Type} {agree : σ → σ → Prop} {setting : Setting σ} {next : Program}
  {hosts : Nat → Nat → Prop} {world other : World σ}

/-- What becomes of a call: how it ends, if the fuel lasts, and which host functions are called on
the way. -/
structure Course (σ : Type) where
  ending : Option (Ending σ)
  hostCalls : List (HostCall σ)

/-- What becomes of a call of a function. -/
def callCourse (setting : Setting σ) (fuel function : Nat) (args : List Value) (world : World σ) :
    Course σ where
  ending := call setting fuel function none args world
  hostCalls :=
    match enter setting.program function none args .value with
    | .error _ => []
    | .ok frame => hostCalls setting fuel ⟨frame, [], 0, world⟩

/-- What becomes of the making of an object. -/
def instantiateCourse (setting : Setting σ) (fuel classId : Nat) (args : List Value)
    (world : World σ) : Course σ where
  ending := instantiate setting fuel classId args world
  hostCalls :=
    match construct setting.program classId args world.heap with
    | .error _ => []
    | .ok (frame, fields) =>
      hostCalls setting fuel ⟨frame, [], 0, { world with heap := world.heap.alloc fields }⟩

/-- What a run has to show in the end: the text of a value, or a fault and the functions that it
passed through. -/
def Ending.shown (ending : Ending σ) : Except RuntimeError String :=
  ending.result.map Value.text

/-- Two calls come to the same, but for the numbers. They show the very same, and they make the same
calls of host functions. -/
structure Course.Renumbers (r : Renaming) (agree : σ → σ → Prop) (course twin : Course σ) :
    Prop where
  ending : Option.Rel (Ending.Renumbers r agree) course.ending twin.ending
  shown : twin.ending.map Ending.shown = course.ending.map Ending.shown
  hostCalls : twin.hostCalls = course.hostCalls.map (HostCall.rename r)

theorem Ending.Renumbers.shown {ending twin : Ending σ} (h : ending.Renumbers r agree twin) :
    twin.shown = ending.shown := by
  unfold Ending.shown
  rw [h.result]
  cases ending.result with
  | error e => rfl
  | ok value => exact congrArg Except.ok value.text_rename

/-- Two runs come to the same if their states do. -/
theorem runs_renumbered (hprogram : setting.program.Renumbers r hosts next)
    (hcatalog : setting.catalog.Blind r agree) (fuel : Nat) {state twin : State σ}
    (h : state.Renumbers r hosts agree twin) :
    Course.Renumbers r agree ⟨run setting fuel state, hostCalls setting fuel state⟩
      ⟨run (setting.on next) fuel twin, hostCalls (setting.on next) fuel twin⟩ := by
  have hrun := run_renumbered hprogram hcatalog fuel h
  refine ⟨hrun, ?_, hostCalls_renumbered hprogram hcatalog fuel h⟩
  dsimp only
  generalize run setting fuel state = ended at hrun
  generalize run (setting.on next) fuel twin = ended' at hrun
  cases hrun with
  | none => rfl
  | some hend => exact congrArg some hend.shown

/-- What is refused is refused in both programs. -/
theorem refused_renumbered (e : Fault) (h : world.Renumbers r agree other) :
    Course.Renumbers r agree ⟨some (refuse e world), []⟩ ⟨some (refuse e other), []⟩ where
  ending := .some ⟨rfl, rfl, h⟩
  shown := rfl
  hostCalls := rfl

/-- A call of a function comes to the same in both programs, but for the numbers. -/
theorem callCourse_renumbered (hprogram : setting.program.Renumbers r hosts next)
    (hcatalog : setting.catalog.Blind r agree) (fuel function : Nat) (args : List Value)
    (h : world.Renumbers r agree other) :
    (callCourse setting fuel function args world).Renumbers r agree
      (callCourse (setting.on next) fuel (r.function function) (args.map (Value.rename r))
        other) := by
  have hentered := enter_renumbered hprogram function none args .value
  have hnext : (setting.on next).program = next := rfl
  unfold callCourse call
  rw [hnext]
  dsimp only [Option.map_none, Resume.rename] at hentered ⊢
  generalize enter setting.program function none args .value = entered at hentered ⊢
  generalize enter next (r.function function) none _ .value = entered' at hentered ⊢
  cases hentered with
  | error => exact refused_renumbered _ h
  | @ok frame frame' hframe =>
    have hstate : State.Renumbers r hosts agree ⟨frame, [], 0, world⟩ ⟨frame', [], 0, other⟩ :=
      ⟨hframe, .nil, rfl, h⟩
    exact runs_renumbered hprogram hcatalog fuel hstate

/-- The making of an object comes to the same in both programs, but for the numbers. -/
theorem instantiateCourse_renumbered (hprogram : setting.program.Renumbers r hosts next)
    (hcatalog : setting.catalog.Blind r agree) (fuel classId : Nat) (args : List Value)
    (h : world.Renumbers r agree other) :
    (instantiateCourse setting fuel classId args world).Renumbers r agree
      (instantiateCourse (setting.on next) fuel (r.classId classId) (args.map (Value.rename r))
        other) := by
  have hmade := construct_renumbered hprogram classId args world.heap
  have hnext : (setting.on next).program = next := rfl
  unfold instantiateCourse instantiate
  rw [hnext, h.heap]
  generalize construct setting.program classId args world.heap = made at hmade ⊢
  generalize construct next (r.classId classId) _ _ = made' at hmade ⊢
  cases hmade with
  | error => exact refused_renumbered _ h
  | @ok made made' hsame =>
    obtain ⟨frame, fields⟩ := made
    obtain ⟨frame', fields'⟩ := made'
    obtain ⟨hframe, hfields⟩ := hsame
    dsimp only at hframe hfields
    subst hfields
    have hworld : World.Renumbers r agree { world with heap := world.heap.alloc fields }
        { other with heap := (world.heap.rename r).alloc (Fields.rename r fields) } :=
      ⟨h.globals, Heap.alloc_rename .., h.host⟩
    have hstate : State.Renumbers r hosts agree ⟨frame, [], 0, _⟩ ⟨frame', [], 0, _⟩ :=
      ⟨hframe, .nil, rfl, hworld⟩
    exact runs_renumbered hprogram hcatalog fuel hstate

end Machine

end ScriptHost
