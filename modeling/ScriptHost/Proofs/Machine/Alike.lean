import ScriptHost.Proofs.Host.Catalog
import ScriptHost.Proofs.Machine.Faults
/-!
# Runs that the host functions cannot tell apart

Host functions need not look at the whole state of the host. `view` says what of it they go by: two
states with the same view get the same outcomes from them, and have the same view afterwards. The
machine itself never looks at the state of the host. So two runs that start alike, but for what
host functions do not see, go on alike and end alike.
-/

set_option autoImplicit false

namespace ScriptHost

variable {σ τ : Type}

/-- The function goes by nothing of the state but what the view shows. -/
def HostFunction.GoesBy (view : σ → τ) (f : HostFunction σ) : Prop :=
  ∀ args a b, view a = view b →
    (f.call args a).1 = (f.call args b).1 ∧ view (f.call args a).2 = view (f.call args b).2

/-- All functions of the module go by the view. -/
def HostModule.GoesBy (view : σ → τ) (module : HostModule σ) : Prop :=
  ∀ name f, module.functions.get? name = some f → f.GoesBy view

/-- All modules of the catalog go by the view. -/
def Catalog.GoesBy (view : σ → τ) (catalog : Catalog σ) : Prop :=
  ∀ loaded ∈ catalog.modules, loaded.module.GoesBy view

variable {view : σ → τ}

theorem Catalog.GoesBy.live {catalog : Catalog σ} (h : catalog.GoesBy view) {id : Nat}
    {module : HostModule σ} (hlive : catalog.live? id = some module) : module.GoesBy view :=
  h _ (mem_of_live? hlive)

theorem Catalog.GoesBy.load {catalog : Catalog σ} (h : catalog.GoesBy view)
    {module : HostModule σ} (hmodule : module.GoesBy view) :
    (catalog.load module).GoesBy view := by
  intro loaded hmem
  obtain rfl | hmem := mem_place hmem
  · exact hmodule
  · exact h loaded hmem

theorem Catalog.GoesBy.unload {catalog : Catalog σ} (h : catalog.GoesBy view) (name : String) :
    (catalog.unload name).2.GoesBy view :=
  fun loaded hmem => h loaded (List.mem_of_mem_filter hmem)

/-- The worlds differ in nothing but what the view does not show. -/
structure World.Alike (view : σ → τ) (world other : World σ) : Prop where
  globals : other.globals = world.globals
  heap : other.heap = world.heap
  host : view other.host = view world.host

namespace Machine

/-- The effects differ in nothing but what the view does not show of their worlds. -/
inductive Effect.Alike (view : σ → τ) : Effect σ → Effect σ → Prop
  | next {frame : Frame} {world other : World σ} (alike : world.Alike view other) :
      Alike view (.next frame world) (.next frame other)
  | enter {caller callee : Frame} {world other : World σ} (alike : world.Alike view other) :
      Alike view (.enter caller callee world) (.enter caller callee other)
  | ret {value : Value} {world other : World σ} (alike : world.Alike view other) :
      Alike view (.ret value world) (.ret value other)
  | fault {e : Fault} {world other : World σ} (alike : world.Alike view other) :
      Alike view (.fault e world) (.fault e other)

/-- The endings differ in nothing but what the view does not show of their worlds. -/
structure Ending.Alike (view : σ → τ) (ending other : Ending σ) : Prop where
  result : other.result = ending.result
  world : ending.world.Alike view other.world

/-- The states differ in nothing but what the view does not show of their worlds. -/
inductive State.Alike (view : σ → τ) : State σ → State σ → Prop
  | intro {frame : Frame} {callers : List Frame} {executed : Nat} {world other : World σ}
      (alike : world.Alike view other) :
      Alike view ⟨frame, callers, executed, world⟩ ⟨frame, callers, executed, other⟩

/-- The outcomes differ in nothing but what the view does not show of their worlds. -/
inductive Outcome.Alike (view : σ → τ) : Outcome σ → Outcome σ → Prop
  | running {state other : State σ} (alike : state.Alike view other) :
      Alike view (.running state) (.running other)
  | ended {ending other : Ending σ} (alike : ending.Alike view other) :
      Alike view (.ended ending) (.ended other)

variable {setting : Setting σ} {world other : World σ}

/-- What is prepared without the world, and then done to the world, has effects that are alike. -/
theorem attempt_alike {α : Type} {prepared : Except Fault α} {act : α → World σ → Effect σ}
    (h : world.Alike view other)
    (hact : ∀ a, Effect.Alike view (act a world) (act a other)) :
    Effect.Alike view (.attempt world prepared act) (.attempt other prepared act) := by
  cases prepared with
  | error e => exact .fault h
  | ok a => exact hact a

theorem callHost_alike (hcatalog : setting.catalog.GoesBy view) (id : Nat) (args : List Value)
    {a b : σ} (h : view b = view a) :
    (callHost setting id args b).1 = (callHost setting id args a).1 ∧
      view (callHost setting id args b).2 = view (callHost setting id args a).2 := by
  unfold callHost
  split
  · exact ⟨rfl, h⟩
  · rename_i binding _
    unfold callBound
    cases hbound : boundFunction setting.catalog binding args.length with
    | error fault => exact ⟨rfl, h⟩
    | ok f =>
      have hgoes : f.GoesBy view := by
        obtain ⟨id, module, hlive, hg⟩ := function_of_bound hbound
        exact hcatalog.live hlive _ _ hg
      obtain ⟨houtcome, hview⟩ := hgoes args b a h
      refine ⟨?_, hview⟩
      dsimp only
      rw [houtcome]

theorem effect_alike (hcatalog : setting.catalog.GoesBy view) (frame : Frame)
    (h : world.Alike view other) (op : Op) :
    Effect.Alike view (effect setting frame world op) (effect setting frame other op) := by
  obtain ⟨globals, heap, a⟩ := world
  obtain ⟨globals', heap', b⟩ := other
  obtain ⟨hglobals, hheap, hhost⟩ := h
  dsimp only at hglobals hheap hhost
  subst hglobals hheap
  have halike {globals : Array Value} {heap : Heap} :
      World.Alike view ⟨globals, heap, a⟩ ⟨globals, heap, b⟩ := ⟨rfl, rfl, hhost⟩
  cases op with
  | callHost binding argc =>
    rw [effect, effect]
    refine attempt_alike halike fun prepared => ?_
    obtain ⟨args, frame⟩ := prepared
    obtain ⟨hresult, hview⟩ := callHost_alike hcatalog binding args hhost
    simp only [hostEffect]
    cases hcalled : callHost setting binding args a with
    | mk result after =>
      cases hother : callHost setting binding args b with
      | mk result' after' =>
        rw [hcalled, hother] at hresult hview
        cases hresult
        cases result with
        | ok value => exact .next ⟨rfl, rfl, hview⟩
        | error e => exact .fault ⟨rfl, rfl, hview⟩
  | ret => exact .ret halike
  | call id argc | callMethod index argc | create classId argc =>
    rw [effect, effect]
    exact attempt_alike halike fun _ => .enter ⟨rfl, rfl, hhost⟩
  | pushConst _ | pushNull | pushTrue | pushFalse | loadLocal _ | loadGlobal _ | loadThis
  | jump _ => exact .next halike
  | _ =>
    rw [effect, effect]
    exact attempt_alike halike fun _ => .next ⟨rfl, rfl, hhost⟩

theorem pushFrame_alike (callee : Frame) (frames : List Frame) (executed : Nat)
    (h : world.Alike view other) :
    Outcome.Alike view (pushFrame callee frames executed world)
      (pushFrame callee frames executed other) := by
  unfold pushFrame
  split
  · exact .ended ⟨rfl, h⟩
  · exact .running ⟨h⟩

theorem finish_alike (program : Program) (resume : Resume) (value : Value) (callers : List Frame)
    (executed : Nat) (h : world.Alike view other) :
    Outcome.Alike view (finish program resume value callers executed world)
      (finish program resume value callers executed other) := by
  have hdeliver (value : Value) : Outcome.Alike view (deliver value callers executed world)
      (deliver value callers executed other) := by
    cases callers with
    | nil => exact .ended ⟨rfl, h⟩
    | cons caller rest => exact .running ⟨h⟩
  unfold finish
  split
  · exact hdeliver _
  · exact hdeliver _
  · exact hdeliver _
  · split
    · exact .ended ⟨rfl, h⟩
    · exact pushFrame_alike _ _ _ h

/-- One step keeps two states alike. -/
theorem step_alike (hcatalog : setting.catalog.GoesBy view) {state twin : State σ}
    (h : state.Alike view twin) : Outcome.Alike view (step setting state) (step setting twin) := by
  obtain ⟨halike⟩ := h
  rename_i frame callers executed world other
  unfold step
  dsimp only
  split
  · exact finish_alike _ _ _ _ _ halike
  · rename_i op _
    have hinstruction : Effect.Alike view (instruction setting (executed + 1) frame world op)
        (instruction setting (executed + 1) frame other op) := by
      unfold instruction
      split
      · exact .fault halike
      · split
        · exact .fault halike
        · exact effect_alike hcatalog _ halike op
    cases hworld : instruction setting (executed + 1) frame world op <;>
      cases hother : instruction setting (executed + 1) frame other op <;>
      rw [hworld, hother] at hinstruction <;> cases hinstruction
    · exact .running ⟨‹_›⟩
    · exact pushFrame_alike _ _ _ ‹_›
    · exact finish_alike _ _ _ _ _ ‹_›
    · exact .ended ⟨rfl, ‹_›⟩

/-- Two runs that start alike end alike, or neither of them ends. -/
theorem run_alike (hcatalog : setting.catalog.GoesBy view) (fuel : Nat) {state twin : State σ}
    (h : state.Alike view twin) :
    Option.Rel (Ending.Alike view) (run setting fuel state) (run setting fuel twin) := by
  induction fuel generalizing state twin with
  | zero => exact .none
  | succ fuel ih =>
    have hstep := step_alike hcatalog h
    rw [run, run]
    cases hstate : step setting state <;> cases htwin : step setting twin <;>
      rw [hstate, htwin] at hstep <;> cases hstep
    · exact ih ‹_›
    · exact .some ‹_›

theorem runTopLevel_alike (hcatalog : setting.catalog.GoesBy view) (fuel : Nat) (chunk : Chunk)
    (h : world.Alike view other) :
    Option.Rel (Ending.Alike view) (runTopLevel setting fuel chunk world)
      (runTopLevel setting fuel chunk other) :=
  run_alike hcatalog fuel ⟨h⟩

theorem instantiate_alike (hcatalog : setting.catalog.GoesBy view) (fuel classId : Nat)
    (args : List Value) (h : world.Alike view other) :
    Option.Rel (Ending.Alike view) (instantiate setting fuel classId args world)
      (instantiate setting fuel classId args other) := by
  unfold instantiate
  rw [h.heap]
  split
  · exact .some ⟨rfl, h⟩
  · exact run_alike hcatalog fuel ⟨h.globals, rfl, h.host⟩

end Machine

end ScriptHost
