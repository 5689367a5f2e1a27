import ScriptHost.Proofs.Engine.Reached
import ScriptHost.Proofs.Machine.Dispatched
import ScriptHost.Proofs.Project.Reading
/-!
# Calls under an instruction limit

A call lets the machine run twice, for the top level and for the entry class, each time with the
limit of the engine. So it always comes back, and in each of its two parts it dispatches no more
instructions than the limit allows.
-/

set_option autoImplicit false

namespace ScriptHost

variable {σ : Type}

namespace Engine

/-! ## The two runs of a call -/

/-- The state in which the machine starts the top level of linked sources. -/
def topLevelStart (engine : Engine) (linked : Linked) (host : σ) : Machine.State σ :=
  ⟨.start Machine.topLevelName linked.topLevel none [] .value, [], 0,
    ⟨engine.globals, engine.heap, host⟩⟩

/-- The state in which the machine starts to make an object of the entry class, if it gets so
far. -/
def entryStart? (engine : Engine) (host : σ) : Option (Machine.State σ) :=
  match engine.program.classNames.get? entryClass with
  | none => none
  | some id =>
    match Machine.construct engine.program id [] engine.heap with
    | .error _ => none
    | .ok (frame, fields) =>
      some ⟨frame, [], 0, ⟨engine.globals, engine.heap.alloc fields, host⟩⟩

/-- The states in which the top level of sources dispatches instructions. -/
def topLevelDispatched (engine : Engine) (catalog : Catalog σ) (fuel : Nat) (sources : SourceUnit)
    (host : σ) : List (Machine.State σ) :=
  match engine.compile catalog sources with
  | (.error _, _) => []
  | (.ok linked, engine) =>
    Machine.dispatched (engine.setting catalog) fuel (engine.topLevelStart linked host)

/-- The states in which instructions are dispatched to make an object of the entry class, after the
top level of sources has been run. -/
def entryDispatched (engine : Engine) (catalog : Catalog σ) (fuel : Nat) (sources : SourceUnit)
    (host : σ) : List (Machine.State σ) :=
  match engine.perform catalog fuel sources host with
  | some ⟨.ok _, engine, host⟩ =>
    match engine.entryStart? host with
    | some start => Machine.dispatched (engine.setting catalog) fuel start
    | none => []
  | _ => []

end Engine

/-! ## Calls come back -/

/-- With enough fuel something comes to an end, and more fuel changes nothing. -/
def Settles {α : Type} (part : Nat → Option α) : Prop :=
  ∃ fuel result, ∀ more, part (fuel + more) = some result

theorem Settles.of_eq {α : Type} {part : Nat → Option α} {result : α}
    (h : ∀ fuel, part fuel = some result) : Settles part :=
  ⟨0, result, fun more => h (0 + more)⟩

theorem Settles.map {α β : Type} {part : Nat → Option α} (h : Settles part) (f : α → β) :
    Settles fun fuel => (part fuel).map f := by
  obtain ⟨fuel, result, hpart⟩ := h
  refine ⟨fuel, f result, fun more => ?_⟩
  simp [hpart more]

/-- One part after the other: enough fuel for both is enough. -/
theorem Settles.bind {α β : Type} {part : Nat → Option α} {next : Nat → α → Option β}
    (h : Settles part)
    (hnext : ∀ fuel result, part fuel = some result → Settles fun fuel => next fuel result) :
    Settles fun fuel => (part fuel).bind (next fuel) := by
  obtain ⟨fuel, result, hpart⟩ := h
  obtain ⟨fuel', result', hrest⟩ := hnext _ _ (hpart 0)
  refine ⟨fuel + fuel', result', fun more => ?_⟩
  have hfirst := hpart (fuel' + more)
  have hsecond := hrest (fuel + more)
  rw [← Nat.add_assoc] at hfirst
  rw [← Nat.add_assoc, Nat.add_comm fuel' fuel] at hsecond
  simp [hfirst, hsecond]

namespace Machine

variable {setting : Setting σ} {limit : Nat}

theorem run_settles (hlimit : setting.limit = some limit) (start : State σ) :
    Settles fun fuel => run setting fuel start := by
  obtain ⟨fuel, ending, hrun⟩ := run_terminates hlimit start
  exact ⟨fuel, ending, run_add hrun⟩

theorem instantiate_settles (hlimit : setting.limit = some limit) (classId : Nat)
    (args : List Value) (world : World σ) :
    Settles fun fuel => instantiate setting fuel classId args world := by
  unfold instantiate
  cases construct setting.program classId args world.heap with
  | error fault => exact .of_eq fun _ => rfl
  | ok prepared => exact run_settles hlimit _

end Machine

namespace Engine

variable {engine : Engine} {catalog : Catalog σ} {limit : Nat}

theorem invoke_config {host : σ} {act : World σ → Option (Machine.Ending σ)}
    {reply : Reply σ Value} (h : engine.invoke host act = some reply) :
    reply.engine.config = engine.config := by
  obtain ⟨ending, -, rfl⟩ := Option.map_eq_some_iff.mp h
  unfold settle
  cases ending.result <;> rfl

theorem perform_config {fuel : Nat} {sources : SourceUnit} {host : σ}
    {reply : Reply σ (Linked × Value)}
    (h : engine.perform catalog fuel sources host = some reply) :
    reply.engine.config = engine.config := by
  have hcompiled := engine.compile_config catalog sources
  unfold perform at h
  split at h
  · rename_i hcompile
    cases h
    rw [hcompile] at hcompiled
    exact hcompiled
  · rename_i hcompile
    rw [hcompile] at hcompiled
    obtain ⟨executed, hexecuted, rfl⟩ := Option.map_eq_some_iff.mp h
    exact (invoke_config hexecuted).trans hcompiled

theorem perform_settles (hlimit : engine.config.instructionLimit = some limit)
    (sources : SourceUnit) (host : σ) :
    Settles fun fuel => engine.perform catalog fuel sources host := by
  have hcompiled := engine.compile_config catalog sources
  unfold perform
  cases hcompile : engine.compile catalog sources with
  | mk result after =>
    rw [hcompile] at hcompiled
    replace hcompiled : after.config = engine.config := hcompiled
    cases result with
    | error e => exact .of_eq fun _ => rfl
    | ok linked =>
      have hsetting : (after.setting catalog).limit = some limit := by rw [setting, hcompiled, hlimit]
      have hrun := Machine.run_settles hsetting (after.topLevelStart linked host)
      exact (hrun.map _).map _

theorem invokeEntry_settles (hlimit : engine.config.instructionLimit = some limit) (host : σ) :
    Settles fun fuel => engine.invokeEntry catalog fuel host := by
  unfold invokeEntry
  cases engine.program.classNames.get? entryClass with
  | none => exact .of_eq fun _ => rfl
  | some id =>
    have hsetting : (engine.setting catalog).limit = some limit := hlimit
    exact (Machine.instantiate_settles hsetting id [] _).map _

theorem runUnit_settles (hlimit : engine.config.instructionLimit = some limit)
    (sources : SourceUnit) (host : σ) :
    Settles fun fuel => engine.runUnit catalog fuel sources host := by
  apply (perform_settles hlimit sources host).bind
  intro fuel reply hreply
  unfold Reply.andThen
  cases reply.result with
  | error e => exact .of_eq fun _ => rfl
  | ok performed =>
    have hafter : reply.engine.config.instructionLimit = some limit := by
      rw [perform_config hreply, hlimit]
    exact (invokeEntry_settles hafter reply.host).map _

theorem runProvided_settles [HasConsole σ] (hlimit : engine.config.instructionLimit = some limit)
    (provided : Except EngineError SourceUnit) (host : σ) :
    Settles fun fuel => engine.runProvided catalog fuel provided host := by
  have hbegun : engine.begin.config.instructionLimit = some limit := hlimit
  apply Settles.map
  cases provided with
  | error e => exact .of_eq fun _ => rfl
  | ok sources => exact runUnit_settles hbegun sources host

theorem runSource_settles [HasConsole σ] (hlimit : engine.config.instructionLimit = some limit)
    (code : String) (host : σ) :
    Settles fun fuel => engine.runSource catalog fuel code host := by
  have hbegun : engine.begin.config.instructionLimit = some limit := hlimit
  apply Settles.map
  dsimp only
  split
  · exact runUnit_settles hbegun _ host
  · exact .of_eq fun _ => rfl

/-! ## How much a call dispatches -/

theorem topLevelDispatched_length_le (hlimit : engine.config.instructionLimit = some limit)
    (fuel : Nat) (sources : SourceUnit) (host : σ) :
    (engine.topLevelDispatched catalog fuel sources host).length ≤ limit := by
  have hcompiled := engine.compile_config catalog sources
  unfold topLevelDispatched
  split
  · simp
  · rename_i linked after hcompile
    rw [hcompile] at hcompiled
    have hsetting : (after.setting catalog).limit = some limit := by
      rw [← hlimit, ← hcompiled]
      rfl
    rw [(Machine.cuts hsetting rfl).dispatches]
    exact List.length_take_le ..

theorem entryDispatched_length_le (hlimit : engine.config.instructionLimit = some limit)
    (fuel : Nat) (sources : SourceUnit) (host : σ) :
    (engine.entryDispatched catalog fuel sources host).length ≤ limit := by
  unfold entryDispatched
  split
  · rename_i performed after host' hperform
    have hsetting : (after.setting catalog).limit = some limit := by
      rw [← hlimit, ← perform_config hperform]
      rfl
    split
    · rename_i start hstart
      have hexecuted : start.executed = 0 := by
        unfold entryStart? at hstart
        split at hstart
        · cases hstart
        · split at hstart
          · cases hstart
          · cases hstart
            rfl
      rw [(Machine.cuts hsetting hexecuted).dispatches]
      exact List.length_take_le ..
    · simp
  · simp

/-- A limit bounds the calls of an engine. -/
structure Bounded [HasConsole σ] (engine : Engine) (catalog : Catalog σ) (limit : Nat) (host : σ) :
    Prop where
  /-- A source text that is run comes back. -/
  runSource : ∀ code, ∃ fuel reply, engine.runSource catalog fuel code host = some reply
  /-- A project that is run comes back. -/
  run : ∀ disk, ∃ fuel reply,
    ((engine.run catalog fuel host : StateM Disk _).run disk).1 = some reply
  /-- Its top level dispatches no more instructions than the limit allows, -/
  topLevel : ∀ fuel sources,
    (engine.begin.topLevelDispatched catalog fuel sources host).length ≤ limit
  /-- and no more are dispatched to make an object of the entry class. -/
  entry : ∀ fuel sources,
    (engine.begin.entryDispatched catalog fuel sources host).length ≤ limit

end Engine

/-- An instruction limit is a cutoff of what runs without it, for every program and every frame to
start from, and bounds what a call of an engine does in each of its parts. -/
theorem instruction_limit_cuts_off [HasConsole σ] (limit : Nat) :
    (∀ (setting : Machine.Setting σ) (base : Frame) (world : World σ),
        setting.limit = some limit → Machine.Cuts setting limit ⟨base, [], 0, world⟩) ∧
      ∀ (engine : Engine) (catalog : Catalog σ) (host : σ),
        engine.config.instructionLimit = some limit → engine.Bounded catalog limit host := by
  refine ⟨fun setting base world hlimit => Machine.cuts hlimit rfl,
    fun engine catalog host hlimit => ?_⟩
  have hbegun : engine.begin.config.instructionLimit = some limit := hlimit
  refine ⟨fun code => ?_, fun disk => ?_, fun fuel sources => ?_, fun fuel sources => ?_⟩
  · obtain ⟨fuel, reply, hreply⟩ := Engine.runSource_settles hlimit code host
    exact ⟨_, reply, hreply 0⟩
  · let provided := ((engine.provide : StateM Disk _).run disk).1
    have hsettles : Settles fun fuel => engine.runProvided catalog fuel provided host :=
      Engine.runProvided_settles hlimit provided host
    obtain ⟨fuel, reply, hreply⟩ := hsettles
    refine ⟨fuel, reply, ?_⟩
    rw [Engine.run_eq]
    exact hreply 0
  · exact Engine.topLevelDispatched_length_le hbegun fuel sources host
  · exact Engine.entryDispatched_length_le hbegun fuel sources host

/-- A frame that jumps to and fro is stopped before its fourth instruction. -/
theorem endless_loop_is_cut_off :
    let setting : Machine.Setting Console := { program := {}, catalog := {}, limit := some 3 }
    let base : Frame := .start "loop" ⟨#[.jump 1, .jump 0], #[], 0⟩ none [] .value
    let engine := Engine.inline { instructionLimit := some 3 }
    setting.limit = some 3 ∧ Machine.Cuts setting 3 ⟨base, [], 0, { host := {} }⟩ ∧
      Machine.run setting 4 ⟨base, [], 0, { host := {} }⟩ =
        some ⟨.error ⟨.instructionLimit 3, ["loop"]⟩, 4, { host := {} }⟩ ∧
      engine.config.instructionLimit = some 3 ∧ engine.Bounded (σ := Console) {} 3 {} := by
  intro setting base engine
  obtain ⟨hcuts, hbounded⟩ := instruction_limit_cuts_off (σ := Console) 3
  exact ⟨rfl, hcuts setting base _ rfl, rfl, rfl, hbounded engine _ _ rfl⟩

end ScriptHost
