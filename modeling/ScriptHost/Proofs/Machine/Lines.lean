import Mathlib.Logic.IsEmpty.Basic
import ScriptHost.Console
import ScriptHost.Proofs.Machine.Alike
import ScriptHost.Proofs.Machine.HostCalls
/-!
# Lines that runs write

A host function may do nothing to the host but write lines, and keep no state of its own. Where all
functions of a catalog are like that, a run is the same in front of every host, and writes the same
lines to it: `run_uniform`. Other host functions may at least leave alone what has been written:
`run_writes`.
-/

set_option autoImplicit false

namespace ScriptHost

variable {σ : Type}

/-- Lines after lines. -/
theorem Banner.writeLines_append [HasConsole σ] (front rest : List String) (host : σ) :
    writeLines (front ++ rest) host = writeLines rest (writeLines front host) :=
  List.foldl_append

/-- Where every line is shown, lines are shown behind what was there. -/
theorem Banner.shown_writeLines [HasConsole σ] {shown : σ → List String}
    (hshown : ∀ line host, shown (writeLine line host) = shown host ++ [line])
    (lines : List String) (host : σ) : shown (writeLines lines host) = shown host ++ lines := by
  induction lines generalizing host with
  | nil => simp [writeLines]
  | cons line rest ih =>
    have hrest := ih (writeLine line host)
    rw [hshown, List.append_assoc] at hrest
    exact hrest

/-- What the function comes to and which lines it writes is told by its arguments alone, and the
host keeps no other trace of a call. -/
def HostFunction.Stateless [HasConsole σ] (f : HostFunction σ) : Prop :=
  ∀ args, ∃ outcome lines, ∀ host, f.call args host = (outcome, Banner.writeLines lines host)

/-- All functions of the module are stateless. -/
def HostModule.Stateless [HasConsole σ] (module : HostModule σ) : Prop :=
  ∀ name f, module.functions.get? name = some f → f.Stateless

/-- All modules of the catalog are stateless. -/
def Catalog.Stateless [HasConsole σ] (catalog : Catalog σ) : Prop :=
  ∀ loaded ∈ catalog.modules, loaded.module.Stateless

section Modules

variable [HasConsole σ]

theorem HostModule.stateless_empty (name : String) : ({ name } : HostModule σ).Stateless :=
  nofun

theorem HostModule.Stateless.withFunction {module : HostModule σ} (h : module.Stateless)
    (name : String) (arity : Arity) {call : List Value → σ → HostOutcome × σ}
    (hcall : ∀ args, ∃ outcome lines, ∀ host,
      call args host = (outcome, Banner.writeLines lines host)) :
    (module.withFunction name arity call).Stateless := by
  intro other f hf
  have hget := Table.get?_insert module.functions name other ⟨arity, call⟩
  rw [HostModule.withFunction, hget] at hf
  split at hf
  · cases hf
    exact hcall
  · exact h other f hf

/-- A function that leaves the host alone is stateless. -/
theorem HostModule.Stateless.withPure {module : HostModule σ} (h : module.Stateless)
    (name : String) (arity : Arity) (call : List Value → HostOutcome) :
    (module.withPure name arity call).Stateless :=
  h.withFunction name arity fun args => ⟨call args, [], fun _ => rfl⟩

theorem Catalog.stateless_empty : ({} : Catalog σ).Stateless :=
  nofun

theorem Catalog.Stateless.load {catalog : Catalog σ} (h : catalog.Stateless)
    {module : HostModule σ} (hmodule : module.Stateless) : (catalog.load module).Stateless := by
  intro loaded hmem
  obtain rfl | hmem := mem_place hmem
  · exact hmodule
  · exact h loaded hmem

end Modules

/-- A stateless function does not look at the host at all. -/
theorem HostFunction.Stateless.goesBy [HasConsole σ] {f : HostFunction σ} (h : f.Stateless) :
    f.GoesBy fun _ => () := by
  intro args a b _
  obtain ⟨outcome, lines, hcall⟩ := h args
  simp [hcall]

theorem Catalog.Stateless.goesBy [HasConsole σ] {catalog : Catalog σ} (h : catalog.Stateless) :
    catalog.GoesBy fun _ => () :=
  fun loaded hloaded name f hf => (h loaded hloaded name f hf).goesBy

/-- Functions of the catalog may write lines behind those that are shown, and change none. -/
def Catalog.Writes (shown : σ → List String) (catalog : Catalog σ) : Prop :=
  ∀ loaded ∈ catalog.modules, ∀ name f, loaded.module.functions.get? name = some f →
    ∀ args host, shown host <+: shown (f.call args host).2

/-- Lines are all that stateless functions write. -/
theorem Catalog.Stateless.writes [HasConsole σ] {shown : σ → List String}
    (hshown : ∀ line host, shown (writeLine line host) = shown host ++ [line])
    {catalog : Catalog σ} (h : catalog.Stateless) : catalog.Writes shown := by
  intro loaded hloaded name f hf args host
  obtain ⟨outcome, lines, hcall⟩ := h loaded hloaded name f hf args
  rw [hcall, Banner.shown_writeLines hshown]
  exact List.prefix_append _ _

namespace Machine

variable {τ : Type} {view : σ → τ} {setting : Setting σ}

/-- The calls of a run are of functions of the catalog. -/
theorem mem_hostCalls {fuel : Nat} {state : State σ} {call : HostCall σ}
    (h : call ∈ hostCalls setting fuel state) :
    ∃ loaded ∈ setting.catalog.modules, ∃ name,
      loaded.module.functions.get? name = some call.function := by
  induction fuel generalizing state with
  | zero => cases h
  | succ fuel ih =>
    rw [hostCalls, List.mem_append, Option.mem_toList] at h
    obtain hfirst | hrest := h
    · unfold State.hostCall? at hfirst
      split at hfirst
      · cases hfirst
      · split at hfirst
        · cases hfirst
        · unfold opCall? at hfirst
          split at hfirst
          · split at hfirst
            · unfold hostCall? at hfirst
              split at hfirst
              · cases hfirst
              · split at hfirst
                · rename_i f hbound
                  obtain ⟨id, module, hlive, hf⟩ := function_of_bound hbound
                  cases hfirst
                  exact ⟨_, Catalog.mem_of_live? hlive, _, hf⟩
                · cases hfirst
            · cases hfirst
          · cases hfirst
    · split at hrest
      · exact ih hrest
      · cases hrest

/-- Which calls of host functions a run makes is nothing that the host decides, but by what the view
shows of it. -/
theorem hostCalls_alike (hcatalog : setting.catalog.GoesBy view) (fuel : Nat)
    {state twin : State σ} (h : state.Alike view twin) :
    hostCalls setting fuel twin = hostCalls setting fuel state := by
  induction fuel generalizing state twin with
  | zero => rfl
  | succ fuel ih =>
    have hstep := step_alike hcatalog h
    have hcall : twin.hostCall? setting = state.hostCall? setting := by
      obtain ⟨_⟩ := h
      rfl
    rw [hostCalls, hostCalls, hcall]
    cases hstate : step setting state <;> cases htwin : step setting twin <;>
      rw [hstate, htwin] at hstep <;> cases hstep
    · rename_i halike
      dsimp only
      rw [ih halike]

/-- A run writes behind what has been shown before. -/
theorem run_writes {shown : σ → List String} (hcatalog : setting.catalog.Writes shown) {fuel : Nat}
    {start : State σ} {ending : Ending σ} (h : run setting fuel start = some ending) :
    shown start.world.host <+: shown ending.world.host := by
  have hcalls : ∀ call ∈ hostCalls setting fuel start, ∀ host,
      shown host <+: shown (call.act host) := by
    intro call hcall host
    obtain ⟨loaded, hloaded, name, hf⟩ := mem_hostCalls hcall
    exact hcatalog loaded hloaded name _ hf call.args host
  rw [run_hostCalls h]
  generalize hostCalls setting fuel start = calls at hcalls
  generalize start.world.host = host
  induction calls generalizing host with
  | nil => exact List.prefix_rfl
  | cons call rest ih =>
    obtain ⟨hcall, hrest⟩ := List.forall_mem_cons.mp hcalls
    exact (hcall host).trans (ih hrest (call.act host))

/-- Stateless functions, called one after the other, write their lines. -/
theorem actAll_lines [HasConsole σ] {calls : List (HostCall σ)}
    (h : ∀ call ∈ calls, call.function.Stateless) :
    ∃ lines, ∀ host, HostCall.actAll calls host = Banner.writeLines lines host := by
  induction calls with
  | nil => exact ⟨[], fun _ => rfl⟩
  | cons call rest ih =>
    obtain ⟨hcall, hrest⟩ := List.forall_mem_cons.mp h
    obtain ⟨outcome, first, hfirst⟩ := hcall call.args
    obtain ⟨others, hothers⟩ := ih hrest
    refine ⟨first ++ others, fun host => ?_⟩
    have hact : call.act host = Banner.writeLines first host := by rw [HostCall.act, hfirst]
    rw [Banner.writeLines_append, ← hact]
    exact hothers (call.act host)

/-- A run in front of stateless functions: in front of every host it comes to the same and writes
the same lines. -/
theorem run_uniform [HasConsole σ] (hcatalog : setting.catalog.Stateless) (fuel : Nat)
    (start : σ → State σ) (hstart : ∀ a b, (start a).Alike (fun _ => ()) (start b))
    (hhost : ∀ host, (start host).world.host = host) :
    ∃ (outcome : Option (Except RuntimeError Value × Array Value × Heap)) (lines : List String),
      ∀ host, (run setting fuel (start host)).map (fun ending => (ending.result, ending.world)) =
        outcome.map fun (result, globals, heap) =>
          (result, ⟨globals, heap, Banner.writeLines lines host⟩) := by
  obtain hempty | ⟨⟨first⟩⟩ := isEmpty_or_nonempty σ
  · exact ⟨none, [], fun host => (hempty.false host).elim⟩
  have hstateless : ∀ call ∈ hostCalls setting fuel (start first), call.function.Stateless := by
    intro call hcall
    obtain ⟨loaded, hloaded, name, hf⟩ := mem_hostCalls hcall
    exact hcatalog loaded hloaded name _ hf
  obtain ⟨lines, hlines⟩ := actAll_lines hstateless
  refine ⟨(run setting fuel (start first)).map fun ending =>
    (ending.result, ending.world.globals, ending.world.heap), lines, fun host => ?_⟩
  have halike := run_alike hcatalog.goesBy fuel (hstart first host)
  have hcalls := hostCalls_alike hcatalog.goesBy fuel (hstart first host)
  cases hrun : run setting fuel (start host) with
  | none =>
    rw [hrun] at halike
    cases hfirst : run setting fuel (start first) with
    | none => rfl
    | some ending =>
      rw [hfirst] at halike
      cases halike
  | some ending =>
    have hafter := run_hostCalls hrun
    rw [hcalls, hlines, hhost] at hafter
    rw [hrun] at halike
    cases hfirst : run setting fuel (start first) with
    | none =>
      rw [hfirst] at halike
      cases halike
    | some other =>
      rw [hfirst] at halike
      cases halike with
      | some hsame =>
        obtain ⟨hresult, hglobals, hheap, -⟩ := hsame
        obtain ⟨result, executed, globals, heap, after⟩ := ending
        dsimp only at hresult hglobals hheap hafter
        simp [hresult, hglobals, hheap, hafter]

end Machine

end ScriptHost
