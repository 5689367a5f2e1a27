import ScriptHost.Proofs.Engine.Objects
import ScriptHost.Proofs.Machine.HostCalls
/-!
# Host functions that scripts may call

A script calls a host function only if that was granted to it when it was built: its text names
module and function, the allow-list of the engine had an instance of the module under the name, and
the instance had the function, which takes as many arguments as are passed. A call goes to that very
instance. Once the instance is unloaded, or another one is loaded in its place, the code that calls
it ends with a fault and reaches no other.

The main statement is `Session.host_calls_are_granted`.
-/

set_option autoImplicit false

namespace ScriptHost

variable {σ : Type} {modules : HostModule σ → Prop} {held : σ → ObjectRef → Prop}

/-! ## Catalogs and allow-lists of sessions -/

/-- No two modules have one name in a catalog that a host can have. -/
theorem Catalog.Made.nodup_names {catalog : Catalog σ} (h : catalog.Made modules) :
    catalog.names.Nodup := by
  induction h with
  | empty => exact List.nodup_nil
  | load _ _ ih => exact nodup_names_load ih _
  | unload _ name ih => exact nodup_names_unload ih name

namespace Engine

/-- To build sources does not change what scripts may refer to. -/
theorem compile_view (engine : Engine) (catalog : Catalog σ) (sources : SourceUnit) :
    (engine.compile catalog sources).2.view = engine.view := by
  unfold compile
  cases build sources.texts (engine.environment catalog) with
  | mk built diagnostics =>
    dsimp only
    cases built with
    | none => rfl
    | some unit =>
      dsimp only
      split
      · unfold Engine.link
        split <;> rfl
      · rfl

theorem invoke_view {engine : Engine} {host : σ} {act : World σ → Option (Machine.Ending σ)}
    {reply : Reply σ Value} (h : engine.invoke host act = some reply) :
    reply.engine.view = engine.view := by
  obtain ⟨ending, -, rfl⟩ := Option.map_eq_some_iff.mp h
  unfold settle
  cases ending.result <;> rfl

theorem invokeEntry_view {engine : Engine} {catalog : Catalog σ} {fuel : Nat} {host : σ}
    {reply : Reply σ Value} (h : engine.invokeEntry catalog fuel host = some reply) :
    reply.engine.view = engine.view := by
  unfold invokeEntry at h
  split at h
  · cases h
    rfl
  · exact invoke_view h

end Engine

namespace Session

theorem Next.catalog_later {s later : Session σ} (h : Next modules held s later)
    (hreached : s.Reached modules held) : s.catalog.Later later.catalog := by
  have hnumbered := hreached.made_catalog.numbered
  cases h with
  | load _ => exact hnumbered.later_load _
  | unload name => exact hnumbered.later_unload name
  | _ => exact .refl _

theorem Leads.catalog_later {s later : Session σ} (h : Leads modules held s later)
    (hreached : s.Reached modules held) : s.catalog.Later later.catalog := by
  induction h with
  | refl => exact .refl _
  | tail hleads hnext ih => exact ih.trans (hnext.catalog_later (hreached.leads hleads))

/-- In every session that is reached the engine's allow-list has numbers of modules under their
names. -/
theorem Reached.given {s : Session σ} (h : s.Reached modules held) :
    s.engine.view.allowed.Given s.catalog := by
  induction h with
  | inline => exact AllowedModules.given_empty _
  | project made => exact AllowedModules.given_all made.numbered
  | register reached names => exact AllowedModules.given_select reached.made_catalog.numbered names
  | load reached _ ih => exact ih.later (reached.made_catalog.numbered.later_load _)
  | unload reached name ih => exact ih.later (reached.made_catalog.numbered.later_unload name)
  | host _ _ ih | begin _ ih => exact ih
  | @compile s _ sources ih =>
    have hview : (s.compile sources).engine.view = s.engine.view := Engine.compile_view ..
    rw [hview]
    exact ih
  | execute _ _ replied ih =>
    unfold after
    rw [Engine.invoke_view replied]
    exact ih
  | invokeEntry _ replied ih =>
    unfold after
    rw [Engine.invokeEntry_view replied]
    exact ih
  | finish _ finished _ ih =>
    subst finished
    exact ih

end Session

/-! ## What is granted -/

/-- A call of a host function that was granted when the code of a chunk was built. The instruction
at a place is there for a call in the sources that names module and function. The engine's
allow-list had an instance under the name of the module, and it was loaded under that name; it had
the function, which takes as many arguments as are passed. -/
structure Compilation.Grants (c : Compilation σ) (chunk : Chunk) (place : Nat)
    (binding : HostBinding) (argc id : Nat) (module : HostModule σ) (f : HostFunction σ) :
    Prop where
  written : ∃ label w places p object args span, c.Makes label w places chunk ∧
    places[place]? = some p ∧
      Part.expr (.methodCall object binding.functionName args span) ∈ w.source.parts ∧
        Scope.Gives (c.rules w) (.expr (.methodCall object binding.functionName args span))
          p.origin ∧
          object.path? = some [binding.moduleName] ∧ args.length = argc
  handle : binding.handle = some id
  allowed : c.before.engine.view.allowed.get? binding.moduleName = some id
  loaded : c.before.catalog.find? binding.moduleName = some ⟨id, module⟩
  function : module.functions.get? binding.functionName = some f
  accepts : f.arity.accepts argc = true

namespace Compilation

variable {c : Compilation σ}

/-- What is looked up while sources are built is a function of an instance that is loaded and
allowed. -/
theorem host_known (hreached : c.before.Reached modules held) {w : Written}
    {module function : String} {argc : Nat} (h : (c.rules w).host module function argc) :
    ∃ id loaded f, c.before.engine.view.allowed.get? module = some id ∧
      c.before.catalog.find? module = some ⟨id, loaded⟩ ∧
        loaded.functions.get? function = some f ∧ f.arity.accepts argc = true := by
  obtain ⟨arity, hlookup, haccepts⟩ := h
  obtain ⟨id, loaded, f, hid, hlive, hf, rfl⟩ := ModuleView.lookup_found hlookup
  have hcatalog := hreached.made_catalog
  have hname := (hreached.given module id hid).2 loaded hlive
  exact ⟨id, loaded, f, hid,
    (hcatalog.numbered.find?_eq_some_iff hcatalog.nodup_names).mpr ⟨hlive, hname⟩, hf, haccepts⟩

/-- Every call of a host function in code that sources were turned into has been granted. -/
theorem Makes.grants (hreached : c.before.Reached modules held) {label : Option Nat} {w : Written}
    {places : Array Resolved.Spot} {chunk : Chunk} (h : c.Makes label w places chunk)
    {place number argc : Nat} (hop : chunk.ops[place]? = some (.callHost number argc)) :
    ∃ binding id module f, c.after.engine.program.bindings[number]? = some binding ∧
      c.Grants chunk place binding argc id module f := by
  obtain ⟨p, hp, hemits⟩ := h.told place _ hop
  have hexplained := h.explained p (Array.mem_of_getElem? hp)
  cases hemits with
  | plain plain => cases plain
  | @callHost module function trees marks index known =>
    obtain hplain | ⟨part, hpart, hgives⟩ := hexplained
    · cases hplain
    · cases hgives with
      | expr resolved =>
        have hgives := Scope.Gives.expr resolved
        cases resolved with
        | @callHost object _ _ args span _ named host all =>
          obtain ⟨id, loaded, f, hid, hloaded, hf, haccepts⟩ := host_known hreached host
          have hbinding := bound_append c.before.engine.program c.unit
            c.before.engine.view.allowed chunk.constants index module function known
          rw [← c.program_eq] at hbinding
          rw [← all.length_eq] at haccepts
          exact ⟨_, id, loaded, f, hbinding,
            ⟨label, w, places, _, object, args, span, h, hp, hpart, hgives, named,
              all.length_eq.symm⟩,
            hid, hid, hloaded, hf, haccepts⟩

end Compilation

namespace Session

open Machine

/-- A call of a host function from a place of a chunk was granted when the chunk was built, in a
session that led to this one. -/
def Granted (modules : HostModule σ → Prop) (held : σ → ObjectRef → Prop) (s : Session σ)
    (chunk : Chunk) (place : Nat) (binding : HostBinding) (argc id : Nat) (module : HostModule σ)
    (f : HostFunction σ) : Prop :=
  ∃ c : Compilation σ, c.before.Reached modules held ∧ Leads modules held c.after s ∧
    c.Grants chunk place binding argc id module f

/-- Every call of a host function in code of a session has been granted. -/
theorem Reached.granted {s : Session σ} (h : s.Reached modules held) {label : Option Nat}
    {chunk : Chunk} (hcode : s.Code label chunk) {place number argc : Nat}
    (hop : chunk.ops[place]? = some (.callHost number argc)) :
    ∃ binding id module f, s.engine.program.bindings[number]? = some binding ∧
      s.Granted modules held chunk place binding argc id module f := by
  obtain ⟨c, w, places, hbefore, hleads, hmakes⟩ := h.made label chunk hcode
  obtain ⟨binding, id, module, f, hbinding, hgrants⟩ := hmakes.grants hbefore hop
  exact ⟨binding, id, module, f, hleads.extends.bindings hbinding, c, hbefore, hleads, hgrants⟩

/-- An instance that was granted is what the catalog has under the name of its module, with the
functions that it had, or it is dead. -/
theorem Granted.current {s : Session σ} (h : s.Reached modules held) {chunk : Chunk}
    {place argc id : Nat} {binding : HostBinding} {module : HostModule σ} {f : HostFunction σ}
    (hgranted : s.Granted modules held chunk place binding argc id module f) :
    (s.catalog.find? binding.moduleName = some ⟨id, module⟩ ∧
        boundFunction s.catalog binding argc = .ok f) ∨
      ((∀ other, s.catalog.find? binding.moduleName ≠ some ⟨id, other⟩) ∧
        binding.handle.bind s.catalog.live? = none) := by
  obtain ⟨c, hbefore, hleads, hgrants⟩ := hgranted
  have hcatalog := h.made_catalog
  have hlater := (Next.compile c.sources).catalog_later hbefore |>.trans
    (hleads.catalog_later (hbefore.next (.compile c.sources)))
  have hthen := hbefore.made_catalog.numbered.find?_eq_some_iff
    hbefore.made_catalog.nodup_names |>.mp hgrants.loaded
  have hid := (hbefore.given _ _ hgrants.allowed).1
  rw [hgrants.handle, Option.bind_some]
  cases hlive : s.catalog.live? id with
  | none =>
    refine .inr ⟨fun other hother => ?_, rfl⟩
    have hnow := (hcatalog.numbered.find?_eq_some_iff hcatalog.nodup_names).mp hother
    rw [hlive] at hnow
    cases hnow.1
  | some other =>
    have hsame := hlater.live? hid hlive
    rw [hthen.1, Option.some.injEq] at hsame
    subst hsame
    refine .inl ⟨(hcatalog.numbered.find?_eq_some_iff hcatalog.nodup_names).mpr
      ⟨hlive, hthen.2⟩, ?_⟩
    simp only [boundFunction, hgrants.handle, Option.bind_some, hlive, hgrants.function,
      hgrants.accepts, if_true]

/-- A call of a host function may go through: it was granted, and the instance is still what the
catalog has under the name of its module. -/
def Allows (modules : HostModule σ → Prop) (held : σ → ObjectRef → Prop) (s : Session σ)
    (chunk : Chunk) (place : Nat) (call : HostCall σ) : Prop :=
  ∃ id module, s.catalog.find? call.binding.moduleName = some ⟨id, module⟩ ∧
    s.Granted modules held chunk place call.binding call.args.length id module call.function

/-- In every state of every run the frame runs code of the session. -/
theorem Reached.onCode {s : Session σ} (h : s.Reached modules held) {first last : State σ}
    {count : Nat} (hstart : s.Starts first) (hsteps : Steps s.setting count first last) :
    ∃ label, s.Code label last.frame.chunk := by
  obtain ⟨label, hstart⟩ := starts_iff.mp hstart
  obtain ⟨labels, htraced⟩ := hsteps.traced [label]
  cases h.traced hstart htraced with
  | cons hframe _ => exact ⟨_, hframe.code⟩

/-- The calls that a run comes to may go through. -/
theorem Reached.allows {s : Session σ} (h : s.Reached modules held) {first last : State σ}
    {count : Nat} (hstart : s.Starts first) (hsteps : Steps s.setting count first last)
    {call : HostCall σ} (hcall : CallsHost s.setting last call) :
    s.Allows modules held last.frame.chunk last.frame.ip call := by
  obtain ⟨label, hcode⟩ := h.onCode hstart hsteps
  cases hcall with
  | @mk number binding f args rest opAt operands bound found =>
    obtain ⟨other, id, module, g, hother, hgranted⟩ := h.granted hcode opAt
    obtain rfl : other = binding := Option.some.inj (hother.symm.trans bound)
    obtain ⟨hcurrent, hbound⟩ | ⟨-, hdead⟩ := hgranted.current h
    · obtain rfl : g = f := Except.ok.inj (hbound.symm.trans found)
      exact ⟨id, module, hcurrent, hgranted⟩
    · simp only [boundFunction, setting, Engine.setting, hdead] at found
      cases found

/-- A run changes the host by calls that may go through. -/
theorem Reached.leads_host {s : Session σ} (h : s.Reached modules held) {first : State σ}
    (hstart : s.Starts first) {fuel : Nat} {reply : Reply σ Value}
    (hreply : (Machine.run s.setting fuel first).map s.settle = some reply) :
    HostCall.Leads (fun call => ∃ chunk place, s.Allows modules held chunk place call)
      s.host reply.host := by
  obtain ⟨ending, hrun, rfl⟩ := Option.map_eq_some_iff.mp hreply
  have hhost : HostCall.Leads
      (fun call => ∃ chunk place, s.Allows modules held chunk place call) first.world.host
        ending.world.host :=
    run_host hrun fun _ _ _ hsteps hcall => ⟨_, _, h.allows hstart hsteps hcall⟩
  have hfirst : first.world.host = s.host := by
    cases hstart <;> rfl
  have hlast : (s.settle ending).host = ending.world.host := by
    unfold Session.settle Engine.settle
    cases ending.result <;> rfl
  rwa [hfirst, ← hlast] at hhost

/-- In every session that is reached scripts call no host functions but those that were granted when
their code was built, of the instance that has been in its place since. Where code comes to a call
whose instance has been unloaded or replaced, the run ends with a fault. When the engine lets
scripts run, the host changes by calls that may go through, and by nothing else. -/
theorem host_calls_are_granted {s : Session σ} (h : s.Reached modules held) :
    (∀ (count : Nat) (first last : State σ), s.Starts first → Steps s.setting count first last →
        (∀ call, CallsHost s.setting last call →
          s.Allows modules held last.frame.chunk last.frame.ip call) ∧
        ∀ number argc, last.frame.chunk.ops[last.frame.ip]? = some (.callHost number argc) →
          ∃ binding id module f, s.engine.program.bindings[number]? = some binding ∧
            s.Granted modules held last.frame.chunk last.frame.ip binding argc id module f ∧
              ((∀ other, s.catalog.find? binding.moduleName ≠ some ⟨id, other⟩) →
                ∃ e, step s.setting last =
                    fault e (last.frame :: last.callers) (last.executed + 1) last.world ∧
                  (e = .moduleUnloaded binding.moduleName binding.functionName ∨
                    e = .stackOverflow ∨ ∃ limit, e = .instructionLimit limit))) ∧
      (∀ (fuel : Nat) (linked : Linked) (reply : Reply σ Value), linked.topLevel ∈ s.tops →
        s.engine.execute s.catalog fuel linked s.host = some reply →
          HostCall.Leads (fun call => ∃ chunk place, s.Allows modules held chunk place call)
            s.host reply.host) ∧
      ∀ (fuel : Nat) (reply : Reply σ Value),
        s.engine.invokeEntry s.catalog fuel s.host = some reply →
          HostCall.Leads (fun call => ∃ chunk place, s.Allows modules held chunk place call)
            s.host reply.host := by
  have hsound := h.sound
  refine ⟨fun count first last hstart hsteps => ⟨fun call => h.allows hstart hsteps, ?_⟩,
    fun fuel linked reply hlinked hreply => ?_, fun fuel reply hreply => ?_⟩
  · intro number argc hop
    obtain ⟨label, hcode⟩ := h.onCode hstart hsteps
    obtain ⟨binding, id, module, f, hbinding, hgranted⟩ := h.granted hcode hop
    refine ⟨binding, id, module, f, hbinding, hgranted, fun hgone => ?_⟩
    obtain ⟨hcurrent, -⟩ | ⟨-, hdead⟩ := hgranted.current h
    · exact absurd hcurrent (hgone module)
    · have hsafe := hsteps.safe hsound.program (hstart.safe hsound)
      exact step_of_unloaded hop hbinding hdead (hsafe.levelled.frame.enough hop)
  · obtain ⟨first, hstart, hruns⟩ := execute_runs hlinked
    exact h.leads_host hstart ((hruns fuel).symm.trans hreply)
  · obtain ⟨missing, -, hworld, hmissing⟩ | ⟨first, hstart, hruns⟩ := invokeEntry_runs hsound
    · rw [hmissing, Option.some.injEq] at hreply
      subst hreply
      have hhost : s.host = missing.host := congrArg World.host hworld
      rw [hhost]
    · exact h.leads_host hstart ((hruns fuel).symm.trans hreply)

/-! ## A text of one call -/

/-- A function that counts its calls. -/
def countCall : HostFunction Nat :=
  ⟨.exact 0, fun _ count => (.value .null, count + 1)⟩

/-- A module of one function. -/
def countingModule : HostModule Nat :=
  { name := "m", functions := .ofList [("f", countCall)] }

/-- A session of an engine that may refer to the module. -/
def counting : Session Nat where
  catalog := Catalog.load {} countingModule
  engine := (Engine.inline {}).registerModules (Catalog.load {} countingModule) ["m"]
  host := 0

theorem reached_counting : counting.Reached (fun _ => True) fun _ _ => False :=
  .register (.inline (.load .empty trivial) (fun _ => id) {}) ["m"]

/-- The unit of a text that calls the function. -/
def countingUnit : CompiledUnit where
  functionBase := 0
  functions := #[]
  classBase := 0
  classes := #[]
  functionNames := []
  globals := []
  hostCalls := #[("m", "f")]
  bindingBase := 0
  topLevel := ⟨#[.callHost 0 0, .ret, .pushNull, .ret], #[], 0⟩
  returnsValue := true

set_option maxRecDepth 8000 in
/-- A text of one call is linked. -/
theorem compile_counting : (counting.compile (.inline "m.f();")).tops = [countingUnit.topLevel] ∧
    (counting.compile (.inline "m.f();")).engine.program =
      Program.append {} countingUnit counting.engine.view.allowed := by
  have hread : read "m.f();" 0 =
      .ok [.stmt (.expr (.methodCall (.ident "m" ⟨0, 0, 1⟩) "f" [] ⟨0, 0, 5⟩))] := by
    with_unfolding_all rfl
  have hbuild : build ["m.f();"] (counting.engine.environment counting.catalog) =
      (some countingUnit, []) :=
    build_of_read hread (by with_unfolding_all rfl) (by with_unfolding_all rfl)
  exact compile_of_build hbuild rfl

/-- Where another module has been loaded in the place of the one that was there when the call was
built, the same code calls neither. -/
theorem replaced_module_is_not_called :
    let s := counting.compile (.inline "m.f();")
    let later : Session Nat := { s with catalog := s.catalog.load countingModule }
    let start (s : Session Nat) : State Nat :=
      ⟨.start topLevelName countingUnit.topLevel none [] .value, [], 0, s.world⟩
    let call : HostCall Nat := ⟨⟨some 0, "m", "f"⟩, countCall, []⟩
    (s.Reached (fun _ => True) (fun _ _ => False) ∧ s.Starts (start s) ∧
        CallsHost s.setting (start s) call ∧
        s.Allows (fun _ => True) (fun _ _ => False) countingUnit.topLevel 0 call) ∧
      later.Reached (fun _ => True) (fun _ _ => False) ∧ later.Starts (start later) ∧
        later.catalog.find? "m" = some ⟨1, countingModule⟩ ∧
          ∃ e, step later.setting (start later) = fault e [(start later).frame] 1 later.world ∧
            (e = .moduleUnloaded "m" "f" ∨ e = .stackOverflow ∨
              ∃ limit, e = .instructionLimit limit) := by
  intro s later start call
  obtain ⟨htops, hprogram⟩ := compile_counting
  have hreached : s.Reached (fun _ => True) fun _ _ => False :=
    reached_counting.compile (.inline "m.f();")
  have hlater : later.Reached (fun _ => True) fun _ _ => False := hreached.load trivial
  have hstart : s.Starts (start s) := .topLevel (htops ▸ List.mem_singleton.mpr rfl)
  have hstart' : later.Starts (start later) := .topLevel (htops ▸ List.mem_singleton.mpr rfl)
  have hbinding : s.engine.program.bindings[0]? = some ⟨some 0, "m", "f"⟩ := by
    rw [hprogram]
    with_unfolding_all rfl
  have hcall : CallsHost s.setting (start s) call := by
    have hfound : boundFunction s.catalog ⟨some 0, "m", "f"⟩ 0 = .ok countCall := by
      with_unfolding_all rfl
    exact @CallsHost.mk _ s.setting (start s) 0 _ _ [] [] rfl rfl hbinding hfound
  obtain ⟨hnow, -⟩ := host_calls_are_granted hreached
  obtain ⟨hthen, -⟩ := host_calls_are_granted hlater
  obtain ⟨binding, id, module, f, hbound, hgranted, hfaults⟩ :=
    (hthen 0 _ _ hstart' .refl).2 0 0 rfl
  obtain rfl : binding = ⟨some 0, "m", "f"⟩ := Option.some.inj (hbound.symm.trans hbinding)
  have hfind : later.catalog.find? "m" = some ⟨1, countingModule⟩ := by
    with_unfolding_all rfl
  refine ⟨⟨hreached, hstart, hcall, (hnow 0 _ _ hstart .refl).1 call hcall⟩, hlater, hstart',
    hfind, hfaults fun other hother => ?_⟩
  obtain ⟨c, -, -, hgrants⟩ := hgranted
  obtain rfl : 0 = id := Option.some.inj hgrants.handle
  rw [hfind] at hother
  cases hother

end Session

end ScriptHost
