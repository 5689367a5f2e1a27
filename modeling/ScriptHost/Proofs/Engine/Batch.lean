import ScriptHost.Proofs.Engine.Granted
import ScriptHost.Proofs.Engine.Reached
import ScriptHost.Proofs.Engine.Site
import ScriptHost.Proofs.Program.Build
import ScriptHost.Proofs.Program.Joined
/-!
# One call or two

What is declared in one call is there in the next. So a text of declarations with statements behind
it can be evaluated as a whole, or the declarations first and the statements in a call of their own:
the last call comes to the same, with the same effects on global variables, objects and host, and
calls the same host functions.

The main statement is `Engine.evaluate_declarations_first`.
-/

set_option autoImplicit false

namespace ScriptHost

variable {σ τ α : Type}

/-! ## What a call of an engine comes to -/

namespace Engine

variable {engine : Engine} {catalog : Catalog σ} {code : String}

/-- A source text can be built and linked. -/
def Compiles (engine : Engine) (catalog : Catalog σ) (code : String) : Prop :=
  ∃ linked, (engine.begin.compile catalog (.inline code)).1 = .ok linked

/-- The calls of host functions that a source text makes when it is evaluated with so much fuel, in
order. -/
def hostCalls (engine : Engine) (catalog : Catalog σ) (fuel : Nat) (code : String) (host : σ) :
    List (Machine.HostCall σ) :=
  match engine.begin.compile catalog (.inline code) with
  | (.error _, _) => []
  | (.ok linked, engine) =>
    Machine.hostCalls (engine.setting catalog) fuel
      (Machine.topLevelState linked.topLevel ⟨engine.globals, engine.heap, host⟩)

/-- An engine has linked a unit. -/
structure HasLinked (engine after : Engine) (unit : CompiledUnit) : Prop where
  mode : after.mode = engine.mode
  config : after.config = engine.config
  view : after.view = engine.view
  heap : after.heap = engine.heap
  program : after.program = engine.program.append unit engine.view.allowed
  globals : after.globals = growGlobals engine.globals after.program.globalCount

/-- A unit that is built is linked. -/
theorem compile_of_build {unit : CompiledUnit}
    (h : (build [code] (engine.environment catalog)).1 = some unit) :
    ∃ result after, engine.begin.compile catalog (.inline code) =
      (.ok ⟨unit.topLevel, unit.returnsValue, result⟩, after) ∧ engine.HasLinked after unit := by
  cases hbuild : build [code] (engine.environment catalog) with
  | mk built diagnostics =>
    rw [hbuild] at h
    change built = some unit at h
    subst h
    have hbuild' : build (SourceUnit.inline code).texts (engine.begin.environment catalog) =
        (some unit, diagnostics) := hbuild
    have haccepts : engine.program.accepts unit = true := accepts_of_build hbuild
    unfold compile
    rw [hbuild']
    dsimp only
    rw [no_errors hbuild, if_pos rfl]
    unfold Engine.link Program.link
    have hprogram : (reportAll { engine.begin with state := .compiling } (.inline code)
      diagnostics).program = engine.program := rfl
    rw [hprogram, haccepts, if_pos rfl]
    exact ⟨_, _, rfl, ⟨rfl, rfl, rfl, rfl, rfl, rfl⟩⟩

theorem compiles_iff :
    engine.Compiles catalog code ↔ ∃ unit, (build [code] (engine.environment catalog)).1 = some unit := by
  constructor
  · rintro ⟨linked, hlinked⟩
    obtain ⟨e, he, -⟩ | ⟨linked, -, hlinks⟩ := engine.begin.compile_cases catalog (.inline code)
    · rw [he] at hlinked
      cases hlinked
    · obtain ⟨unit, diagnostics, hbuild, -⟩ := hlinks.built
      have hbuild' : build [code] (engine.environment catalog) = (some unit, diagnostics) := hbuild
      exact ⟨unit, by rw [hbuild']⟩
  · rintro ⟨unit, hunit⟩
    obtain ⟨result, after, hcompile, -⟩ := compile_of_build hunit
    exact ⟨_, by rw [hcompile]⟩

end Engine

/-- What an evaluation comes to when the run of its top level has ended. -/
def resultOf (returnsValue : Bool) : Except RuntimeError Value →
    Except EngineError (Option Value)
  | .ok value => .ok (if returnsValue then some value else none)
  | .error e => .error (.stopped (.fault e))

/-- A reply tells how a run has ended in an engine. -/
structure Reply.Tells (view : σ → τ) (after : Engine) (returnsValue : Bool)
    (ending : Machine.Ending σ) (reply : Reply σ (Option Value)) : Prop where
  result : reply.result = resultOf returnsValue ending.result
  globals : reply.engine.globals = ending.world.globals
  heap : reply.engine.heap = ending.world.heap
  host : view reply.host = view ending.world.host
  mode : reply.engine.mode = after.mode
  config : reply.engine.config = after.config
  modules : reply.engine.view = after.view
  program : reply.engine.program = after.program

/-- To close a call changes nothing that the reply tells. -/
theorem Reply.Tells.finish [HasConsole σ] {view : σ → τ} (hunseen : Unseen view) {after : Engine}
    {returnsValue : Bool} {ending : Machine.Ending σ} {reply : Reply σ (Option Value)}
    (h : reply.Tells view after returnsValue ending) :
    (Engine.finish reply).Tells view after returnsValue ending :=
  { h with
    host := by
      unfold Engine.finish
      dsimp only
      split
      · exact h.host
      · exact (hunseen _ _).trans h.host }

namespace Engine

variable {engine after : Engine} {catalog : Catalog σ} {code : String}

/-- An evaluation of a text that is built runs its top level. It replies when the run ends, and tells
how it has ended. -/
theorem evaluate_of_build [HasConsole σ] {view : σ → τ} (hunseen : Unseen view)
    (hmode : engine.mode = .inline) {unit : CompiledUnit}
    (h : (build [code] (engine.environment catalog)).1 = some unit) :
    ∃ after, engine.HasLinked after unit ∧ ∀ fuel host,
      Option.Rel (fun ending reply => reply.Tells view after unit.returnsValue ending)
          (Machine.runTopLevel (after.setting catalog) fuel unit.topLevel
            ⟨after.globals, after.heap, host⟩)
          (engine.evaluate catalog fuel code host) ∧
        engine.hostCalls catalog fuel code host =
          Machine.hostCalls (after.setting catalog) fuel
            (Machine.topLevelState unit.topLevel ⟨after.globals, after.heap, host⟩) := by
  obtain ⟨result, after, hcompile, hlinked⟩ := compile_of_build h
  refine ⟨after, hlinked, fun fuel host => ⟨?_, by rw [hostCalls, hcompile]⟩⟩
  have hbegin : engine.begin.mode = .inline := hmode
  unfold evaluate call evaluateUnit perform
  dsimp only
  rw [hbegin, hcompile]
  dsimp only
  unfold execute invoke
  change Option.Rel _ (Machine.runTopLevel (after.setting catalog) fuel unit.topLevel
    ⟨after.globals, after.heap, host⟩) (Option.map _ (Option.map _ (Option.map _ (Option.map _
      (Machine.runTopLevel (after.setting catalog) fuel unit.topLevel
        ⟨after.globals, after.heap, host⟩)))))
  cases Machine.runTopLevel (after.setting catalog) fuel unit.topLevel
    ⟨after.globals, after.heap, host⟩ with
  | none => exact .none
  | some ending =>
    refine .some (Reply.Tells.finish hunseen ?_)
    obtain ⟨result, executed, world⟩ := ending
    cases result <;> exact ⟨rfl, rfl, rfl, rfl, rfl, rfl, rfl, rfl⟩

/-- What an evaluation does to the host is what its calls of host functions do, one after the other. -/
theorem host_of_evaluate [HasConsole σ] {view : σ → τ} (hunseen : Unseen view)
    (hmode : engine.mode = .inline) (hcompiles : engine.Compiles catalog code) {fuel : Nat} {host : σ}
    {reply : Reply σ (Option Value)} (h : engine.evaluate catalog fuel code host = some reply) :
    view reply.host =
      view (Machine.HostCall.actAll (engine.hostCalls catalog fuel code host) host) := by
  obtain ⟨unit, hunit⟩ := compiles_iff.mp hcompiles
  obtain ⟨after, -, hruns⟩ := evaluate_of_build hunseen hmode hunit
  obtain ⟨hreply, hcalls⟩ := hruns fuel host
  rw [hcalls]
  rw [h] at hreply
  generalize hrun : Machine.runTopLevel (after.setting catalog) fuel unit.topLevel
    ⟨after.globals, after.heap, host⟩ = ended at hreply
  cases hreply with
  | some htells => rw [htells.host, Machine.run_hostCalls hrun]; rfl

/-- A text that is refused gets a reply all the same. -/
theorem evaluate_refused [HasConsole σ] (hmode : engine.mode = .inline)
    (h : (build [code] (engine.environment catalog)).1 = none) (fuel : Nat) (host : σ) :
    ∃ reply, engine.evaluate catalog fuel code host = some reply := by
  have hbegin : engine.begin.mode = .inline := hmode
  obtain ⟨e, he⟩ : ∃ e, (engine.begin.compile catalog (.inline code)).1 = .error e := by
    obtain ⟨e, he, -⟩ | ⟨linked, hlinked, -⟩ :=
      engine.begin.compile_cases catalog (.inline code)
    · exact ⟨e, he⟩
    · obtain ⟨unit, hunit⟩ := compiles_iff.mp ⟨linked, hlinked⟩
      rw [h] at hunit
      cases hunit
  unfold evaluate call evaluateUnit perform
  dsimp only
  rw [hbegin]
  cases hcompile : engine.begin.compile catalog (.inline code) with
  | mk result after =>
    rw [hcompile] at he
    change result = .error e at he
    subst he
    exact ⟨_, rfl⟩

end Engine

namespace Machine

/-- The top level of a unit without statements is carried out in two steps, and does nothing to the
world. -/
theorem runTopLevel_idle (setting : Setting σ) {fuel : Nat} (hfuel : 2 ≤ fuel) (world : World σ) :
    ∃ ending, runTopLevel setting fuel Code.idle world = some ending ∧ ending.world = world := by
  obtain ⟨more, rfl⟩ := Nat.exists_eq_add_of_le' hfuel
  unfold runTopLevel
  cases hone : exceeded? setting.limit 1 with
  | some limit =>
    simp [run, step, instruction, Frame.start, Code.idle, hone, fault]
  | none =>
    cases htwo : exceeded? setting.limit 2 with
    | some limit =>
      simp [run, step, instruction, Frame.start, Code.idle, hone, htwo, maxStack, effect,
        Frame.push, fault]
    | none =>
      simp [run, step, instruction, Frame.start, Code.idle, hone, htwo, maxStack, effect,
        Frame.push, finish, deliver]

end Machine

/-- The replies come to the same, but for what the view does not show of the host: the same result,
global variables and objects. -/
structure Reply.Agrees (view : σ → τ) (reply other : Reply σ α) : Prop where
  result : other.result = reply.result
  globals : other.engine.globals = reply.engine.globals
  heap : other.engine.heap = reply.engine.heap
  host : view other.host = view reply.host

/-- Replies that tell the same agree. -/
theorem Reply.Tells.agrees {view : σ → τ} {after later : Engine} {returnsValue : Bool}
    {ending twin : Machine.Ending σ} {reply other : Reply σ (Option Value)}
    (h : reply.Tells view after returnsValue ending)
    (h' : other.Tells view later returnsValue twin) (hends : ending.Alike view twin) :
    reply.Agrees view other where
  result := by rw [h'.result, h.result, hends.result]
  globals := h'.globals.trans (hends.world.globals.trans h.globals.symm)
  heap := h'.heap.trans (hends.world.heap.trans h.heap.symm)
  host := h'.host.trans (hends.world.host.trans h.host.symm)

namespace Engine

/-- Slots that are there need not be made. -/
theorem growGlobals_growGlobals (globals : Array Value) (count : Nat) :
    growGlobals (growGlobals globals count) count = growGlobals globals count := by
  have hsize : count - (growGlobals globals count).size = 0 := by
    unfold growGlobals
    rw [Array.size_append, Array.size_replicate]
    omega
  rw [growGlobals, hsize]
  exact Array.append_empty

/-- What the engine looks like to the statements once it has linked the declarations. -/
theorem HasLinked.environment {engine after : Engine} {unit : CompiledUnit}
    (h : engine.HasLinked after unit) (catalog : Catalog σ) :
    after.environment catalog = (engine.environment catalog).after unit engine.view.allowed := by
  unfold Engine.environment Env.after
  rw [h.program, h.view, h.config]

/-- The program of an engine that has linked a unit is sound. -/
theorem HasLinked.sound {s : Session σ} {declared : List Item} {after : Engine} {unit : CompiledUnit} (hs : s.Sound)
    (hbuilt : unit.BuiltOn (s.engine.environment s.catalog)
      (.ofTexts s.engine.program [declared]) (resolve [declared] (s.engine.environment s.catalog)).1)
    (h : s.engine.HasLinked after unit) :
    after.program.Sound (HostBinding.Accepted s.catalog) := by
  rw [h.program]
  exact (Program.Sound.append hs.program hbuilt fun _ _ _ _ hfound haccepts =>
    ModuleView.accepted_of_lookup hs.numbered hfound haccepts).1

section Batch

variable [HasConsole σ] {view : σ → τ} {modules : HostModule σ → Prop}
  {held : σ → ObjectRef → Prop} {s : Session σ} {first second : String}
  {declared acts : List Item}

/-- A call that declares leaves all as it was, but for the program and new slots. -/
theorem evaluate_declares (hunseen : Unseen view) (hmode : s.engine.mode = .inline)
    (hfirst : read first 0 = .ok declared) (hdeclares : Declares declared)
    (hprogram : s.engine.program.Indexed) {unit : CompiledUnit}
    (h : (build [first] (s.engine.environment s.catalog)).1 = some unit) {fuel : Nat}
    (hfuel : 2 ≤ fuel) :
    ∃ reply, s.engine.evaluate s.catalog fuel first s.host = some reply ∧
      s.engine.HasLinked reply.engine unit ∧ view reply.host = view s.host := by
  obtain ⟨after, hlinked, hruns⟩ := evaluate_of_build hunseen hmode h
  obtain ⟨-, hidle⟩ := build_declares hfirst hdeclares hprogram h
  obtain ⟨hreply, -⟩ := hruns fuel s.host
  obtain ⟨ending, hrun, hworld⟩ :=
    Machine.runTopLevel_idle (after.setting s.catalog) hfuel ⟨after.globals, after.heap, s.host⟩
  rw [hidle, hrun] at hreply
  generalize s.engine.evaluate s.catalog fuel first s.host = replied at hreply
  cases hreply with
  | some htells =>
    rename_i reply
    refine ⟨reply, rfl, ?_, by rw [htells.host, hworld]⟩
    exact
      { mode := htells.mode.trans hlinked.mode
        config := htells.config.trans hlinked.config
        view := htells.modules.trans hlinked.view
        heap := by rw [htells.heap, hworld, hlinked.heap]
        program := htells.program.trans hlinked.program
        globals := by rw [htells.globals, hworld, htells.program, hlinked.globals] }

/-- The statements come to the same behind the declarations as after them, once both have been
linked. -/
theorem evaluate_joined (hunseen : Unseen view) (hcatalog : s.catalog.GoesBy view)
    (hmode : s.engine.mode = .inline) {after : Engine} {host : σ} {unit later whole : CompiledUnit}
    (hlinked : s.engine.HasLinked after unit)
    (hsound : after.program.Sound (HostBinding.Accepted s.catalog)) (hglobals : unit.globals = [])
    (hhost : view host = view s.host) {joined : String}
    (hlater : (build [second] (after.environment s.catalog)).1 = some later)
    (hwhole : (build [joined] (s.engine.environment s.catalog)).1 = some whole)
    (hjoins : unit.Joins s.engine.program.bindings.size later whole) (fuel : Nat) :
    Option.Rel (Reply.Agrees view) (s.engine.evaluate s.catalog fuel joined s.host)
        (after.evaluate s.catalog fuel second host) ∧
      after.hostCalls s.catalog fuel second host =
        s.engine.hostCalls s.catalog fuel joined s.host := by
  obtain ⟨single, hsingle, hruns⟩ := evaluate_of_build hunseen hmode hwhole
  obtain ⟨last, hlast, hruns'⟩ := evaluate_of_build hunseen (hlinked.mode.trans hmode) hlater
  obtain ⟨hreply, hcalls⟩ := hruns fuel s.host
  obtain ⟨hreply', hcalls'⟩ := hruns' fuel host
  rw [hlinked.program] at hsound
  obtain ⟨hprogram, hchunk⟩ := hjoins.renumbers s.engine.view.allowed hsound
  have hlastProgram : last.program = (s.engine.program.append unit s.engine.view.allowed).append
      later s.engine.view.allowed := by
    rw [hlast.program, hlinked.program, hlinked.view]
  rw [← hsingle.program, ← hlastProgram] at hprogram hchunk
  have hsetting : last.setting s.catalog = (single.setting s.catalog).on last.program := by
    unfold Engine.setting Machine.Setting.on
    rw [hlast.config, hlinked.config, hsingle.config]
  have hworld : World.Alike view ⟨single.globals, single.heap, s.host⟩
      ⟨last.globals, last.heap, host⟩ := by
    have hcount : after.program.globalCount = s.engine.program.globalCount := by
      rw [hlinked.program, Program.append, hglobals]
      rfl
    have hcountLast : last.program.globalCount = s.engine.program.globalCount := by
      rw [hlast.program, Program.append, hjoins.noGlobal]
      exact hcount
    have hcountSingle : single.program.globalCount = s.engine.program.globalCount := by
      rw [hsingle.program, Program.append, hjoins.globals, hglobals]
      rfl
    refine ⟨?_, hlast.heap.trans (hlinked.heap.trans hsingle.heap.symm), hhost⟩
    dsimp only
    rw [hlast.globals, hlinked.globals, hsingle.globals, hcount, hcountLast, hcountSingle,
      growGlobals_growGlobals]
  have hbase : (single.setting s.catalog).program.Renumbers .refl
      (single.program.SameBinding last.program) last.program := hprogram
  obtain ⟨hends, hsame⟩ := Machine.runTopLevel_rebound hbase hcatalog hchunk hworld fuel
  rw [← hsetting] at hends hsame
  refine ⟨?_, by rw [hcalls, hcalls', hsame]⟩
  rw [hjoins.returnsValue] at hreply'
  generalize Machine.runTopLevel (single.setting s.catalog) fuel whole.topLevel
    ⟨single.globals, single.heap, s.host⟩ = ended at hreply hends
  generalize Machine.runTopLevel (last.setting s.catalog) fuel later.topLevel
    ⟨last.globals, last.heap, host⟩ = ended' at hreply' hends
  generalize s.engine.evaluate s.catalog fuel joined s.host = replied at hreply ⊢
  generalize after.evaluate s.catalog fuel second host = replied' at hreply' ⊢
  cases hends with
  | none =>
    cases hreply
    cases hreply'
    exact .none
  | some hends =>
    cases hreply with
    | some htells =>
      cases hreply' with
      | some htells' => exact .some (htells.agrees htells' hends)

/-- In every session that is reached with an engine for source texts, a text of declarations and a
text of statements without `let` can be evaluated one after the other if and only if they can be
evaluated as one text. If so the second call agrees with the one call for both, whatever the
instruction limit is: it gives the same value or fault, leaves the same global variables and objects,
and calls the same host functions. Host functions go by the view and do not see what is printed. -/
theorem evaluate_declarations_first (hunseen : Unseen view) (hreached : s.Reached modules held)
    (hcatalog : s.catalog.GoesBy view) (hmode : s.engine.mode = .inline)
    (hfirst : read first 0 = .ok declared) (hdeclares : Declares declared)
    (hsecond : read second 0 = .ok acts) (hacts : Acts acts) {fuel : Nat} (hfuel : 2 ≤ fuel) :
    ∃ reply, s.engine.evaluate s.catalog fuel first s.host = some reply ∧
      (s.engine.Compiles s.catalog first ∧ reply.engine.Compiles s.catalog second ↔
        s.engine.Compiles s.catalog (first ++ "\n" ++ second)) ∧
      (s.engine.Compiles s.catalog (first ++ "\n" ++ second) → ∀ fuel,
        Option.Rel (Reply.Agrees view)
            (s.engine.evaluate s.catalog fuel (first ++ "\n" ++ second) s.host)
            (reply.engine.evaluate s.catalog fuel second reply.host) ∧
          reply.engine.hostCalls s.catalog fuel second reply.host =
            s.engine.hostCalls s.catalog fuel (first ++ "\n" ++ second) s.host) := by
  have hsound := hreached.sound
  have hindexed := hsound.program.toIndexed
  cases hunit : (build [first] (s.engine.environment s.catalog)).1 with
  | none =>
    obtain ⟨reply, hreply⟩ := evaluate_refused hmode hunit fuel s.host
    have hwhole := build_lines_of_none hfirst hdeclares hsecond hacts hunit
    have hno : ¬ s.engine.Compiles s.catalog (first ++ "\n" ++ second) := by
      rw [compiles_iff, hwhole]
      nofun
    refine ⟨reply, hreply, iff_of_false (fun h => ?_) hno, fun h => absurd h hno⟩
    rw [compiles_iff, hunit] at h
    obtain ⟨⟨_, hsome⟩, -⟩ := h
    cases hsome
  | some unit =>
    obtain ⟨hbuilt, -⟩ := build_declares hfirst hdeclares hindexed hunit
    obtain ⟨reply, hreply, hlinked, hhost⟩ :=
      evaluate_declares hunseen hmode hfirst hdeclares hindexed hunit hfuel
    have hdeclared : s.engine.Compiles s.catalog first := compiles_iff.mpr ⟨unit, hunit⟩
    refine ⟨reply, hreply, ?_⟩
    have hsecondly : reply.engine.Compiles s.catalog second ↔ ∃ unit, _ := compiles_iff
    have hwholly : s.engine.Compiles s.catalog (first ++ "\n" ++ second) ↔ ∃ unit, _ := compiles_iff
    rw [hsecondly, hwholly, hlinked.environment]
    obtain ⟨hwhole, hlater⟩ | ⟨later, whole, hlater, hwhole, hjoins⟩ :=
      build_joined hfirst hdeclares hsecond hacts hindexed s.engine.view.allowed hunit
    · rw [hwhole, hlater]
      exact ⟨iff_of_false (fun ⟨_, _, h⟩ => nomatch h) (fun ⟨_, h⟩ => nomatch h),
        fun ⟨_, h⟩ => nomatch h⟩
    · refine ⟨iff_of_true ⟨hdeclared, later, hlater⟩ ⟨whole, hwhole⟩, fun _ fuel => ?_⟩
      rw [← hlinked.environment] at hlater
      exact evaluate_joined hunseen hcatalog hmode hlinked (hlinked.sound hsound hbuilt)
        (hbuilt.globals_of_declares hdeclares) hhost hlater hwhole hjoins fuel

end Batch

/-- Lines that are written to a count are lost. -/
@[reducible] def unheard : HasConsole Nat where
  writeLine _ count := count

set_option maxRecDepth 8000 in
/-- A function that calls a host function, and a call of both behind it: the host counts two calls,
whether the text comes in one call or in two. -/
theorem counted_calls_agree :
    letI := unheard
    let engine := Session.counting.engine
    let catalog := Session.counting.catalog
    ∃ reply, engine.evaluate catalog 2 "fn g(){m.f();}" 0 = some reply ∧
      engine.Compiles catalog ("fn g(){m.f();}" ++ "\n" ++ "g();m.f();") ∧
        ∀ fuel,
          Option.Rel (Reply.Agrees id)
              (engine.evaluate catalog fuel ("fn g(){m.f();}" ++ "\n" ++ "g();m.f();") 0)
              (reply.engine.evaluate catalog fuel "g();m.f();" reply.host) ∧
            reply.engine.hostCalls catalog fuel "g();m.f();" reply.host =
              engine.hostCalls catalog fuel ("fn g(){m.f();}" ++ "\n" ++ "g();m.f();") 0 := by
  let _ := unheard
  intro engine catalog
  have hfirst : read "fn g(){m.f();}" 0 = .ok [.function ⟨"g", [],
      [.expr (.methodCall (.ident "m" ⟨0, 7, 8⟩) "f" [] ⟨0, 7, 12⟩)], ⟨0, 0, 14⟩⟩] := by
    with_unfolding_all rfl
  have hsecond : read "g();m.f();" 0 = .ok [.stmt (.expr (.call "g" [] ⟨0, 0, 3⟩)),
      .stmt (.expr (.methodCall (.ident "m" ⟨0, 4, 5⟩) "f" [] ⟨0, 4, 9⟩))] := by
    with_unfolding_all rfl
  have hcatalog : catalog.GoesBy id := by
    rintro loaded - name f - args a b rfl
    exact ⟨rfl, rfl⟩
  obtain ⟨unit, hunit⟩ : ∃ unit, (build ["fn g(){m.f();}" ++ "\n" ++ "g();m.f();"]
      (engine.environment catalog)).1 = some unit := by
    rw [build_lines hfirst rfl hsecond, ← Option.isSome_iff_exists]
    with_unfolding_all rfl
  obtain ⟨reply, hreply, -, hagree⟩ := evaluate_declarations_first (fun _ _ => rfl)
    Session.reached_counting hcatalog rfl hfirst rfl hsecond (by simp [Acts, Item.Acts])
    (Nat.le_refl 2)
  have hcompiles := compiles_iff.mpr ⟨unit, hunit⟩
  exact ⟨reply, hreply, hcompiles, hagree hcompiles⟩

end Engine

end ScriptHost
