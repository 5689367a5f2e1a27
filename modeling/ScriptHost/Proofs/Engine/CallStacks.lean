import ScriptHost.Proofs.Engine.Reached
import ScriptHost.Proofs.Engine.States
import ScriptHost.Proofs.Machine.Trace
/-!
# Call stacks of faults

What the trace of a fault says, for each way to start the machine and for every run of an engine.
All active frames are told, the innermost first, and the frame at the bottom is where the run
began. The exception is a constructor that does not take the arguments which it is handed after the
fields have been initialised: the frame that initialised them is not told. For the object with
which a run began this leaves no trace at all.

The main statement is `Site.call_stacks_told_unless_refused`.
-/

set_option autoImplicit false

namespace ScriptHost

variable {σ α β : Type}

/-- The text of a fault: its message, then a line for each frame that is told. -/
theorem RuntimeError.text_eq (e : RuntimeError) :
    e.text = e.fault.message ++ String.join (e.trace.map fun name => "\n   at " ++ name) := by
  obtain ⟨fault, trace⟩ := e
  unfold text
  dsimp only
  generalize fault.message = message
  induction trace generalizing message with
  | nil => simp
  | cons name rest ih =>
    rw [List.foldl_cons, ih, List.map_cons, String.join_cons]
    simp only [String.append_assoc]

/-- The names of what is at the bottom of a run that makes an object of a class: first the function
that initialises its fields, then its constructor. -/
inductive Class.Maker (program : Program) (c : Class) : String → Prop
  | fieldInit {f : Function} (found : program.functions[c.fieldInit]? = some f) :
      Maker program c f.name
  | constructor {id : Nat} {f : Function} (named : c.constructor? = some id)
      (found : program.functions[id]? = some f) : Maker program c f.name

/-- The constructor of a class cannot be called with these arguments. -/
def Class.Refuses (program : Program) (c : Class) (args : List Value) (e : Fault) : Prop :=
  ∃ id, c.constructor? = some id ∧
    ((program.functions[id]? = none ∧ e = .invalidFunction id) ∨
      ∃ f, program.functions[id]? = some f ∧ args.length ≠ f.arity ∧
        e = .argumentCount f.name (toString f.arity) args.length)

namespace Machine

variable {setting : Setting σ}

/-- A run whose value goes to the caller has a frame at the bottom that leaves nothing to a
constructor, so its trace is never empty. -/
theorem run_recounted_value {frame : Frame} (hresume : frame.resume = .value) {fuel : Nat}
    {world : World σ} {ending : Ending σ} {e : RuntimeError}
    (hrun : run setting fuel ⟨frame, [], 0, world⟩ = some ending)
    (he : ending.result = .error e) :
    e.trace ≠ [] ∧
      ∃ last, Recounted setting (· = frame.name) ⟨frame, [], 0, world⟩ last e := by
  have hclosed : ClosedRoot setting.program
      fun name resume => name = frame.name ∧ resume = .value :=
    fun _ _ _ _ _ hroot _ => nomatch hroot.2
  obtain ⟨last, hrooted, htold⟩ := run_recounted hclosed ⟨rfl, hresume⟩ hrun he
  refine ⟨fun hempty => ?_, last, { htold with bottom := fun name hname => ?_ }⟩
  · obtain ⟨hcallers, -, object, id, args, hlast, -⟩ := htold.none.mp hempty
    obtain ⟨-, hvalue⟩ := hrooted.bottom last.frame (by rw [State.frames, hcallers]; rfl)
    cases hlast.symm.trans hvalue
  · obtain ⟨-, hroot, -⟩ := htold.bottom name hname
    exact hroot

/-- A run that makes an object has no trace where the constructor refuses its arguments, once the
fields have been initialised. -/
theorem run_recounted_object {classId : Nat} {c : Class}
    (hc : setting.program.classes[classId]? = some c) {args : List Value} {world : World σ}
    {frame : Frame} {fields : Fields}
    (hmade : construct setting.program classId args world.heap = .ok (frame, fields)) {fuel : Nat}
    {started : World σ} {ending : Ending σ} {e : RuntimeError}
    (hrun : run setting fuel ⟨frame, [], 0, started⟩ = some ending)
    (he : ending.result = .error e) :
    (e.trace = [] → c.Refuses setting.program args e.fault) ∧
      ∃ last, Recounted setting (c.Maker setting.program) ⟨frame, [], 0, started⟩ last e := by
  obtain ⟨c', hc', -, henter, -⟩ := construct_ok hmade
  obtain rfl : c = c' := Option.some.inj (hc.symm.trans hc')
  obtain ⟨init, hinit, -, rfl⟩ := enter_ok henter
  have hnext : ∀ object id given, Resume.construct (world.heap.next classId c.name)
      (c.constructor?.map fun id => (id, args)) = .construct object (some (id, given)) →
        c.constructor? = some id ∧ given = args := by
    intro object id given hresume
    injection hresume with _ hsome
    obtain ⟨id', hid', hpair⟩ := Option.map_eq_some_iff.mp hsome
    cases hpair
    exact ⟨hid', rfl⟩
  -- the initialiser hands the object and the arguments on; the constructor has it to return
  have hclosed : ClosedRoot setting.program fun name resume => c.Maker setting.program name ∧
      ∀ object id given, resume = .construct object (some (id, given)) →
        c.constructor? = some id ∧ given = args :=
    fun _ object id given _ hroot hf => ⟨.constructor (hroot.2 object id given rfl).1 hf, nofun⟩
  obtain ⟨last, hrooted, htold⟩ := run_recounted hclosed ⟨.fieldInit hinit, hnext⟩ hrun he
  refine ⟨fun hempty => ?_, last, { htold with bottom := fun name hname => ?_ }⟩
  · obtain ⟨hcallers, -, object, id, given, hresume, hrefused⟩ := htold.none.mp hempty
    obtain ⟨-, hlast⟩ := hrooted.bottom last.frame (by rw [State.frames, hcallers]; rfl)
    obtain ⟨hconstructor, rfl⟩ := hlast object id given hresume
    exact ⟨id, hconstructor, enter_error hrefused⟩
  · obtain ⟨-, hroot, -⟩ := htold.bottom name hname
    exact hroot

/-- All faults of a machine that has been started on something that is there come with the call
stack. -/
structure CallStacksTold (setting : Setting σ) : Prop where
  topLevel : ∀ {fuel : Nat} {chunk : Chunk} {world : World σ} {ending : Ending σ}
    {e : RuntimeError}, runTopLevel setting fuel chunk world = some ending →
      ending.result = .error e → e.trace ≠ [] ∧
        ∃ last, Recounted setting (· = topLevelName)
          ⟨.start topLevelName chunk none [] .value, [], 0, world⟩ last e
  call : ∀ {fuel id : Nat} {f : Function} {this : Option ObjectRef} {args : List Value}
    {world : World σ} {ending : Ending σ} {e : RuntimeError},
      setting.program.functions[id]? = some f → args.length = f.arity →
        call setting fuel id this args world = some ending → ending.result = .error e →
          e.trace ≠ [] ∧ ∃ last, Recounted setting (· = f.name)
            ⟨.start f.name f.chunk this args .value, [], 0, world⟩ last e
  object : ∀ {fuel classId : Nat} {c : Class} {args : List Value} {world : World σ} {frame : Frame}
    {fields : Fields} {ending : Ending σ} {e : RuntimeError},
      setting.program.classes[classId]? = some c →
        construct setting.program classId args world.heap = .ok (frame, fields) →
          instantiate setting fuel classId args world = some ending → ending.result = .error e →
            (e.trace = [] → c.Refuses setting.program args e.fault) ∧
              ∃ last, Recounted setting (c.Maker setting.program)
                ⟨frame, [], 0, { world with heap := world.heap.alloc fields }⟩ last e

/-- Every machine does so, whatever its program. -/
theorem callStacksTold (setting : Setting σ) : CallStacksTold setting where
  topLevel := fun hrun he => run_recounted_value rfl hrun he
  call := fun {fuel id f this args world ending e} hf hargs hcall he => by
    have henter : enter setting.program id this args .value =
        .ok (.start f.name f.chunk this args .value) := by
      unfold enter
      rw [hf]
      exact if_pos hargs
    unfold call at hcall
    rw [henter] at hcall
    exact run_recounted_value rfl hcall he
  object := fun hc hmade hobject he => by
    unfold instantiate at hobject
    rw [hmade] at hobject
    exact run_recounted_object hc hmade hobject he

end Machine

/-! ## Runs of an engine -/

open Machine

namespace Session

/-- The names of what is at the bottom of the runs of an engine. -/
inductive Bottom (s : Session σ) : String → Prop
  | topLevel : Bottom s topLevelName
  | entry {id : Nat} {c : Class} {name : String}
      (named : s.engine.program.classNames.get? entryClass = some id)
      (found : s.engine.program.classes[id]? = some c) (maker : c.Maker s.engine.program name) :
      Bottom s name

/-- The constructor of the entry class takes arguments, and complains that it is given none. -/
def EntryRefuses (s : Session σ) (e : Fault) : Prop :=
  ∃ id c constructor f, s.engine.program.classNames.get? entryClass = some id ∧
    s.engine.program.classes[id]? = some c ∧ c.constructor? = some constructor ∧
      s.engine.program.functions[constructor]? = some f ∧ f.arity ≠ 0 ∧
        e = .argumentCount f.name (toString f.arity) 0

/-- A fault has ended a run of the engine, and its trace tells what was going on. -/
def Stops (s : Session σ) (e : RuntimeError) : Prop :=
  ∃ first last, s.Starts first ∧ Recounted s.setting s.Bottom first last e ∧
    (e.trace = [] → s.EntryRefuses e.fault)

/-- Wherever a run of the engine starts, the fault that ends it comes with the call stack. -/
theorem Starts.stops {s : Session σ} (hsound : s.Sound) {first : State σ} (h : s.Starts first)
    {fuel : Nat} {ending : Ending σ} {e : RuntimeError}
    (hrun : Machine.run s.setting fuel first = some ending) (he : ending.result = .error e) :
    s.Stops e := by
  cases h with
  | topLevel handedOut =>
    obtain ⟨htrace, last, htold⟩ := run_recounted_value rfl hrun he
    refine ⟨_, last, .topLevel handedOut, { htold with bottom := fun name hname => ?_ },
      fun hempty => absurd hempty htrace⟩
    obtain rfl := htold.bottom name hname
    exact .topLevel
  | entry named made =>
    obtain ⟨c, hc, -⟩ := construct_ok made
    obtain ⟨hrefuses, last, htold⟩ := run_recounted_object hc made hrun he
    refine ⟨_, last, .entry named made,
      { htold with bottom := fun name hname => .entry named hc (htold.bottom name hname) },
      fun hempty => ?_⟩
    obtain ⟨id, hid, ⟨hmissing, -⟩ | ⟨f, hf, harity, hfault⟩⟩ := hrefuses hempty
    · -- the constructor of a class in a sound program is there
      have hlt := (hsound.program.classes _ c hc).constructor_lt hid
      exact absurd (Array.getElem?_eq_none_iff.mp hmissing) (Nat.not_le.mpr hlt)
    · exact ⟨_, c, id, f, named, hc, hid, hf, harity.symm, hfault⟩

/-- The sessions that are reached with whatever modules. -/
abbrev Open (s : Session σ) : Prop :=
  s.Reached (fun _ => True) fun _ _ => False

/-- A run of an engine has been ended by the fault, and its trace tells what was going on. -/
def Ended (σ : Type) (e : RuntimeError) : Prop :=
  ∃ s : Session σ, s.Open ∧ s.Stops e

end Session

/-- Building and linking fail in one way only. -/
theorem Engine.compile_notBuilt {engine after : Engine} {catalog : Catalog σ}
    {sources : SourceUnit} {e : EngineError}
    (h : engine.compile catalog sources = (.error e, after)) : ∃ errors, e = .notBuilt errors := by
  unfold compile at h
  generalize build sources.texts (engine.environment catalog) = built at h
  obtain ⟨unit, diagnostics⟩ := built
  cases unit with
  | none =>
    cases h
    exact ⟨_, rfl⟩
  | some unit =>
    dsimp only at h
    split at h
    · unfold Engine.link at h
      split at h
      · cases h
        exact ⟨_, rfl⟩
      · cases h
    · cases h
      exact ⟨_, rfl⟩

namespace Reply

/-- A fault in a reply has ended a run of an engine that has been reached. -/
def OfRuns (reply : Reply σ α) : Prop :=
  ∀ e, reply.result = .error (.stopped (.fault e)) → Session.Ended σ e

/-- To take a value further brings in no faults but those of the function. -/
theorem OfRuns.map {reply : Reply σ α} (h : reply.OfRuns) {f : α → Except EngineError β}
    (hf : ∀ a e, f a ≠ .error (.stopped (.fault e))) : (reply.map f).OfRuns := by
  obtain ⟨result, engine, host⟩ := reply
  intro e he
  cases result with
  | error e' =>
    cases he
    exact h e rfl
  | ok a => exact absurd he (hf a e)

/-- To take a value further without a chance to fail brings in no faults. -/
theorem OfRuns.map_ok {reply : Reply σ α} (h : reply.OfRuns) (f : α → β) :
    (reply.map fun a => .ok (f a)).OfRuns :=
  h.map fun _ _ => nofun

end Reply

namespace Session

variable {s : Session σ} {fuel : Nat}

/-- A fault in the reply to the end of a run is that of the run. -/
theorem Starts.ofRuns (h : s.Open) {first : State σ} (hstart : s.Starts first)
    {reply : Reply σ Value}
    (hreply : (Machine.run s.setting fuel first).map s.settle = some reply) : reply.OfRuns := by
  obtain ⟨ending, hrun, rfl⟩ := Option.map_eq_some_iff.mp hreply
  intro e he
  refine ⟨s, h, hstart.stops h.sound hrun ?_⟩
  unfold settle Engine.settle at he
  split at he
  · cases he
  · rename_i e' hresult
    cases he
    exact hresult

theorem Open.execute (h : s.Open) {linked : Linked} (hlinked : linked.topLevel ∈ s.tops)
    {reply : Reply σ Value}
    (hreply : s.engine.execute s.catalog fuel linked s.host = some reply) : reply.OfRuns := by
  obtain ⟨first, hstart, hruns⟩ := execute_runs hlinked
  exact hstart.ofRuns h ((hruns fuel).symm.trans hreply)

theorem Open.invokeEntry (h : s.Open) {reply : Reply σ Value}
    (hreply : s.engine.invokeEntry s.catalog fuel s.host = some reply) : reply.OfRuns := by
  obtain ⟨missing, hmissing, -, hruns⟩ | ⟨first, hstart, hruns⟩ := invokeEntry_runs h.sound
  · obtain rfl := Option.some.inj ((hruns fuel).symm.trans hreply)
    intro e he
    cases hmissing.symm.trans he
  · exact hstart.ofRuns h ((hruns fuel).symm.trans hreply)

theorem Open.perform (h : s.Open) {sources : SourceUnit} {reply : Reply σ (Linked × Value)}
    (hreply : s.engine.perform s.catalog fuel sources s.host = some reply) : reply.OfRuns := by
  have hcompiled : (s.compile sources).Open := h.compile sources
  unfold Engine.perform at hreply
  unfold Session.compile at hcompiled
  cases hcompile : s.engine.compile s.catalog sources with
  | mk result engine =>
    rw [hcompile] at hreply hcompiled
    cases result with
    | error e =>
      cases hreply
      obtain ⟨errors, rfl⟩ := Engine.compile_notBuilt hcompile
      exact nofun
    | ok linked =>
      obtain ⟨ran, hran, rfl⟩ := Option.map_eq_some_iff.mp hreply
      exact (hcompiled.execute List.mem_cons_self hran).map_ok _

theorem Open.runUnit (h : s.Open) {sources : SourceUnit} {reply : Reply σ BuildResult}
    (hreply : s.engine.runUnit s.catalog fuel sources s.host = some reply) : reply.OfRuns := by
  obtain ⟨performed, hperformed, hreply⟩ := Option.bind_eq_some_iff.mp hreply
  obtain ⟨tops, hreached⟩ := Reached.perform h hperformed
  unfold Reply.andThen at hreply
  split at hreply
  · obtain ⟨invoked, hinvoked, rfl⟩ := Option.map_eq_some_iff.mp hreply
    exact (Open.invokeEntry hreached hinvoked).map_ok _
  · rename_i e hresult
    cases hreply
    rintro e' ⟨⟩
    exact h.perform hperformed e' hresult

theorem Open.evaluateUnit (h : s.Open) {code : String} {reply : Reply σ (Option Value)}
    (hreply : s.engine.evaluateUnit s.catalog fuel code s.host = some reply) : reply.OfRuns := by
  unfold Engine.evaluateUnit at hreply
  split at hreply
  · cases hreply
    exact nofun
  · obtain ⟨performed, hperformed, rfl⟩ := Option.map_eq_some_iff.mp hreply
    exact (h.perform hperformed).map_ok _

/-- The faults that a call is answered with are those of what it does once it has begun. -/
theorem Open.call [HasConsole σ] (h : s.Open) {body : Engine → σ → Option (Reply σ α)}
    (hbody : ∀ {begun : Session σ} {reply : Reply σ α}, begun.Open → begun.catalog = s.catalog →
      body begun.engine begun.host = some reply → reply.OfRuns)
    {reply : Reply σ α} (hreply : s.engine.call s.host body = some reply) : reply.OfRuns := by
  obtain ⟨inner, hinner, rfl⟩ := Option.map_eq_some_iff.mp hreply
  have hruns : inner.OfRuns := hbody h.begin rfl hinner
  exact hruns

end Session

namespace Site

/-- The sites with an engine that has been reached. -/
def Open (site : Site σ) : Prop :=
  ∃ tops, Session.Open ⟨site.catalog, site.engine, site.host, tops⟩

variable {site after : Site σ}

/-- A reply is taken: the site is reached again, and the faults are those of runs. -/
theorem Open.take {tops : List Chunk} {answer : α → Answer} {reply : Reply σ α}
    {result : Except EngineError Answer} (htake : site.take answer reply = (result, after))
    (hreached : Session.Replies (fun _ => True) (fun _ _ => False)
      ⟨site.catalog, site.engine, site.host, tops⟩ reply) (hruns : reply.OfRuns) :
    after.Open ∧ ∀ e, result = .error (.stopped (.fault e)) → Session.Ended σ e := by
  obtain ⟨tops', hafter⟩ := hreached
  cases htake
  refine ⟨⟨tops' ++ tops, hafter⟩, fun e he => hruns e ?_⟩
  cases hresult : reply.result with
  | error e' =>
    rw [hresult] at he
    cases he
    rfl
  | ok a =>
    rw [hresult] at he
    cases he

variable [HasConsole σ]

/-- A call at a site with an engine that has been reached leaves such a site behind, and the faults
with which it is answered are those of runs. -/
theorem Open.ask (h : site.Open) {fuel : Nat} {request : Request}
    {result : Except EngineError Answer} (hask : site.ask fuel request = some (result, after)) :
    after.Open ∧ ∀ e, result = .error (.stopped (.fault e)) → Session.Ended σ e := by
  obtain ⟨tops, hopen⟩ := h
  cases request with
  | runSource code =>
    obtain ⟨reply, hreply, htake⟩ := Option.map_eq_some_iff.mp hask
    refine Open.take htake (hopen.runSource (fun _ _ _ => id) hreply)
      (hopen.call (fun {begun inner} hbegun hcatalog hinner => ?_) hreply)
    change begun.catalog = site.catalog at hcatalog
    rw [← hcatalog] at hinner
    split at hinner
    · exact hbegun.runUnit hinner
    · cases hinner
      exact nofun
  | run =>
    unfold Site.ask at hask
    rw [Engine.run_eq] at hask
    obtain ⟨reply, hreply, htake⟩ := Option.map_eq_some_iff.mp hask
    refine Open.take htake (hopen.runProvided (fun _ _ _ => id) hreply)
      (hopen.call (fun {begun inner} hbegun hcatalog hinner => ?_) hreply)
    change begun.catalog = site.catalog at hcatalog
    rw [← hcatalog] at hinner
    split at hinner
    · exact hbegun.runUnit hinner
    · rename_i e hprovided
      cases hinner
      rintro e' ⟨⟩
      obtain ⟨_, _, hmode⟩ | hreading := Engine.provide_error hprovided
      · cases hmode
      · cases hreading
  | evaluate code =>
    obtain ⟨reply, hreply, htake⟩ := Option.map_eq_some_iff.mp hask
    refine Open.take htake (hopen.evaluate (fun _ _ _ => id) hreply)
      (hopen.call (fun {begun inner} hbegun hcatalog hinner => ?_) hreply)
    change begun.catalog = site.catalog at hcatalog
    rw [← hcatalog] at hinner
    exact hbegun.evaluateUnit hinner
  | evaluateAs kind code =>
    obtain ⟨reply, hreply, htake⟩ := Option.map_eq_some_iff.mp hask
    refine Open.take htake (hopen.evaluateAs (fun _ _ _ => id) hreply)
      (hopen.call (fun {begun inner} hbegun hcatalog hinner => ?_) hreply)
    change begun.catalog = site.catalog at hcatalog
    rw [← hcatalog] at hinner
    obtain ⟨evaluated, hevaluated, rfl⟩ := Option.map_eq_some_iff.mp hinner
    refine (hbegun.evaluateUnit hevaluated).map fun value e hconverted => ?_
    obtain ⟨mismatch, hmismatch⟩ := Engine.convertTo_error hconverted
    cases hmismatch

/-- Whatever happens at a site with an engine that has been reached, the faults that the caller sees
are those of runs. -/
theorem Open.watch {events : List (Event σ)} (h : site.Open) {sight : Sight}
    (hsight : some sight ∈ site.watch events) {e : RuntimeError}
    (he : sight.result = .error (.stopped (.fault e))) : Session.Ended σ e := by
  induction events generalizing site with
  | nil => cases hsight
  | cons event rest ih =>
    obtain ⟨tops, hopen⟩ := h
    cases event with
    | ask fuel request =>
      rw [Site.watch] at hsight
      split at hsight
      · simp at hsight
      · rename_i result after hask
        obtain ⟨hafter, hfaults⟩ := Open.ask ⟨tops, hopen⟩ hask
        obtain hfirst | hrest := List.mem_cons.mp hsight
        · cases hfirst
          exact hfaults e he
        · exact ih hafter hrest
    | register names => exact ih ⟨tops, hopen.register names⟩ hsight
    | load module => exact ih ⟨tops, hopen.load trivial⟩ hsight
    | unload name => exact ih ⟨tops, hopen.unload name⟩ hsight
    | files disk =>
      have hlater : Site.Open { site with disk } := ⟨tops, hopen⟩
      exact ih hlater hsight

/-- All faults of a machine come with the call stack, and so do all faults that the caller of a new
engine ever sees. Only where a constructor refuses its arguments one frame is not told, and there is
no trace if it was the only one. -/
theorem call_stacks_told_unless_refused :
    (∀ setting : Machine.Setting σ, Machine.CallStacksTold setting) ∧
      ∀ {catalog : Catalog σ} {engine : Engine} (disk : Disk) (host : σ),
        catalog.Made (fun _ => True) →
          (∃ config, engine = .inline config ∨ ∃ dir, engine = .project dir catalog config) →
            ∀ {events : List (Event σ)} {sight : Sight} {e : RuntimeError},
              some sight ∈ Site.watch ⟨catalog, disk, engine, host⟩ events →
                sight.result = .error (.stopped (.fault e)) →
                  Session.Ended σ e ∧ (EngineError.stopped (.fault e)).message =
                    "script faulted: " ++ e.fault.message ++
                      String.join (e.trace.map fun name => "\n   at " ++ name) := by
  refine ⟨fun setting => Machine.callStacksTold setting,
    fun {catalog engine} disk host hmade hnew events sight e hsight he => ⟨?_, ?_⟩⟩
  swap
  · rw [String.append_assoc, ← e.text_eq]
    rfl
  refine Open.watch ⟨[], ?_⟩ hsight he
  obtain ⟨config, rfl | ⟨dir, rfl⟩⟩ := hnew
  · exact .inline hmade (fun _ => id) config
  · exact .project hmade (fun _ => id) dir config

/-! ## An entry class whose constructor takes an argument -/

/-- A text that declares such a class. -/
def demandingText : String :=
  "namespace script{class Main{fn init(x){}}}"

/-- Its unit. -/
def demanding : CompiledUnit where
  functionBase := 0
  functions := #[⟨"script.Main.<fields>", 0, ⟨#[.pushNull, .ret], #[], 0⟩⟩,
    ⟨"script.Main.init", 1, ⟨#[.pushNull, .ret], #[], 1⟩⟩]
  classBase := 0
  classes := #[⟨"script.Main", [], ⟨[("init", 1)]⟩, 0, some 1⟩]
  functionNames := []
  globals := []
  hostCalls := #[]
  bindingBase := 0
  topLevel := ⟨#[.pushNull, .ret], #[], 0⟩
  returnsValue := false

/-- The text is built. -/
theorem build_demanding : build (SourceUnit.inline demandingText).texts
    ((Engine.inline {}).begin.environment ({} : Catalog Console)) = (some demanding, []) := by
  have hlex : lex demandingText 0 = .ok [⟨.kwNamespace, 0, 0, 9⟩, ⟨.ident "script", 0, 10, 16⟩,
      ⟨.lbrace, 0, 16, 17⟩, ⟨.kwClass, 0, 17, 22⟩, ⟨.ident "Main", 0, 23, 27⟩, ⟨.lbrace, 0, 27, 28⟩,
      ⟨.kwFn, 0, 28, 30⟩, ⟨.ident "init", 0, 31, 35⟩, ⟨.lparen, 0, 35, 36⟩, ⟨.ident "x", 0, 36, 37⟩,
      ⟨.rparen, 0, 37, 38⟩, ⟨.lbrace, 0, 38, 39⟩, ⟨.rbrace, 0, 39, 40⟩, ⟨.rbrace, 0, 40, 41⟩,
      ⟨.rbrace, 0, 41, 42⟩, ⟨.eof, 0, 42, 42⟩] := by
    with_unfolding_all rfl
  have hread : read demandingText 0 = .ok [.space ["script"] [.classDecl ⟨"Main", [],
      [⟨"init", ["x"], [], ⟨0, 28, 40⟩⟩], ⟨0, 17, 41⟩⟩] ⟨0, 0, 42⟩] := by
    unfold read
    rw [hlex]
    with_unfolding_all rfl
  refine build_of_read hread ?_ ?_
  · with_unfolding_all rfl
  · with_unfolding_all rfl

/-- The call ends with a fault that does not say where. -/
theorem ask_demanding : ∃ later, Site.ask ⟨{}, {}, .inline {}, ({} : Console)⟩ 3
    (.runSource demandingText) =
      some (.error (.stopped (.fault ⟨.argumentCount "script.Main.init" "1" 0, []⟩)), later) := by
  have hcompile : (Engine.inline {}).begin.compile ({} : Catalog Console) (.inline demandingText) =
      (.ok ⟨demanding.topLevel, false, .clean⟩, { (Engine.inline {}).begin with
        state := .ready, program := Program.append {} demanding {} }) := by
    unfold Engine.compile
    rw [build_demanding]
    rfl
  obtain ⟨after, hunit⟩ : ∃ after, (Engine.inline {}).begin.runUnit ({} : Catalog Console) 3
      (.inline demandingText) {} = some ⟨.error (.stopped (.fault
        ⟨.argumentCount "script.Main.init" "1" 0, []⟩)), after, {}⟩ := by
    unfold Engine.runUnit Engine.perform
    rw [hcompile]
    exact ⟨_, rfl⟩
  unfold ask Engine.runSource Engine.call
  dsimp only [Engine.inline, Engine.begin] at hunit ⊢
  rw [hunit]
  exact ⟨_, rfl⟩

/-- The program of the text. -/
def demandingProgram : Program :=
  Program.append {} demanding {}

/-- A top level and a constructor that are cut off come with their call stacks. Where the
constructor refuses its arguments, the call stack is lost: in the machine, and in a call of an
engine. -/
theorem refused_constructor_is_not_told :
    let setting (limit : Option Nat) : Machine.Setting Console := ⟨demandingProgram, {}, limit⟩
    let world : World Console := ⟨#[], {}, {}⟩
    let refusal : Fault := .argumentCount "script.Main.init" "1" 0
    let top : Frame := .start Machine.topLevelName demanding.topLevel none [] .value
    let body : Frame := .start "script.Main.init" ⟨#[.pushNull, .ret], #[], 1⟩ none [.null] .value
    (∃ last, Machine.Recounted (setting (some 0)) (· = "<top-level>") ⟨top, [], 0, world⟩ last
        ⟨.instructionLimit 0, ["<top-level>"]⟩) ∧
      (∃ last, Machine.Recounted (setting (some 0)) (· = "script.Main.init") ⟨body, [], 0, world⟩
        last ⟨.instructionLimit 0, ["script.Main.init"]⟩) ∧
      (∃ ending, Machine.instantiate (setting none) 2 0 [] world = some ending ∧
        ending.result = .error ⟨refusal, []⟩ ∧
          Class.Refuses demandingProgram ⟨"script.Main", [], ⟨[("init", 1)]⟩, 0, some 1⟩ []
            refusal) ∧
      ∃ sight, some sight ∈ Site.watch ⟨{}, {}, .inline {}, ({} : Console)⟩
          [.ask 3 (.runSource demandingText)] ∧
        sight.result = .error (.stopped (.fault ⟨refusal, []⟩)) ∧
          Session.Ended Console ⟨refusal, []⟩ := by
  intro setting world refusal top body
  obtain ⟨hmachine, hengine⟩ := call_stacks_told_unless_refused (σ := Console)
  refine ⟨?_, ?_, ?_, ?_⟩
  · have hrun : Machine.runTopLevel (setting (some 0)) 1 demanding.topLevel world =
        some ⟨.error ⟨.instructionLimit 0, ["<top-level>"]⟩, 1, world⟩ := rfl
    exact ((hmachine _).topLevel hrun rfl).2
  · have hrun : Machine.call (setting (some 0)) 1 1 none [.null] world =
        some ⟨.error ⟨.instructionLimit 0, ["script.Main.init"]⟩, 1, world⟩ := rfl
    exact ((hmachine _).call rfl rfl hrun rfl).2
  · obtain ⟨ending, hrun, hresult⟩ : ∃ ending, Machine.instantiate (setting none) 2 0 [] world =
        some ending ∧ ending.result = .error ⟨refusal, []⟩ :=
      ⟨_, rfl, by with_unfolding_all rfl⟩
    have hmade : Machine.construct demandingProgram 0 [] world.heap = .ok
        (.start "script.Main.<fields>" ⟨#[.pushNull, .ret], #[], 0⟩
          (some (world.heap.next 0 "script.Main")) []
          (.construct (world.heap.next 0 "script.Main") (some (1, []))), .ofList []) := rfl
    exact ⟨_, hrun, hresult, ((hmachine _).object rfl hmade hrun hresult).1 rfl⟩
  · obtain ⟨later, hask⟩ := ask_demanding
    have hsight : some ⟨.error (.stopped (.fault ⟨refusal, []⟩)), later.engine.state,
        later.engine.lastError⟩ ∈ Site.watch ⟨{}, {}, .inline {}, ({} : Console)⟩
          [.ask 3 (.runSource demandingText)] := by
      rw [Site.watch, hask]
      exact List.mem_cons_self
    exact ⟨_, hsight, rfl, (hengine {} {} .empty ⟨{}, .inl rfl⟩ hsight rfl).1⟩

end Site

end ScriptHost
