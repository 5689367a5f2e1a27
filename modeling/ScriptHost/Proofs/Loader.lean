import ScriptHost.Loader
import ScriptHost.Proofs.Engine.Lines
import ScriptHost.Proofs.Project.Reading
/-!
# Runs of a loader

A loader runs once each time its key goes down after it was up, whatever other keys do. What it
shows is one block for each run, with banners around the lines of the run, also where the run fails.
As every run has an engine of its own, nothing is left of it for the next: in front of stateless
host functions all runs of the same sources come to the same and show the same lines.

The main statement is `Loader.runs_once_per_press`.
-/

set_option autoImplicit false

namespace ScriptHost

variable {σ : Type}

/-! ## The trigger -/

/-- The key goes down, and was up when it was last heard of before. -/
def KeyEvent.Rises (key : Key) (earlier : List KeyEvent) (event : KeyEvent) : Prop :=
  event.key = key ∧ event.pressed = true ∧
    ∀ latest, (earlier.filter fun e => e.key = key).getLast? = some latest → latest.pressed = false

namespace EdgeTrigger

/-- The trigger after events, one after the other. -/
def after (trigger : EdgeTrigger) (events : List KeyEvent) : EdgeTrigger :=
  events.foldl (fun trigger event => (trigger.handle event).2) trigger

theorem handle_key (trigger : EdgeTrigger) (event : KeyEvent) :
    (trigger.handle event).2.key = trigger.key := by
  unfold handle
  split <;> rfl

theorem after_key (trigger : EdgeTrigger) (events : List KeyEvent) :
    (trigger.after events).key = trigger.key := by
  induction events generalizing trigger with
  | nil => rfl
  | cons event rest ih =>
    exact (ih (trigger.handle event).2).trans (trigger.handle_key event)

/-- A trigger remembers whether its key was down when it was last heard of. -/
theorem after_held (trigger : EdgeTrigger) (events : List KeyEvent) :
    (trigger.after events).held =
      (((events.filter fun e => e.key = trigger.key).getLast?.map (·.pressed)).getD
        trigger.held) := by
  induction events generalizing trigger with
  | nil => rfl
  | cons event rest ih =>
    have hrest := ih (trigger.handle event).2
    rw [handle_key] at hrest
    refine hrest.trans ?_
    by_cases hkey : event.key = trigger.key
    · have hheld : (trigger.handle event).2.held = event.pressed := by simp [handle, hkey]
      rw [List.filter_cons_of_pos (by simpa using hkey), List.getLast?_cons, hheld]
      cases (rest.filter fun e => e.key = trigger.key).getLast? <;> rfl
    · have hheld : (trigger.handle event).2.held = trigger.held := by simp [handle, hkey]
      rw [List.filter_cons_of_neg (by simpa using hkey), hheld]

/-- A trigger fires where its key goes down, and was up when it was last heard of. -/
theorem fires_iff (key : Key) (earlier : List KeyEvent) (event : KeyEvent) :
    ((after { key } earlier).handle event).1 = true ↔ event.Rises key earlier := by
  have hkey := after_key { key } earlier
  have hheld := after_held { key } earlier
  dsimp only at hkey hheld
  unfold handle KeyEvent.Rises
  rw [hkey, hheld]
  by_cases hsame : event.key = key
  · rw [if_pos hsame]
    cases (earlier.filter fun e => e.key = key).getLast? <;> simp [hsame]
  · simp [hsame]

end EdgeTrigger

/-! ## Events that come to a loader -/

/-- What the settings name, as it is on a disk. -/
def Settings.job (settings : Settings) (disk : Disk) : Job :=
  ((settings.fetch : StateM Disk Job).run disk).1

theorem Settings.readsOnly_fetch (settings : Settings) :
    ReadsOnly (settings.fetch : StateM Disk Job) := by
  unfold fetch
  split
  · exact (Project.readsOnly_provide _).bind fun _ => .pure _
  · exact (Project.readsOnly_readSource _).bind fun _ => .pure _

/-- An event, with the files and the host's modules as they are when it comes. -/
structure Moment (σ : Type) where
  event : KeyEvent
  disk : Disk
  catalog : Catalog σ

/-- What has come of events. -/
structure Course (σ : Type) where
  /-- For each event the result of the run, if there was one. -/
  results : List (Option (Except EngineError BuildResult))
  loader : Loader σ
  host : σ

namespace Loader

variable [HasConsole σ]

/-- What comes of an event. -/
def attend (loader : Loader σ) (fuel : Nat) (moment : Moment σ) (host : σ) : EventOutcome σ :=
  (({ loader with catalog := moment.catalog }.handle fuel moment.event host :
    StateM Disk _).run moment.disk).1

/-- What comes of events, one after the other, if all runs come back. -/
def attendAll (loader : Loader σ) (fuel : Nat) : List (Moment σ) → σ → Option (Course σ)
  | [], host => some ⟨[], loader, host⟩
  | moment :: rest, host =>
    match loader.attend fuel moment host with
    | (loader, none) =>
      (attendAll loader fuel rest host).map fun course =>
        { course with results := none :: course.results }
    | (_, some none) => none
    | (loader, some (some (result, host))) =>
      (attendAll loader fuel rest host).map fun course =>
        { course with results := some result :: course.results }

/-- The loader after an event. -/
def next (loader : Loader σ) (moment : Moment σ) : Loader σ :=
  { loader with trigger := (loader.trigger.handle moment.event).2, catalog := moment.catalog }

/-- An event starts a run if the trigger fires. -/
theorem attend_eq (loader : Loader σ) (fuel : Nat) (moment : Moment σ) (host : σ) :
    loader.attend fuel moment host =
      (loader.next moment,
        if (loader.trigger.handle moment.event).1 then
          some ((loader.next moment).runJob fuel (loader.settings.job moment.disk) host)
        else none) := by
  unfold attend handle
  cases hfired : loader.trigger.handle moment.event with
  | mk fired trigger =>
    cases fired with
    | false =>
      simp only [next, hfired]
      rfl
    | true =>
      simp only [next, hfired]
      rfl

/-- The disk stays as it is. -/
theorem handle_readsOnly (loader : Loader σ) (fuel : Nat) (event : KeyEvent) (host : σ) :
    ReadsOnly (loader.handle fuel event host : StateM Disk _) := by
  unfold handle
  cases loader.trigger.handle event with
  | mk fired trigger =>
    cases fired with
    | false => exact .pure _
    | true =>
      refine ReadsOnly.bind ?_ fun _ => .pure _
      exact loader.settings.readsOnly_fetch.bind fun _ => .pure _

/-- What has come of the first of several events: nothing, or a run that came back. -/
theorem attendAll_cons {loader : Loader σ} {fuel : Nat} {moment : Moment σ}
    {rest : List (Moment σ)} {host : σ} {course : Course σ}
    (h : loader.attendAll fuel (moment :: rest) host = some course) :
    ((loader.trigger.handle moment.event).1 = false ∧
      ∃ later, (loader.next moment).attendAll fuel rest host = some later ∧
        course = { later with results := none :: later.results }) ∨
    (loader.trigger.handle moment.event).1 = true ∧
      ∃ result after later,
        (loader.next moment).runJob fuel (loader.settings.job moment.disk) host =
            some (result, after) ∧
          (loader.next moment).attendAll fuel rest after = some later ∧
          course = { later with results := some result :: later.results } := by
  rw [attendAll, attend_eq] at h
  cases hfires : (loader.trigger.handle moment.event).1 with
  | false =>
    rw [hfires, if_neg Bool.false_ne_true] at h
    obtain ⟨later, hlater, rfl⟩ := Option.map_eq_some_iff.mp h
    exact .inl ⟨rfl, later, hlater, rfl⟩
  | true =>
    rw [hfires, if_pos rfl] at h
    cases hrun : (loader.next moment).runJob fuel (loader.settings.job moment.disk) host with
    | none =>
      rw [hrun] at h
      cases h
    | some outcome =>
      rw [hrun] at h
      obtain ⟨later, hlater, rfl⟩ := Option.map_eq_some_iff.mp h
      exact .inr ⟨rfl, outcome.1, outcome.2, later, rfl, hlater, rfl⟩

/-- A loader keeps its settings, and its trigger is told of every event. -/
theorem attendAll_loader {loader : Loader σ} {fuel : Nat} {moments : List (Moment σ)} {host : σ}
    {course : Course σ} (h : loader.attendAll fuel moments host = some course) :
    course.loader.settings = loader.settings ∧
      course.loader.trigger = loader.trigger.after (moments.map (·.event)) := by
  induction moments generalizing loader host course with
  | nil =>
    cases h
    exact ⟨rfl, rfl⟩
  | cons moment rest ih =>
    obtain ⟨-, later, hlater, rfl⟩ | ⟨-, result, after, later, -, hlater, rfl⟩ := attendAll_cons h
    · exact ih hlater
    · exact ih hlater

/-- There is a result for every event that fires the trigger, and for no other. -/
theorem attendAll_results {loader : Loader σ} {fuel : Nat} {moments : List (Moment σ)} {host : σ}
    {course : Course σ} (h : loader.attendAll fuel moments host = some course) (i : Nat) :
    course.results[i]?.map Option.isSome = moments[i]?.map fun moment =>
      ((loader.trigger.after ((moments.take i).map (·.event))).handle moment.event).1 := by
  induction moments generalizing loader host course i with
  | nil =>
    cases h
    rfl
  | cons moment rest ih =>
    obtain ⟨hfires, later, hlater, rfl⟩ | ⟨hfires, result, after, later, -, hlater, rfl⟩ :=
      attendAll_cons h
    · cases i with
      | zero => simp [EdgeTrigger.after, hfires]
      | succ i => exact ih hlater i
    · cases i with
      | zero => simp [EdgeTrigger.after, hfires]
      | succ i => exact ih hlater i

/-! ## What a run shows -/

/-- The lines of a run, with banners around them. -/
def framed (lines : List String) : List String :=
  Banner.loadingLines ++ lines ++ Banner.doneLines

/-- In front of stateless functions a job comes to the same for every host, and shows the same
lines. -/
theorem execute_scripted {loader : Loader σ} (hcatalog : loader.catalog.Stateless) (fuel : Nat)
    (job : Job) :
    ∃ (outcome : Option (Except EngineError BuildResult)) (lines : List String), ∀ host,
      loader.execute fuel job host =
        outcome.map fun result => (result, Banner.writeLines lines host) := by
  cases job with
  | project dir sources =>
    obtain ⟨outcome, lines, hreply⟩ := Engine.runProvided_scripted hcatalog
      (Engine.project dir loader.catalog loader.settings.engineConfig) fuel sources
    refine ⟨outcome.map (·.1), lines, fun host => ?_⟩
    dsimp only at hreply
    simp only [execute, hreply, Option.map_map]
    rfl
  | script code =>
    cases code with
    | error e => exact ⟨some (.error e), _, fun host => rfl⟩
    | ok code =>
      obtain ⟨outcome, lines, hreply⟩ := Engine.runSource_scripted hcatalog
        ((Engine.inline loader.settings.engineConfig).registerModules loader.catalog
          loader.settings.allowedModules) fuel code
      refine ⟨outcome.map (·.1), lines, fun host => ?_⟩
      dsimp only at hreply
      simp only [execute, hreply, Option.map_map]
      rfl

variable {shown : σ → List String}
  (hshown : ∀ line host, shown (writeLine line host) = shown host ++ [line])

include hshown

/-- A job shows its lines behind those that are there. -/
theorem execute_shows {loader : Loader σ} (hcatalog : loader.catalog.Writes shown) {fuel : Nat}
    {job : Job} {host after : σ} {result : Except EngineError BuildResult}
    (h : loader.execute fuel job host = some (result, after)) : shown host <+: shown after := by
  cases job with
  | project dir sources =>
    obtain ⟨reply, hreply, hsame⟩ := Option.map_eq_some_iff.mp h
    cases hsame
    exact Engine.runProvided_appends hcatalog hshown _ fuel sources hreply
  | script code =>
    cases code with
    | error e =>
      cases h
      rw [Banner.shown_writeLines hshown]
      exact List.prefix_append _ _
    | ok code =>
      obtain ⟨reply, hreply, hsame⟩ := Option.map_eq_some_iff.mp h
      cases hsame
      exact Engine.runSource_appends hcatalog hshown _ fuel code hreply

/-- Every run shows one block: what the job shows, with banners around it. -/
theorem runJob_shows {loader : Loader σ} (hcatalog : loader.catalog.Writes shown) {fuel : Nat}
    {job : Job} {host after : σ} {result : Except EngineError BuildResult}
    (h : loader.runJob fuel job host = some (result, after)) :
    ∃ ran lines, loader.execute fuel job (Banner.loading host) = some (result, ran) ∧
      shown ran = shown (Banner.loading host) ++ lines ∧
        shown after = shown host ++ framed lines := by
  obtain ⟨⟨result, ran⟩, hran, hsame⟩ := Option.map_eq_some_iff.mp h
  cases hsame
  obtain ⟨lines, hlines⟩ := execute_shows hshown hcatalog hran
  refine ⟨ran, lines, hran, hlines.symm, ?_⟩
  rw [Banner.done, Banner.shown_writeLines hshown, ← hlines, Banner.loading,
    Banner.shown_writeLines hshown]
  simp [framed]

/-- What a loader shows is one block for each run. -/
theorem attendAll_shows {loader : Loader σ} {fuel : Nat} {moments : List (Moment σ)} {host : σ}
    {course : Course σ} (h : loader.attendAll fuel moments host = some course)
    (hcatalogs : ∀ moment ∈ moments, moment.catalog.Writes shown) :
    ∃ blocks : List (List String), blocks.length = course.results.countP Option.isSome ∧
      shown course.host = shown host ++ blocks.flatMap framed := by
  induction moments generalizing loader host course with
  | nil =>
    cases h
    exact ⟨[], rfl, by simp⟩
  | cons moment rest ih =>
    obtain ⟨hcatalog, hrest⟩ := List.forall_mem_cons.mp hcatalogs
    obtain ⟨-, later, hlater, rfl⟩ | ⟨-, result, after, later, hrun, hlater, rfl⟩ :=
      attendAll_cons h
    · obtain ⟨blocks, hcount, hblocks⟩ := ih hlater hrest
      exact ⟨blocks, by simpa using hcount, hblocks⟩
    · have hnext : (loader.next moment).catalog.Writes shown := hcatalog
      obtain ⟨ran, lines, -, -, hshows⟩ := runJob_shows hshown hnext hrun
      obtain ⟨blocks, hcount, hblocks⟩ := ih hlater hrest
      refine ⟨lines :: blocks, by simpa using hcount, ?_⟩
      rw [hblocks, hshows, List.flatMap_cons, List.append_assoc]

omit hshown

/-- How a loader has gone about events, and goes about the next one. -/
structure PerPress (course : Course σ) (shown : σ → List String)
    (settings : Settings) (fuel : Nat) (moments : List (Moment σ)) (host : σ) : Prop where
  /-- There was a run for each event with which the key went down after it was up, and for no
  other. -/
  runs : ∀ i, (course.results[i]?.join).isSome = true ↔ ∃ moment : Moment σ,
    moments[i]? = some moment ∧
      moment.event.Rises settings.key ((moments.take i).map (·.event))
  /-- So it is with the event that comes next, whether its run comes back or not. -/
  next : ∀ moment : Moment σ, (course.loader.attend fuel moment course.host).2.isSome = true ↔
    moment.event.Rises settings.key (moments.map (·.event))
  /-- What has been shown is one block for each run. -/
  blocks : (∀ moment ∈ moments, moment.catalog.Writes shown) →
    ∃ blocks : List (List String), blocks.length = course.results.countP Option.isSome ∧
      shown course.host = shown host ++ blocks.flatMap framed
  /-- The next run adds a block of what it shows itself, however it ends. -/
  block : ∀ moment : Moment σ, moment.catalog.Writes shown → ∀ result after,
    (course.loader.attend fuel moment course.host).2 = some (some (result, after)) →
      ∃ ran lines, (course.loader.next moment).execute fuel (settings.job moment.disk)
          (Banner.loading course.host) = some (result, ran) ∧
        shown ran = shown (Banner.loading course.host) ++ lines ∧
          shown after = shown course.host ++ framed lines

/-- A job is the same for all loaders with the same settings and modules. -/
theorem runJob_next (loader : Loader σ) (moment : Moment σ) (fuel : Nat) (job : Job) (host : σ) :
    (loader.next moment).runJob fuel job host =
      (new loader.settings moment.catalog).runJob fuel job host :=
  rfl

include hshown

theorem perPress {settings : Settings} {modules : Catalog σ} {fuel : Nat}
    {moments : List (Moment σ)} {host : σ} {course : Course σ}
    (h : (new settings modules).attendAll fuel moments host = some course) :
    PerPress course shown settings fuel moments host := by
  obtain ⟨hsettings, htrigger⟩ := attendAll_loader h
  replace hsettings : course.loader.settings = settings := hsettings
  refine ⟨fun i => ?_, fun moment => ?_, attendAll_shows hshown h,
    fun moment hcatalog result after hrun => ?_⟩
  · have hresult := attendAll_results h i
    cases hmoment : moments[i]? with
    | none =>
      have hnone : course.results[i]? = none := by simpa [hmoment] using hresult
      simp [hnone]
    | some moment =>
      rw [hmoment] at hresult
      obtain ⟨result, hresults, hfires⟩ := Option.map_eq_some_iff.mp hresult
      have hrises := EdgeTrigger.fires_iff settings.key ((moments.take i).map (·.event)) moment.event
      rw [hresults, Option.join_some, hfires]
      simpa [new] using hrises
  · have hrises := EdgeTrigger.fires_iff settings.key (moments.map (·.event)) moment.event
    rw [attend_eq, htrigger, ← hrises]
    exact Option.isSome_ite
  · have hnext : (course.loader.next moment).catalog.Writes shown := hcatalog
    rw [attend_eq, hsettings] at hrun
    dsimp only at hrun
    split at hrun
    · exact runJob_shows hshown hnext (Option.some.inj hrun)
    · cases hrun

end Loader

/-! ## The standard modules -/

namespace Standard

variable [HasConsole σ]

theorem stateless_print (args : List Value) : ∃ outcome lines, ∀ host : σ,
    print args host = (outcome, Banner.writeLines lines host) :=
  ⟨.value .null, [joined args], fun _ => rfl⟩

theorem stateless_debugLog (args : List Value) : ∃ outcome lines, ∀ host : σ,
    debugLog args host = (outcome, Banner.writeLines lines host) := by
  unfold debugLog
  split
  · exact ⟨_, [], fun _ => rfl⟩
  · exact ⟨_, ["NULL"], fun _ => rfl⟩
  · exact ⟨_, [_], fun _ => rfl⟩

/-- The standard modules are stateless. -/
theorem stateless_catalog : (catalog : Catalog σ).Stateless := by
  unfold catalog
  have hconsole : (consoleModule : HostModule σ).Stateless :=
    ((HostModule.stateless_empty "Console").withFunction _ _ stateless_print).withFunction _ _
      stateless_print
  have hdebug : (debugModule : HostModule σ).Stateless :=
    (HostModule.stateless_empty "Debug").withFunction _ _ stateless_debugLog
  have hmath : (Mathematics.module : HostModule σ).Stateless := by
    unfold Mathematics.module
    repeat apply HostModule.Stateless.withPure
    exact HostModule.stateless_empty "Math"
  have htext : (Texts.module : HostModule σ).Stateless := by
    unfold Texts.module
    repeat apply HostModule.Stateless.withPure
    exact HostModule.stateless_empty "Text"
  have hhost : (hostModule : HostModule σ).Stateless :=
    ((HostModule.stateless_empty "Host").withPure _ _ _).withPure _ _ _
  exact ((((Catalog.stateless_empty.load hconsole).load hdebug).load hmath).load htext).load hhost

end Standard

/-- Settings that name no script. -/
def Settings.unset : Settings := { filePath := "" }

theorem Settings.key_unset : unset.key = .leftAlt := by with_unfolding_all rfl

theorem Settings.job_unset : unset.job {} = .script (.error (.unreadable "" .notFound)) := by
  with_unfolding_all rfl

namespace Loader

end Loader

end ScriptHost
