import Mathlib.Data.List.TakeWhile
import ScriptHost.Proofs.Engine.States
import ScriptHost.Proofs.Program.Build
/-!
# What a call reports

A call gathers the diagnostics of the sources that it builds, and the error that it fails with, each
on lines of its own. Nothing else is in the report, and nothing of earlier calls; it is shown on the
console and kept as the last error if there is anything in it.
-/

set_option autoImplicit false

namespace ScriptHost

variable {σ α β : Type}

/-! ## Texts -/

namespace Report

/-- Entries one after the other, each with a line break at its end. -/
def onLines (entries : List String) : String :=
  String.join (entries.map closeLine)

theorem text_appendAll (report : Report) (entries : List String) :
    (report.appendAll entries).text = report.text ++ onLines entries := by
  unfold appendAll onLines
  induction entries generalizing report with
  | nil => simp
  | cons entry rest ih =>
    rw [List.foldl_cons, ih, List.map_cons, String.join_cons, ← String.append_assoc]
    rfl

theorem appendAll_append (report : Report) (front rest : List String) :
    (report.appendAll front).appendAll rest = report.appendAll (front ++ rest) :=
  List.foldl_append.symm

/-- Whatever an entry holds is on its lines. -/
theorem mem_onLines {entries : List String} {entry : String} (hentry : entry ∈ entries) {c : Char}
    (hc : c ∈ entry.toList) : c ∈ (onLines entries).toList := by
  unfold onLines
  rw [String.toList_join]
  refine List.mem_flatMap.mpr ⟨closeLine entry, List.mem_map_of_mem hentry, ?_⟩
  unfold closeLine
  split
  · exact hc
  · rw [String.toList_append]
    exact List.mem_append_left _ hc

end Report

/-- Nothing is left of a text without its blanks if there is nothing but blanks in it. -/
theorem trim_eq_empty_iff (s : String) : trim s = "" ↔ ∀ c ∈ s.toList, isBlank c = true := by
  have hchars : trim s = "" ↔ trimChars s.toList = [] := by
    unfold trim
    rw [← String.toList_inj, String.toList_ofList]
    rfl
  rw [hchars]
  unfold trimChars
  rw [List.reverse_eq_nil_iff, List.dropWhile_eq_nil_iff]
  refine ⟨fun h => ?_, fun h c hc => h c ?_⟩
  · have hnone : s.toList.dropWhile isBlank = [] := by
      by_contra hsome
      have hfirst := List.head_dropWhile_not isBlank hsome
      rw [h _ (List.mem_reverse.mpr (List.head_mem hsome))] at hfirst
      cases hfirst
    exact List.dropWhile_eq_nil_iff.mp hnone
  · exact (List.dropWhile_sublist _).mem (List.mem_reverse.mp hc)

/-- Entries that hold anything but blanks leave something to be shown. -/
theorem trim_onLines_eq_empty_iff {entries : List String}
    (h : ∀ entry ∈ entries, ∃ c ∈ entry.toList, isBlank c = false) :
    trim (Report.onLines entries) = "" ↔ entries = [] := by
  refine ⟨fun hempty => List.eq_nil_iff_forall_not_mem.mpr fun entry hentry => ?_, ?_⟩
  · obtain ⟨c, hc, hblank⟩ := h entry hentry
    have hall := (trim_eq_empty_iff _).mp hempty c (Report.mem_onLines hentry hc)
    rw [hblank] at hall
    cases hall
  · rintro rfl
    rfl

/-- The line of a diagnostic holds more than blanks. -/
theorem Engine.diagnosticLine_not_blank (sources : SourceUnit) (d : Diagnostic) :
    ∃ c ∈ (diagnosticLine sources d).toList, isBlank c = false := by
  refine ⟨'(', ?_, rfl⟩
  unfold diagnosticLine Diagnostic.line
  simp only [String.toList_append, List.mem_append]
  exact .inl (.inl (.inl (.inl (.inl (.inl (.inl (.inl (.inl (.inr (by decide))))))))))

/-- The line of an error holds more than blanks. -/
theorem EngineError.reportLine_not_blank {e : EngineError} {line : String}
    (h : e.reportLine? = some line) : ∃ c ∈ line.toList, isBlank c = false := by
  refine ⟨'e', ?_, rfl⟩
  unfold reportLine? at h
  split at h
  · cases h
  · cases h
    simp only [String.toList_append, List.mem_append]
    exact .inl (by decide)

/-! ## What building sources says -/

/-- The diagnostic is a warning. -/
def Diagnostic.isWarning (d : Diagnostic) : Bool :=
  d.severity == .warning

theorem Diagnostic.isWarning_eq_not (d : Diagnostic) : d.isWarning = !d.isError := by
  unfold isWarning isError
  cases d.severity <;> rfl

theorem countP_isWarning (diagnostics : List Diagnostic) :
    diagnostics.length - diagnostics.countP Diagnostic.isError =
      diagnostics.countP Diagnostic.isWarning := by
  have hsplit := List.length_eq_countP_add_countP Diagnostic.isError (l := diagnostics)
  have hwarning : diagnostics.countP (fun d => decide ¬ d.isError = true) =
      diagnostics.countP Diagnostic.isWarning := by
    refine List.countP_congr fun d _ => ?_
    rw [d.isWarning_eq_not]
    cases d.isError <;> simp
  omega

namespace Engine

/-- What is found to be said of sources when they are built, and nothing where none are. -/
def diagnosed (engine : Engine) (catalog : Catalog σ) : Option SourceUnit → List Diagnostic
  | none => []
  | some sources => (build sources.texts (engine.environment catalog)).2

/-- The same, as it is shown. -/
def diagnosedLines (engine : Engine) (catalog : Catalog σ) : Option SourceUnit → List String
  | none => []
  | some sources => (engine.diagnosed catalog (some sources)).map (diagnosticLine sources)

/-- To begin a call changes nothing that building sources depends on. -/
@[simp]
theorem diagnosed_begin (engine : Engine) (catalog : Catalog σ) (sources : Option SourceUnit) :
    engine.begin.diagnosed catalog sources = engine.diagnosed catalog sources := by
  cases sources <;> rfl

@[simp]
theorem diagnosedLines_begin (engine : Engine) (catalog : Catalog σ)
    (sources : Option SourceUnit) :
    engine.begin.diagnosedLines catalog sources = engine.diagnosedLines catalog sources := by
  cases sources <;> rfl

theorem diagnosedLines_eq_nil_iff (engine : Engine) (catalog : Catalog σ)
    (sources : Option SourceUnit) :
    engine.diagnosedLines catalog sources = [] ↔ engine.diagnosed catalog sources = [] := by
  cases sources with
  | none => simp [diagnosedLines, diagnosed]
  | some sources => simp [diagnosedLines]

/-- A part of a call has reported the diagnostics of the sources, if there are any, and nothing
else. It fails for their errors, which it counts, or there are none. -/
structure Reports (engine : Engine) (catalog : Catalog σ) (sources : Option SourceUnit)
    (result : Except EngineError α) (after : Engine) : Prop where
  report : after.report = engine.report.appendAll (engine.diagnosedLines catalog sources)
  notBuilt : ∀ errors, result = .error (.notBuilt errors) →
    errors = (engine.diagnosed catalog sources).countP Diagnostic.isError ∧ 1 ≤ errors
  built : (∀ errors, result ≠ .error (.notBuilt errors)) →
    (engine.diagnosed catalog sources).countP Diagnostic.isError = 0

variable {engine : Engine} {catalog : Catalog σ} {host : σ} {sources : SourceUnit}

/-- A part that goes on and reports nothing more, and does not fail for errors in sources unless it
has failed for them. -/
theorem Reports.next {unit : Option SourceUnit} {result : Except EngineError α} {after : Engine}
    (h : engine.Reports catalog unit result after) {last : Except EngineError β}
    {final : Engine} (hreport : final.report = after.report)
    (hlast : ∀ errors, last = .error (.notBuilt errors) ↔ result = .error (.notBuilt errors)) :
    engine.Reports catalog unit last final where
  report := hreport.trans h.report
  notBuilt := fun errors herrors => h.notBuilt errors ((hlast errors).mp herrors)
  built := fun hbuilt => h.built fun errors herrors => hbuilt errors ((hlast errors).mpr herrors)

theorem compile_reports {result : Except EngineError Linked} {after : Engine}
    (h : engine.compile catalog sources = (result, after)) :
    engine.Reports catalog (some sources) result after ∧ ∀ linked, result = .ok linked →
      linked.result =
        .ofCount ((engine.diagnosed catalog (some sources)).countP Diagnostic.isWarning) := by
  unfold compile at h
  cases hbuild : build sources.texts (engine.environment catalog) with
  | mk built diagnostics =>
    have hdiagnosed : engine.diagnosed catalog (some sources) = diagnostics :=
      congrArg Prod.snd hbuild
    have hlines : engine.diagnosedLines catalog (some sources) =
        diagnostics.map (diagnosticLine sources) := by
      rw [diagnosedLines, hdiagnosed]
    rw [hbuild] at h
    cases built with
    | none =>
      have hone := one_le_errors hbuild
      cases h
      refine ⟨⟨by rw [hlines]; rfl, fun errors herrors => ?_, fun hbuilt => ?_⟩, nofun⟩
      · cases herrors
        rw [hdiagnosed, Nat.max_eq_left hone]
        exact ⟨rfl, hone⟩
      · exact absurd rfl (hbuilt _)
    | some unit =>
      have hnone := no_errors hbuild
      have hlink : engine.program.link unit engine.view.allowed =
          .ok (engine.program.append unit engine.view.allowed) :=
        if_pos (accepts_of_build hbuild)
      dsimp only at h
      rw [if_pos hnone, countP_isWarning] at h
      unfold Engine.link at h
      simp only [reportAll, hlink] at h
      cases h
      refine ⟨⟨by rw [hlines], nofun, fun _ => by rw [hdiagnosed, hnone]⟩, ?_⟩
      intro linked hlinked
      cases hlinked
      rw [hdiagnosed]

theorem invoke_report {act : World σ → Option (Machine.Ending σ)} {reply : Reply σ Value}
    (h : engine.invoke host act = some reply) : reply.engine.report = engine.report ∧
      ∀ errors, reply.result ≠ .error (.notBuilt errors) := by
  obtain ⟨ending, -, rfl⟩ := Option.map_eq_some_iff.mp h
  unfold settle
  cases ending.result with
  | ok value => exact ⟨rfl, nofun⟩
  | error e => exact ⟨rfl, nofun⟩

theorem invokeEntry_report {fuel : Nat} {reply : Reply σ Value}
    (h : engine.invokeEntry catalog fuel host = some reply) :
    reply.engine.report = engine.report ∧ ∀ errors, reply.result ≠ .error (.notBuilt errors) := by
  unfold invokeEntry at h
  split at h
  · cases h
    exact ⟨rfl, nofun⟩
  · exact invoke_report h

/-- To take a value further, where that cannot fail for errors in sources, leaves such a failure
where it was. -/
theorem map_eq_notBuilt {reply : Reply σ α} {f : α → Except EngineError β}
    (hf : ∀ a errors, f a ≠ .error (.notBuilt errors)) (errors : Nat) :
    (reply.map f).result = .error (.notBuilt errors) ↔ reply.result = .error (.notBuilt errors) := by
  obtain ⟨result, after, host⟩ := reply
  cases result with
  | ok a => exact ⟨fun h => absurd h (hf a errors), nofun⟩
  | error e =>
    constructor
    · rintro ⟨⟩
      rfl
    · rintro ⟨⟩
      rfl

theorem map_ok_eq_notBuilt {reply : Reply σ α} (f : α → β) (errors : Nat) :
    (reply.map fun a => .ok (f a)).result = .error (.notBuilt errors) ↔
      reply.result = .error (.notBuilt errors) :=
  map_eq_notBuilt (fun _ _ h => by cases h) errors

theorem perform_reports {fuel : Nat} {reply : Reply σ (Linked × Value)}
    (h : engine.perform catalog fuel sources host = some reply) :
    engine.Reports catalog (some sources) reply.result reply.engine ∧
      ∀ linked value, reply.result = .ok (linked, value) → linked.result =
        .ofCount ((engine.diagnosed catalog (some sources)).countP Diagnostic.isWarning) := by
  unfold perform at h
  split at h
  · rename_i e after hcompile
    cases h
    obtain ⟨hreports, -⟩ := compile_reports hcompile
    exact ⟨hreports.next rfl fun errors => by simp, nofun⟩
  · rename_i linked after hcompile
    obtain ⟨hreports, hwarnings⟩ := compile_reports hcompile
    obtain ⟨inner, hinner, rfl⟩ := Option.map_eq_some_iff.mp h
    obtain ⟨hreport, hnot⟩ := invoke_report hinner
    refine ⟨hreports.next hreport fun errors => ?_, fun other value hresult => ?_⟩
    · rw [map_ok_eq_notBuilt]
      exact ⟨fun h => absurd h (hnot errors), nofun⟩
    · obtain ⟨result, after, host⟩ := inner
      cases result with
      | ok inner =>
        cases hresult
        exact hwarnings linked rfl
      | error e => cases hresult

theorem runUnit_reports {fuel : Nat} {reply : Reply σ BuildResult}
    (h : engine.runUnit catalog fuel sources host = some reply) :
    engine.Reports catalog (some sources) reply.result reply.engine ∧
      ∀ built, reply.result = .ok built → built =
        .ofCount ((engine.diagnosed catalog (some sources)).countP Diagnostic.isWarning) := by
  obtain ⟨⟨result, after, host⟩, hperformed, h⟩ := Option.bind_eq_some_iff.mp h
  obtain ⟨hreports, hwarnings⟩ := perform_reports hperformed
  cases result with
  | error e =>
    cases h
    exact ⟨hreports.next rfl fun errors => by simp, nofun⟩
  | ok performed =>
    obtain ⟨linked, value⟩ := performed
    obtain ⟨⟨result, final, host⟩, hinner, rfl⟩ := Option.map_eq_some_iff.mp h
    obtain ⟨hreport, hnot⟩ := invokeEntry_report hinner
    refine ⟨hreports.next hreport fun errors => ?_, fun built hbuilt => ?_⟩
    · rw [map_ok_eq_notBuilt]
      exact ⟨fun h => absurd h (hnot errors), nofun⟩
    · cases result with
      | ok inner =>
        cases hbuilt
        exact hwarnings linked value rfl
      | error e => cases hbuilt

/-- A part of a call that fails before any sources are built reports nothing. -/
theorem reports_nothing {e : EngineError} (h : ∀ errors, e ≠ .notBuilt errors) :
    engine.Reports catalog none (.error e : Except EngineError α) engine where
  report := rfl
  notBuilt := fun errors herrors => absurd (Except.error.inj herrors) (h errors)
  built := fun _ => rfl

/-- A source text that the caller hands over, where the engine takes it. -/
def handedOver (engine : Engine) (code : String) : Option SourceUnit :=
  match engine.mode with
  | .inline => some (.inline code)
  | .project _ => none

theorem evaluateUnit_reports {fuel : Nat} {code : String} {reply : Reply σ (Option Value)}
    (h : engine.evaluateUnit catalog fuel code host = some reply) :
    engine.Reports catalog (engine.handedOver code) reply.result reply.engine := by
  unfold handedOver
  unfold evaluateUnit at h
  split at h
  · rename_i hmode
    cases h
    rw [hmode]
    exact reports_nothing nofun
  · rename_i hmode
    obtain ⟨inner, hinner, rfl⟩ := Option.map_eq_some_iff.mp h
    rw [hmode]
    obtain ⟨hreports, -⟩ := perform_reports hinner
    exact hreports.next rfl fun errors => map_ok_eq_notBuilt _ errors

/-! ## The end of a call -/

/-- The lines that report how a call has failed. Errors in the sources have been reported. -/
def errorLines : Except EngineError α → List String
  | .ok _ => []
  | .error e => e.reportLine?.toList

/-- A call that begins with an empty report is left with the diagnostics of its sources and the line
of its error. -/
theorem finish_lastError [HasConsole σ] {unit : Option SourceUnit} {reply : Reply σ α}
    (h : engine.begin.Reports catalog unit reply.result reply.engine) :
    (finish reply).engine.lastError =
      trim (Report.onLines (engine.diagnosedLines catalog unit ++ errorLines reply.result)) := by
  have hclosing : closingReport reply.engine.report reply.result =
      Report.appendAll {} (engine.diagnosedLines catalog unit ++ errorLines reply.result) := by
    rw [← Report.appendAll_append, ← diagnosedLines_begin, h.report]
    unfold closingReport errorLines
    cases reply.result <;> rfl
  unfold finish Report.snapshot
  dsimp only
  rw [hclosing, Report.text_appendAll]
  simp

end Engine

/-! ## Calls at a site -/

/-- A console on which nothing is kept. -/
@[reducible]
def HasConsole.dropping : HasConsole σ where
  writeLine _ host := host

/-- The host once a last error has been shown, if there is one. -/
def announce [HasConsole σ] (lastError : String) (host : σ) : σ :=
  if lastError = "" then host else writeLine ("ERROR!\n" ++ lastError) host

/-- A call writes to the console at its end, and nowhere else. -/
theorem Engine.call_announces [HasConsole σ] (engine : Engine) (host : σ)
    (body : Engine → σ → Option (Reply σ α)) :
    engine.call host body = (@call σ α .dropping engine host body).map fun reply =>
      { reply with host := announce reply.engine.lastError reply.host } := by
  have hquiet (reply : Reply σ α) : (@finish σ α .dropping reply).host = reply.host := by
    unfold finish
    dsimp only
    split <;> rfl
  unfold call
  rw [Option.map_map]
  refine congrArg (Option.map · _) (funext fun reply => ?_)
  dsimp only [Function.comp]
  rw [hquiet]
  unfold finish announce Banner.reportError Banner.errorReport
  simp only [String.isEmpty_iff]

namespace Site

/-- The sources that a call builds, if it comes to that. -/
def sources (site : Site σ) : Request → Option SourceUnit
  | .runSource code | .evaluate code | .evaluateAs _ code => site.engine.handedOver code
  | .run => ((site.engine.provide : StateM Disk _).run site.disk).1.toOption

/-- The diagnostics of the sources that a call builds. -/
def diagnostics (site : Site σ) (request : Request) : List Diagnostic :=
  site.engine.diagnosed site.catalog (site.sources request)

/-- The lines that a call with a result has to report: those of its diagnostics in the order in
which they were found, and that of its error, unless that is errors in the sources. -/
def lines (site : Site σ) (request : Request) (result : Except EngineError Answer) : List String :=
  site.engine.diagnosedLines site.catalog (site.sources request) ++ Engine.errorLines result

/-- The report of a call is exact. -/
structure Exact (site : Site σ) (request : Request) (result : Except EngineError Answer)
    (lastError : String) : Prop where
  text : lastError = trim (Report.onLines (site.lines request result))
  empty_iff : lastError = "" ↔
    (∃ answer, result = .ok answer) ∧ ∀ d ∈ site.diagnostics request, d.isWarning = false
  warnings : ∀ count, result = .ok (.built (.warnings count)) →
    count = (site.diagnostics request).countP Diagnostic.isWarning ∧ 0 < count
  errors : ∀ count, result = .error (.notBuilt count) →
    count = (site.diagnostics request).countP Diagnostic.isError ∧ 1 ≤ count

variable {site later : Site σ} {fuel : Nat} {request : Request}
  {result : Except EngineError Answer}

/-- No line of a report is blank. -/
theorem lines_not_blank (site : Site σ) (request : Request) (result : Except EngineError Answer) :
    ∀ line ∈ site.lines request result, ∃ c ∈ line.toList, isBlank c = false := by
  intro line hline
  obtain hline | hline := List.mem_append.mp hline
  · unfold Engine.diagnosedLines at hline
    split at hline
    · cases hline
    · obtain ⟨d, -, rfl⟩ := List.mem_map.mp hline
      exact Engine.diagnosticLine_not_blank _ d
  · unfold Engine.errorLines at hline
    split at hline
    · cases hline
    · exact EngineError.reportLine_not_blank (Option.mem_toList.mp hline)

/-- The report is exact if the parts of the call have reported what they should. -/
theorem exact_of_reports {after : Engine}
    (h : site.engine.begin.Reports site.catalog (site.sources request) result after)
    (hwarnings : ∀ built, result = .ok (.built built) →
      built = .ofCount ((site.diagnostics request).countP Diagnostic.isWarning)) :
    site.Exact request result (trim (Report.onLines (site.lines request result))) := by
  have hnotBuilt := h.notBuilt
  have hbuilt := h.built
  rw [Engine.diagnosed_begin] at hnotBuilt hbuilt
  refine ⟨rfl, ?_, fun count hcount => ?_, hnotBuilt⟩
  · rw [trim_onLines_eq_empty_iff (lines_not_blank site request result)]
    unfold lines
    rw [List.append_eq_nil_iff, Engine.diagnosedLines_eq_nil_iff]
    constructor
    · rintro ⟨hdiagnosed, hline⟩
      unfold diagnostics
      rw [hdiagnosed] at hnotBuilt ⊢
      refine ⟨?_, nofun⟩
      cases result with
      | ok answer => exact ⟨answer, rfl⟩
      | error e =>
        cases e with
        | notBuilt errors =>
          obtain ⟨rfl, hone⟩ := hnotBuilt errors rfl
          cases hone
        | _ => cases hline
    · rintro ⟨⟨answer, rfl⟩, hwarning⟩
      refine ⟨List.eq_nil_iff_forall_not_mem.mpr fun d hd => ?_, rfl⟩
      have herror := List.countP_eq_zero.mp (hbuilt nofun) d hd
      have hnone := hwarning d hd
      rw [d.isWarning_eq_not, Bool.not_eq_false'] at hnone
      exact herror hnone
  · have hcounted := hwarnings _ hcount
    unfold BuildResult.ofCount at hcounted
    split at hcounted
    · cases hcounted
    · cases hcounted
      exact ⟨rfl, by omega⟩

/-- What a call does between its begin and its end reports what it should. -/
def ReportsOf (site : Site σ) (request : Request) (inner : Reply σ α) (answer : α → Answer) : Prop :=
  site.engine.begin.Reports site.catalog (site.sources request) inner.result inner.engine ∧
    ∀ a built, inner.result = .ok a → answer a = .built built →
      built = .ofCount ((site.diagnostics request).countP Diagnostic.isWarning)

/-- Sources are run as a whole. -/
theorem reportsOf_runUnit {unit : SourceUnit} (hsources : site.sources request = some unit)
    {inner : Reply σ BuildResult}
    (h : site.engine.begin.runUnit site.catalog fuel unit site.host = some inner) :
    site.ReportsOf request inner .built := by
  obtain ⟨hreports, hwarnings⟩ := Engine.runUnit_reports h
  unfold ReportsOf diagnostics
  rw [hsources]
  refine ⟨hreports, fun a built ha hbuilt => ?_⟩
  cases hbuilt
  rw [← Engine.diagnosed_begin]
  exact hwarnings a ha

/-- There are no sources to run. -/
theorem reportsOf_none (hsources : site.sources request = none) {e : EngineError}
    (he : ∀ errors, e ≠ .notBuilt errors) (answer : α → Answer) :
    site.ReportsOf request ⟨.error e, site.engine.begin, site.host⟩ answer := by
  unfold ReportsOf
  rw [hsources]
  exact ⟨Engine.reports_nothing he, fun _ _ hresult => by cases hresult⟩

/-- The report of a call is exact if what the call does reports what it should. -/
theorem exact_of_call [HasConsole σ] {answer : α → Answer}
    {body : Engine → σ → Option (Reply σ α)}
    (hbody : ∀ {inner : Reply σ α}, body site.engine.begin site.host = some inner →
      site.ReportsOf request inner answer)
    (h : (site.engine.call site.host body).map (site.take answer) = some (result, later)) :
    site.Exact request result later.engine.lastError := by
  obtain ⟨reply, hreply, htaken⟩ := Option.map_eq_some_iff.mp h
  obtain ⟨inner, hinner, rfl⟩ := Option.map_eq_some_iff.mp hreply
  obtain ⟨hreports, hwarnings⟩ := hbody hinner
  have hlast := Engine.finish_lastError hreports
  cases htaken
  have hresult : ∀ errors, inner.result.map answer = .error (.notBuilt errors) ↔
      inner.result = .error (.notBuilt errors) := fun errors => by
    cases inner.result <;> simp [Except.map]
  have hlines : site.lines request (inner.result.map answer) =
      site.engine.diagnosedLines site.catalog (site.sources request) ++
        Engine.errorLines inner.result := by
    unfold lines
    cases inner.result <;> rfl
  have hexact := exact_of_reports (hreports.next rfl hresult) fun built hbuilt => by
    cases hinner : inner.result with
    | ok a =>
      rw [hinner] at hbuilt
      exact hwarnings a built hinner (Except.ok.inj hbuilt)
    | error e =>
      rw [hinner] at hbuilt
      cases hbuilt
  rw [hlines, ← hlast] at hexact
  exact hexact

/-- After every call, whatever has happened before it, the last error is made of the lines that the
call has to report and of nothing else. There is none if and only if the call has succeeded and
nothing was worth a warning. The warnings and errors that the result speaks of are those among the
diagnostics, and they are not none. -/
theorem ask_exact [HasConsole σ] (h : site.ask fuel request = some (result, later)) :
    site.Exact request result later.engine.lastError := by
  cases request with
  | runSource code =>
    refine exact_of_call (fun {inner} hinner => ?_) h
    split at hinner
    · rename_i hmode
      refine reportsOf_runUnit ?_ hinner
      rw [sources, Engine.handedOver, show site.engine.mode = .inline from hmode]
    · rename_i dir hmode
      cases hinner
      refine reportsOf_none ?_ (fun _ h => by cases h) _
      rw [sources, Engine.handedOver, show site.engine.mode = .project dir from hmode]
  | run =>
    unfold ask at h
    rw [Engine.run_eq] at h
    refine exact_of_call (fun {inner} hinner => ?_) h
    split at hinner
    · rename_i unit hprovided
      refine reportsOf_runUnit ?_ hinner
      rw [sources, hprovided]
      rfl
    · rename_i e hprovided
      cases hinner
      refine reportsOf_none ?_ (fun errors herrors => ?_) _
      · rw [sources, hprovided]
        rfl
      · subst herrors
        obtain ⟨operation, mode, hmode⟩ | hreading := Engine.provide_error hprovided
        · cases hmode
        · cases hreading
  | evaluate code =>
    refine exact_of_call (fun hinner => ⟨?_, fun _ _ _ hbuilt => by cases hbuilt⟩) h
    exact Engine.evaluateUnit_reports hinner
  | evaluateAs kind code =>
    refine exact_of_call (fun hinner => ⟨?_, fun _ _ _ hbuilt => by cases hbuilt⟩) h
    obtain ⟨evaluated, hevaluated, rfl⟩ := Option.map_eq_some_iff.mp hinner
    refine (Engine.evaluateUnit_reports hevaluated).next rfl (Engine.map_eq_notBuilt fun value errors hvalue => ?_)
    obtain ⟨mismatch, hmismatch⟩ := Engine.convertTo_error hvalue
    cases hmismatch

/-- A call is what it is without a console, and the last error shown at its end. -/
theorem ask_announces [HasConsole σ] (site : Site σ) (fuel : Nat) (request : Request) :
    site.ask fuel request = (@ask σ .dropping site fuel request).map fun (result, quiet) =>
      (result, { quiet with host := announce quiet.engine.lastError quiet.host }) := by
  have htake {α : Type} (answer : α → Answer) (body : Engine → σ → Option (Reply σ α)) :
      (site.engine.call site.host body).map (site.take answer) =
        ((@Engine.call σ α .dropping site.engine site.host body).map (site.take answer)).map
          fun (result, quiet) =>
            (result, { quiet with host := announce quiet.engine.lastError quiet.host }) := by
    rw [Engine.call_announces, Option.map_map, Option.map_map]
    rfl
  cases request with
  | runSource code => exact htake _ _
  | run =>
    unfold ask
    rw [Engine.run_eq, @Engine.run_eq σ .dropping]
    exact htake _ _
  | evaluate code => exact htake _ _
  | evaluateAs kind code => exact htake _ _

end Site

end ScriptHost
