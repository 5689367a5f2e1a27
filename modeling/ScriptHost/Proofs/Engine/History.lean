import Mathlib.Logic.Relation
import ScriptHost.Proofs.Engine.Reached
import ScriptHost.Proofs.Scope.Parts
/-!
# Where code comes from

A session goes on step by step, and `Session.Leads` says that one leads to another. Whatever code a
session has, some sources were built and linked to get it, in a session that led to this one:
`Session.Reached.made`. A `Compilation` is such an event, with all that came of it, down to the part
of a source text that each instruction is there for.
-/

set_option autoImplicit false

namespace ScriptHost

variable {σ : Type} {modules : HostModule σ → Prop} {held : σ → ObjectRef → Prop}

namespace Session

/-- The steps of sessions, as in `Session.Reached`. -/
inductive Next (modules : HostModule σ → Prop) (held : σ → ObjectRef → Prop) :
    Session σ → Session σ → Prop
  | load {s : Session σ} {module : HostModule σ} (allowed : modules module) :
      Next modules held s { s with catalog := s.catalog.load module }
  | unload {s : Session σ} (name : String) :
      Next modules held s { s with catalog := (s.catalog.unload name).2 }
  | host {s : Session σ} {host : σ} (fewer : ∀ object, held host object → held s.host object) :
      Next modules held s { s with host }
  | register {s : Session σ} (names : List String) :
      Next modules held s { s with engine := s.engine.registerModules s.catalog names }
  | begin {s : Session σ} : Next modules held s { s with engine := s.engine.begin }
  | compile {s : Session σ} (sources : SourceUnit) : Next modules held s (s.compile sources)
  | execute {s : Session σ} {fuel : Nat} {linked : Linked} {reply : Reply σ Value}
      (handedOut : linked.topLevel ∈ s.tops)
      (replied : s.engine.execute s.catalog fuel linked s.host = some reply) :
      Next modules held s (s.after reply)
  | invokeEntry {s : Session σ} {fuel : Nat} {reply : Reply σ Value}
      (replied : s.engine.invokeEntry s.catalog fuel s.host = some reply) :
      Next modules held s (s.after reply)
  | finish [HasConsole σ] {α : Type} {s : Session σ} {result : Except EngineError α}
      {reply : Reply σ α} (finished : Engine.finish ⟨result, s.engine, s.host⟩ = reply)
      (fewer : ∀ object, held reply.host object → held s.host object) :
      Next modules held s (s.after reply)

/-- A session comes before another, or is the same. -/
abbrev Leads (modules : HostModule σ → Prop) (held : σ → ObjectRef → Prop) :
    Session σ → Session σ → Prop :=
  Relation.ReflTransGen (Next modules held)

/-- A step from a session that is reached. -/
theorem Reached.next {s later : Session σ} (h : s.Reached modules held)
    (hnext : Next modules held s later) : later.Reached modules held := by
  cases hnext with
  | load allowed => exact .load h allowed
  | unload name => exact .unload h name
  | host fewer => exact .host h fewer
  | register names => exact .register h names
  | begin => exact .begin h
  | compile sources => exact .compile h sources
  | execute handedOut replied => exact .execute h handedOut replied
  | invokeEntry replied => exact .invokeEntry h replied
  | finish finished fewer => exact .finish h finished fewer

/-- What a session that is reached leads to is reached. -/
theorem Reached.leads {s later : Session σ} (h : s.Reached modules held)
    (hleads : Leads modules held s later) : later.Reached modules held := by
  induction hleads with
  | refl => exact h
  | tail _ hnext ih => exact ih.next hnext

/-- What is true of every session with a new engine, and is kept by every step, is true of every
session that is reached. -/
@[elab_as_elim]
theorem Reached.induct {motive : Session σ → Prop} {s : Session σ} (h : s.Reached modules held)
    (start : ∀ (s : Session σ), s.catalog.Made modules → s.engine.program = {} →
      s.engine.heap = {} → s.engine.globals = #[] → (∀ object, ¬ held s.host object) →
        s.tops = [] → motive s)
    (next : ∀ (s later : Session σ), s.Reached modules held → Next modules held s later →
      motive s → motive later) : motive s := by
  induction h with
  | inline made empty config => exact start _ made rfl rfl rfl empty rfl
  | project made empty dir config => exact start _ made rfl rfl rfl empty rfl
  | load reached allowed ih => exact next _ _ reached (.load allowed) ih
  | unload reached name ih => exact next _ _ reached (.unload name) ih
  | host reached fewer ih => exact next _ _ reached (.host fewer) ih
  | register reached names ih => exact next _ _ reached (.register names) ih
  | begin reached ih => exact next _ _ reached .begin ih
  | compile reached sources ih => exact next _ _ reached (.compile sources) ih
  | execute reached handedOut replied ih => exact next _ _ reached (.execute handedOut replied) ih
  | invokeEntry reached replied ih => exact next _ _ reached (.invokeEntry replied) ih
  | finish reached finished fewer ih => exact next _ _ reached (.finish finished fewer) ih

/-- In every session that is reached the catalog is one that a host can have. -/
theorem Reached.made_catalog {s : Session σ} (h : s.Reached modules held) :
    s.catalog.Made modules := by
  refine h.induct (fun s made _ _ _ _ _ => made) fun s later _ hnext ih => ?_
  cases hnext with
  | load allowed => exact .load ih allowed
  | unload name => exact .unload ih name
  | _ => exact ih

/-- Only where sources are linked do the program and the top levels change. -/
theorem Next.program_cases {s later : Session σ} (h : Next modules held s later) :
    (∃ sources, later = s.compile sources) ∨
      later.engine.program = s.engine.program ∧ later.tops = s.tops := by
  cases h with
  | compile sources => exact .inl ⟨sources, rfl⟩
  | load _ | unload _ | host _ | register _ | begin => exact .inr ⟨rfl, rfl⟩
  | execute _ replied =>
    obtain ⟨-, -, hprogram, -⟩ := Engine.invoke_reply replied
    exact .inr ⟨hprogram, rfl⟩
  | invokeEntry replied => exact .inr ⟨invokeEntry_program replied, rfl⟩
  | finish finished _ => exact .inr ⟨(Engine.finish_same finished).program, rfl⟩

end Session

/-! ## Compilations -/

/-- Sources that a session builds and links, and what comes of them. -/
structure Compilation (σ : Type) where
  before : Session σ
  sources : SourceUnit
  /-- What the source texts are read as. -/
  texts : List (List Item)
  unit : CompiledUnit
  read : ReadFrom sources.texts texts
  clean : (resolve texts (before.engine.environment before.catalog)).2.any Diagnostic.isError =
    false
  compiled : (resolve texts (before.engine.environment before.catalog)).1.compile
    before.engine.program.bindings.size = .ok unit
  linked : before.engine.program.link unit before.engine.view.allowed =
    .ok (before.compile sources).engine.program
  handedOut : (before.compile sources).tops = unit.topLevel :: before.tops

namespace Compilation

variable (c : Compilation σ)

/-- The session afterwards. -/
def after : Session σ :=
  c.before.compile c.sources

/-- What the sources are built against. -/
def env : Env :=
  c.before.engine.environment c.before.catalog

/-- What the sources declare. -/
def declared : Declarations :=
  .ofTexts c.before.engine.program c.texts

/-- The trees of the unit. -/
def resolved : Resolved.Unit :=
  (resolve c.texts c.env).1

/-- The bodies in the sources. -/
def written : List Written :=
  Item.writtenAll 0 c.texts.flatten

/-- What is made sure of in a body. -/
def rules (w : Written) : Scope.Rules :=
  Scope.Context.rulesOf { env := c.env, declared := c.declared } w.member

/-- The code that the sources are turned into: a chunk, the number of its function, if it is not the
top level, the body that it is made from, and its places. -/
inductive Makes : Option Nat → Written → Array Resolved.Spot → Chunk → Prop
  | function {index : Nat} {f : Function} {w : Written} {tree : Resolved.Function}
      (compiled : c.unit.functions[index]? = some f)
      (resolved : c.resolved.functions[index]? = some tree)
      (written : c.written[index]? = some w) :
      Makes (some (c.before.engine.program.functions.size + index)) w
        (Resolved.bodyPlaces tree.body) f.chunk
  | topLevel :
      Makes none ⟨none, .body (Item.statementsAll c.texts.flatten)⟩
        (Resolved.topLevelPlaces c.resolved.returnsValue c.resolved.topLevel) c.unit.topLevel

variable {c}

theorem lowered : Code.UnitLowered c.before.engine.program.bindings.size c.unit c.resolved :=
  Code.compile_ok c.compiled

/-- The program afterwards is the one before with the unit appended. -/
theorem program_eq : c.after.engine.program =
    c.before.engine.program.append c.unit c.before.engine.view.allowed :=
  (link_ok c.linked).2.2.2

theorem extends_before : c.after.engine.program.Extends c.before.engine.program := by
  rw [program_eq]
  exact Program.extends_append ..

/-- Every function of the unit is made from a body. -/
theorem makes_function {index : Nat} {f : Function} (h : c.unit.functions[index]? = some f) :
    ∃ w places, c.Makes (some (c.before.engine.program.functions.size + index)) w places
      f.chunk := by
  have hlength := c.lowered.functions.length_eq
  rw [Array.length_toList, Array.length_toList] at hlength
  have hinside := (Array.getElem?_eq_some_iff.mp h).1
  rw [hlength] at hinside
  have htree := Array.getElem?_eq_getElem hinside
  obtain ⟨w, hw, -⟩ := (resolve_bodies c.clean).1 index _ htree
  exact ⟨w, _, .function h htree hw⟩

/-- The places of the code are right for it. -/
theorem Makes.marked {label : Option Nat} {w : Written} {places : Array Resolved.Spot}
    {chunk : Chunk} (h : c.Makes label w places chunk) : Marked places chunk.ops := by
  cases h with
  | function compiled resolved _ =>
    rw [← Array.getElem?_toList] at compiled resolved
    exact (forall₂_getElem? c.lowered.functions compiled resolved).body.marked
  | topLevel => exact c.lowered.topLevel.marked

/-- The places of the code tell what each instruction is there for. -/
theorem Makes.told {label : Option Nat} {w : Written} {places : Array Resolved.Spot}
    {chunk : Chunk} (h : c.Makes label w places chunk) :
    Told ⟨chunk.constants, c.unit.hostCalls⟩ c.before.engine.program.bindings.size places
      chunk.ops := by
  cases h with
  | function compiled resolved _ =>
    rw [← Array.getElem?_toList] at compiled resolved
    exact (forall₂_getElem? c.lowered.functions compiled resolved).body.told
  | topLevel => exact c.lowered.topLevel.told

/-- The places of the code are there for parts of the body. -/
theorem Makes.explained {label : Option Nat} {w : Written} {places : Array Resolved.Spot}
    {chunk : Chunk} (h : c.Makes label w places chunk) :
    ∀ p ∈ places, Scope.Explains (c.rules w) w.source.parts p := by
  have hbodies := resolve_bodies c.clean
  cases h with
  | function compiled resolved written =>
    obtain ⟨w', hw', hresolves⟩ := hbodies.1 _ _ resolved
    obtain rfl : w' = w := Option.some.inj (hw'.symm.trans written)
    exact hresolves.origins
  | topLevel => exact hbodies.2.topLevel_origins c.resolved.returnsValue

end Compilation

namespace Session

/-- Sources are built and linked, or nothing happens to the program. -/
theorem compile_cases (s : Session σ) (sources : SourceUnit) :
    ((s.compile sources).engine.program = s.engine.program ∧ (s.compile sources).tops = s.tops) ∨
      ∃ c : Compilation σ, c.before = s ∧ c.sources = sources := by
  obtain ⟨e, hresult, hsame⟩ | ⟨linked, hresult, hlinks⟩ :=
    s.engine.compile_cases s.catalog sources
  · refine .inl ⟨hsame.program, ?_⟩
    simp only [compile, hresult]
  · obtain ⟨unit, diagnostics, hbuild, hlink, htop⟩ := hlinks.built
    obtain ⟨texts, hread, rfl, hclean, hcompiled⟩ := build_ok hbuild
    have htops : (s.compile sources).tops = unit.topLevel :: s.tops := by
      simp only [compile, hresult, htop]
    exact .inr ⟨⟨s, sources, texts, unit, hread, hclean, hcompiled, hlink, htops⟩, rfl, rfl⟩

theorem Next.extends {s later : Session σ} (h : Next modules held s later) :
    later.engine.program.Extends s.engine.program := by
  obtain ⟨sources, rfl⟩ | ⟨hprogram, -⟩ := h.program_cases
  · obtain ⟨hprogram, -⟩ | ⟨c, rfl, rfl⟩ := s.compile_cases sources
    · exact hprogram ▸ .refl _
    · exact c.extends_before
  · exact hprogram ▸ .refl _

theorem Leads.extends {s later : Session σ} (h : Leads modules held s later) :
    later.engine.program.Extends s.engine.program := by
  induction h with
  | refl => exact .refl _
  | tail _ hnext ih => exact hnext.extends.trans ih

/-- The code of a session: of a function, under its number, or of a top level. -/
inductive Code (s : Session σ) : Option Nat → Chunk → Prop
  | function {id : Nat} {f : Function} (known : s.engine.program.functions[id]? = some f) :
      Code s (some id) f.chunk
  | topLevel {chunk : Chunk} (handedOut : chunk ∈ s.tops) : Code s none chunk

/-- Code of a session has come from sources that were built and linked before. -/
def Code.Made (modules : HostModule σ → Prop) (held : σ → ObjectRef → Prop) (s : Session σ)
    (label : Option Nat) (chunk : Chunk) : Prop :=
  ∃ (c : Compilation σ) (w : Written) (places : Array Resolved.Spot),
    c.before.Reached modules held ∧ Leads modules held c.after s ∧ c.Makes label w places chunk

/-- All code of a session has come from sources that were built and linked before. -/
theorem Reached.made {s : Session σ} (h : s.Reached modules held) :
    ∀ label chunk, s.Code label chunk → Code.Made modules held s label chunk := by
  refine h.induct (fun s _ hprogram _ _ _ htops => ?_) fun s later hreached hnext ih => ?_
  · rintro label chunk (⟨known⟩ | ⟨handedOut⟩)
    · rw [hprogram] at known
      simp at known
    · rw [htops] at handedOut
      cases handedOut
  · have hkeep : ∀ label chunk, s.Code label chunk → Code.Made modules held later label chunk := by
      intro label chunk hcode
      obtain ⟨c, w, places, hbefore, hleads, hmakes⟩ := ih label chunk hcode
      exact ⟨c, w, places, hbefore, hleads.tail hnext, hmakes⟩
    have hsame : later.engine.program = s.engine.program → later.tops = s.tops →
        ∀ label chunk, later.Code label chunk → Code.Made modules held later label chunk := by
      rintro hprogram htops label chunk (⟨known⟩ | ⟨handedOut⟩)
      · exact hkeep _ _ (.function (hprogram ▸ known))
      · exact hkeep _ _ (.topLevel (htops ▸ handedOut))
    obtain ⟨sources, rfl⟩ | ⟨hprogram, htops⟩ := hnext.program_cases
    · obtain ⟨hprogram, htops⟩ | ⟨c, rfl, rfl⟩ := s.compile_cases sources
      · exact hsame hprogram htops
      · have hnew : ∀ {label w places chunk}, c.Makes label w places chunk →
            Code.Made modules held c.after label chunk := fun hmakes =>
          ⟨c, _, _, hreached, .refl, hmakes⟩
        rintro label chunk (@⟨id, f, known⟩ | ⟨handedOut⟩)
        · have hprogram := c.program_eq
          rw [Compilation.after] at hprogram
          rw [hprogram, Program.append, Array.getElem?_append] at known
          split at known
          · exact hkeep _ _ (.function known)
          · rename_i hpast
            obtain ⟨w, places, hmakes⟩ := c.makes_function known
            rw [Nat.add_sub_cancel' (Nat.le_of_not_lt hpast)] at hmakes
            exact hnew hmakes
        · rw [c.handedOut] at handedOut
          obtain rfl | hold := List.mem_cons.mp handedOut
          · exact hnew .topLevel
          · exact hkeep _ _ (.topLevel hold)
    · exact hsame hprogram htops

end Session

end ScriptHost
