import ScriptHost.Proofs.Engine.History
import ScriptHost.Proofs.Machine.Labels
import ScriptHost.Proofs.Machine.Typed
/-!
# Classes and objects in a session

What is known of the classes and of the objects at hand in every session that is reached.
-/

set_option autoImplicit false

/-! ## Members of classes in a session

In every session that is reached, functions and classes belong together as they should, and no code
calls a member of a class by its number: `Session.Reached.labelled`. So every frame of every run has
its label, and runs code that some sources were turned into. -/

namespace ScriptHost

variable {σ : Type} {modules : HostModule σ → Prop} {held : σ → ObjectRef → Prop}

namespace Compilation

variable {c : Compilation σ}

theorem builtOn (hindexed : c.before.engine.program.Indexed) :
    c.unit.BuiltOn c.env c.declared c.resolved :=
  ⟨Declarations.sound_ofTexts c.before.engine.program c.texts, resolve_sound hindexed c.clean,
    c.lowered⟩

theorem lists : c.declared.Lists (Item.classesAll c.texts.flatten) c.written :=
  Declarations.lists_ofTexts c.before.engine.program c.texts

theorem membered_after (h : c.before.engine.program.Membered) :
    c.after.engine.program.Membered := by
  rw [c.program_eq]
  exact h.append (c.builtOn h.toIndexed) c.lists _

/-- What is called by its name is no member of a class. -/
theorem not_member_of_free (h : c.before.engine.program.Membered) {w : Written} {id : Nat}
    (hfree : (c.rules w).free id) {index : Nat} {found : Class}
    (hfound : c.after.engine.program.classes[index]? = some found) : ¬ found.Member id := by
  obtain ⟨name, hname⟩ := hfree
  rw [c.program_eq] at hfound
  exact h.not_member (c.builtOn h.toIndexed) c.lists hname hfound

/-- What is called by its name is a function. -/
theorem lt_of_free (h : c.before.engine.program.Indexed) {w : Written} {id : Nat}
    (hfree : (c.rules w).free id) : id < c.after.engine.program.functions.size := by
  rw [c.program_eq, Program.append, Array.size_append]
  obtain ⟨name, hname | hname⟩ := hfree
  · have hbuilt := c.builtOn h
    obtain ⟨place, w, rfl, hw, -⟩ := c.lists.free name id hname
    rw [hbuilt.declared.functionBase, hbuilt.size_eq, c.lists.functionCount]
    exact Nat.add_lt_add_left (List.getElem?_eq_some_iff.mp hw).1 _
  · exact Nat.lt_add_right _ (h.functionNames name id hname)

/-- The call of a function in code that sources were turned into is there for a function that a name
leads to. -/
theorem Makes.call_free {label : Option Nat} {w : Written} {places : Array Resolved.Spot}
    {chunk : Chunk} (h : c.Makes label w places chunk) {place id argc : Nat}
    (hop : chunk.ops[place]? = some (.call id argc)) : (c.rules w).free id := by
  obtain ⟨p, hp, hemits⟩ := h.told place _ hop
  have hexplained := h.explained p (Array.mem_of_getElem? hp)
  cases hemits with
  | plain plain => cases plain
  | call =>
    obtain hplain | ⟨part, -, hgives⟩ := hexplained
    · cases hplain
    · cases hgives with
      | expr resolved =>
        cases resolved with
        | call free _ | callFree _ free _ => exact free

end Compilation

namespace Session

/-- In every session that is reached functions and classes belong together as they should. -/
theorem Reached.membered {s : Session σ} (h : s.Reached modules held) :
    s.engine.program.Membered := by
  refine h.induct (fun s _ hprogram _ _ _ _ => ?_) fun s later _ hnext ih => ?_
  · rw [hprogram]
    exact Program.membered_empty
  · obtain ⟨sources, rfl⟩ | ⟨hprogram, -⟩ := hnext.program_cases
    · obtain ⟨hprogram, -⟩ | ⟨c, rfl, rfl⟩ := s.compile_cases sources
      · exact hprogram ▸ ih
      · exact c.membered_after ih
    · exact hprogram ▸ ih

/-- What was no member of a class is none of a class that has been linked since. -/
theorem Leads.not_member {s later : Session σ} (h : Leads modules held s later)
    (hreached : s.Reached modules held) {id : Nat} (hid : id < s.engine.program.functions.size)
    (hnone : ∀ (index : Nat) (c : Class), s.engine.program.classes[index]? = some c →
      ¬ c.Member id) :
    ∀ (index : Nat) (c : Class), later.engine.program.classes[index]? = some c →
      ¬ c.Member id := by
  induction h with
  | refl => exact hnone
  | @tail middle later hleads hnext ih =>
    have hmembered := (hreached.leads hleads).membered
    obtain ⟨sources, rfl⟩ | ⟨hprogram, -⟩ := hnext.program_cases
    · obtain ⟨hprogram, -⟩ | ⟨c, rfl, rfl⟩ := middle.compile_cases sources
      · exact hprogram ▸ ih
      · intro index found hfound hmember
        have hbuilt := c.builtOn hmembered.toIndexed
        have hprogram := c.program_eq
        rw [Compilation.after] at hprogram
        rw [hprogram] at hfound
        obtain hold | ⟨place, rfl, hnew⟩ := hbuilt.class_cases hfound
        · exact ih index found hold hmember
        · have hpast := hbuilt.le_of_writtenAt (c.lists.members place found id hnew hmember)
          have hold := (Leads.extends hleads).functions (Array.getElem?_eq_getElem hid)
          exact absurd (Array.getElem?_eq_some_iff.mp hold).1 (Nat.not_lt.mpr hpast)
    · exact hprogram ▸ ih

/-- In every session that is reached code is known by the functions that it belongs to, and calls no
member by its number. -/
theorem Reached.labelled {s : Session σ} (h : s.Reached modules held) :
    s.engine.program.Labelled s.Code where
  toMembered := h.membered
  functions := fun hf => .function hf
  calls := fun {label chunk place id argc index found} hcode hop hfound => by
    obtain ⟨c, w, places, hbefore, hleads, hmakes⟩ := h.made label chunk hcode
    have hfree := hmakes.call_free hop
    exact Leads.not_member hleads (hbefore.next (.compile c.sources))
      (c.lt_of_free hbefore.membered.toIndexed hfree)
      (fun _ _ => c.not_member_of_free hbefore.membered hfree) index found hfound

/-- The states in which the engine starts a run, with the function that the frame runs. -/
inductive StartsIn (s : Session σ) : Machine.State σ → Option Nat → Prop
  | topLevel {chunk : Chunk} (handedOut : chunk ∈ s.tops) :
      StartsIn s ⟨.start Machine.topLevelName chunk none [] .value, [], 0, s.world⟩ none
  | entry {id : Nat} {c : Class} {frame : Frame} {fields : Fields}
      (named : s.engine.program.classNames.get? entryClass = some id)
      (known : s.engine.program.classes[id]? = some c)
      (made : Machine.construct s.engine.program id [] s.world.heap = .ok (frame, fields)) :
      StartsIn s ⟨frame, [], 0, { s.world with heap := s.world.heap.alloc fields }⟩
        (some c.fieldInit)

/-- Every run starts with a label. -/
theorem starts_iff {s : Session σ} {first : Machine.State σ} :
    s.Starts first ↔ ∃ label, s.StartsIn first label := by
  constructor
  · rintro (handedOut | ⟨named, made⟩)
    · exact ⟨none, .topLevel handedOut⟩
    · obtain ⟨c, hc, -⟩ := Machine.construct_ok made
      exact ⟨_, .entry named hc made⟩
  · rintro ⟨_, handedOut | ⟨named, _, made⟩⟩
    · exact .topLevel handedOut
    · exact .entry named made

/-- A run starts in accord with its label. -/
theorem StartsIn.labelled {s : Session σ} (hreached : s.Reached modules held)
    {first : Machine.State σ} {label : Option Nat} (h : s.StartsIn first label) :
    first.Labelled s.engine.program s.Code [label] := by
  cases h with
  | topLevel handedOut =>
    exact .cons ⟨.topLevel handedOut, nofun, nofun⟩ .nil
  | entry named known made =>
    obtain ⟨c, hc, hframe⟩ := Machine.construct_labelled hreached.labelled made
    rw [known, Option.some.injEq] at hc
    exact .cons (hc ▸ hframe) .nil

/-- In every state of every run of a session that is reached the frames run the functions of their
labels. -/
theorem Reached.traced {s : Session σ} (hreached : s.Reached modules held)
    {first last : Machine.State σ} {label : Option Nat} {count : Nat}
    {labels : List (Option Nat)} (hstart : s.StartsIn first label)
    (htraced : Machine.Traced s.setting count first [label] last labels) :
    last.Labelled s.engine.program s.Code labels :=
  htraced.labelled hreached.labelled (hstart.labelled hreached)

end Session

end ScriptHost

/-! ## Objects in a session

In every session that is reached all objects at hand are of classes of the program and have the
fields of their classes, as long as the modules hand out no objects but those passed to them. What
an object is stays so whatever happens: its class, its fields and their order. -/

namespace ScriptHost.Session

open Machine

variable {σ : Type} {modules : HostModule σ → Prop} {held : σ → ObjectRef → Prop}

/-- From what the engine keeps and what the host has at hand only objects of a set can be reached,
and these have the fields of their classes. -/
structure Holds (held : σ → ObjectRef → Prop) (s : Session σ) (known : ObjectRef → Prop) :
    Prop where
  world : s.world.Encloses held known
  typed : s.engine.program.TypedAll s.engine.heap known

variable {s later : Session σ} {known : ObjectRef → Prop}

/-- A run of a session starts with objects at hand, and with one that it makes, if any. -/
theorem Starts.holds {first : State σ} (h : s.Starts first) (hreached : s.Reached modules held)
    (hknown : s.Holds held known) :
    ∃ others, first.Encloses held others ∧
      s.engine.program.TypedAll first.world.heap others ∧
        ∀ object, known object → others object := by
  cases h with
  | topLevel _ =>
    have hresume : Resume.Among known .value := trivial
    exact ⟨known, encloses_of_start (.start nofun nofun hresume _) hknown.world, hknown.typed,
      fun _ => id⟩
  | entry _ made =>
    obtain ⟨object, hobject, hframe, hafter⟩ := construct_encloses made nofun hknown.world
    exact ⟨_, encloses_of_start hframe hafter,
      hknown.typed.insert (Heap.later_alloc _ _) hobject hreached.membered.distinct,
      fun _ => .inl⟩

/-- In every state of a run all objects have the fields of their classes. -/
theorem Starts.steps {first last : State σ} (h : s.Starts first)
    (hreached : s.Reached modules held) (hkeeps : s.catalog.Keeps held)
    (hknown : s.Holds held known) {count : Nat} (hsteps : Steps s.setting count first last) :
    ∃ others, last.Encloses held others ∧ s.engine.program.TypedAll last.world.heap others ∧
      ∀ object, known object → others object := by
  obtain ⟨others, hfirst, htyped, hsub⟩ := h.holds hreached hknown
  obtain ⟨rest, hlast, htyped', hsub'⟩ := hsteps.typed hreached.sound.program
    hreached.membered.distinct hkeeps (h.safe hreached.sound) hfirst htyped
  exact ⟨rest, hlast, htyped', fun object hobject => hsub' object (hsub object hobject)⟩

/-- After a run all objects at hand have the fields of their classes. -/
theorem Holds.settle (h : s.Holds held known) (hreached : s.Reached modules held)
    (hkeeps : s.catalog.Keeps held) {first : State σ} (hstart : s.Starts first) {fuel : Nat}
    {reply : Reply σ Value}
    (hreply : (Machine.run s.setting fuel first).map s.settle = some reply) :
    ∃ others, (s.after reply).Holds held others ∧ ∀ object, known object → others object := by
  obtain ⟨ending, hrun, rfl⟩ := Option.map_eq_some_iff.mp hreply
  obtain ⟨others, hfirst, htyped, hsub⟩ := hstart.holds hreached h
  obtain ⟨rest, hending, htyped', hsub'⟩ := run_typed hreached.sound.program
    hreached.membered.distinct hkeeps (hstart.safe hreached.sound) hfirst htyped hrun
  refine ⟨rest, ?_, fun object hobject => hsub' object (hsub object hobject)⟩
  unfold Session.settle Engine.settle
  cases ending.result <;> exact ⟨hending.world, htyped'⟩

/-- Nothing but what an engine keeps from call to call matters, and what the host has at hand. -/
theorem Holds.same (h : s.Holds held known) (hsame : s.engine.SameStore later.engine)
    (fewer : ∀ object, held later.host object → held s.host object) : later.Holds held known := by
  obtain ⟨hworld, htyped⟩ := h
  refine ⟨⟨?_, ?_, fun object hobject => hworld.held object (fewer object hobject)⟩, ?_⟩
  · unfold Session.world
    rw [hsame.globals]
    exact hworld.globals
  · unfold Session.world
    rw [hsame.heap]
    exact hworld.fields
  · rw [hsame.program, hsame.heap]
    exact htyped

/-- All objects at hand have the fields of their classes after sources have been linked. -/
theorem Holds.compile (h : s.Holds held known) (sources : SourceUnit) :
    (s.compile sources).Holds held known := by
  obtain ⟨e, -, hsame⟩ | ⟨linked, -, hlinks⟩ := s.engine.compile_cases s.catalog sources
  · exact h.same hsame fun _ => id
  · obtain ⟨hworld, htyped⟩ := h
    obtain ⟨unit, _, -, hlink, -⟩ := hlinks.built
    obtain ⟨-, -, -, happend⟩ := link_ok hlink
    have hext := s.engine.program.extends_append unit s.engine.view.allowed
    rw [← happend] at hext
    refine ⟨⟨?_, ?_, hworld.held⟩, ?_⟩
    · unfold Session.world Session.compile
      rw [hlinks.globals]
      intro value hvalue
      obtain hold | hnull := Array.mem_append.mp hvalue
      · exact hworld.globals value hold
      · rw [(Array.mem_replicate.mp hnull).2]
        exact Value.among_null
    · unfold Session.world Session.compile
      rw [hlinks.heap]
      exact hworld.fields
    · unfold Session.compile
      rw [hlinks.heap]
      exact htyped.extends hext

/-- Whatever happens in a session, the objects at hand have the fields of their classes, and those
that were there stay what they are. -/
theorem Next.holds (h : Next modules held s later) (hreached : s.Reached modules held)
    (hkeeps : s.catalog.Keeps held) (hknown : s.Holds held known) :
    ∃ others, later.Holds held others ∧ ∀ object, known object → others object := by
  cases h with
  | load _ | unload _ | register _ | begin =>
    exact ⟨known, hknown.same ⟨rfl, rfl, rfl⟩ fun _ => id, fun _ => id⟩
  | host fewer => exact ⟨known, hknown.same ⟨rfl, rfl, rfl⟩ fewer, fun _ => id⟩
  | finish finished fewer =>
    exact ⟨known, hknown.same (Engine.finish_same finished) fewer, fun _ => id⟩
  | compile sources => exact ⟨known, hknown.compile sources, fun _ => id⟩
  | execute handedOut replied =>
    obtain ⟨first, hstart, hruns⟩ := execute_runs handedOut
    exact hknown.settle hreached hkeeps hstart ((hruns _).symm.trans replied)
  | invokeEntry replied =>
    obtain ⟨missing, -, hworld, hmissing⟩ | ⟨first, hstart, hruns⟩ :=
      invokeEntry_runs hreached.sound
    · rw [hmissing, Option.some.injEq] at replied
      subst replied
      have hhost : missing.host = s.host := (congrArg World.host hworld).symm
      have hsame : s.engine.SameStore missing.engine :=
        ⟨invokeEntry_program (hmissing 0), (congrArg World.globals hworld).symm,
          (congrArg World.heap hworld).symm⟩
      refine ⟨known, hknown.same hsame fun object hobject => ?_, fun _ => id⟩
      exact hhost ▸ hobject
    · exact hknown.settle hreached hkeeps hstart ((hruns _).symm.trans replied)

/-- The modules keep to the objects at hand, and these have the fields of their classes. -/
structure Closed (held : σ → ObjectRef → Prop) (s : Session σ) : Prop where
  keeps : s.catalog.Keeps held
  holds : ∃ known, s.Holds held known

/-- In every session that is reached all objects at hand have the fields of their classes, if the
modules keep to the objects at hand. -/
theorem Reached.closed (hmodules : ∀ module, modules module → module.Keeps held)
    (h : s.Reached modules held) : s.Closed held := by
  refine ⟨h.made_catalog.keeps hmodules, ?_⟩
  refine h.induct (fun s _ hprogram hheap hglobals hempty _ => ?_)
    fun s later hreached hnext ih => ?_
  · refine ⟨fun _ => False, ⟨?_, nofun, fun object hobject => absurd hobject (hempty object)⟩,
      nofun, nofun⟩
    unfold world
    rw [hglobals]
    nofun
  · obtain ⟨known, hknown⟩ := ih
    obtain ⟨others, hothers, -⟩ :=
      hnext.holds hreached (hreached.made_catalog.keeps hmodules) hknown
    exact ⟨others, hothers⟩

/-! ## Fields -/

/-- The first state of a run has all objects of the session, with their fields. -/
theorem Starts.heap_later {first : State σ} (h : s.Starts first) :
    s.engine.heap.Later first.world.heap := by
  cases h with
  | topLevel _ => exact .refl _
  | entry _ _ => exact Heap.later_alloc _ _

/-- After a run all objects of the session have their fields. -/
theorem Starts.settle_later {first : State σ} (h : s.Starts first) {fuel : Nat}
    {reply : Reply σ Value}
    (hreply : (Machine.run s.setting fuel first).map s.settle = some reply) :
    s.engine.heap.Later reply.engine.heap := by
  obtain ⟨ending, hrun, rfl⟩ := Option.map_eq_some_iff.mp hreply
  have hlater := h.heap_later.trans (run_heap_later hrun)
  unfold Session.settle Engine.settle
  cases ending.result <;> exact hlater

/-- Whatever happens in a session, all objects keep their fields. -/
theorem Next.heap_later (h : Next modules held s later) (hsound : s.Sound) :
    s.engine.heap.Later later.engine.heap := by
  cases h with
  | load _ | unload _ | register _ | begin | host _ => exact .refl _
  | finish finished _ =>
    have hsame := (Engine.finish_same finished).heap
    unfold Session.after
    rw [hsame]
    exact .refl _
  | compile sources =>
    unfold Session.compile
    obtain ⟨e, -, hsame⟩ | ⟨linked, -, hlinks⟩ := s.engine.compile_cases s.catalog sources
    · rw [hsame.heap]
      exact .refl _
    · rw [hlinks.heap]
      exact .refl _
  | execute handedOut replied =>
    obtain ⟨first, hstart, hruns⟩ := execute_runs handedOut
    exact hstart.settle_later ((hruns _).symm.trans replied)
  | invokeEntry replied =>
    obtain ⟨missing, -, hworld, hmissing⟩ | ⟨first, hstart, hruns⟩ := invokeEntry_runs hsound
    · rw [hmissing, Option.some.injEq] at replied
      subst replied
      have hheap : s.engine.heap = missing.engine.heap := congrArg World.heap hworld
      rw [hheap]
      exact .refl _
    · exact hstart.settle_later ((hruns _).symm.trans replied)

/-- All objects keep their fields as long as the session goes on. -/
theorem Leads.heap_later (h : Leads modules held s later) (hreached : s.Reached modules held) :
    s.engine.heap.Later later.engine.heap := by
  induction h with
  | refl => exact .refl _
  | tail hleads hnext ih => exact ih.trans (hnext.heap_later (hreached.leads hleads).sound)

/-! ## Objects at hand -/

/-- Objects at hand stay what they are as long as the session goes on. -/
theorem Leads.holds (hmodules : ∀ module, modules module → module.Keeps held)
    (h : Leads modules held s later) (hreached : s.Reached modules held)
    (hknown : s.Holds held known) :
    ∃ others, later.Holds held others ∧ ∀ object, known object → others object := by
  induction h with
  | refl => exact ⟨known, hknown, fun _ => id⟩
  | tail hleads hnext ih =>
    obtain ⟨others, hothers, hsub⟩ := ih
    have hmiddle := hreached.leads hleads
    obtain ⟨rest, hrest, hsub'⟩ :=
      hnext.holds hmiddle (hmiddle.made_catalog.keeps hmodules) hothers
    exact ⟨rest, hrest, fun object hobject => hsub' object (hsub object hobject)⟩

end ScriptHost.Session
