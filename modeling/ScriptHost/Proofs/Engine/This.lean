import ScriptHost.Proofs.Code.Places
import ScriptHost.Proofs.Engine.Objects
import ScriptHost.Proofs.Engine.WellFormed
import ScriptHost.Proofs.Machine.Framewise
import ScriptHost.Proofs.Machine.Sound
/-!
# Whatever is said of `this` holds

When a body in a class is built, accesses to `this` are checked against the class, and the checks
are right for good: a frame that runs the body has as `this` an object of just this class, which has
the fields that the class declares. So an instruction that is there for such an access does not
fail, whatever has been linked since, and whichever class has taken the name.

The main statement is `Session.this_is_sound`.
-/

set_option autoImplicit false

namespace ScriptHost

/-! ## Which operands are `this`

The marks of the places of code are right in every run: an operand that is marked is what the frame
has as `this`. A frame that waits for a value will have it so once it gets the value, whatever that
is. -/

section

/-- A stack shows what marks say: an operand that is marked is `this`. -/
def Shows (this : Value) (marks : List Bool) (stack : List Value) : Prop :=
  List.Forall₂ (fun mark value => mark = true → value = this) marks stack

theorem Shows.weaker {this : Value} {few many : List Bool} {stack : List Value}
    (h : Shows this many stack) (hweaker : Weaker few many) : Shows this few stack := by
  induction hweaker generalizing stack with
  | nil => exact h
  | cons hmark _ ih =>
    cases h with
    | cons hvalue hrest => exact .cons (fun htrue => hvalue (hmark htrue)) (ih hrest)

/-- An operand that is marked is `this`. -/
theorem Shows.get {this : Value} {marks : List Bool} {stack : List Value}
    (h : Shows this marks stack) {place : Nat} (hmark : marks[place]? = some true) :
    stack[place]? = some this := by
  induction h generalizing place with
  | nil => cases hmark
  | cons hvalue _ ih =>
    cases place with
    | zero => exact congrArg some (hvalue (Option.some.inj hmark))
    | succ place => exact ih hmark

/-- Values of which nothing is claimed. -/
theorem shows_unmarked (this : Value) (values : List Value) :
    Shows this (List.replicate values.length false) values := by
  induction values with
  | nil => exact .nil
  | cons value rest ih => exact .cons (fun h => by cases h) ih

/-- What an instruction leaves on the stack. -/
theorem shows_leaves {this : Value} {op : Op} {values : List Value}
    (hlength : values.length = op.puts) (hthis : op = .loadThis → values = [this]) :
    Shows this op.leaves values := by
  by_cases hop : op = .loadThis
  · rw [hthis hop, hop]
    exact .cons (fun _ => rfl) .nil
  · have hleaves : op.leaves = List.replicate values.length false := by
      rw [hlength]
      cases op <;> first | rfl | exact absurd rfl hop
    rw [hleaves]
    exact shows_unmarked this values

/-- The operand stack of a frame shows the marks of its place, whichever places for the code are
taken. -/
def Frame.Shows (frame : Frame) : Prop :=
  ∀ places, Marked places frame.chunk.ops →
    ∃ p, places[frame.ip]? = some p ∧ ScriptHost.Shows frame.thisValue p.marks frame.stack

/-- So does that of a frame that waits for a value, once it has got the value. -/
def Frame.Awaits (frame : Frame) : Prop :=
  ∀ value, (frame.push value).Shows

/-- A frame starts with an empty stack. -/
theorem Frame.shows_start (name : String) (chunk : Chunk) (this : Option ObjectRef)
    (args : List Value) (resume : Resume) : (Frame.start name chunk this args resume).Shows := by
  intro places hmarked
  obtain ⟨p, hp, hweaker⟩ := hmarked.entry
  exact ⟨p, hp, Shows.weaker .nil hweaker⟩

namespace Machine

variable {σ : Type} {setting : Setting σ}

/-- A frame that has moved shows the marks of the place that it has come to, as soon as all that the
instruction leaves is on the stack. -/
theorem Moves.shows {frame after : Frame} {op : Op} {values : List Value} (h : frame.Shows)
    (hop : frame.chunk.ops[frame.ip]? = some op) (hmoves : Moves op (advance frame) after values)
    (owed : List Value) (hleaves : Shows frame.thisValue op.leaves (owed ++ values)) :
    Frame.Shows { after with stack := owed ++ after.stack } := by
  intro places hmarked
  have hmarked : Marked places frame.chunk.ops := hmoves.chunk ▸ hmarked
  obtain ⟨p, hp, hshows⟩ := h places hmarked
  obtain ⟨p', hp', -, hleads⟩ := hmarked.fits _ op hop
  obtain rfl : p = p' := Option.some.inj (hp.symm.trans hp')
  obtain ⟨q, hq, hweaker⟩ := hleads after.ip hmoves.ip
  have hthis : after.thisValue = frame.thisValue := by
    rw [Frame.thisValue, hmoves.this]
    rfl
  have hstack : owed ++ after.stack = (owed ++ values) ++ frame.stack.drop op.needs := by
    rw [hmoves.stack, List.append_assoc]
    rfl
  refine ⟨q, hq, Shows.weaker ?_ hweaker⟩
  change Shows after.thisValue _ (owed ++ after.stack)
  rw [hthis, hstack]
  exact List.rel_append hleaves (List.forall₂_drop op.needs hshows)

/-- The frame goes on. -/
theorem Acts.shows {frame after : Frame} {world world' : World σ} {op : Op} (h : frame.Shows)
    (hop : frame.chunk.ops[frame.ip]? = some op)
    (hacts : Acts setting (advance frame) world op (.next after world')) : after.Shows := by
  obtain ⟨values, hlength, hthis, hmoves⟩ := hacts.moves
  exact hmoves.shows h hop [] (shows_leaves hlength hthis)

/-- The frame waits for a value. -/
theorem Acts.awaits {frame after callee : Frame} {world world' : World σ} {op : Op}
    (h : frame.Shows) (hop : frame.chunk.ops[frame.ip]? = some op)
    (hacts : Acts setting (advance frame) world op (.enter after callee world')) :
    after.Awaits := by
  intro value
  obtain ⟨hputs, hne, hmoves⟩ := hacts.waits
  exact hmoves.shows h hop [value] (shows_leaves hputs.symm fun hop => absurd hop hne)

/-- What instructions do keeps the marks right. -/
theorem shows_framewise (setting : Setting σ) : Framewise setting Frame.Shows Frame.Awaits where
  starts := Frame.shows_start
  goes := fun h hop hacts => hacts.shows h hop
  pauses := fun h hop hacts => hacts.awaits h hop
  resumes := fun h value => h value

/-- All frames show the marks of their places, those that wait as soon as they go on. -/
abbrev State.Shows (state : State σ) : Prop :=
  state.Framed Frame.Shows Frame.Awaits

/-- Every run keeps the marks right. -/
theorem Steps.shows {count : Nat} {first last : State σ} (hsteps : Steps setting count first last)
    (h : first.Shows) : last.Shows :=
  (shows_framewise setting).steps hsteps h

/-- A run that is started from outside starts with an empty stack. -/
theorem shows_of_start {frame : Frame} (h : frame.Shows) (world : World σ) :
    State.Shows ⟨frame, [], 0, world⟩ :=
  ⟨h, nofun⟩

end Machine

end

variable {σ : Type} {modules : HostModule σ → Prop} {held : σ → ObjectRef → Prop}

/-! ## Bodies in classes -/

/-- A part of what a function is made from that turns to `this`: it reads or assigns a field of
`this` or calls a method of it, or it is a field of the class that starts with a value. -/
inductive Source.OnThis (source : Source) : Part → Prop
  | field {name : String} {place span : Span} :
      OnThis source (.expr (.field (.this place) name span))
  | assign {name : String} {place own span : Span} {value : Expr} :
      OnThis source (.stmt (.assign (.field (.this place) name own) value span))
  | call {method : String} {args : List Expr} {place span : Span} :
      OnThis source (.expr (.methodCall (.this place) method args span))
  | initial {fields : List FieldDecl} {decl : FieldDecl} (declares : source = .fields fields)
      (declared : decl ∈ fields) : OnThis source (.field decl)

namespace Compilation

/-- A body stands in a class, which has become a class of the program. -/
structure InClass (c : Compilation σ) (w : Written) (index : Nat) (decl : ClassDecl)
    (made : Class) : Prop where
  member : w.member = some index
  listed : (Item.classesAll c.texts.flatten)[index]? = some decl
  stands : w ∈ decl.written index
  declared : c.declared.classes[index]? = some made
  linked : c.after.engine.program.classes[c.before.engine.program.classes.size + index]? =
    some made
  fields : made.fields = decl.fields.map (·.name)

variable {c : Compilation σ} {label : Option Nat} {w : Written} {places : Array Resolved.Spot}
  {chunk : Chunk}

/-- A body in a class is that of a member of the class. -/
theorem Makes.cases (hindexed : c.before.engine.program.Indexed)
    (h : c.Makes label w places chunk) :
    (∃ body, w = ⟨none, .body body⟩) ∨
      ∃ id index decl made, label = some id ∧ c.InClass w index decl made ∧ made.Member id := by
  cases h with
  | topLevel => exact .inl ⟨_, rfl⟩
  | @function index f _ tree compiled resolved written =>
    refine (Item.class_of_writtenAll _ (List.mem_of_getElem? written)).imp_right
      fun ⟨place, decl, hdecl, hstands⟩ => ?_
    rw [Nat.zero_add] at hstands
    have hmember := ClassDecl.member_of_written hstands
    have hbuilt := c.builtOn hindexed
    obtain ⟨made, hmade, hid⟩ := c.lists.owned hbuilt.walked.clean index w place written hmember
    have hlinked := hbuilt.declaredClass c.before.engine.view.allowed hmade
    rw [hbuilt.declared.functionBase] at hid
    rw [hbuilt.declared.classBase] at hlinked
    refine ⟨_, place, decl, made, rfl, ⟨hmember, hdecl, hstands, hmade, ?_, ?_⟩, hid⟩
    · rw [c.program_eq]
      exact hlinked
    · exact c.lists.fields hbuilt.walked.clean place made decl hmade hdecl

/-- What is made sure of in a body in a class is made sure of for this class. -/
theorem own_eq {index : Nat} (h : w.member = some index) :
    (c.rules w).own = c.declared.classes[index]? := by
  unfold rules Scope.Context.rulesOf Scope.Context.rules Scope.Context.classOf?
  rw [h]
  simp

/-- A body for which a class is made sure of stands in this class. -/
theorem Makes.inClass (hindexed : c.before.engine.program.Indexed)
    (h : c.Makes label w places chunk) {made : Class} (hown : (c.rules w).own = some made) :
    ∃ id index decl, label = some id ∧ c.InClass w index decl made ∧ made.Member id := by
  obtain ⟨body, rfl⟩ | ⟨id, index, decl, other, hlabel, hclass, hid⟩ := h.cases hindexed
  · cases hown
  · rw [own_eq hclass.member, hclass.declared, Option.some.injEq] at hown
    subst hown
    exact ⟨id, index, decl, hlabel, hclass, hid⟩

/-- A method that has been made sure of takes the arguments. -/
theorem takes_of_declared (hindexed : c.before.engine.program.Indexed) {index : Nat} {made : Class}
    (hmade : c.declared.classes[index]? = some made) {name : String} {id : Nat}
    (hid : made.methods.get? name = some id) :
    c.after.engine.program.Takes id ((c.rules w).arity id) := by
  have hbuilt := c.builtOn hindexed
  have hgrounded : Scope.Context.Grounded { env := c.env, declared := c.declared } :=
    ⟨hbuilt.declared, hindexed⟩
  have hnumber := (hbuilt.declared.classes index made hmade).methods name id hid
  rw [c.program_eq]
  exact hbuilt.takes _ (hgrounded.signature (.inl hnumber))

/-- The class of the body has what an instruction asks of `this`, and the operand that the
instruction turns to is marked as `this`. -/
structure Asks (c : Compilation σ) (w : Written) (chunk : Chunk) (p : Resolved.Spot) (op : Op)
    (made : Class) : Prop where
  own : ∃ index decl, c.InClass w index decl made
  marked : ∃ place, op.receiver? = some place ∧ p.marks[place]? = some true
  named : ∃ index name, op.name? = some index ∧ chunk.constants[index]? = some (.str name) ∧
    made.Serves c.after.engine.program name op

/-- An instruction that is there for a part that turns to `this` asks for what the class has. -/
theorem Makes.asks (hindexed : c.before.engine.program.Indexed)
    (h : c.Makes label w places chunk) {place : Nat} {op : Op} {p : Resolved.Spot}
    (hop : chunk.ops[place]? = some op) (hp : places[place]? = some p) {part : Part}
    (hthis : w.source.OnThis part) (hgives : Scope.Gives (c.rules w) part p.origin) :
    ∃ made, c.Asks w chunk p op made := by
  obtain ⟨p', hp', hemits⟩ := h.told place op hop
  obtain rfl : p = p' := Option.some.inj (hp.symm.trans hp')
  have hfield : ∀ {name : String}, (c.rules w).OwnField name →
      ∃ made, (∃ index decl, c.InClass w index decl made) ∧ name ∈ made.fields := by
    rintro name ⟨made, hown, hname⟩
    obtain ⟨_, index, decl, -, hclass, -⟩ := h.inClass hindexed hown
    exact ⟨made, ⟨index, decl, hclass⟩, hname⟩
  cases hemits with
  | plain _ => cases hgives
  | getField known =>
    cases hgives with
    | expr resolved =>
      cases resolved with
      | field receiver own =>
        cases hthis
        cases receiver
        obtain ⟨made, hclass, hname⟩ := hfield (own _ rfl)
        exact ⟨made, hclass, ⟨0, rfl, rfl⟩, _, _, rfl, known, hname⟩
  | setField known =>
    cases hgives with
    | stmt resolved =>
      cases resolved with
      | assignField receiver _ own =>
        cases hthis
        cases receiver
        obtain ⟨made, hclass, hname⟩ := hfield (own _ rfl)
        exact ⟨made, hclass, ⟨1, rfl, rfl⟩, _, _, rfl, known, hname⟩
    | @field decl _ _ starts resolved =>
      cases hthis with
      | initial declares declared =>
        obtain ⟨body, rfl⟩ | ⟨_, index, outer, made, -, hclass, -⟩ := h.cases hindexed
        · cases declares
        · have hstands := hclass.stands
          rw [ClassDecl.written, List.mem_cons, List.mem_map] at hstands
          obtain rfl | ⟨method, -, rfl⟩ := hstands
          · cases declares
            have hname : decl.name ∈ made.fields := by
              rw [hclass.fields]
              exact List.mem_map_of_mem declared
            exact ⟨made, ⟨index, outer, hclass⟩, ⟨1, rfl, rfl⟩, _, _, rfl, known, hname⟩
          · cases declares
  | call =>
    cases hgives with
    | expr resolved =>
      cases resolved with
      | call _ _ => cases hthis
      | callFree named _ _ =>
        cases hthis
        exact absurd rfl named
  | callHost _ =>
    cases hgives with
    | expr resolved =>
      cases resolved with
      | callHost named _ _ =>
        cases hthis
        cases named
  | @callMethod object method args marks index known =>
    cases hgives with
    | expr resolved =>
      cases resolved with
      | callMethod receiver all own =>
        cases hthis
        cases receiver
        obtain ⟨made, id, hown, hid, harity⟩ := own _ rfl
        obtain ⟨_, index, decl, -, hclass, -⟩ := h.inClass hindexed hown
        have htakes := takes_of_declared (w := w) hindexed hclass.declared hid
        rw [harity, ← all.length_eq] at htakes
        refine ⟨made, ⟨index, decl, hclass⟩, ⟨args.length, rfl, ?_⟩, _, _, rfl, known, id, hid,
          htakes⟩
        rw [List.getElem?_append_right (by simp)]
        simp [Resolved.Expr.isThis]

/-! ## Frames -/

/-- A frame that runs a body in a class has as `this` an object of just this class, with the fields
that the class declares, in their order. -/
def OnOwn (c : Compilation σ) (w : Written) (heap : Heap) (frame : Frame) : Prop :=
  ∀ index, w.member = some index →
    ∃ (decl : ClassDecl) (made : Class) (object : ObjectRef) (fields : Fields),
      c.InClass w index decl made ∧ frame.this = some object ∧
        object.classId = c.before.engine.program.classes.size + index ∧
          heap.objects[object.id]? = some fields ∧ fields.names = decl.fields.map (·.name)

variable {program : Program} {frame : Frame} {heap : Heap}

/-- A frame that runs its function, where all objects have the fields of their classes. -/
theorem Makes.onOwn (hindexed : c.before.engine.program.Indexed)
    (h : c.Makes label w places chunk) (hext : program.Extends c.after.engine.program)
    {code : Option Nat → Chunk → Prop} (hframe : frame.Labelled program code label)
    {known : ObjectRef → Prop} (hamong : frame.Among known) (htyped : program.TypedAll heap known) :
    c.OnOwn w heap frame := by
  intro index hmember
  obtain ⟨body, rfl⟩ | ⟨id, place, decl, made, hlabel, hclass, hid⟩ := h.cases hindexed
  · cases hmember
  · obtain rfl : place = index := Option.some.inj (hclass.member.symm.trans hmember)
    have hlinked := hext.classes hclass.linked
    obtain ⟨object, hthis, hof⟩ := hframe.this id _ made hlabel hlinked hid
    obtain ⟨found, fields, hfound, hfields, hnames⟩ :=
      htyped.typed object (hamong.this object hthis)
    rw [hof, hlinked, Option.some.injEq] at hfound
    subst hfound
    exact ⟨decl, made, object, fields, hclass, hthis, hof, hfields, hnames.trans hclass.fields⟩

/-- What an instruction asks of `this` is there. -/
theorem Asks.served {p : Resolved.Spot} {op : Op} {made : Class}
    (h : c.Asks w frame.chunk p op made) (hext : program.Extends c.after.engine.program)
    (hown : c.OnOwn w heap frame) (hshows : Shows frame.thisValue p.marks frame.stack) :
    Machine.Served program heap frame op := by
  obtain ⟨index, decl, hclass⟩ := h.own
  obtain ⟨place, hreceiver, hmark⟩ := h.marked
  obtain ⟨number, name, hnumber, hname, hserves⟩ := h.named
  obtain ⟨decl', made', object, fields, hclass', hthis, hof, hfields, hnames⟩ :=
    hown index hclass.member
  obtain rfl : decl = decl' := Option.some.inj (hclass.listed.symm.trans hclass'.listed)
  have hlinked := hext.classes hclass.linked
  rw [← hof] at hlinked
  have hoperand := hshows.get hmark
  rw [Frame.thisValue, hthis] at hoperand
  have hnamed : frame.constantName number = .ok name := by
    simp only [Frame.constantName, hname, Option.bind_some, Value.toStr?]
  exact ⟨hreceiver, hoperand, hnumber, hnamed, hlinked, hfields, hnames.trans hclass.fields.symm,
    hserves.mono hext⟩

end Compilation

/-- An object can be reached in a state of the machine: it is in every set that the state keeps
to. -/
def Machine.State.Reaches (held : σ → ObjectRef → Prop) (state : Machine.State σ)
    (object : ObjectRef) : Prop :=
  ∀ known, state.Encloses held known → known object

namespace Session

open Machine

/-- An object can be reached in a session, from what the engine keeps or the host has at hand. -/
def Reaches (held : σ → ObjectRef → Prop) (s : Session σ) (object : ObjectRef) : Prop :=
  ∀ known, s.world.Encloses held known → known object

/-- Sources were built and linked in a session that led to this one. -/
structure Follows (modules : HostModule σ → Prop) (held : σ → ObjectRef → Prop) (s : Session σ)
    (c : Compilation σ) : Prop where
  before : c.before.Reached modules held
  leads : Leads modules held c.after s

variable {s : Session σ}

/-- What is claimed of `this` in a state whose frames run the functions of these labels. -/
structure OwnsThis (modules : HostModule σ → Prop) (held : σ → ObjectRef → Prop) (s : Session σ)
    (state : State σ) (labels : List (Option Nat)) : Prop where
  /-- Each frame runs code that some sources were turned into, and if that is a body in a class, it
  has as `this` an object of the class. -/
  frames : List.Forall₂ (fun frame label => Code.Made modules held s label frame.chunk ∧
      ∀ c w places, s.Follows modules held c → c.Makes label w places frame.chunk →
        c.OnOwn w state.world.heap frame)
    (state.frame :: state.callers) labels
  /-- Where the next instruction is there for a part of the body that turns to `this`, only a limit
  of the machine can stop the run. -/
  accesses : ∀ label c w places p part, labels.head? = some label → s.Follows modules held c →
    c.Makes label w places state.frame.chunk → places[state.frame.ip]? = some p →
      w.source.OnThis part → Scope.Gives (c.rules w) part p.origin →
        ∀ ending e, step s.setting state = .ended ending → ending.result = .error e →
          e.fault.ofLimit = true
  /-- All objects that can be reached have the fields of their classes. -/
  typed : ∀ object, state.Reaches held object →
    s.engine.program.Typed state.world.heap object

theorem Starts.shows {first : State σ} (h : s.Starts first) : first.Shows := by
  cases h with
  | topLevel _ => exact shows_of_start (fun _ => Frame.shows_start _ _ _ _ _ _) _
  | entry _ made =>
    obtain ⟨c, -, -, henter, -⟩ := construct_ok made
    exact shows_of_start ((shows_framewise s.setting).enter henter) _

/-- The claim is true in a state of a run that keeps to objects with the fields of their classes. -/
theorem Reached.ownsThis (h : s.Reached modules held) {first last : State σ} {label : Option Nat}
    {count : Nat} {labels : List (Option Nat)} (hstart : s.StartsIn first label)
    (htraced : Traced s.setting count first [label] last labels) {known : ObjectRef → Prop}
    (hknown : last.Encloses held known) (htyped : s.engine.program.TypedAll last.world.heap known) :
    s.OwnsThis modules held last labels := by
  have hframes : List.Forall₂ (fun frame label => frame.Among known ∧
      frame.Labelled s.engine.program s.Code label) (last.frame :: last.callers) labels :=
    (List.forall₂_and_left _ _).mpr ⟨hknown.frames, h.traced hstart htraced⟩
  have hown := hframes.imp fun frame label ⟨hamong, hframe⟩ =>
    (⟨h.made label _ hframe.code, fun c w places hfollows hmakes =>
      hmakes.onOwn hfollows.before.membered.toIndexed hfollows.leads.extends hframe hamong htyped⟩ :
      Code.Made modules held s label frame.chunk ∧
        ∀ c w places, s.Follows modules held c → c.Makes label w places frame.chunk →
          c.OnOwn w last.world.heap frame)
  refine ⟨hown, ?_, fun object hobject => htyped.typed object (hobject known hknown)⟩
  intro label c w places p part hlabel hfollows hmakes hp hthis hgives ending e hstep herror
  have hmarked := hmakes.marked
  have hinside := (Array.getElem?_eq_some_iff.mp hp).1
  rw [hmarked.size] at hinside
  have hop := Array.getElem?_eq_getElem hinside
  obtain ⟨made, hasks⟩ :=
    hmakes.asks hfollows.before.membered.toIndexed hop hp hthis hgives
  have hshows := htraced.steps.shows (starts_iff.mpr ⟨_, hstart⟩).shows
  obtain ⟨q, hq, hstack⟩ := hshows.frame places hmarked
  obtain rfl : p = q := Option.some.inj (hp.symm.trans hq)
  cases hown with
  | cons hfirst _ =>
    obtain rfl := Option.some.inj hlabel
    have hserved : Served s.setting.program last.world.heap last.frame _ :=
      hasks.served hfollows.leads.extends (hfirst.2 c w places hfollows hmakes) hstack
    exact step_of_served hserved hop hstep herror

/-- The items of a text with a class, whose method reads its field, and a call of the method. -/
def readingItems : List Item :=
  [.classDecl ⟨"C", [⟨"x", none, ⟨0, 8, 14⟩⟩],
      [⟨"f", [], [.ret (some (.field (.this ⟨0, 28, 32⟩) "x" ⟨0, 28, 34⟩)) ⟨0, 21, 34⟩],
        ⟨0, 14, 36⟩⟩], ⟨0, 0, 37⟩⟩,
    .stmt (.expr (.methodCall (.create ["C"] [] ⟨0, 37, 44⟩) "f" [] ⟨0, 37, 48⟩))]

/-- The unit of the text. -/
def readingUnit : CompiledUnit where
  functionBase := 0
  functions :=
    #[⟨"C.<fields>", 0, ⟨#[.pushNull, .ret], #[], 0⟩⟩,
      ⟨"C.f", 0, ⟨#[.loadThis, .getField 0, .ret, .pushNull, .ret], #[.str "x"], 0⟩⟩]
  classBase := 0
  classes :=
    #[{ name := "C", fields := ["x"], methods := .ofList [("f", 1)], fieldInit := 0,
        constructor? := none }]
  functionNames := []
  globals := []
  hostCalls := #[]
  bindingBase := 0
  topLevel := ⟨#[.create 0 0, .callMethod 0 0, .ret, .pushNull, .ret], #[.str "f"], 0⟩
  returnsValue := true

/-- Places for the code of the method. -/
def readingPlaces : Array Resolved.Spot :=
  Resolved.bodyPlaces [.ret (some (.getField .loadThis "x"))]

/-- The run of the top level comes to the access. -/
theorem traced_reading (catalog : Catalog Console) (world : World Console) :
    ∃ last labels, Traced ⟨Program.append {} readingUnit {}, catalog, none⟩ 5
        ⟨.start topLevelName readingUnit.topLevel none [] .value, [], 0, world⟩ [none]
        last labels ∧
      labels.head? = some (some 1) ∧ last.frame.ip = 1 ∧
      last.frame.chunk = ⟨#[.loadThis, .getField 0, .ret, .pushNull, .ret], #[.str "x"], 0⟩ :=
  ⟨_, _, .head rfl (.head rfl (.head rfl (.head rfl (.head rfl .refl)))), rfl, rfl, rfl⟩

/-- The session in which the text is built. -/
def fresh : Session Console :=
  { catalog := {}, engine := .inline {}, host := {} }

set_option maxRecDepth 8000 in
/-- What comes of the text. -/
theorem compile_reading : ∃ c : Compilation Console, c.before = fresh ∧
    c.sources = .inline "class C{let x;fn f(){return this.x;}}new C().f();" ∧
    c.texts = [readingItems] ∧ c.unit = readingUnit ∧
      c.after.engine.program = Program.append {} readingUnit {} := by
  have hread : read "class C{let x;fn f(){return this.x;}}new C().f();" 0 = .ok readingItems := by
    with_unfolding_all rfl
  have hclean : (resolve [readingItems] (fresh.engine.environment fresh.catalog)).2 = [] := by
    with_unfolding_all rfl
  have hcompiled : (resolve [readingItems] (fresh.engine.environment fresh.catalog)).1.compile 0 =
      .ok readingUnit := by
    with_unfolding_all rfl
  have hlinked := @compile_of_build _ fresh
    (.inline "class C{let x;fn f(){return this.x;}}new C().f();") _
    (build_of_read hread hclean hcompiled) rfl
  refine ⟨⟨fresh, .inline _, [readingItems], readingUnit, ?_, ?_, hcompiled, ?_, hlinked.1⟩,
    rfl, rfl, rfl, rfl, hlinked.2⟩
  · intro items hitems
    rw [List.mem_singleton.mp hitems]
    exact ⟨0, _, rfl, hread⟩
  · rw [hclean]
    rfl
  · rw [hlinked.2]
    rfl

/-- The body of the method is made into the code that the run comes to. -/
theorem makes_reading {c : Compilation Console} (hbefore : c.before = fresh)
    (htexts : c.texts = [readingItems]) (hunit : c.unit = readingUnit) :
    c.Makes (some 1)
      ⟨some 0, .body [.ret (some (.field (.this ⟨0, 28, 32⟩) "x" ⟨0, 28, 34⟩)) ⟨0, 21, 34⟩]⟩
      readingPlaces ⟨#[.loadThis, .getField 0, .ret, .pushNull, .ret], #[.str "x"], 0⟩ := by
  have hcompiled : c.unit.functions[1]? = some
      ⟨"C.f", 0, ⟨#[.loadThis, .getField 0, .ret, .pushNull, .ret], #[.str "x"], 0⟩⟩ := by
    rw [hunit]
    rfl
  have hresolved : c.resolved.functions[1]? = some
      ⟨"C.f", 0, [.ret (some (.getField .loadThis "x"))], 0⟩ := by
    rw [Compilation.resolved, Compilation.env, htexts, hbefore]
    with_unfolding_all rfl
  have hwritten : c.written[1]? = some
      ⟨some 0, .body [.ret (some (.field (.this ⟨0, 28, 32⟩) "x" ⟨0, 28, 34⟩)) ⟨0, 21, 34⟩]⟩ := by
    rw [Compilation.written, htexts]
    with_unfolding_all rfl
  have hmakes := Compilation.Makes.function hcompiled hresolved hwritten
  rw [hbefore] at hmakes
  exact hmakes

end Session

end ScriptHost
