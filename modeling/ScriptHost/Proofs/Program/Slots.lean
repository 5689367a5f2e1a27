import ScriptHost.Proofs.Program.Build
/-!
# Slots of global variables

A unit gives its new global variables the next slots of the program that it is built on. It may be
linked later, when other units have taken those slots. `CompiledUnit.Compatible` says when that does
no harm: where a name or a slot of the unit is taken, both are taken together.

The main statement is `links_harmless_iff_compatible`: of all histories of building and linking,
those in which global variables keep their slots and never share one are those in which every unit
was compatible when it was linked. `Program.link` refuses units that are out of date in the other
three tables, but does not look at this one.
-/

set_option autoImplicit false

namespace ScriptHost

/-- Every global variable has a slot of its own, and the slots are numbered without a gap. -/
structure Program.GlobalsInOrder (program : Program) : Prop where
  injective : ∀ (name other : String) (slot : Nat), program.globalNames.get? name = some slot →
    program.globalNames.get? other = some slot → name = other
  exact : ∀ slot, (∃ name, program.globalNames.get? name = some slot) ↔ slot < program.globalCount

/-- Where a name or a slot of the unit is taken by the program, both are taken together. -/
def CompiledUnit.Compatible (unit : CompiledUnit) (program : Program) : Prop :=
  ∀ name slot, (name, slot) ∈ unit.globals →
    ∀ other taken, program.globalNames.get? other = some taken → (name = other ↔ slot = taken)

/-- A unit that has been linked, with the program before and after. -/
structure Linking where
  before : Program
  unit : CompiledUnit
  after : Program

/-- Global variables have kept their slots, and no two of them share one. -/
structure Linking.Harmless (l : Linking) : Prop where
  kept : ∀ (name : String) (slot : Nat), l.before.globalNames.get? name = some slot →
    l.after.globalNames.get? name = some slot
  inOrder : l.after.GlobalsInOrder

/-- The units that were linked to a program that was empty at first, in order, the program that this
has led to, and the units that have been built so far, each of them against the program as it was
then. A unit can be linked at any time after it was built, once or more, or never; to refuse one
changes nothing. -/
inductive History : List Linking → Program → List CompiledUnit → Prop
  | start : History [] {} []
  | build {links : List Linking} {program : Program} {units : List CompiledUnit}
      {sources : List String} {lookup : String → String → HostLookup} {level : Nat}
      {unit : CompiledUnit} {diagnostics : List Diagnostic} (before : History links program units)
      (built : ScriptHost.build sources ⟨program, lookup, level⟩ = (some unit, diagnostics)) :
      History links program (unit :: units)
  | link {links : List Linking} {program next : Program} {units : List CompiledUnit}
      {unit : CompiledUnit} {allowed : AllowedModules} (before : History links program units)
      (known : unit ∈ units) (linked : program.link unit allowed = .ok next) :
      History (links ++ [⟨program, unit, next⟩]) next units

/-- The new global variables of a unit have different names, and slots without a gap from one that
the program had reached when the unit was built. -/
structure CompiledUnit.Numbered (unit : CompiledUnit) (count : Nat) : Prop where
  distinct : (unit.globals.map (·.1)).Nodup
  slots : ∃ base, base ≤ count ∧ unit.globals.map (·.2) = List.range' base unit.globals.length

/-- A program does not lose global variables when a unit is linked. -/
theorem globalCount_le_of_link {program next : Program} {unit : CompiledUnit}
    {allowed : AllowedModules} (h : program.link unit allowed = .ok next) :
    program.globalCount ≤ next.globalCount := by
  obtain ⟨-, -, -, rfl⟩ := link_ok h
  exact Table.size_le_insertAll program.globalNames unit.globals

/-- All units of a history are numbered from slots that the program has reached. -/
theorem History.numbered {links : List Linking} {program : Program} {units : List CompiledUnit}
    (h : History links program units) : ∀ unit ∈ units, unit.Numbered program.globalCount := by
  induction h with
  | start => simp
  | build before built ih =>
    intro unit hunit
    obtain rfl | hunit := List.mem_cons.mp hunit
    · obtain ⟨d, hd, hglobals⟩ := build_globals built
      refine ⟨hglobals ▸ hd.distinct, _, Nat.le_refl _, ?_⟩
      rw [hglobals, hd.slots, Array.length_toList]
    · exact ih unit hunit
  | link before known linked ih =>
    intro unit hunit
    obtain ⟨hdistinct, base, hbase, hslots⟩ := ih unit hunit
    exact ⟨hdistinct, base, Nat.le_trans hbase (globalCount_le_of_link linked), hslots⟩

/-- The slots of a unit that the program has reached, and those that it has not. -/
theorem CompiledUnit.Numbered.split {unit : CompiledUnit} {count : Nat}
    (h : unit.Numbered count) :
    ∃ old new, unit.globals = old ++ new ∧ (∀ entry ∈ old, entry.2 < count) ∧
      new.map (·.2) = List.range' count new.length := by
  obtain ⟨base, hbase, hslots⟩ := h.slots
  have htake : ∀ slot ∈ (unit.globals.take (count - base)).map (·.2), slot < count := by
    intro slot hslot
    rw [List.map_take, hslots] at hslot
    obtain ⟨index, hindex, rfl⟩ := List.mem_take_iff_getElem.mp hslot
    rw [List.getElem_range']
    omega
  have hdrop : (unit.globals.drop (count - base)).map (·.2) =
      List.range' count (unit.globals.length - (count - base)) := by
    rw [List.map_drop, hslots, List.drop_range', Nat.mul_one, Nat.add_sub_cancel' hbase]
  exact ⟨_, _, (List.take_append_drop (count - base) unit.globals).symm,
    fun entry hentry => htake _ (List.mem_map_of_mem hentry), by rw [hdrop, List.length_drop]⟩

/-- A unit that is compatible adds the global variables that the program has not reached, and
nothing else. -/
theorem compatible_append {program : Program} {unit : CompiledUnit}
    (hordered : program.GlobalsInOrder) (hnumbered : unit.Numbered program.globalCount)
    (hcompatible : unit.Compatible program) (allowed : AllowedModules) :
    ∃ new, (new.map (·.1)).Nodup ∧ (∀ entry ∈ new, entry.1 ∉ program.globalNames.names) ∧
      new.map (·.2) = List.range' program.globalCount new.length ∧
      (program.append unit allowed).globalNames = program.globalNames.insertAll new := by
  obtain ⟨old, new, hsplit, hold, hnew⟩ := hnumbered.split
  have hmem : ∀ entry ∈ new, entry ∈ unit.globals := fun entry hentry =>
    hsplit ▸ List.mem_append_right old hentry
  have hdistinct : (new.map (·.1)).Nodup := by
    have h := hnumbered.distinct
    rw [hsplit, List.map_append] at h
    exact (List.nodup_append.mp h).2.1
  have hthere : ∀ entry ∈ old, program.globalNames.get? entry.1 = some entry.2 := by
    intro entry hentry
    obtain ⟨other, hother⟩ := (hordered.exact entry.2).mpr (hold entry hentry)
    have hunit : (entry.1, entry.2) ∈ unit.globals := hsplit ▸ List.mem_append_left new hentry
    rw [(hcompatible entry.1 entry.2 hunit other entry.2 hother).mpr rfl]
    exact hother
  have hfresh : ∀ entry ∈ new, entry.1 ∉ program.globalNames.names := by
    intro entry hentry hknown
    rw [← not_not (a := entry.1 ∈ _), ← Table.get?_eq_none_iff] at hknown
    obtain ⟨slot, hslot⟩ := Option.ne_none_iff_exists'.mp hknown
    have hsame := (hcompatible entry.1 entry.2 (hmem entry hentry) entry.1 slot hslot).mp rfl
    have hreached : slot < program.globalCount := (hordered.exact slot).mp ⟨_, hslot⟩
    have hunreached : entry.2 ∈ new.map (·.2) := List.mem_map_of_mem hentry
    rw [hnew, List.mem_range'_1] at hunreached
    omega
  refine ⟨new, hdistinct, hfresh, hnew, ?_⟩
  change program.globalNames.insertAll unit.globals = _
  rw [hsplit, Table.insertAll_append, Table.insertAll_of_get? hthere]

/-- New global variables with the next slots keep slots and order. -/
theorem Program.GlobalsInOrder.insertAll {program next : Program} (h : program.GlobalsInOrder)
    {new : List (String × Nat)} (hdistinct : (new.map (·.1)).Nodup)
    (hfresh : ∀ entry ∈ new, entry.1 ∉ program.globalNames.names)
    (hslots : new.map (·.2) = List.range' program.globalCount new.length)
    (hnext : next.globalNames = program.globalNames.insertAll new) :
    (∀ name slot, program.globalNames.get? name = some slot →
      next.globalNames.get? name = some slot) ∧ next.GlobalsInOrder := by
  have hkept : ∀ name slot, program.globalNames.get? name = some slot →
      next.globalNames.get? name = some slot := by
    intro name slot hslot
    have hknown : name ∈ program.globalNames.names :=
      List.mem_map.mpr ⟨_, Table.mem_of_get? hslot, rfl⟩
    have hother : name ∉ new.map (·.1) := by
      intro hnew
      obtain ⟨entry, hentry, rfl⟩ := List.mem_map.mp hnew
      exact hfresh entry hentry hknown
    rw [hnext, Table.get?_insertAll_of_not_mem _ hother, hslot]
  have hreached : ∀ {name slot}, program.globalNames.get? name = some slot →
      slot < program.globalCount := fun hslot => (h.exact _).mp ⟨_, hslot⟩
  have hunreached : ∀ {name slot}, (name, slot) ∈ new → program.globalCount ≤ slot ∧
      slot < program.globalCount + new.length := by
    intro name slot hmem
    have hslot : slot ∈ new.map (·.2) := List.mem_map.mpr ⟨_, hmem, rfl⟩
    rwa [hslots, List.mem_range'_1] at hslot
  have hcount : next.globalCount = program.globalCount + new.length := by
    unfold Program.globalCount Table.size
    rw [hnext, Table.entries_insertAll_of_new hdistinct hfresh, List.length_append]
  refine ⟨hkept, ⟨fun name other slot hname hother => ?_, fun slot => ⟨?_, fun hslot => ?_⟩⟩⟩
  · rw [hnext] at hname hother
    obtain hname | hname := Table.get?_insertAll_cases hname <;>
      obtain hother | hother := Table.get?_insertAll_cases hother
    · have hinjective : (new.map (·.2)).Nodup := hslots ▸ List.nodup_range'
      exact congrArg Prod.fst (List.inj_on_of_nodup_map hinjective hname hother rfl)
    · exact absurd (hreached hother) (Nat.not_lt.mpr (hunreached hname).1)
    · exact absurd (hreached hname) (Nat.not_lt.mpr (hunreached hother).1)
    · exact h.injective name other slot hname hother
  · rintro ⟨name, hname⟩
    rw [hnext] at hname
    rw [hcount]
    obtain hname | hname := Table.get?_insertAll_cases hname
    · exact (hunreached hname).2
    · exact Nat.lt_add_right _ (hreached hname)
  · by_cases hold : slot < program.globalCount
    · obtain ⟨name, hname⟩ := (h.exact slot).mpr hold
      exact ⟨name, hkept name slot hname⟩
    · have hmem : slot ∈ new.map (·.2) := by
        rw [hslots, List.mem_range'_1]
        omega
      obtain ⟨entry, hentry, rfl⟩ := List.mem_map.mp hmem
      exact ⟨entry.1, hnext ▸ Table.get?_insertAll_of_mem _ hdistinct hentry⟩

/-- A unit that is numbered from slots of an orderly program does no harm exactly if it is
compatible. -/
theorem harmless_iff_compatible {l : Linking} {allowed : AllowedModules}
    (hordered : l.before.GlobalsInOrder) (hnumbered : l.unit.Numbered l.before.globalCount)
    (hlinked : l.before.link l.unit allowed = .ok l.after) :
    l.Harmless ↔ l.unit.Compatible l.before := by
  obtain ⟨-, -, -, hafter⟩ := link_ok hlinked
  constructor
  · intro h name slot hmem other taken htaken
    have hname : l.after.globalNames.get? name = some slot := by
      rw [hafter]
      exact Table.get?_insertAll_of_mem _ hnumbered.distinct hmem
    have hother := h.kept other taken htaken
    constructor
    · rintro rfl
      rw [hname, Option.some.injEq] at hother
      exact hother
    · rintro rfl
      exact h.inOrder.injective name other slot hname hother
  · intro h
    obtain ⟨new, hdistinct, hfresh, hslots, hnext⟩ :=
      compatible_append hordered hnumbered h allowed
    rw [← hafter] at hnext
    obtain ⟨hkept, hinOrder⟩ := hordered.insertAll hdistinct hfresh hslots hnext
    exact ⟨hkept, hinOrder⟩

/-- An empty program is in order. -/
theorem globalsInOrder_empty : ({} : Program).GlobalsInOrder where
  injective := fun _ _ _ h => by cases h
  exact := by
    refine fun slot => ⟨?_, fun h => absurd h (Nat.not_lt_zero slot)⟩
    rintro ⟨name, h⟩
    cases h

/-- A history whose links have done no harm has led to a program that is in order. -/
theorem History.inOrder {links : List Linking} {program : Program} {units : List CompiledUnit}
    (h : History links program units) (hharmless : ∀ l ∈ links, l.Harmless) :
    program.GlobalsInOrder := by
  induction h with
  | start => exact globalsInOrder_empty
  | build _ _ ih => exact ih hharmless
  | link before known linked ih =>
    exact (hharmless _ (List.mem_append_right _ (List.mem_singleton.mpr rfl))).inOrder

/-- Of all histories of building and linking, those in which global variables keep their slots, have
slots of their own and are numbered without a gap are those in which every unit is compatible when
it is linked. A unit can be linked exactly if its numbers of functions, classes and bindings start
where the tables end. -/
theorem links_harmless_iff_compatible {links : List Linking} {program : Program}
    {units : List CompiledUnit} (h : History links program units) :
    ((∀ l ∈ links, l.Harmless) ↔ ∀ l ∈ links, l.unit.Compatible l.before) ∧
      ∀ unit ∈ units, ∀ allowed, (∃ next, program.link unit allowed = .ok next) ↔
        unit.functionBase = program.functions.size ∧ unit.classBase = program.classes.size ∧
          unit.bindingBase = program.bindings.size := by
  refine ⟨?_, fun unit _ allowed => ⟨fun ⟨next, hnext⟩ => ?_, fun hbases => ?_⟩⟩
  · induction h with
    | start => simp
    | build _ _ ih => exact ih
    | @link links program next units unit allowed before known linked ih =>
      have hnumbered := before.numbered unit known
      simp only [List.forall_mem_append, List.forall_mem_singleton]
      have hlast : (∀ l ∈ links, l.Harmless) →
          ((⟨program, unit, next⟩ : Linking).Harmless ↔ unit.Compatible program) :=
        fun hharmless => harmless_iff_compatible (before.inOrder hharmless) hnumbered linked
      constructor
      · exact fun ⟨hlinks, hl⟩ => ⟨ih.mp hlinks, (hlast hlinks).mp hl⟩
      · exact fun ⟨hlinks, hl⟩ => ⟨ih.mpr hlinks, (hlast (ih.mpr hlinks)).mpr hl⟩
  · obtain ⟨hfunctions, hclasses, hbindings, -⟩ := link_ok hnext
    exact ⟨hfunctions, hclasses, hbindings⟩
  · obtain ⟨hfunctions, hclasses, hbindings⟩ := hbases
    refine ⟨program.append unit allowed, ?_⟩
    simp [Program.link, Program.accepts, hfunctions, hclasses, hbindings]

/-! ## A text of one statement -/

/-- A unit that sets one new global variable, in the first slot. -/
def setsFirstSlot (name : String) (value : Int64) : CompiledUnit where
  functionBase := 0
  functions := #[]
  classBase := 0
  classes := #[]
  functionNames := []
  globals := [(name, 0)]
  hostCalls := #[]
  bindingBase := 0
  topLevel := ⟨#[.pushConst 0, .storeGlobal 0, .pushNull, .ret], #[.int value], 0⟩
  returnsValue := false

/-- The lexemes of a text that sets a variable to a number, where each of them is one character. -/
def letLexemes (name : String) (value : Int64) : List Lexeme :=
  [⟨.kwLet, 0, 0, 3⟩, ⟨.ident name, 0, 4, 5⟩, ⟨.eq, 0, 6, 7⟩, ⟨.int value, 0, 8, 9⟩,
    ⟨.semicolon, 0, 9, 10⟩, ⟨.eof, 0, 10, 10⟩]

/-- The statement that such lexemes spell. -/
def letItem (name : String) (value : Int64) : Item :=
  .stmt (.letVar name (.int value ⟨0, 8, 9⟩) ⟨0, 0, 9⟩)

/-- A text with these lexemes is that statement. -/
theorem read_let {source name : String} {value : Int64}
    (h : lex source 0 = .ok (letLexemes name value)) :
    read source 0 = .ok [letItem name value] := by
  unfold read
  rw [h]
  with_unfolding_all rfl

set_option maxRecDepth 8000 in
/-- Two units are built while the program is empty, and both are linked. Neither is refused, and the
global variable of the second takes the slot of the first one's. -/
theorem units_of_one_slot_do_harm :
    let afterA := Program.append {} (setsFirstSlot "a" 1) {}
    let afterB := afterA.append (setsFirstSlot "b" 2) {}
    let links : List Linking :=
      [⟨{}, setsFirstSlot "a" 1, afterA⟩, ⟨afterA, setsFirstSlot "b" 2, afterB⟩]
    History links afterB [setsFirstSlot "b" 2, setsFirstSlot "a" 1] ∧
      ¬ (∀ l ∈ links, l.Harmless) ∧
      afterB.globalNames.get? "a" = some 0 ∧ afterB.globalNames.get? "b" = some 0 := by
  intro afterA afterB links
  have hlexA : lex "let a = 1;" 0 = .ok (letLexemes "a" 1) := by
    with_unfolding_all rfl
  have hlexB : lex "let b = 2;" 0 = .ok (letLexemes "b" 2) := by
    with_unfolding_all rfl
  have builtA : build ["let a = 1;"] ⟨{}, fun _ _ => .notAModule, 2⟩ =
      (some (setsFirstSlot "a" 1), []) :=
    build_of_read (read_let hlexA) (by with_unfolding_all rfl)
      (by with_unfolding_all rfl)
  have builtB : build ["let b = 2;"] ⟨{}, fun _ _ => .notAModule, 2⟩ =
      (some (setsFirstSlot "b" 2), []) :=
    build_of_read (read_let hlexB) (by with_unfolding_all rfl)
      (by with_unfolding_all rfl)
  have linkedA : Program.link {} (setsFirstSlot "a" 1) {} = .ok afterA := rfl
  have linkedB : Program.link afterA (setsFirstSlot "b" 2) {} = .ok afterB := by
    with_unfolding_all rfl
  have history : History links afterB [setsFirstSlot "b" 2, setsFirstSlot "a" 1] :=
    .link (.link (.build (.build .start builtA) builtB) (by simp) linkedA) (by simp) linkedB
  have hslotA : afterA.globalNames.get? "a" = some 0 := rfl
  refine ⟨history, fun hharmless => ?_, rfl, rfl⟩
  have hcompatible := (links_harmless_iff_compatible history).1.mp hharmless
    ⟨afterA, setsFirstSlot "b" 2, afterB⟩ (List.mem_cons_of_mem _ (List.mem_singleton.mpr rfl))
  have hsame := (hcompatible "b" 0 (List.mem_singleton.mpr rfl) "a" 0 hslotA).mpr rfl
  exact absurd hsame (by decide)

end ScriptHost
