import ScriptHost.Proofs.Machine.Known
import ScriptHost.Proofs.Program.Names
/-!
# Objects have the fields of their classes

Every object that can be reached is of a class of the program and has its fields, in their order,
and no two objects have one number. A run keeps it so: `Steps.typed` and `run_typed`. The objects
that were there stay what they are.
-/

set_option autoImplicit false

namespace ScriptHost

variable {σ : Type} {known : ObjectRef → Prop} {held : σ → ObjectRef → Prop} {program : Program}
  {heap after : Heap} {object : ObjectRef}

/-- An object is of a class of the program, and has the fields of the class in their order. -/
def Program.Typed (program : Program) (heap : Heap) (object : ObjectRef) : Prop :=
  ∃ (c : Class) (fields : Fields), program.classes[object.classId]? = some c ∧
    heap.objects[object.id]? = some fields ∧ fields.names = c.fields

/-- All objects of a set have the fields of their classes, and numbers of their own. -/
structure Program.TypedAll (program : Program) (heap : Heap) (known : ObjectRef → Prop) : Prop where
  typed : ∀ object, known object → program.Typed heap object
  unique : ∀ object other, known object → known other → object.id = other.id → object = other

namespace Program

theorem Typed.class_lt (h : program.Typed heap object) :
    object.classId < program.classes.size := by
  obtain ⟨c, _, hc, -⟩ := h
  exact (Array.getElem?_eq_some_iff.mp hc).1

theorem Typed.id_lt (h : program.Typed heap object) : object.id < heap.objects.size := by
  obtain ⟨_, fields, -, hfields, -⟩ := h
  exact (Array.getElem?_eq_some_iff.mp hfields).1

theorem Typed.later (h : program.Typed heap object) (hlater : heap.Later after) :
    program.Typed after object := by
  obtain ⟨c, fields, hc, hfields, hnames⟩ := h
  obtain ⟨fields', hfields', hsame⟩ := hlater object.id fields hfields
  exact ⟨c, fields', hc, hfields', hsame.trans hnames⟩

theorem Typed.extends {next : Program} (h : program.Typed heap object)
    (hext : next.Extends program) : next.Typed heap object := by
  obtain ⟨c, fields, hc, hfields, hnames⟩ := h
  exact ⟨c, fields, hext.classes hc, hfields, hnames⟩

theorem TypedAll.later (h : program.TypedAll heap known) (hlater : heap.Later after) :
    program.TypedAll after known :=
  ⟨fun object hobject => (h.typed object hobject).later hlater, h.unique⟩

theorem TypedAll.extends {next : Program} (h : program.TypedAll heap known)
    (hext : next.Extends program) : next.TypedAll heap known :=
  ⟨fun object hobject => (h.typed object hobject).extends hext, h.unique⟩

/-- An object that has been made has the fields of its class, as no class has a field twice. -/
theorem Makes.typed (h : program.Makes heap after object)
    (hdistinct : ∀ {index : Nat} {c : Class}, program.classes[index]? = some c →
      c.fields.Nodup) : program.Typed after object := by
  obtain ⟨c, hc, hnext, rfl⟩ := h
  refine ⟨c, .ofList (c.fields.map fun name => (name, .null)), hc, ?_, ?_⟩
  · rw [hnext]
    exact Array.getElem?_push_size
  · have hnames : (c.fields.map fun name => (name, Value.null)).map (·.1) = c.fields := by
      rw [List.map_map]
      exact List.map_id _
    have hentries := @Table.entries_insertAll_of_new Value {} _ (hnames.symm ▸ hdistinct hc)
      fun _ _ => List.not_mem_nil
    rw [Table.names, Table.ofList, hentries]
    exact hnames

/-- A new object joins the others. -/
theorem TypedAll.insert (h : program.TypedAll heap known) (hlater : heap.Later after)
    (hmade : program.Makes heap after object)
    (hdistinct : ∀ {index : Nat} {c : Class}, program.classes[index]? = some c →
      c.fields.Nodup) : program.TypedAll after fun other => known other ∨ other = object := by
  have hnew : ∀ other, known other → other.id ≠ object.id := by
    intro other hother hsame
    obtain ⟨c, -, hnext, -⟩ := hmade
    have hid := (h.typed other hother).id_lt
    rw [hsame, hnext] at hid
    exact absurd hid (Nat.lt_irrefl _)
  constructor
  · rintro other (hother | rfl)
    · exact (h.typed other hother).later hlater
    · exact hmade.typed hdistinct
  · rintro first second (hfirst | rfl) (hsecond | rfl) hsame
    · exact h.unique first second hfirst hsecond hsame
    · exact absurd hsame (hnew first hfirst)
    · exact absurd hsame.symm (hnew second hsecond)
    · rfl

end Program

namespace Machine

variable {setting : Setting σ}

/-- What spreads from objects with the fields of their classes has to do with such objects only. -/
theorem Spreads.typed {encloses : (ObjectRef → Prop) → Prop}
    (h : Spreads program heap after known encloses) (htyped : program.TypedAll heap known)
    (hlater : heap.Later after)
    (hdistinct : ∀ {index : Nat} {c : Class}, program.classes[index]? = some c →
      c.fields.Nodup) :
    ∃ others, encloses others ∧ program.TypedAll after others ∧
      ∀ object, known object → others object := by
  obtain hsame | ⟨made, hmade, hmore⟩ := h
  · exact ⟨known, hsame, htyped.later hlater, fun _ => id⟩
  · exact ⟨_, hmore, htyped.insert hlater hmade hdistinct, fun _ => .inl⟩

section

variable (hprogram : setting.program.Sound (HostBinding.Accepted setting.catalog))
  (hdistinct : ∀ {index : Nat} {c : Class}, setting.program.classes[index]? = some c →
    c.fields.Nodup)
  (hkeeps : setting.catalog.Keeps held)

include hprogram hdistinct hkeeps

/-- A run keeps to objects with the fields of their classes. -/
theorem Steps.typed {count : Nat} {first last : State σ} (hsteps : Steps setting count first last)
    (hsafe : first.Safe setting) (h : first.Encloses held known)
    (htyped : setting.program.TypedAll first.world.heap known) :
    ∃ others, last.Encloses held others ∧
      setting.program.TypedAll last.world.heap others ∧
        ∀ object, known object → others object := by
  induction hsteps generalizing known with
  | refl => exact ⟨known, h, htyped, fun _ => id⟩
  | @head _ first _ _ hstep _ ih =>
    have hspreads := step_encloses hsafe.sound hkeeps h
    have hlater := step_heap_later setting first
    rw [hstep] at hspreads hlater
    obtain ⟨others, hothers, htyped', hsub⟩ := hspreads.typed htyped hlater hdistinct
    obtain ⟨rest, hrest, htyped'', hsub'⟩ := ih (hsafe.next hprogram hstep) hothers htyped'
    exact ⟨rest, hrest, htyped'', fun object hobject => hsub' object (hsub object hobject)⟩

/-- A run ends with objects that have the fields of their classes. -/
theorem run_typed {fuel : Nat} {first : State σ} {ending : Ending σ} (hsafe : first.Safe setting)
    (h : first.Encloses held known)
    (htyped : setting.program.TypedAll first.world.heap known)
    (hrun : run setting fuel first = some ending) :
    ∃ others, ending.Encloses held others ∧
      setting.program.TypedAll ending.world.heap others ∧
        ∀ object, known object → others object := by
  obtain ⟨count, last, hsteps, hend⟩ := run_ends hrun
  obtain ⟨others, hothers, htyped', hsub⟩ := hsteps.typed hprogram hdistinct hkeeps hsafe h htyped
  have hspreads := step_encloses (hsteps.safe hprogram hsafe).sound hkeeps hothers
  have hlater := step_heap_later setting last
  rw [hend] at hspreads hlater
  obtain ⟨rest, hrest, htyped'', hsub'⟩ := hspreads.typed htyped' hlater hdistinct
  exact ⟨rest, hrest, htyped'', fun object hobject => hsub' object (hsub object hobject)⟩

end

end Machine

end ScriptHost
