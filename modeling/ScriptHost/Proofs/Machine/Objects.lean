import ScriptHost.Proofs.Machine.Faults
import ScriptHost.Proofs.Machine.Steps
import ScriptHost.Proofs.Table
/-!
# Objects keep their fields

Whatever a step does, no object is taken away, and none gets a field, loses one or has them in
another order: `step_heap_later` for one step, `Steps.heap_later` for many.
-/

set_option autoImplicit false

namespace ScriptHost

/-! ## Heaps -/

/-- A heap at a later time. No object has been taken away, and each has the fields that it had, in
the same order. -/
def Heap.Later (earlier later : Heap) : Prop :=
  ∀ (id : Nat) (fields : Fields), earlier.objects[id]? = some fields →
    ∃ fields' : Fields, later.objects[id]? = some fields' ∧ fields'.names = fields.names

namespace Heap

theorem Later.refl (heap : Heap) : heap.Later heap :=
  fun _ fields h => ⟨fields, h, rfl⟩

theorem Later.trans {first second third : Heap} (h : first.Later second)
    (h' : second.Later third) : first.Later third := by
  intro id fields hfields
  obtain ⟨middle, hmiddle, hsame⟩ := h id fields hfields
  obtain ⟨last, hlast, hsame'⟩ := h' id middle hmiddle
  exact ⟨last, hlast, hsame'.trans hsame⟩

/-- A heap does not get smaller. -/
theorem Later.size_le {earlier later : Heap} (h : earlier.Later later) :
    earlier.objects.size ≤ later.objects.size := by
  cases hsize : earlier.objects.size with
  | zero => exact Nat.zero_le _
  | succ last =>
    have hinside : last < earlier.objects.size := by omega
    obtain ⟨_, hlast, -⟩ := h last _ (Array.getElem?_eq_getElem hinside)
    exact (Array.getElem?_eq_some_iff.mp hlast).1

/-- An object is made. -/
theorem later_alloc (heap : Heap) (fields : Fields) : heap.Later (heap.alloc fields) := by
  intro id found hfound
  refine ⟨found, ?_, rfl⟩
  rw [alloc, Array.getElem?_push_lt (Array.getElem?_eq_some_iff.mp hfound).1]
  exact congrArg some (Array.getElem?_eq_some_iff.mp hfound).2

/-- A field is assigned that the object has. -/
theorem later_setField {heap : Heap} {owner : ObjectRef} {name : String}
    (h : heap.hasField owner name = true) (value : Value) :
    heap.Later (heap.setField owner name value) := by
  intro id found hfound
  rw [setField, Array.getElem?_modify, hfound]
  split
  · rename_i hid
    refine ⟨found.insert name value, rfl, Table.names_insert_of_mem ?_ value⟩
    rw [hasField, fields, hid, hfound] at h
    exact (Table.contains_iff found name).mp h
  · exact ⟨found, rfl, rfl⟩

end Heap

namespace Machine

variable {σ : Type} {setting : Setting σ}

/-! ## The world afterwards -/

/-- The world after an instruction. -/
def Effect.world : Effect σ → World σ
  | .next _ world | .enter _ _ world | .ret _ world | .fault _ world => world

/-- The world after a step. -/
def Outcome.world : Outcome σ → World σ
  | .running state => state.world
  | .ended ending => ending.world

theorem pushFrame_world (callee : Frame) (frames : List Frame) (executed : Nat) (world : World σ) :
    (pushFrame callee frames executed world).world = world := by
  unfold pushFrame
  split <;> rfl

theorem deliver_world (value : Value) (callers : List Frame) (executed : Nat) (world : World σ) :
    (deliver value callers executed world).world = world := by
  cases callers <;> rfl

theorem finish_world (program : Program) (resume : Resume) (value : Value) (callers : List Frame)
    (executed : Nat) (world : World σ) :
    (finish program resume value callers executed world).world = world := by
  unfold finish
  split
  · exact deliver_world ..
  · exact deliver_world ..
  · exact deliver_world ..
  · split
    · rfl
    · exact pushFrame_world ..

/-- Only the instruction changes the world in a step. -/
theorem Effect.outcome_world (result : Effect σ) (program : Program) (frame : Frame)
    (callers : List Frame) (executed : Nat) :
    (result.outcome program frame callers executed).world = result.world := by
  cases result with
  | next _ _ | fault _ _ => rfl
  | enter _ _ _ => exact pushFrame_world ..
  | ret _ _ => exact finish_world ..

/-! ## Steps -/

/-- An object that owns a field has it. -/
theorem hasField_of_owner {heap : Heap} {value : Value} {name : String} {object : ObjectRef}
    (h : fieldOwner heap value name = .ok object) : heap.hasField object name = true := by
  unfold fieldOwner at h
  split at h
  · split at h
    · rename_i hfield
      cases h
      exact hfield
    · cases h
  · cases h
  · cases h

/-- An instruction leaves all objects with their fields. -/
theorem Acts.heap_later {frame : Frame} {world : World σ} {op : Op} {result : Effect σ}
    (h : Acts setting frame world op result) : world.heap.Later result.world.heap := by
  cases h with
  | setField _ _ owned => exact Heap.later_setField (hasField_of_owner owned) _
  | create _ _ => exact Heap.later_alloc _ _
  | _ => exact .refl _

/-- A step leaves all objects with their fields. -/
theorem step_heap_later (setting : Setting σ) (state : State σ) :
    state.world.heap.Later (step setting state).world.heap := by
  cases stepped setting state with
  | off _ steps =>
    rw [steps, finish_world]
    exact .refl _
  | limited _ _ steps | full _ _ steps =>
    rw [steps]
    exact .refl _
  | acts _ _ acted steps =>
    rw [steps, Effect.outcome_world]
    exact acted.heap_later

/-- Steps leave all objects with their fields. -/
theorem Steps.heap_later {count : Nat} {first last : State σ} (h : Steps setting count first last) :
    first.world.heap.Later last.world.heap := by
  induction h with
  | refl => exact .refl _
  | @head _ first _ _ hstep _ ih =>
    have hfirst := step_heap_later setting first
    rw [hstep] at hfirst
    exact hfirst.trans ih

/-- A run leaves all objects with their fields. -/
theorem run_heap_later {fuel : Nat} {first : State σ} {ending : Ending σ}
    (h : run setting fuel first = some ending) : first.world.heap.Later ending.world.heap := by
  obtain ⟨count, last, hsteps, hend⟩ := run_ends h
  have hlast := step_heap_later setting last
  rw [hend] at hlast
  exact hsteps.heap_later.trans hlast

end Machine

end ScriptHost
