import ScriptHost.Machine.Basic
import ScriptHost.Proofs.Scope.Renaming
/-!
# Values under other class numbers

Where classes have other numbers, the objects that are made of them carry these numbers along. No
operator looks at them: values under new numbers compare, compute and print as before, and fields
are found where they were.
-/

set_option autoImplicit false

namespace ScriptHost

variable {r : Renaming}

/-- An object with the new number of its class. -/
def ObjectRef.rename (r : Renaming) (object : ObjectRef) : ObjectRef :=
  { object with classId := r.classId object.classId }

/-- A value with the new number of its class, if it is an object. -/
def Value.rename (r : Renaming) : Value → Value
  | .object ref => .object (ref.rename r)
  | own => own

/-- The fields of an object, with new numbers in their values. -/
def Fields.rename (r : Renaming) (fields : Fields) : Fields :=
  ⟨fields.entries.map (Prod.map id (Value.rename r))⟩

/-- A heap with new numbers in its values. -/
def Heap.rename (r : Renaming) (heap : Heap) : Heap :=
  ⟨heap.objects.map (Fields.rename r)⟩

/-- What a call came to, with new numbers in its value. -/
def HostOutcome.rename (r : Renaming) : HostOutcome → HostOutcome
  | .value result => .value (result.rename r)
  | refused => refused

namespace Value

@[simp] theorem typeName_rename (value : Value) : (value.rename r).typeName = value.typeName := by
  cases value <;> rfl

@[simp] theorem text_rename (value : Value) : (value.rename r).text = value.text := by
  cases value <;> rfl

@[simp] theorem toFloat?_rename (value : Value) : (value.rename r).toFloat? = value.toFloat? := by
  cases value <;> rfl

@[simp] theorem toStr?_rename (value : Value) : (value.rename r).toStr? = value.toStr? := by
  cases value <;> rfl

@[simp] theorem same_rename (a b : Value) : (a.rename r).same (b.rename r) = a.same b := by
  cases a <;> cases b <;> rfl

@[simp] theorem rename_null : Value.null.rename r = .null :=
  rfl

@[simp] theorem getD_rename (value : Option Value) :
    (value.map (Value.rename r)).getD .null = (value.getD .null).rename r := by
  cases value <;> rfl

/-- Under the old numbers a value is what it was. -/
theorem rename_refl (value : Value) : value.rename .refl = value := by
  cases value <;> rfl

end Value

namespace Fields

theorem get?_rename (fields : Fields) (name : String) :
    (fields.rename r).get? name = (fields.get? name).map (Value.rename r) :=
  Table.get?_map (Value.rename r) fields.entries name

theorem contains_rename (fields : Fields) (name : String) :
    (fields.rename r).contains name = fields.contains name := by
  unfold Fields.rename Table.contains
  rw [List.any_map]
  rfl

theorem insert_rename (fields : Fields) (name : String) (value : Value) :
    (fields.rename r).insert name (value.rename r) = Fields.rename r (fields.insert name value) := by
  refine congrArg Table.mk ?_
  change Table.put name _ (fields.entries.map _) = (Table.put name value fields.entries).map _
  induction fields.entries with
  | nil => rfl
  | cons entry rest ih =>
    rw [List.map_cons, Table.put, Table.put]
    change (if entry.1 == name then _ else _) = _
    split
    · rfl
    · rw [ih]
      rfl

/-- Fields that hold nothing yet hold no numbers. -/
theorem ofList_null_rename (names : List String) :
    Fields.rename r (.ofList (names.map fun name => (name, .null))) =
      .ofList (names.map fun name => (name, .null)) := by
  have general (fields : Fields) :
      Fields.rename r (fields.insertAll (names.map fun name => (name, .null))) =
        (fields.rename r).insertAll (names.map fun name => (name, .null)) := by
    induction names generalizing fields with
    | nil => rfl
    | cons name rest ih =>
      have hfirst := insert_rename (r := r) fields name .null
      exact (ih (fields.insert name .null)).trans (congrArg (Table.insertAll · _) hfirst.symm)
  exact general {}

theorem rename_refl (fields : Fields) : Fields.rename .refl fields = fields := by
  refine congrArg Table.mk ((List.map_congr_left fun entry _ => ?_).trans (List.map_id _))
  exact congrArg (Prod.mk entry.1) (Value.rename_refl entry.2)

end Fields

namespace Heap

theorem rename_refl (heap : Heap) : heap.rename .refl = heap := by
  refine congrArg Heap.mk ?_
  rw [show Fields.rename .refl = id from funext Fields.rename_refl, Array.map_id]

@[simp] theorem size_rename (heap : Heap) :
    (heap.rename r).objects.size = heap.objects.size := by
  simp [Heap.rename]

theorem fields_rename (heap : Heap) (object : ObjectRef) :
    (heap.rename r).fields (object.rename r) = Fields.rename r (heap.fields object) := by
  unfold Heap.rename Heap.fields ObjectRef.rename
  rw [Array.getElem?_map]
  cases heap.objects[object.id]? <;> rfl

theorem getField?_rename (heap : Heap) (object : ObjectRef) (name : String) :
    (heap.rename r).getField? (object.rename r) name =
      (heap.getField? object name).map (Value.rename r) := by
  rw [Heap.getField?, fields_rename, Fields.get?_rename]
  rfl

theorem hasField_rename (heap : Heap) (object : ObjectRef) (name : String) :
    (heap.rename r).hasField (object.rename r) name = heap.hasField object name := by
  rw [Heap.hasField, fields_rename, Fields.contains_rename]
  rfl

theorem next_rename (heap : Heap) (classId : Nat) (className : String) :
    (heap.rename r).next (r.classId classId) className =
      (heap.next classId className).rename r := by
  unfold Heap.next ObjectRef.rename
  rw [size_rename]

theorem alloc_rename (heap : Heap) (fields : Fields) :
    (heap.rename r).alloc (Fields.rename r fields) = (heap.alloc fields).rename r := by
  unfold Heap.alloc Heap.rename
  rw [Array.map_push]

theorem setField_rename (heap : Heap) (object : ObjectRef) (name : String) (value : Value) :
    (heap.rename r).setField (object.rename r) name (value.rename r) =
      (heap.setField object name value).rename r := by
  refine congrArg Heap.mk (Array.ext_getElem? fun place => ?_)
  unfold Heap.rename Heap.setField ObjectRef.rename
  rw [Array.getElem?_map, Array.getElem?_modify, Array.getElem?_modify, Array.getElem?_map]
  split
  · cases heap.objects[place]? with
    | none => rfl
    | some fields => exact congrArg some (Fields.insert_rename fields name value)
  · rfl

end Heap

namespace Machine

/-! ## Operators -/

/-- What an operator has computed is no object. -/
def Plain (computed : Except Fault Value) : Prop :=
  ∀ value, computed = .ok value → ∀ object, value ≠ .object object

theorem Plain.map_rename {computed : Except Fault Value} (h : Plain computed) :
    computed.map (Value.rename r) = computed := by
  cases computed with
  | error e => rfl
  | ok value =>
    have hvalue := h value rfl
    cases value with
    | object object => exact absurd rfl (hvalue object)
    | _ => rfl

theorem plain_ok {value : Value} (h : ∀ object, value ≠ .object object) : Plain (.ok value) := by
  rintro other (hother : Except.ok value = .ok other)
  cases hother
  exact h

theorem plain_error (e : Fault) : Plain (.error e) :=
  nofun

theorem plain_arith (op : ArithOp) (a b : Value) : Plain (arith op a b) := by
  unfold arith
  split
  · rename_i x y
    cases intArith op x y with
    | ok n => exact plain_ok (by rintro _ ⟨⟩)
    | error e => exact plain_error e
  · exact plain_ok (by rintro _ ⟨⟩)
  · exact plain_ok (by rintro _ ⟨⟩)
  · unfold wideArith
    split
    · exact plain_ok (by rintro _ ⟨⟩)
    · exact plain_error _

theorem arith_rename (op : ArithOp) (a b : Value) :
    arith op (a.rename r) (b.rename r) = (arith op a b).map (Value.rename r) := by
  rw [(plain_arith op a b).map_rename]
  cases op <;> cases a <;> cases b <;> rfl

theorem inOrder_rename (op : OrderOp) (a b : Value) :
    inOrder op (a.rename r) (b.rename r) = (inOrder op a b).map (Value.rename r) := by
  have hplain : Plain (inOrder op a b) := by
    unfold inOrder
    cases order op a b with
    | error e => exact plain_error e
    | ok found => cases found <;> exact plain_ok (by rintro _ ⟨⟩)
  rw [hplain.map_rename]
  cases a <;> cases b <;> rfl

theorem negate_rename (a : Value) : negate (a.rename r) = (negate a).map (Value.rename r) := by
  cases a with
  | int n =>
    change negate (.int n) = _
    rw [negate]
    split <;> rfl
  | _ => rfl

theorem invert_rename (a : Value) : invert (a.rename r) = (invert a).map (Value.rename r) := by
  cases a <;> rfl

theorem condition_rename (a : Value) : condition (a.rename r) = condition a := by
  cases a <;> rfl

theorem fieldOwner_rename (heap : Heap) (value : Value) (name : String) :
    fieldOwner (heap.rename r) (value.rename r) name =
      (fieldOwner heap value name).map (ObjectRef.rename r) := by
  cases value with
  | object object =>
    change (if (heap.rename r).hasField (object.rename r) name then _ else _) = _
    rw [Heap.hasField_rename, fieldOwner]
    split <;> rfl
  | _ => rfl

end Machine

end ScriptHost
