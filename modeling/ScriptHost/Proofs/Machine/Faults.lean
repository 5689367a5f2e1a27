import ScriptHost.Proofs.Machine.Actions
/-!
# Where faults come from

The parts of an instruction that can fail, and what each fails with. Operators and field accesses
fail with faults of a kind of their own (`Fault.ofOperands`); calls fail where a table of the
program has no entry or the number of arguments is wrong.
-/

set_option autoImplicit false

namespace ScriptHost

/-- Whether a fault tells of operands that an instruction cannot work on. -/
def Fault.ofOperands : Fault → Bool
  | .divisionByZero | .integerOverflow | .badCondition _ | .badOperand .. | .badOperands ..
  | .nullCall _ | .notAnObjectCall .. | .unknownMethod ..
  | .nullAccess _ | .notAnObjectAccess .. | .unknownField .. => true
  | _ => false

/-- Whether a fault is one that a host function has caused, or the lack of its module. -/
def Fault.ofHost : Fault → Bool
  | .moduleUnloaded .. | .hostFailure .. | .hostPanic .. => true
  | _ => false

namespace Machine

variable {σ : Type}

/-! ## Operators -/

/-- A condition fails for its operand. -/
theorem condition_error {value : Value} {e : Fault} (h : condition value = .error e) :
    e.ofOperands = true := by
  cases value <;> cases h <;> rfl

/-- An operator on whole numbers fails for its operands. -/
theorem intArith_error {op : ArithOp} {a b : Int64} {e : Fault} (h : intArith op a b = .error e) :
    e.ofOperands = true := by
  unfold intArith at h
  extract_lets result at h
  split at h
  · cases h
    rfl
  · cases hresult : result with
    | some n =>
      rw [hresult] at h
      cases h
    | none =>
      rw [hresult] at h
      cases h
      rfl

/-- An operator on numbers that are not whole fails for its operands. -/
theorem wideArith_error {op : ArithOp} {a b : Value} {e : Fault}
    (h : wideArith op a b = .error e) : e.ofOperands = true := by
  unfold wideArith at h
  split at h
  · cases h
  · cases h
    rfl

/-- An operator that computes fails for its operands. -/
theorem arith_error {op : ArithOp} {a b : Value} {e : Fault} (h : arith op a b = .error e) :
    e.ofOperands = true := by
  unfold arith at h
  split at h
  · rename_i x y
    cases hint : intArith op x y with
    | ok n =>
      rw [hint] at h
      cases h
    | error e' =>
      rw [hint] at h
      cases h
      exact intArith_error hint
  · cases h
  · cases h
  · exact wideArith_error h

/-- An order fails for its operands. -/
theorem order_error {op : OrderOp} {a b : Value} {e : Fault} (h : order op a b = .error e) :
    e.ofOperands = true := by
  unfold order at h
  split at h
  · cases h
  · cases h
  · split at h
    · cases h
    · cases h
      rfl

/-- A comparison fails for its operands. -/
theorem inOrder_error {op : OrderOp} {a b : Value} {e : Fault} (h : inOrder op a b = .error e) :
    e.ofOperands = true := by
  unfold inOrder at h
  cases horder : order op a b with
  | error e' =>
    rw [horder] at h
    cases h
    exact order_error horder
  | ok found =>
    rw [horder] at h
    cases found <;> cases h

/-- An operator on one operand fails for it. -/
theorem unary_error {op : Op} {f : Value → Except Fault Value} {a : Value} {e : Fault}
    (hop : op.unary? = some f) (h : f a = .error e) : e.ofOperands = true := by
  cases op with
  | neg =>
    cases hop
    unfold negate at h
    split at h
    · split at h <;> cases h
      rfl
    · cases h
    · cases h
      rfl
  | not =>
    cases hop
    unfold invert at h
    split at h
    · cases h
    · cases h
      rfl
  | _ => cases hop

/-- An operator on two operands fails for them. -/
theorem binary_error {op : Op} {f : Value → Value → Except Fault Value} {a b : Value} {e : Fault}
    (hop : op.binary? = some f) (h : f a b = .error e) : e.ofOperands = true := by
  cases op with
  | add | sub | mul | div | mod =>
    cases hop
    exact arith_error h
  | lt | gt | le | ge =>
    cases hop
    exact inOrder_error h
  | eq | ne =>
    cases hop
    cases h
  | _ => cases hop

/-- An access to a field that succeeds goes to the object that the operand is. -/
theorem fieldOwner_ok {heap : Heap} {value : Value} {name : String} {object : ObjectRef}
    (h : fieldOwner heap value name = .ok object) : value = .object object := by
  unfold fieldOwner at h
  split at h
  · split at h <;> cases h
    rfl
  · cases h
  · cases h

/-- An access to a field fails for the operand that should have it. -/
theorem fieldOwner_error {heap : Heap} {value : Value} {name : String} {e : Fault}
    (h : fieldOwner heap value name = .error e) : e.ofOperands = true := by
  unfold fieldOwner at h
  split at h
  · split at h <;> cases h
    rfl
  · cases h
    rfl
  · cases h
    rfl

/-- A constant that is no name is all that is wrong with a name. -/
theorem constantName_error {frame : Frame} {index : Nat} {e : Fault}
    (h : frame.constantName index = .error e) :
    e = .invalidName index ∧ frame.chunk.constants[index]?.bind Value.toStr? = none := by
  unfold Frame.constantName at h
  split at h
  · cases h
  · rename_i hnone
    cases h
    exact ⟨rfl, by simpa using hnone⟩

/-! ## Calls -/

/-- A call that succeeds enters a function that takes so many arguments. -/
theorem enter_ok {program : Program} {id : Nat} {this : Option ObjectRef} {args : List Value}
    {resume : Resume} {frame : Frame} (h : enter program id this args resume = .ok frame) :
    ∃ f, program.functions[id]? = some f ∧ args.length = f.arity ∧
      frame = .start f.name f.chunk this args resume := by
  unfold enter at h
  split at h
  · cases h
  · rename_i f hf
    split at h
    · rename_i hargs
      cases h
      exact ⟨f, hf, hargs, rfl⟩
    · cases h

/-- A call fails for want of the function, or for the number of arguments. -/
theorem enter_error {program : Program} {id : Nat} {this : Option ObjectRef} {args : List Value}
    {resume : Resume} {e : Fault} (h : enter program id this args resume = .error e) :
    (program.functions[id]? = none ∧ e = .invalidFunction id) ∨
      ∃ f, program.functions[id]? = some f ∧ args.length ≠ f.arity ∧
        e = .argumentCount f.name (toString f.arity) args.length := by
  unfold enter at h
  split at h
  · rename_i hnone
    cases h
    exact .inl ⟨hnone, rfl⟩
  · rename_i f hf
    split at h
    · cases h
    · rename_i hargs
      cases h
      exact .inr ⟨f, hf, hargs, rfl⟩

/-- A creation that succeeds enters the function that initialises the fields of the class. -/
theorem construct_ok {program : Program} {classId : Nat} {args : List Value} {heap : Heap}
    {frame : Frame} {fields : Fields}
    (h : construct program classId args heap = .ok (frame, fields)) :
    ∃ c, program.classes[classId]? = some c ∧ (c.constructor? = none → args = []) ∧
      enter program c.fieldInit (some (heap.next classId c.name)) []
        (.construct (heap.next classId c.name) (c.constructor?.map fun id => (id, args))) =
        .ok frame ∧
      fields = .ofList (c.fields.map fun name => (name, .null)) := by
  unfold construct at h
  split at h
  · cases h
  · rename_i c hc
    split at h
    · cases h
    · rename_i htakes
      refine ⟨c, hc, fun hnone => ?_, ?_⟩
      · simpa [hnone] using htakes
      · cases henter : enter program c.fieldInit (some (heap.next classId c.name)) []
          (.construct (heap.next classId c.name) (c.constructor?.map fun id => (id, args))) with
        | error e =>
          simp only [henter] at h
          cases h
        | ok callee =>
          simp only [henter] at h
          cases h
          exact ⟨rfl, rfl⟩

/-- A creation fails for want of the class or of a constructor, or as the call does that
initialises the fields. -/
theorem construct_error {program : Program} {classId : Nat} {args : List Value} {heap : Heap}
    {e : Fault} (h : construct program classId args heap = .error e) :
    (program.classes[classId]? = none ∧ e = .invalidClass classId) ∨
      ∃ c, program.classes[classId]? = some c ∧
        ((c.constructor? = none ∧ args ≠ [] ∧ e = .noConstructor c.name args.length) ∨
          ∃ this resume, enter program c.fieldInit this [] resume = .error e) := by
  unfold construct at h
  split at h
  · rename_i hnone
    cases h
    exact .inl ⟨hnone, rfl⟩
  · rename_i c hc
    refine .inr ⟨c, hc, ?_⟩
    split at h
    · rename_i htakes
      cases h
      simp only [Bool.and_eq_true, Option.isNone_iff_eq_none, Bool.not_eq_true',
        List.isEmpty_eq_false_iff] at htakes
      exact .inl ⟨htakes.1, htakes.2, rfl⟩
    · cases henter : enter program c.fieldInit (some (heap.next classId c.name)) []
        (.construct (heap.next classId c.name) (c.constructor?.map fun id => (id, args))) with
      | ok callee =>
        simp only [henter] at h
        cases h
      | error e' =>
        simp only [henter] at h
        cases h
        exact .inr ⟨_, _, henter⟩

/-- A method that is found is one of the receiver's class. -/
theorem method_ok {program : Program} {receiver : Value} {name : String} {id : Nat}
    {object : ObjectRef} (h : method program receiver name = .ok (id, object)) :
    receiver = .object object ∧
      ∃ c, program.classes[object.classId]? = some c ∧ c.methods.get? name = some id := by
  unfold method at h
  split at h
  · rename_i object'
    split at h
    · cases h
    · rename_i c hc
      split at h
      · rename_i id' hid
        cases h
        exact ⟨rfl, c, hc, hid⟩
      · cases h
  · cases h
  · cases h

/-- A method is not found for want of the receiver's class, or because of the receiver. -/
theorem method_error {program : Program} {receiver : Value} {name : String} {e : Fault}
    (h : method program receiver name = .error e) :
    (∃ object : ObjectRef, receiver = .object object ∧ program.classes[object.classId]? = none ∧
        e = .invalidClass object.classId) ∨ e.ofOperands = true := by
  unfold method at h
  split at h
  · rename_i object
    split at h
    · rename_i hnone
      cases h
      exact .inl ⟨object, rfl, hnone, rfl⟩
    · split at h <;> cases h
      exact .inr rfl
  · cases h
    exact .inr rfl
  · cases h
    exact .inr rfl

/-- A call of a host function fails for want of the binding, because the function does not take the
call, or for reasons of the host. -/
theorem callHost_error {setting : Setting σ} {id : Nat} {args : List Value} {host after : σ}
    {e : Fault} (h : callHost setting id args host = (.error e, after)) :
    (setting.program.bindings[id]? = none ∧ e = .invalidBinding id) ∨
      ∃ binding, setting.program.bindings[id]? = some binding ∧
        (e.ofHost = true ∨
          ∃ module, binding.handle.bind setting.catalog.live? = some module ∧
            ((module.functions.get? binding.functionName = none ∧
                e = .unknownHostFunction binding.moduleName binding.functionName) ∨
              ∃ f, module.functions.get? binding.functionName = some f ∧
                f.arity.accepts args.length = false ∧
                e = .argumentCount (binding.moduleName ++ "." ++ binding.functionName)
                  f.arity.text args.length)) := by
  unfold callHost at h
  split at h
  · rename_i hnone
    cases h
    exact .inl ⟨hnone, rfl⟩
  · rename_i binding hbinding
    refine .inr ⟨binding, hbinding, ?_⟩
    unfold callBound at h
    cases hbound : boundFunction setting.catalog binding args.length with
    | ok f =>
      rw [hbound] at h
      cases hcall : f.call args host with
      | mk outcome host' =>
        simp only [hcall] at h
        cases outcome with
        | value value => cases h
        | failure message | panic detail =>
          cases h
          exact .inl rfl
    | error e' =>
      rw [hbound] at h
      cases h
      unfold boundFunction at hbound
      split at hbound
      · cases hbound
        exact .inl rfl
      · rename_i module hmodule
        refine .inr ⟨module, hmodule, ?_⟩
        split at hbound
        · rename_i hnone
          cases hbound
          exact .inl ⟨hnone, rfl⟩
        · rename_i f hf
          split at hbound
          · cases hbound
          · rename_i haccepts
            cases hbound
            exact .inr ⟨f, hf, by simpa using haccepts, rfl⟩

/-- What a binding leads to is a function of a module that is loaded. -/
theorem function_of_bound {catalog : Catalog σ} {binding : HostBinding} {argc : Nat}
    {f : HostFunction σ} (h : boundFunction catalog binding argc = .ok f) :
    ∃ id module, catalog.live? id = some module ∧
      module.functions.get? binding.functionName = some f := by
  unfold boundFunction at h
  split at h
  · cases h
  · rename_i module hmodule
    obtain ⟨id, -, hlive⟩ := Option.bind_eq_some_iff.mp hmodule
    split at h
    · cases h
    · rename_i g hg
      split at h
      · cases h
        exact ⟨id, module, hlive, hg⟩
      · cases h

end Machine

end ScriptHost
