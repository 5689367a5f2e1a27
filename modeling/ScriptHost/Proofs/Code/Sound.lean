import ScriptHost.Proofs.Program.Closed
import ScriptHost.Proofs.Scope.Within
import ScriptHost.Proofs.Trees.Calls
/-!
# Instructions refer to what is there

An instruction is sound in a program if all its numbers are those of entries of a table, if it takes
strings for names, and if it passes as many arguments as the callee takes. The code of trees that
refer to what the program has is sound: `Code.BodyLowered.sound` and `Code.TopLevelLowered.sound`.
-/

set_option autoImplicit false

namespace ScriptHost

namespace Program

/-- A function of the program that takes so many arguments. -/
def Takes (program : Program) (id argc : Nat) : Prop :=
  ∃ f, program.functions[id]? = some f ∧ f.arity = argc

/-- A class of the program whose constructor takes so many arguments, or none if there is no
constructor. -/
def Creates (program : Program) (id argc : Nat) : Prop :=
  ∃ c, program.classes[id]? = some c ∧
    match c.constructor? with
    | some function => program.Takes function argc
    | none => argc = 0

/-- What trees may refer to when they become part of the program. `accepts` says which bindings may
be called with how many arguments. -/
def referents (program : Program) (accepts : HostBinding → Nat → Prop) (allowed : AllowedModules)
    (slot : Nat → Prop) : Resolved.Referents where
  slot := slot
  global id := id < program.globalCount
  function := program.Takes
  created := program.Creates
  host module function argc := accepts ⟨allowed.get? module, module, function⟩ argc

end Program

/-- All that an instruction refers to is there, and it passes the right number of arguments. Objects
are no constants. -/
def Op.Sound (program : Program) (accepts : HostBinding → Nat → Prop) (slot : Nat → Prop)
    (constants : Array Value) : Op → Prop
  | .pushConst index => ∃ value, constants[index]? = some value ∧ ∀ object, value ≠ .object object
  | .loadLocal s | .storeLocal s => slot s
  | .loadGlobal id | .storeGlobal id => id < program.globalCount
  | .getField index | .setField index | .callMethod index _ =>
    ∃ name, constants[index]? = some (.str name)
  | .call id argc => program.Takes id argc
  | .create id argc => program.Creates id argc
  | .callHost id argc => ∃ binding, program.bindings[id]? = some binding ∧ accepts binding argc
  | _ => True

namespace Code

variable {program : Program} {accepts : HostBinding → Nat → Prop} {allowed : AllowedModules}
  {slot : Nat → Prop} {pool : Pool} {base : Nat}

/-- All instructions of some code are sound. -/
def CodeSound (program : Program) (accepts : HostBinding → Nat → Prop) (slot : Nat → Prop)
    (constants : Array Value) (code : List Op) : Prop :=
  ∀ op ∈ code, op.Sound program accepts slot constants

/-- Code in two parts is sound if both parts are. -/
theorem codeSound_append {constants : Array Value} {front rest : List Op} :
    CodeSound program accepts slot constants (front ++ rest) ↔
      CodeSound program accepts slot constants front ∧
        CodeSound program accepts slot constants rest :=
  List.forall_mem_append

/-- Code is sound if its first instruction is and what follows. -/
theorem codeSound_cons {constants : Array Value} {op : Op} {rest : List Op} :
    CodeSound program accepts slot constants (op :: rest) ↔
      op.Sound program accepts slot constants ∧ CodeSound program accepts slot constants rest :=
  List.forall_mem_cons

/-- No code is sound. -/
theorem codeSound_nil {constants : Array Value} :
    CodeSound program accepts slot constants [] :=
  nofun

/-- One instruction is sound code if it is sound. -/
theorem codeSound_single {constants : Array Value} {op : Op}
    (h : op.Sound program accepts slot constants) :
    CodeSound program accepts slot constants [op] :=
  List.forall_mem_singleton.mpr h

mutual

/-- The code of an expression is sound if the expression refers to what is there. -/
theorem Lowered.sound (hbound : Bound program pool base allowed) :
    ∀ {start : Nat} {e : Resolved.Expr} {code : List Op}, Lowered pool base start e code →
      e.Within (program.referents accepts allowed slot) →
        CodeSound program accepts slot pool.constants code
  | _, _, _, .null, _ | _, _, _, .yes, _ | _, _, _, .no, _ | _, _, _, .loadThis, _ =>
    codeSound_single trivial
  | _, _, _, .const known, h => codeSound_single ⟨_, known, h⟩
  | _, _, _, .loadLocal, h => codeSound_single h
  | _, _, _, .loadGlobal, h => codeSound_single h
  | _, _, _, .getField owner known, h =>
    codeSound_append.mpr ⟨owner.sound hbound h, codeSound_single ⟨_, known⟩⟩
  | _, _, _, .and first second, h => by
    simp only [codeSound_append, codeSound_cons]
    exact ⟨⟨first.sound hbound h.1, trivial, second.sound hbound h.2⟩, trivial, trivial,
      codeSound_nil⟩
  | _, _, _, .or first second, h => by
    simp only [codeSound_append, codeSound_cons]
    exact ⟨first.sound hbound h.1, trivial, trivial, trivial, second.sound hbound h.2⟩
  | _, _, _, @Lowered.binary _ _ _ op _ _ _ _ _ _ first second, h => by
    refine codeSound_append.mpr ⟨codeSound_append.mpr
      ⟨first.sound hbound h.1, second.sound hbound h.2⟩, codeSound_single ?_⟩
    cases op <;> trivial
  | _, _, _, @Lowered.unary _ _ _ op _ _ first, h => by
    refine codeSound_append.mpr ⟨first.sound hbound h, codeSound_single ?_⟩
    cases op <;> trivial
  | _, _, _, .call all, h =>
    codeSound_append.mpr ⟨all.sound hbound h.2, codeSound_single h.1⟩
  | _, _, _, .callMethod receiver all known, h =>
    codeSound_append.mpr ⟨codeSound_append.mpr ⟨receiver.sound hbound h.1, all.sound hbound h.2⟩,
      codeSound_single ⟨_, known⟩⟩
  | _, _, _, .callHost all known, h =>
    codeSound_append.mpr ⟨all.sound hbound h.2,
      codeSound_single ⟨_, hbound _ _ _ known, h.1⟩⟩
  | _, _, _, .create all, h =>
    codeSound_append.mpr ⟨all.sound hbound h.2, codeSound_single h.1⟩

/-- The same for several expressions. -/
theorem LoweredAll.sound (hbound : Bound program pool base allowed) :
    ∀ {start : Nat} {args : List Resolved.Expr} {code : List Op},
      LoweredAll pool base start args code →
        Resolved.Expr.WithinAll (program.referents accepts allowed slot) args →
          CodeSound program accepts slot pool.constants code
  | _, _, _, .nil, _ => codeSound_nil
  | _, _, _, .cons first others, h =>
    codeSound_append.mpr ⟨first.sound hbound h.1, others.sound hbound h.2⟩

end

mutual

/-- The same for a statement. -/
theorem StmtLowered.sound (hbound : Bound program pool base allowed) :
    ∀ {start : Nat} {s : Resolved.Stmt} {code : List Op}, StmtLowered pool base start s code →
      s.Within (program.referents accepts allowed slot) →
        CodeSound program accepts slot pool.constants code
  | _, _, _, .storeLocal first, h =>
    codeSound_append.mpr ⟨first.sound hbound h.2, codeSound_single h.1⟩
  | _, _, _, .storeGlobal first, h =>
    codeSound_append.mpr ⟨first.sound hbound h.2, codeSound_single h.1⟩
  | _, _, _, .setField owner first known, h =>
    codeSound_append.mpr ⟨codeSound_append.mpr ⟨owner.sound hbound h.1, first.sound hbound h.2⟩,
      codeSound_single ⟨_, known⟩⟩
  | _, _, _, .ifThen test first, h =>
    codeSound_append.mpr ⟨test.sound hbound h.1,
      codeSound_cons.mpr ⟨trivial, first.sound hbound h.2.1⟩⟩
  | _, _, _, .ifElse _ test first second, h => by
    simp only [codeSound_append, codeSound_cons]
    exact ⟨⟨test.sound hbound h.1, trivial, first.sound hbound h.2.1⟩, trivial,
      second.sound hbound h.2.2⟩
  | _, _, _, .loop test first, h => by
    simp only [codeSound_append, codeSound_cons]
    exact ⟨⟨test.sound hbound h.1, trivial, first.sound hbound h.2⟩, trivial, codeSound_nil⟩
  | _, _, _, .retNull, _ =>
    codeSound_cons.mpr ⟨trivial, codeSound_single trivial⟩
  | _, _, _, .ret first, h =>
    codeSound_append.mpr ⟨first.sound hbound h, codeSound_single trivial⟩
  | _, _, _, .expr first, h =>
    codeSound_append.mpr ⟨first.sound hbound h, codeSound_single trivial⟩

/-- The same for several statements. -/
theorem StmtsLowered.sound (hbound : Bound program pool base allowed) :
    ∀ {start : Nat} {body : List Resolved.Stmt} {code : List Op},
      StmtsLowered pool base start body code →
        Resolved.Stmt.WithinAll (program.referents accepts allowed slot) body →
          CodeSound program accepts slot pool.constants code
  | _, _, _, .nil, _ => codeSound_nil
  | _, _, _, .cons first others, h =>
    codeSound_append.mpr ⟨first.sound hbound h.1, others.sound hbound h.2⟩

end

/-- The same for a function body. -/
theorem BodyLowered.sound (hbound : Bound program pool base allowed) {body : List Resolved.Stmt}
    {code : List Op} (h : BodyLowered pool base body code)
    (hwithin : Resolved.Stmt.WithinAll (program.referents accepts allowed slot) body) :
    CodeSound program accepts slot pool.constants code := by
  obtain ⟨inner, lowered, rfl⟩ := h
  exact codeSound_append.mpr ⟨lowered.sound hbound hwithin,
    codeSound_cons.mpr ⟨trivial, codeSound_single trivial⟩⟩

/-- The same for a top level. -/
theorem TopLevelLowered.sound (hbound : Bound program pool base allowed) {returnsValue : Bool}
    {body : List Resolved.Stmt} {code : List Op}
    (h : TopLevelLowered pool base returnsValue body code)
    (hwithin : Resolved.Stmt.WithinAll (program.referents accepts allowed slot) body) :
    CodeSound program accepts slot pool.constants code := by
  unfold TopLevelLowered at h
  cases hresult : Resolved.resultOf returnsValue body with
  | none =>
    simp only [hresult] at h
    exact h.sound hbound hwithin
  | some value =>
    simp only [hresult] at h
    obtain ⟨inner, last, lowered, hvalue, rfl⟩ := h
    rw [resultOf_eq hresult, Resolved.Stmt.withinAll_append] at hwithin
    obtain ⟨hbody, hlast, -⟩ := hwithin
    simp only [codeSound_append, codeSound_cons]
    exact ⟨⟨lowered.sound hbound hbody, hvalue.sound hbound hlast⟩, trivial, trivial, trivial,
      codeSound_nil⟩

end Code

end ScriptHost
