import Mathlib.Algebra.Group.Int.Defs
import Mathlib.Order.Basic
import ScriptHost.Machine.Basic
/-!
# Exact whole numbers

An operator on two whole numbers gives the exact result or a fault. Which of them it is depends on
the exact result alone, with one exception: the remainder of the least number by minus one is zero,
but it is computed with a quotient that no 64-bit number has, and so it is reported as an overflow.
-/

set_option autoImplicit false

namespace ScriptHost

/-- Whether a whole number is one of those with 64 bits. -/
def Representable (n : Int) : Prop :=
  -2 ^ 63 ≤ n ∧ n < 2 ^ 63

namespace ArithOp

/-- The exact result. A quotient is cut off toward zero, and a remainder has the sign of the
dividend. -/
def exact : ArithOp → Int → Int → Int
  | .add, a, b => a + b
  | .sub, a, b => a - b
  | .mul, a, b => a * b
  | .div, a, b => a.tdiv b
  | .mod, a, b => a.tmod b

/-- Whether the operator has a result at all: there is none by a divisor of zero. -/
def Defined (op : ArithOp) (b : Int64) : Prop :=
  ¬((op = .div ∨ op = .mod) ∧ b = 0)

/-- The remainder whose quotient does not fit. -/
def LeastByMinusOne (op : ArithOp) (a b : Int64) : Prop :=
  op = .mod ∧ a = Int64.minValue ∧ b = -1

/-- The instruction that carries the operator out. -/
def instruction : ArithOp → Op
  | .add => .add
  | .sub => .sub
  | .mul => .mul
  | .div => .div
  | .mod => .mod

end ArithOp

/-! ## Numbers with 64 bits -/

theorem representable_toInt (a : Int64) : Representable a.toInt :=
  ⟨a.le_toInt, a.toInt_lt⟩

namespace Checked

theorem fits_iff (n : Int) : fits n = true ↔ Representable n := by
  have hleast : Int64.minValue.toInt = -2 ^ 63 := by decide
  have hgreatest : Int64.maxValue.toInt = 2 ^ 63 - 1 := by decide
  simp only [fits, Representable, Bool.and_eq_true, decide_eq_true_eq, hleast, hgreatest]
  omega

/-- The number that is found is the one with this value. -/
theorem ofInt?_eq_some_iff (n : Int) (v : Int64) : ofInt? n = some v ↔ v.toInt = n := by
  unfold ofInt?
  split
  case isTrue h =>
    obtain ⟨hlo, hhi⟩ := (fits_iff n).1 h
    have hvalue : (Int64.ofInt n).toInt = n := Int64.toInt_ofInt_of_le hlo hhi
    rw [Option.some.injEq, ← Int64.toInt_inj, hvalue, eq_comm]
  case isFalse h =>
    refine ⟨fun hnone => (nomatch hnone), fun hv => ?_⟩
    exact absurd ((fits_iff n).2 (hv ▸ representable_toInt v)) h

theorem ofInt?_eq_none_iff (n : Int) : ofInt? n = none ↔ ¬Representable n := by
  rw [← fits_iff]
  unfold ofInt?
  split <;> simp_all

/-- A remainder has the sign of the dividend. -/
theorem tmod_nonpos {a : Int} (h : a ≤ 0) (b : Int) : a.tmod b ≤ 0 := by
  have hturned : 0 ≤ (-a).tmod b := Int.tmod_nonneg b (by omega)
  rw [Int.neg_tmod] at hturned
  omega

/-- The only quotient that is too large is that of the least number by minus one. -/
theorem representable_tdiv_iff (a b : Int64) :
    Representable (a.toInt.tdiv b.toInt) ↔ ¬(a = Int64.minValue ∧ b = -1) := by
  obtain ⟨hlo, hhi⟩ := representable_toInt a
  have hleast : Int64.minValue.toInt = -2 ^ 63 := by decide
  have hminus : (-1 : Int64).toInt = -1 := by decide
  constructor
  · rintro hfits ⟨rfl, rfl⟩
    exact absurd hfits.2 (by decide)
  · intro hnot
    have hsize := Int.natAbs_tdiv_le_natAbs a.toInt b.toInt
    refine ⟨by omega, ?_⟩
    by_contra hlarge
    -- The quotient is as large as the least number, so that there is nothing to divide by but one.
    have hquotient : a.toInt.tdiv b.toInt = 2 ^ 63 := by omega
    have hdividend : a.toInt = -2 ^ 63 := by omega
    have hdivisor : b.toInt ≠ 0 := by
      intro hzero
      rw [hzero, Int.tdiv_zero] at hquotient
      omega
    have hremainder : (a.toInt.tmod b.toInt).natAbs < b.toInt.natAbs := by
      rw [Int.natAbs_tmod]
      exact Nat.mod_lt _ (Int.natAbs_pos.2 hdivisor)
    have hsign : a.toInt.tmod b.toInt ≤ 0 := tmod_nonpos (by omega) _
    have hsum := Int.mul_tdiv_add_tmod a.toInt b.toInt
    rw [hquotient] at hsum
    refine hnot ⟨Int64.toInt_inj.1 (hdividend.trans hleast.symm), Int64.toInt_inj.1 ?_⟩
    rw [hminus]
    omega

end Checked

/-! ## What the machine computes -/

namespace Machine

/-- A checked result, which is an overflow where there is none. -/
def orOverflow : Option Int64 → Except Fault Int64
  | some n => .ok n
  | none => .error .integerOverflow

theorem orOverflow_eq_ok_iff (n : Int) (v : Int64) :
    orOverflow (Checked.ofInt? n) = .ok v ↔ v.toInt = n := by
  rw [← Checked.ofInt?_eq_some_iff]
  cases Checked.ofInt? n <;> simp [orOverflow]

theorem orOverflow_eq_error_iff (n : Int) (e : Fault) :
    orOverflow (Checked.ofInt? n) = .error e ↔ e = .integerOverflow ∧ ¬Representable n := by
  rw [← Checked.ofInt?_eq_none_iff]
  cases Checked.ofInt? n <;> simp [orOverflow, eq_comm]

variable {op : ArithOp} {a b : Int64}

/-- Nothing is divided by zero. -/
theorem intArith_of_undefined (h : ¬op.Defined b) : intArith op a b = .error .divisionByZero := by
  have hzero := not_not.1 h
  simp only [intArith, if_pos hzero]

/-- The remainder of the least number by minus one is an overflow. -/
theorem intArith_of_leastByMinusOne (h : op.LeastByMinusOne a b) :
    intArith op a b = .error .integerOverflow := by
  obtain ⟨rfl, rfl, rfl⟩ := h
  decide +kernel

/-- Otherwise the exact result is given, if there is a number for it. -/
theorem intArith_of_defined (h : op.Defined b) (hnot : ¬op.LeastByMinusOne a b) :
    intArith op a b = orOverflow (Checked.ofInt? (op.exact a.toInt b.toInt)) := by
  have hdivisor : op = .div ∨ op = .mod → ¬b.toInt = 0 := fun hop hzero =>
    h ⟨hop, Int64.toInt_inj.1 hzero⟩
  have hquotient : op = .mod → Checked.fits (a.toInt.tdiv b.toInt) = true := fun hop =>
    (Checked.fits_iff _).2 ((Checked.representable_tdiv_iff a b).2 fun hleast => hnot ⟨hop, hleast⟩)
  simp only [intArith, if_neg h]
  cases op with
  | add => rfl
  | sub => rfl
  | mul => rfl
  | div =>
    simp only [Checked.div, if_neg (hdivisor (.inl rfl)), ArithOp.exact]
    rfl
  | mod =>
    simp only [Checked.rem, hquotient rfl, hdivisor (.inr rfl), decide_false, Bool.not_true,
      Bool.or_false, Bool.false_eq_true, if_false, ArithOp.exact]
    rfl

/-- An operator on two whole numbers has the exact result where it has one. -/
theorem intArith_eq_ok_iff (v : Int64) :
    intArith op a b = .ok v ↔
      op.Defined b ∧ ¬op.LeastByMinusOne a b ∧ v.toInt = op.exact a.toInt b.toInt := by
  by_cases hdefined : op.Defined b
  case neg => simp [intArith_of_undefined hdefined, hdefined]
  by_cases hleast : op.LeastByMinusOne a b
  case pos => simp [intArith_of_leastByMinusOne hleast, hleast]
  simp [intArith_of_defined hdefined hleast, orOverflow_eq_ok_iff, hdefined, hleast]

/-- Where it has none, there are two reasons for it. -/
theorem intArith_eq_error_iff (e : Fault) :
    intArith op a b = .error e ↔
      (e = .divisionByZero ∧ ¬op.Defined b) ∨
        (e = .integerOverflow ∧ op.Defined b ∧
          (op.LeastByMinusOne a b ∨ ¬Representable (op.exact a.toInt b.toInt))) := by
  by_cases hdefined : op.Defined b
  case neg => simp [intArith_of_undefined hdefined, hdefined, eq_comm]
  by_cases hleast : op.LeastByMinusOne a b
  case pos => simp [intArith_of_leastByMinusOne hleast, hdefined, hleast, eq_comm]
  simp [intArith_of_defined hdefined hleast, orOverflow_eq_error_iff, hdefined, hleast]

/-! ## What an instruction does -/

/-- The effect that comes of a whole number, which is pushed, or of a fault. -/
def wholeEffect {σ : Type} (frame : Frame) (rest : List Value) (world : World σ) :
    Except Fault Int64 → Effect σ
  | .ok v => .next { frame with stack := .int v :: rest } world
  | .error e => .fault e world

section Instructions

variable {σ : Type} (setting : Setting σ) (frame : Frame) (rest : List Value) (world : World σ)

theorem wholeEffect_inj {r r' : Except Fault Int64} :
    wholeEffect frame rest world r = wholeEffect frame rest world r' ↔ r = r' := by
  refine ⟨fun h => ?_, fun h => h ▸ rfl⟩
  cases r <;> cases r' <;> simp_all [wholeEffect]

/-- The effect of an operator on the two whole numbers on top of the stack. -/
theorem effect_instruction (op : ArithOp) (a b : Int64) :
    effect setting { frame with stack := .int b :: .int a :: rest } world op.instruction =
      wholeEffect frame rest world (intArith op a b) := by
  have hoperate : operate₂ { frame with stack := .int b :: .int a :: rest } (arith op) =
      (intArith op a b).map fun v => { frame with stack := .int v :: rest } := by
    change ((intArith op a b).map Value.int >>= fun v =>
      Pure.pure ({ frame with stack := v :: rest } : Frame)) = _
    cases intArith op a b <;> rfl
  have hattempt : effect setting { frame with stack := .int b :: .int a :: rest } world
      op.instruction = .attempt world
        (operate₂ { frame with stack := .int b :: .int a :: rest } (arith op)) .next := by
    cases op <;> rfl
  rw [hattempt, hoperate]
  cases intArith op a b <;> rfl

/-- The effect of a minus sign on the whole number on top of the stack. -/
theorem effect_neg (a : Int64) :
    effect setting { frame with stack := .int a :: rest } world .neg =
      wholeEffect frame rest world (orOverflow (Checked.ofInt? (-a.toInt))) := by
  change Effect.attempt world ((match Checked.neg a with
    | some n => .ok (.int n)
    | none => .error .integerOverflow) >>= fun v =>
      Pure.pure ({ frame with stack := v :: rest } : Frame)) .next = _
  unfold Checked.neg
  cases Checked.ofInt? (-a.toInt) <;> rfl

/-- **An operator on two whole numbers, and a minus sign in front of one, is exact or faults.** The
exact result is pushed where the divisor is not zero and there is a 64-bit number for it. A zero
divisor is a fault of its own, and all else is an overflow. The one exception is a remainder: that
of the least number by minus one is zero and is reported as an overflow. Nothing wraps around, and
nothing else can happen. -/
theorem whole_numbers_exact_or_fault (a b : Int64) :
    (∀ op : ArithOp,
      let after :=
        effect setting { frame with stack := .int b :: .int a :: rest } world op.instruction
      (∀ v : Int64, after = .next { frame with stack := .int v :: rest } world ↔
        op.Defined b ∧ ¬op.LeastByMinusOne a b ∧ v.toInt = op.exact a.toInt b.toInt) ∧
      (after = .fault .divisionByZero world ↔ ¬op.Defined b) ∧
      (after = .fault .integerOverflow world ↔
        op.Defined b ∧ (op.LeastByMinusOne a b ∨ ¬Representable (op.exact a.toInt b.toInt))) ∧
      ((∃ v : Int64, after = .next { frame with stack := .int v :: rest } world) ∨
        after = .fault .divisionByZero world ∨ after = .fault .integerOverflow world)) ∧
    (let after := effect setting { frame with stack := .int a :: rest } world .neg
     (∀ v : Int64, after = .next { frame with stack := .int v :: rest } world ↔
       v.toInt = -a.toInt) ∧
     (after = .fault .integerOverflow world ↔ ¬Representable (-a.toInt)) ∧
     ((∃ v : Int64, after = .next { frame with stack := .int v :: rest } world) ∨
       after = .fault .integerOverflow world)) ∧
    Fault.divisionByZero.message = "Attempted to divide by zero" ∧
    Fault.integerOverflow.message = "Integer overflow" := by
  have hpushed : ∀ v : Int64, Effect.next { frame with stack := .int v :: rest } world =
      wholeEffect frame rest world (.ok v) := fun _ => rfl
  have hfault : ∀ e : Fault, Effect.fault e world = wholeEffect frame rest world (.error e) :=
    fun _ => rfl
  simp only [effect_instruction, effect_neg, hpushed, hfault, wholeEffect_inj]
  refine ⟨fun op => ⟨intArith_eq_ok_iff, ?_, ?_, ?_⟩, ⟨orOverflow_eq_ok_iff _, ?_, ?_⟩, rfl, rfl⟩
  · simp [intArith_eq_error_iff]
  · simp [intArith_eq_error_iff]
  · cases h : intArith op a b with
    | ok v => exact .inl ⟨v, rfl⟩
    | error e =>
      obtain ⟨rfl, -⟩ | ⟨rfl, -⟩ := (intArith_eq_error_iff e).1 h
      · exact .inr (.inl rfl)
      · exact .inr (.inr rfl)
  · simp [orOverflow_eq_error_iff]
  · cases Checked.ofInt? (-a.toInt) with
    | some v => exact .inl ⟨v, rfl⟩
    | none => exact .inr rfl

end Instructions

/-- The exact remainder of the least number by minus one is zero, and yet it is not given. -/
theorem least_by_minus_one_overflows :
    ArithOp.mod.Defined (-1) ∧
    ArithOp.mod.exact Int64.minValue.toInt (-1 : Int64).toInt = 0 ∧
    Representable (ArithOp.mod.exact Int64.minValue.toInt (-1 : Int64).toInt) ∧
    arith .mod (.int Int64.minValue) (.int (-1)) = .error .integerOverflow := by
  have hzero : ArithOp.mod.exact Int64.minValue.toInt (-1 : Int64).toInt = 0 := by decide +kernel
  refine ⟨fun h => absurd h.2 (by decide), hzero, ?_, by decide +kernel⟩
  rw [hzero]
  exact ⟨by decide, by decide⟩

end Machine

end ScriptHost
