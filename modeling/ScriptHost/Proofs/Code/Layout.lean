import ScriptHost.Code.Emit
import ScriptHost.Proofs.Computation
import ScriptHost.Proofs.Trees.Meaning
/-!
# The layout of code

What the code of a tree looks like, said without the steps that make it: which instructions stand in
which order, where jumps lead, and what the numbers in instructions stand for. Numbers of constants
and bindings are read off the lists that a unit ends up with, so that the layout of a part does not
depend on what is made after it.

The main statements are `Code.body_lowered` and `Code.topLevel_lowered`: all code that is made has
this layout.
-/

set_option autoImplicit false

namespace ScriptHost

/-- The members of `part` stand in `whole`, one after the other, from a place on. -/
def PartAt {α : Type} (whole : Array α) : Nat → List α → Prop
  | _, [] => True
  | start, a :: rest => whole[start]? = some a ∧ PartAt whole (start + 1) rest

/-- A part in two pieces stands there if both pieces do. -/
theorem partAt_append {α : Type} {whole : Array α} {start : Nat} {front rest : List α} :
    PartAt whole start (front ++ rest) ↔
      PartAt whole start front ∧ PartAt whole (start + front.length) rest := by
  induction front generalizing start with
  | nil => simp [PartAt]
  | cons a front ih =>
    simp only [List.cons_append, PartAt, ih, List.length_cons, and_assoc]
    rw [Nat.add_right_comm start 1, Nat.add_assoc start]

/-- The whole stands in itself from the start. -/
theorem partAt_toList {α : Type} (whole : Array α) : PartAt whole 0 whole.toList := by
  have general : ∀ (front rest : List α), whole.toList = front ++ rest →
      PartAt whole front.length rest := by
    intro front rest
    induction rest generalizing front with
    | nil => intro _; trivial
    | cons a rest ih =>
      intro hwhole
      refine ⟨?_, ?_⟩
      · rw [← Array.getElem?_toList, hwhole]
        simp
      · simpa using ih (front ++ [a]) (by simpa using hwhole)
  exact general [] whole.toList rfl

namespace Code

/-- One pool holds all that another holds, under the same numbers. -/
structure Pool.Within (small large : Pool) : Prop where
  constants : ∀ (index : Nat) (value : Value), small.constants[index]? = some value →
    large.constants[index]? = some value
  hostCalls : ∀ (index : Nat) (call : String × String), small.hostCalls[index]? = some call →
    large.hostCalls[index]? = some call

/-- A pool is within itself. -/
theorem Pool.Within.refl (pool : Pool) : pool.Within pool :=
  ⟨fun _ _ h => h, fun _ _ h => h⟩

/-- A pool within a second one is within all that hold the second one. -/
theorem Pool.Within.trans {a b c : Pool} (hab : a.Within b) (hbc : b.Within c) : a.Within c :=
  ⟨fun i v h => hbc.constants i v (hab.constants i v h),
    fun i v h => hbc.hostCalls i v (hab.hostCalls i v h)⟩

mutual

/-- The code of an expression that starts at a place. Constants and host calls are numbered as in
`pool`, and bindings from `base` on. -/
inductive Lowered (pool : Pool) (base : Nat) : Nat → Resolved.Expr → List Op → Prop
  | null {start : Nat} : Lowered pool base start (.const .null) [.pushNull]
  | yes {start : Nat} : Lowered pool base start (.const (.bool true)) [.pushTrue]
  | no {start : Nat} : Lowered pool base start (.const (.bool false)) [.pushFalse]
  | const {start index : Nat} {value : Value} (known : pool.constants[index]? = some value) :
      Lowered pool base start (.const value) [.pushConst index]
  | loadLocal {start slot : Nat} : Lowered pool base start (.loadLocal slot) [.loadLocal slot]
  | loadGlobal {start id : Nat} : Lowered pool base start (.loadGlobal id) [.loadGlobal id]
  | loadThis {start : Nat} : Lowered pool base start .loadThis [.loadThis]
  | getField {start index : Nat} {object : Resolved.Expr} {name : String} {code : List Op}
      (owner : Lowered pool base start object code)
      (known : pool.constants[index]? = some (.str name)) :
      Lowered pool base start (.getField object name) (code ++ [.getField index])
  | and {start : Nat} {left right : Resolved.Expr} {l r : List Op}
      (first : Lowered pool base start left l)
      (second : Lowered pool base (start + l.length + 1) right r) :
      Lowered pool base start (.binary .and left right)
        (l ++ .jumpIfFalse (start + l.length + 1 + r.length + 1) ::
          r ++ [.jump (start + l.length + 1 + r.length + 1 + 1), .pushFalse])
  | or {start : Nat} {left right : Resolved.Expr} {l r : List Op}
      (first : Lowered pool base start left l)
      (second : Lowered pool base (start + l.length + 3) right r) :
      Lowered pool base start (.binary .or left right)
        (l ++ .jumpIfFalse (start + l.length + 3) :: .pushTrue ::
          .jump (start + l.length + 3 + r.length) :: r)
  | binary {start : Nat} {op : BinaryOp} {left right : Resolved.Expr} {l r : List Op}
      (notAnd : op ≠ .and) (notOr : op ≠ .or)
      (first : Lowered pool base start left l)
      (second : Lowered pool base (start + l.length) right r) :
      Lowered pool base start (.binary op left right) (l ++ r ++ [binaryOp op])
  | unary {start : Nat} {op : UnaryOp} {operand : Resolved.Expr} {code : List Op}
      (first : Lowered pool base start operand code) :
      Lowered pool base start (.unary op operand) (code ++ [unaryOp op])
  | call {start function : Nat} {args : List Resolved.Expr} {code : List Op}
      (all : LoweredAll pool base start args code) :
      Lowered pool base start (.call function args) (code ++ [.call function args.length])
  | callMethod {start index : Nat} {object : Resolved.Expr} {method : String}
      {args : List Resolved.Expr} {o code : List Op}
      (receiver : Lowered pool base start object o)
      (all : LoweredAll pool base (start + o.length) args code)
      (known : pool.constants[index]? = some (.str method)) :
      Lowered pool base start (.callMethod object method args)
        (o ++ code ++ [.callMethod index args.length])
  | callHost {start index : Nat} {module function : String} {args : List Resolved.Expr}
      {code : List Op} (all : LoweredAll pool base start args code)
      (known : pool.hostCalls[index]? = some (module, function)) :
      Lowered pool base start (.callHost module function args)
        (code ++ [.callHost (base + index) args.length])
  | create {start classId : Nat} {args : List Resolved.Expr} {code : List Op}
      (all : LoweredAll pool base start args code) :
      Lowered pool base start (.create classId args) (code ++ [.create classId args.length])

/-- The code of expressions one after the other. -/
inductive LoweredAll (pool : Pool) (base : Nat) :
    Nat → List Resolved.Expr → List Op → Prop
  | nil {start : Nat} : LoweredAll pool base start [] []
  | cons {start : Nat} {e : Resolved.Expr} {rest : List Resolved.Expr} {code more : List Op}
      (first : Lowered pool base start e code)
      (others : LoweredAll pool base (start + code.length) rest more) :
      LoweredAll pool base start (e :: rest) (code ++ more)

end

mutual

/-- The code of a statement that starts at a place. -/
inductive StmtLowered (pool : Pool) (base : Nat) : Nat → Resolved.Stmt → List Op → Prop
  | storeLocal {start slot : Nat} {value : Resolved.Expr} {code : List Op}
      (first : Lowered pool base start value code) :
      StmtLowered pool base start (.storeLocal slot value) (code ++ [.storeLocal slot])
  | storeGlobal {start id : Nat} {value : Resolved.Expr} {code : List Op}
      (first : Lowered pool base start value code) :
      StmtLowered pool base start (.storeGlobal id value) (code ++ [.storeGlobal id])
  | setField {start index : Nat} {object value : Resolved.Expr} {name : String} {o v : List Op}
      (owner : Lowered pool base start object o)
      (first : Lowered pool base (start + o.length) value v)
      (known : pool.constants[index]? = some (.str name)) :
      StmtLowered pool base start (.setField object name value) (o ++ v ++ [.setField index])
  | ifThen {start : Nat} {condition : Resolved.Expr} {body : List Resolved.Stmt} {c b : List Op}
      (test : Lowered pool base start condition c)
      (first : StmtsLowered pool base (start + c.length + 1) body b) :
      StmtLowered pool base start (.branch condition body [])
        (c ++ .jumpIfFalse (start + c.length + 1 + b.length) :: b)
  | ifElse {start : Nat} {condition : Resolved.Expr} {body alternative : List Resolved.Stmt}
      {c b a : List Op} (some : alternative ≠ [])
      (test : Lowered pool base start condition c)
      (first : StmtsLowered pool base (start + c.length + 1) body b)
      (second : StmtsLowered pool base (start + c.length + 1 + b.length + 1) alternative a) :
      StmtLowered pool base start (.branch condition body alternative)
        (c ++ .jumpIfFalse (start + c.length + 1 + b.length + 1) :: b ++
          .jump (start + c.length + 1 + b.length + 1 + a.length) :: a)
  | loop {start : Nat} {condition : Resolved.Expr} {body : List Resolved.Stmt} {c b : List Op}
      (test : Lowered pool base start condition c)
      (first : StmtsLowered pool base (start + c.length + 1) body b) :
      StmtLowered pool base start (.loop condition body)
        (c ++ .jumpIfFalse (start + c.length + 1 + b.length + 1) :: b ++ [.jump start])
  | retNull {start : Nat} : StmtLowered pool base start (.ret none) [.pushNull, .ret]
  | ret {start : Nat} {value : Resolved.Expr} {code : List Op}
      (first : Lowered pool base start value code) :
      StmtLowered pool base start (.ret (some value)) (code ++ [.ret])
  | expr {start : Nat} {value : Resolved.Expr} {code : List Op}
      (first : Lowered pool base start value code) :
      StmtLowered pool base start (.expr value) (code ++ [.pop])

/-- The code of statements one after the other. -/
inductive StmtsLowered (pool : Pool) (base : Nat) :
    Nat → List Resolved.Stmt → List Op → Prop
  | nil {start : Nat} : StmtsLowered pool base start [] []
  | cons {start : Nat} {s : Resolved.Stmt} {rest : List Resolved.Stmt} {code more : List Op}
      (first : StmtLowered pool base start s code)
      (others : StmtsLowered pool base (start + code.length) rest more) :
      StmtsLowered pool base start (s :: rest) (code ++ more)

end

/-! ## Numbers of constants and host calls -/

/-- Constants that are one entry of the list are the same value. -/
theorem eq_of_sameConstant {a b : Value} (h : sameConstant a b = true) : a = b := by
  cases a with
  | int x => cases b with
    | int y => simpa [sameConstant] using h
    | _ => simp [sameConstant] at h
  | float x => cases b with
    | float y =>
      obtain ⟨⟨bits, _⟩⟩ := x
      obtain ⟨⟨otherBits, _⟩⟩ := y
      have hbits : bits = otherBits := beq_iff_eq.mp h
      subst hbits
      rfl
    | _ => simp [sameConstant] at h
  | str x => cases b with
    | str y => simpa [sameConstant] using h
    | _ => simp [sameConstant] at h
  | null | bool _ | object _ => simp [sameConstant] at h

/-- The number of a constant stands for it, and the numbers given before stay. -/
theorem constant_ok {value : Value} {pool after : Pool} {index : Nat}
    (h : constant value pool = .ok index after) :
    pool.Within after ∧ after.constants[index]? = some value := by
  simp only [constant, bind_eq_ok] at h
  obtain ⟨_, _, hget, h⟩ := h
  cases hget
  cases hfind : pool.constants.findIdx? (sameConstant value) with
  | some found =>
    simp only [hfind, pure_eq_ok] at h
    obtain ⟨rfl, rfl⟩ := h
    obtain ⟨inside, same, _⟩ := Array.findIdx?_eq_some_iff_getElem.mp hfind
    exact ⟨.refl _, by rw [Array.getElem?_eq_getElem inside, eq_of_sameConstant same]⟩
  | none =>
    simp only [hfind] at h
    split at h
    · rw [bind_eq_ok] at h
      obtain ⟨_, _, hset, h⟩ := h
      cases hset
      obtain ⟨rfl, rfl⟩ := pure_eq_ok.mp h
      refine ⟨⟨fun i v hv => ?_, fun _ _ hc => hc⟩, by simp⟩
      have : i < pool.constants.size := (Array.getElem?_eq_some_iff.mp hv).1
      simpa [Array.getElem?_push_lt, this] using hv
    · cases h

/-- The number of a host function stands for it, and the numbers given before stay. -/
theorem binding_ok {base id : Nat} {module function : String} {pool after : Pool}
    (h : binding base module function pool = .ok id after) :
    pool.Within after ∧
      ∃ index, id = base + index ∧ after.hostCalls[index]? = some (module, function) := by
  simp only [binding, bind_eq_ok] at h
  obtain ⟨_, _, hget, h⟩ := h
  cases hget
  cases hfind : pool.hostCalls.findIdx? (· == (module, function)) with
  | some found =>
    simp only [hfind, pure_eq_ok] at h
    obtain ⟨rfl, rfl⟩ := h
    obtain ⟨inside, same, _⟩ := Array.findIdx?_eq_some_iff_getElem.mp hfind
    refine ⟨.refl _, found, rfl, ?_⟩
    rw [Array.getElem?_eq_getElem inside, beq_iff_eq.mp same]
  | none =>
    simp only [hfind, bind_eq_ok] at h
    obtain ⟨_, _, hset, h⟩ := h
    cases hset
    obtain ⟨rfl, rfl⟩ := pure_eq_ok.mp h
    refine ⟨⟨fun _ _ hv => hv, fun i c hc => ?_⟩, _, rfl, by simp⟩
    have : i < pool.hostCalls.size := (Array.getElem?_eq_some_iff.mp hc).1
    simpa [Array.getElem?_push_lt, this] using hc

/-- A number of arguments that an instruction can hold is what it is. -/
theorem argumentCount_ok {args : List Resolved.Expr} {pool after : Pool} {count : Nat}
    (h : argumentCount args pool = .ok count after) : count = args.length ∧ after = pool := by
  unfold argumentCount at h
  split at h
  · obtain ⟨rfl, rfl⟩ := pure_eq_ok.mp h
    exact ⟨rfl, rfl⟩
  · cases h

/-! ## All code that is made has the layout -/

/-- A step from one pool to another has made something: what it has put into the pool stays, and
what was made is right for every pool that comes later. -/
structure Pool.Makes (before after : Pool) (layout : Pool → Prop) : Prop where
  kept : before.Within after
  right : ∀ final : Pool, after.Within final → layout final

/-- What an earlier step has made is right for the pools that come after a later step. -/
theorem Pool.Makes.and {a b c : Pool} {first second : Pool → Prop} (hab : a.Makes b first)
    (hbc : b.Makes c second) : a.Makes c fun final => first final ∧ second final :=
  ⟨hab.kept.trans hbc.kept,
    fun final hfinal => ⟨hab.right final (hbc.kept.trans hfinal), hbc.right final hfinal⟩⟩

/-- What follows from what has been made has been made. -/
theorem Pool.Makes.imp {a b : Pool} {first second : Pool → Prop} (h : a.Makes b first)
    (himp : ∀ final, first final → second final) : a.Makes b second :=
  ⟨h.kept, fun final hfinal => himp final (h.right final hfinal)⟩

/-- What is right for every pool needs no step. -/
theorem Pool.Makes.always {pool : Pool} {layout : Pool → Prop} (h : ∀ final, layout final) :
    pool.Makes pool layout :=
  ⟨.refl pool, fun final _ => h final⟩

/-- A constant has been made part of the pool. -/
theorem constant_makes {value : Value} {pool after : Pool} {index : Nat}
    (h : constant value pool = .ok index after) :
    pool.Makes after fun final => final.constants[index]? = some value :=
  have ⟨kept, known⟩ := constant_ok h
  ⟨kept, fun _ hfinal => hfinal.constants _ _ known⟩

/-- A host call has been made part of the pool. -/
theorem binding_makes {base id : Nat} {module function : String} {pool after : Pool}
    (h : binding base module function pool = .ok id after) :
    pool.Makes after fun final =>
      ∃ index, id = base + index ∧ final.hostCalls[index]? = some (module, function) :=
  have ⟨kept, index, hid, known⟩ := binding_ok h
  ⟨kept, fun _ hfinal => ⟨index, hid, hfinal.hostCalls _ _ known⟩⟩

/-- The size of code with more code behind it. -/
theorem size_appendList (front : Array Op) (more : List Op) :
    (front ++ more).size = front.size + more.length := by
  rw [← Array.length_toList, Array.toList_appendList, List.length_append, Array.length_toList]

mutual

/-- The code made for an expression has the layout. -/
theorem expr_lowered (base : Nat) : ∀ (e : Resolved.Expr) (start : Nat) {code : List Op}
    {pool after : Pool}, expr base start e pool = .ok code after →
    pool.Makes after fun final => Lowered final base start e code
  | .const .null, start, code, pool, after, h => by
    obtain ⟨rfl, rfl⟩ := pure_eq_ok.mp (by simpa only [expr] using h)
    exact .always fun _ => .null
  | .const (.bool true), start, code, pool, after, h => by
    obtain ⟨rfl, rfl⟩ := pure_eq_ok.mp (by simpa only [expr] using h)
    exact .always fun _ => .yes
  | .const (.bool false), start, code, pool, after, h => by
    obtain ⟨rfl, rfl⟩ := pure_eq_ok.mp (by simpa only [expr] using h)
    exact .always fun _ => .no
  | .const (.int n), start, code, pool, after, h => by
    simp only [expr, bind_eq_ok, pure_eq_ok] at h
    obtain ⟨index, _, hindex, rfl, rfl⟩ := h
    exact (constant_makes hindex).imp fun _ => .const
  | .const (.float x), start, code, pool, after, h => by
    simp only [expr, bind_eq_ok, pure_eq_ok] at h
    obtain ⟨index, _, hindex, rfl, rfl⟩ := h
    exact (constant_makes hindex).imp fun _ => .const
  | .const (.str text), start, code, pool, after, h => by
    simp only [expr, bind_eq_ok, pure_eq_ok] at h
    obtain ⟨index, _, hindex, rfl, rfl⟩ := h
    exact (constant_makes hindex).imp fun _ => .const
  | .const (.object ref), start, code, pool, after, h => by
    simp only [expr, bind_eq_ok, pure_eq_ok] at h
    obtain ⟨index, _, hindex, rfl, rfl⟩ := h
    exact (constant_makes hindex).imp fun _ => .const
  | .loadLocal slot, start, code, pool, after, h => by
    obtain ⟨rfl, rfl⟩ := pure_eq_ok.mp (by simpa only [expr] using h)
    exact .always fun _ => .loadLocal
  | .loadGlobal id, start, code, pool, after, h => by
    obtain ⟨rfl, rfl⟩ := pure_eq_ok.mp (by simpa only [expr] using h)
    exact .always fun _ => .loadGlobal
  | .loadThis, start, code, pool, after, h => by
    obtain ⟨rfl, rfl⟩ := pure_eq_ok.mp (by simpa only [expr] using h)
    exact .always fun _ => .loadThis
  | .getField object name, start, code, pool, after, h => by
    simp only [expr, bind_eq_ok, pure_eq_ok] at h
    obtain ⟨o, _, ho, index, _, hindex, rfl, rfl⟩ := h
    exact ((expr_lowered base object start ho).and (constant_makes hindex)).imp
      fun _ ⟨owner, known⟩ => .getField owner known
  | .binary op left right, start, code, pool, after, h => by
    by_cases hand : op = .and
    · subst hand
      simp only [expr, bind_eq_ok, pure_eq_ok] at h
      obtain ⟨l, _, hl, r, _, hr, rfl, rfl⟩ := h
      exact ((expr_lowered base left start hl).and (expr_lowered base right _ hr)).imp
        fun _ ⟨first, second⟩ => .and first second
    · by_cases hor : op = .or
      · subst hor
        simp only [expr, bind_eq_ok, pure_eq_ok] at h
        obtain ⟨l, _, hl, r, _, hr, rfl, rfl⟩ := h
        exact ((expr_lowered base left start hl).and (expr_lowered base right _ hr)).imp
          fun _ ⟨first, second⟩ => .or first second
      · rw [expr] at h
        · simp only [bind_eq_ok, pure_eq_ok] at h
          obtain ⟨l, _, hl, r, _, hr, rfl, rfl⟩ := h
          exact ((expr_lowered base left start hl).and (expr_lowered base right _ hr)).imp
            fun _ ⟨first, second⟩ => .binary hand hor first second
        · exact hand
        · exact hor
  | .unary op operand, start, code, pool, after, h => by
    simp only [expr, bind_eq_ok, pure_eq_ok] at h
    obtain ⟨o, _, ho, rfl, rfl⟩ := h
    exact (expr_lowered base operand start ho).imp fun _ => .unary
  | .call function args, start, code, pool, after, h => by
    simp only [expr, bind_eq_ok, pure_eq_ok] at h
    obtain ⟨a, _, ha, count, _, hcount, rfl, rfl⟩ := h
    obtain ⟨rfl, rfl⟩ := argumentCount_ok hcount
    exact (exprs_lowered base args start ha).imp fun _ ⟨_, hcode, all⟩ => by
      simpa [hcode] using .call all
  | .callMethod object method args, start, code, pool, after, h => by
    simp only [expr, bind_eq_ok, pure_eq_ok] at h
    obtain ⟨o, _, ho, a, _, ha, index, _, hindex, count, _, hcount, rfl, rfl⟩ := h
    obtain ⟨rfl, rfl⟩ := argumentCount_ok hcount
    have hargs := (exprs_lowered base args _ ha).and (constant_makes hindex)
    exact ((expr_lowered base object start ho).and hargs).imp
      fun _ ⟨receiver, ⟨_, hcode, all⟩, known⟩ => by
        simpa [hcode] using Lowered.callMethod receiver all known
  | .callHost module function args, start, code, pool, after, h => by
    simp only [expr, bind_eq_ok, pure_eq_ok] at h
    obtain ⟨a, _, ha, id, _, hid, count, _, hcount, rfl, rfl⟩ := h
    obtain ⟨rfl, rfl⟩ := argumentCount_ok hcount
    exact ((exprs_lowered base args start ha).and (binding_makes hid)).imp
      fun _ ⟨⟨_, hcode, all⟩, _, hindex, known⟩ => by
        subst hindex
        simpa [hcode] using .callHost all known
  | .create classId args, start, code, pool, after, h => by
    simp only [expr, bind_eq_ok, pure_eq_ok] at h
    obtain ⟨a, _, ha, count, _, hcount, rfl, rfl⟩ := h
    obtain ⟨rfl, rfl⟩ := argumentCount_ok hcount
    exact (exprs_lowered base args start ha).imp fun _ ⟨_, hcode, all⟩ => by
      simpa [hcode] using .create all

/-- The code made for expressions has the layout, behind what was there before. -/
theorem exprs_lowered (base : Nat) : ∀ (args : List Resolved.Expr) (start : Nat)
    {front code : Array Op} {pool after : Pool},
    exprs base start front args pool = .ok code after →
    pool.Makes after fun final =>
      ∃ more, code.toList = front.toList ++ more ∧
        LoweredAll final base (start + front.size) args more
  | [], start, front, code, pool, after, h => by
    obtain ⟨rfl, rfl⟩ := pure_eq_ok.mp (by simpa only [exprs] using h)
    exact .always fun _ => ⟨[], by simp, .nil⟩
  | e :: rest, start, front, code, pool, after, h => by
    simp only [exprs, bind_eq_ok] at h
    obtain ⟨next, _, hnext, h⟩ := h
    refine ((expr_lowered base e _ hnext).and (exprs_lowered base rest start h)).imp ?_
    rintro final ⟨first, more, hcode, others⟩
    refine ⟨next ++ more, by simpa using hcode, .cons first ?_⟩
    simpa [size_appendList, Nat.add_assoc] using others

end

mutual

/-- The code made for a statement has the layout. -/
theorem stmt_lowered (base : Nat) : ∀ (s : Resolved.Stmt) (start : Nat) {code : List Op}
    {pool after : Pool}, stmt base start s pool = .ok code after →
    pool.Makes after fun final => StmtLowered final base start s code
  | .storeLocal slot value, start, code, pool, after, h => by
    simp only [stmt, bind_eq_ok, pure_eq_ok] at h
    obtain ⟨v, _, hv, rfl, rfl⟩ := h
    exact (expr_lowered base value start hv).imp fun _ => .storeLocal
  | .storeGlobal id value, start, code, pool, after, h => by
    simp only [stmt, bind_eq_ok, pure_eq_ok] at h
    obtain ⟨v, _, hv, rfl, rfl⟩ := h
    exact (expr_lowered base value start hv).imp fun _ => .storeGlobal
  | .setField object name value, start, code, pool, after, h => by
    simp only [stmt, bind_eq_ok, pure_eq_ok] at h
    obtain ⟨o, _, ho, v, _, hv, index, _, hindex, rfl, rfl⟩ := h
    have hvalue := (expr_lowered base value _ hv).and (constant_makes hindex)
    exact ((expr_lowered base object start ho).and hvalue).imp
      fun _ ⟨owner, first, known⟩ => .setField owner first known
  | .branch condition body [], start, code, pool, after, h => by
    simp only [stmt, bind_eq_ok, pure_eq_ok] at h
    obtain ⟨c, _, hc, b, _, hb, rfl, rfl⟩ := h
    exact ((expr_lowered base condition start hc).and (stmts_lowered base body _ hb)).imp
      fun _ ⟨test, _, hcode, first⟩ => by
        simpa [hcode, ← Array.length_toList] using StmtLowered.ifThen test first
  | .branch condition body (s :: rest), start, code, pool, after, h => by
    simp only [stmt, bind_eq_ok, pure_eq_ok] at h
    obtain ⟨c, _, hc, b, _, hb, f, _, hf, a, _, ha, rfl, rfl⟩ := h
    have halternative := (stmt_lowered base s _ hf).and (stmts_lowered base rest _ ha)
    have hbody := (stmts_lowered base body _ hb).and halternative
    refine ((expr_lowered base condition start hc).and hbody).imp ?_
    rintro final ⟨test, ⟨b', hbcode, first⟩, head, more, hacode, others⟩
    have hb' : b.toList = b' := by simpa using hbcode
    have ha' : a.toList = f ++ more := by simpa using hacode
    have second : StmtsLowered final base (start + c.length + 1 + b'.length + 1) (s :: rest)
        (f ++ more) := by
      refine .cons ?_ ?_
      · simpa [← hb'] using head
      · simpa [← hb'] using others
    have hlength : a.size = (f ++ more).length := by rw [← ha', Array.length_toList]
    simpa [ha', hb', hlength, ← Array.length_toList] using
      StmtLowered.ifElse (List.cons_ne_nil s rest) test first second
  | .loop condition body, start, code, pool, after, h => by
    simp only [stmt, bind_eq_ok, pure_eq_ok] at h
    obtain ⟨c, _, hc, b, _, hb, rfl, rfl⟩ := h
    exact ((expr_lowered base condition start hc).and (stmts_lowered base body _ hb)).imp
      fun _ ⟨test, _, hcode, first⟩ => by
        simpa [hcode, ← Array.length_toList] using StmtLowered.loop test first
  | .ret none, start, code, pool, after, h => by
    obtain ⟨rfl, rfl⟩ := pure_eq_ok.mp (by simpa only [stmt] using h)
    exact .always fun _ => .retNull
  | .ret (some value), start, code, pool, after, h => by
    simp only [stmt, bind_eq_ok, pure_eq_ok] at h
    obtain ⟨v, _, hv, rfl, rfl⟩ := h
    exact (expr_lowered base value start hv).imp fun _ => .ret
  | .expr value, start, code, pool, after, h => by
    simp only [stmt, bind_eq_ok, pure_eq_ok] at h
    obtain ⟨v, _, hv, rfl, rfl⟩ := h
    exact (expr_lowered base value start hv).imp fun _ => .expr

/-- The code made for statements has the layout, behind what was there before. -/
theorem stmts_lowered (base : Nat) : ∀ (body : List Resolved.Stmt) (start : Nat)
    {front code : Array Op} {pool after : Pool},
    stmts base start front body pool = .ok code after →
    pool.Makes after fun final =>
      ∃ more, code.toList = front.toList ++ more ∧
        StmtsLowered final base (start + front.size) body more
  | [], start, front, code, pool, after, h => by
    obtain ⟨rfl, rfl⟩ := pure_eq_ok.mp (by simpa only [stmts] using h)
    exact .always fun _ => ⟨[], by simp, .nil⟩
  | s :: rest, start, front, code, pool, after, h => by
    simp only [stmts, bind_eq_ok] at h
    obtain ⟨next, _, hnext, h⟩ := h
    refine ((stmt_lowered base s _ hnext).and (stmts_lowered base rest start h)).imp ?_
    rintro final ⟨first, more, hcode, others⟩
    refine ⟨next ++ more, by simpa using hcode, .cons first ?_⟩
    simpa [size_appendList, Nat.add_assoc] using others

end

/-- The code of a function body: its statements, then a return of null. -/
def BodyLowered (pool : Pool) (base : Nat) (body : List Resolved.Stmt) (code : List Op) : Prop :=
  ∃ inner, StmtsLowered pool base 0 body inner ∧ code = inner ++ [.pushNull, .ret]

/-- The code of a top level. If there is an expression for its value, that is returned, and what
stands behind is never reached. -/
def TopLevelLowered (pool : Pool) (base : Nat) (returnsValue : Bool) (body : List Resolved.Stmt)
    (code : List Op) : Prop :=
  match Resolved.resultOf returnsValue body with
  | some value =>
    ∃ inner last, StmtsLowered pool base 0 body.dropLast inner ∧
      Lowered pool base inner.length value last ∧
      code = inner ++ last ++ [.ret, .pushNull, .ret]
  | none => BodyLowered pool base body code

/-- The code made for a function body has the layout. -/
theorem body_lowered {base : Nat} {statements : List Resolved.Stmt} {code : Array Op}
    {pool after : Pool} (h : body base statements pool = .ok code after) :
    pool.Makes after fun final => BodyLowered final base statements code.toList := by
  simp only [body, bind_eq_ok, pure_eq_ok] at h
  obtain ⟨inner, _, hinner, rfl, rfl⟩ := h
  refine (stmts_lowered base statements 0 hinner).imp ?_
  rintro final ⟨more, hmore, lowered⟩
  exact ⟨more, by simpa using lowered, by simp [hmore]⟩

/-- The expression whose value a top level returns is its last statement. -/
theorem resultOf_eq {returnsValue : Bool} {body : List Resolved.Stmt} {value : Resolved.Expr}
    (h : Resolved.resultOf returnsValue body = some value) :
    body = body.dropLast ++ [.expr value] := by
  unfold Resolved.resultOf at h
  split at h
  · rename_i hlast
    cases h
    obtain ⟨front, rfl⟩ := List.getLast?_eq_some_iff.mp hlast
    rw [List.dropLast_concat]
  · cases h

/-- The code of a top level is made for its value or else for its statements. -/
theorem topLevel_eq (base : Nat) (returnsValue : Bool) (statements : List Resolved.Stmt) :
    topLevel base returnsValue statements =
      match Resolved.resultOf returnsValue statements with
      | some value => do
        let code ← stmts base 0 #[] statements.dropLast
        let value ← expr base code.size value
        return code ++ value ++ #[Op.ret, Op.pushNull, Op.ret]
      | none => body base statements := by
  unfold topLevel Resolved.resultOf
  generalize statements.getLast? = last
  cases returnsValue with
  | false => rfl
  | true => cases last with
    | none => rfl
    | some s => cases s <;> rfl

/-- The code made for a top level has the layout. -/
theorem topLevel_lowered {base : Nat} {returnsValue : Bool} {statements : List Resolved.Stmt}
    {code : Array Op} {pool after : Pool}
    (h : topLevel base returnsValue statements pool = .ok code after) :
    pool.Makes after fun final =>
      TopLevelLowered final base returnsValue statements code.toList := by
  rw [topLevel_eq] at h
  unfold TopLevelLowered
  cases hresult : Resolved.resultOf returnsValue statements with
  | some value =>
    simp only [hresult, bind_eq_ok, pure_eq_ok] at h
    obtain ⟨inner, _, hinner, last, _, hlast, rfl, rfl⟩ := h
    refine ((stmts_lowered base _ 0 hinner).and (expr_lowered base _ _ hlast)).imp ?_
    rintro final ⟨⟨more, hmore, lowered⟩, value⟩
    have hlength : inner.size = more.length := by
      rw [← Array.length_toList, hmore]
      simp
    exact ⟨more, last, by simpa using lowered, hlength ▸ value, by simp [hmore]⟩
  | none =>
    simp only [hresult] at h
    exact body_lowered h

end Code

end ScriptHost
