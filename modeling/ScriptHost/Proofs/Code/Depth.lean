import ScriptHost.Proofs.Code.Places
/-!
# How deep the operand stack is

Before each instruction the operand stack has one depth, whichever way the machine got there. The
depths are read off the trees: an expression starts at some depth and ends one deeper, a statement
starts with an empty stack and leaves it empty.

The main statements are `Code.BodyLowered.balanced` and `Code.TopLevelLowered.balanced`: the depths
of the trees are right for all code that has the layout. That the machine keeps to them is shown in
`ScriptHost.Proofs.Machine.Stack`.
-/

set_option autoImplicit false

namespace ScriptHost

namespace Resolved

mutual

/-- The depth before each instruction of the code of an expression, which starts at depth `k`. -/
def Expr.depths (k : Nat) : Expr → List Nat
  | .const _ | .loadLocal _ | .loadGlobal _ | .loadThis => [k]
  | .getField object _ => object.depths k ++ [k + 1]
  | .binary .and left right => left.depths k ++ (k + 1) :: right.depths k ++ [k + 1, k]
  | .binary .or left right => left.depths k ++ (k + 1) :: k :: (k + 1) :: right.depths k
  | .binary _ left right => left.depths k ++ right.depths (k + 1) ++ [k + 2]
  | .unary _ operand => operand.depths k ++ [k + 1]
  | .call _ args | .callHost _ _ args | .create _ args =>
    Expr.depthsAll k args ++ [k + args.length]
  | .callMethod object _ args =>
    object.depths k ++ Expr.depthsAll (k + 1) args ++ [k + 1 + args.length]

/-- The depths of expressions one after the other, each of which leaves its value. -/
def Expr.depthsAll (k : Nat) : List Expr → List Nat
  | [] => []
  | e :: rest => e.depths k ++ Expr.depthsAll (k + 1) rest

end

mutual

/-- The depth before each instruction of the code of a statement. -/
def Stmt.depths : Stmt → List Nat
  | .storeLocal _ value | .storeGlobal _ value | .ret (some value) | .expr value =>
    value.depths 0 ++ [1]
  | .setField object _ value => object.depths 0 ++ value.depths 1 ++ [2]
  | .branch condition body [] => condition.depths 0 ++ 1 :: Stmt.depthsAll body
  | .branch condition body (first :: rest) =>
    condition.depths 0 ++ 1 :: Stmt.depthsAll body ++
      0 :: (first.depths ++ Stmt.depthsAll rest)
  | .loop condition body => condition.depths 0 ++ 1 :: Stmt.depthsAll body ++ [0]
  | .ret none => [0, 1]

/-- The depths of statements one after the other. -/
def Stmt.depthsAll : List Stmt → List Nat
  | [] => []
  | s :: rest => s.depths ++ Stmt.depthsAll rest

end

mutual

/-- The depths of an expression are as many marks as its places have. -/
theorem Expr.depths_eq : ∀ (e : Expr) (marks : List Bool),
    e.depths marks.length = (e.places marks).map fun p => p.marks.length
  | .const _, _ | .loadLocal _, _ | .loadGlobal _, _ | .loadThis, _ => rfl
  | .getField object _, marks => by simp [depths, places, object.depths_eq marks]
  | .binary op left right, marks => by
    by_cases hand : op = .and
    · subst hand
      simp [depths, places, left.depths_eq marks, right.depths_eq marks]
    · by_cases hor : op = .or
      · subst hor
        simp [depths, places, left.depths_eq marks, right.depths_eq marks]
      · rw [depths, places]
        · simp [left.depths_eq marks, ← right.depths_eq (left.isThis :: marks)]
        all_goals assumption
  | .unary _ operand, marks => by simp [depths, places, operand.depths_eq marks]
  | .call _ args, marks | .callHost _ _ args, marks | .create _ args, marks => by
    simp [depths, places, Expr.depthsAll_eq args marks, argMarks_length, Nat.add_comm]
  | .callMethod object _ args, marks => by
    have hargs := Expr.depthsAll_eq args (object.isThis :: marks)
    rw [List.length_cons] at hargs
    simp [depths, places, object.depths_eq marks, hargs, argMarks_length, Nat.add_comm]

/-- The same for several expressions. -/
theorem Expr.depthsAll_eq : ∀ (args : List Expr) (marks : List Bool),
    Expr.depthsAll marks.length args = (Expr.placesAll marks args).map fun p => p.marks.length
  | [], _ => rfl
  | e :: rest, marks => by
    have hrest := Expr.depthsAll_eq rest (e.isThis :: marks)
    rw [List.length_cons] at hrest
    simp [depthsAll, placesAll, e.depths_eq marks, hrest]

end

mutual

/-- The depths of a statement are as many marks as its places have. -/
theorem Stmt.depths_eq : ∀ s : Stmt, s.depths = s.places.map fun p => p.marks.length
  | .storeLocal _ value | .storeGlobal _ value | .ret (some value) | .expr value => by
    simp [depths, places, ← value.depths_eq []]
  | .setField object _ value => by
    simp [depths, places, ← object.depths_eq [], ← value.depths_eq [object.isThis]]
  | .branch condition body [] => by
    simp [depths, places, ← condition.depths_eq [], Stmt.depthsAll_eq body]
  | .branch condition body (first :: rest) => by
    simp [depths, places, ← condition.depths_eq [], Stmt.depthsAll_eq body, first.depths_eq,
      Stmt.depthsAll_eq rest]
  | .loop condition body => by
    simp [depths, places, ← condition.depths_eq [], Stmt.depthsAll_eq body]
  | .ret none => rfl

/-- The same for several statements. -/
theorem Stmt.depthsAll_eq : ∀ body : List Stmt,
    Stmt.depthsAll body = (Stmt.placesAll body).map fun p => p.marks.length
  | [] => rfl
  | s :: rest => by simp [depthsAll, placesAll, s.depths_eq, Stmt.depthsAll_eq rest]

end

end Resolved

/-- The depths fit an instruction: there are enough operands for it, and wherever it leads, the
depth is what it leaves. -/
def OpFits (depths : Array Nat) (place : Nat) (op : Op) : Prop :=
  ∃ depth, depths[place]? = some depth ∧ op.needs ≤ depth ∧
    ∀ next ∈ op.successors (place + 1), depths[next]? = some (depth - op.needs + op.puts)

/-- What fits marks fits as many operands. -/
theorem PlaceFits.opFits {places : Array Resolved.Spot} {place : Nat} {op : Op}
    (h : PlaceFits places place op) : OpFits (places.map fun p => p.marks.length) place op := by
  obtain ⟨p, hp, henough, hleads⟩ := h
  refine ⟨p.marks.length, by rw [Array.getElem?_map, hp]; rfl, henough, fun next hnext => ?_⟩
  obtain ⟨q, hq, hweaker⟩ := hleads next hnext
  rw [Array.getElem?_map, hq, Option.map_some, hweaker.length_eq, List.length_append,
    List.length_drop, op.leaves_length, Nat.add_comm]

namespace Code

mutual

/-- The code of an expression starts at the depth that it is given. -/
theorem depths_entry {depths : Array Nat} {start k : Nat} : ∀ (e : Resolved.Expr),
    PartAt depths start (e.depths k) → depths[start]? = some k
  | .const _, hat | .loadLocal _, hat | .loadGlobal _, hat | .loadThis, hat => hat.1
  | .getField object _, hat => depths_entry object (partAt_append.mp hat).1
  | .binary op left right, hat => by
    by_cases hand : op = .and
    · subst hand
      rw [Resolved.Expr.depths, List.append_assoc] at hat
      exact depths_entry left (partAt_append.mp hat).1
    · by_cases hor : op = .or
      · subst hor
        rw [Resolved.Expr.depths] at hat
        exact depths_entry left (partAt_append.mp hat).1
      · rw [Resolved.Expr.depths, List.append_assoc] at hat
        · exact depths_entry left (partAt_append.mp hat).1
        · exact hand
        · exact hor
  | .unary _ operand, hat => depths_entry operand (partAt_append.mp hat).1
  | .call _ args, hat => by
    rw [Resolved.Expr.depths] at hat
    exact depthsAll_entry args hat
  | .callHost _ _ args, hat => by
    rw [Resolved.Expr.depths] at hat
    exact depthsAll_entry args hat
  | .create _ args, hat => by
    rw [Resolved.Expr.depths] at hat
    exact depthsAll_entry args hat
  | .callMethod object _ args, hat => by
    rw [Resolved.Expr.depths, List.append_assoc] at hat
    exact depths_entry object (partAt_append.mp hat).1

/-- The code of several expressions starts at the depth that it is given, also if there are none. -/
theorem depthsAll_entry {depths : Array Nat} {start k : Nat} : ∀ (args : List Resolved.Expr),
    PartAt depths start (Resolved.Expr.depthsAll k args ++ [k + args.length]) →
      depths[start]? = some k
  | [], hat => hat.1
  | e :: rest, hat => by
    rw [Resolved.Expr.depthsAll, List.append_assoc] at hat
    exact depths_entry e (partAt_append.mp hat).1

end

/-- The code of a statement starts with an empty stack. -/
theorem stmt_entry {depths : Array Nat} {start : Nat} (s : Resolved.Stmt)
    (hat : PartAt depths start s.depths) : depths[start]? = some 0 := by
  unfold Resolved.Stmt.depths at hat
  split at hat
  · exact depths_entry _ (partAt_append.mp hat).1
  · exact depths_entry _ (partAt_append.mp hat).1
  · exact depths_entry _ (partAt_append.mp hat).1
  · exact depths_entry _ (partAt_append.mp hat).1
  · rw [List.append_assoc] at hat
    exact depths_entry _ (partAt_append.mp hat).1
  · exact depths_entry _ (partAt_append.mp hat).1
  · rw [List.append_assoc] at hat
    exact depths_entry _ (partAt_append.mp hat).1
  · rw [List.append_assoc] at hat
    exact depths_entry _ (partAt_append.mp hat).1
  · exact hat.1

/-- The code of several statements starts with an empty stack, also if there are none. -/
theorem stmts_entry {depths : Array Nat} {start : Nat} (body : List Resolved.Stmt)
    (hat : PartAt depths start (Resolved.Stmt.depthsAll body))
    (hend : depths[start + (Resolved.Stmt.depthsAll body).length]? = some 0) :
    depths[start]? = some 0 := by
  cases body with
  | nil => exact hend
  | cons s rest =>
    rw [Resolved.Stmt.depthsAll] at hat
    exact stmt_entry s (partAt_append.mp hat).1

end Code

/-! ## Chunks -/

/-- Depths for all instructions of a chunk, whose code starts with an empty stack. -/
structure Balanced (depths : Array Nat) (ops : Array Op) : Prop where
  size : depths.size = ops.size
  entry : depths[0]? = some 0
  fits : ∀ (place : Nat) (op : Op), ops[place]? = some op → OpFits depths place op

/-- Wherever an instruction leads, there is an instruction. -/
theorem Balanced.inside {depths : Array Nat} {ops : Array Op} (h : Balanced depths ops)
    {place next : Nat} {op : Op} (hop : ops[place]? = some op)
    (hnext : next ∈ op.successors (place + 1)) : next < ops.size := by
  obtain ⟨depth, -, -, hleads⟩ := h.fits place op hop
  rw [← h.size]
  exact (Array.getElem?_eq_some_iff.mp (hleads next hnext)).1

/-- Marks that fit code give the depths for it. -/
theorem Marked.balanced {places : Array Resolved.Spot} {ops : Array Op} (h : Marked places ops) :
    Balanced (places.map fun p => p.marks.length) ops where
  size := by rw [Array.size_map, h.size]
  entry := by
    obtain ⟨p, hp, hweaker⟩ := h.entry
    rw [Array.getElem?_map, hp, Option.map_some, hweaker.length_eq]
    rfl
  fits := fun place op hop => (h.fits place op hop).opFits

namespace Resolved

/-- The depths of a function body, with the return at its end. -/
def bodyDepths (body : List Stmt) : Array Nat :=
  (Stmt.depthsAll body ++ [0, 1]).toArray

/-- The depths of a top level. -/
def topLevelDepths (returnsValue : Bool) (body : List Stmt) : Array Nat :=
  match resultOf returnsValue body with
  | some value => (Stmt.depthsAll body.dropLast ++ value.depths 0 ++ [1, 0, 1]).toArray
  | none => bodyDepths body

theorem bodyDepths_eq (body : List Stmt) :
    bodyDepths body = (bodyPlaces body).map fun p => p.marks.length := by
  simp [bodyDepths, bodyPlaces, Stmt.depthsAll_eq]

theorem topLevelDepths_eq (returnsValue : Bool) (body : List Stmt) :
    topLevelDepths returnsValue body =
      (topLevelPlaces returnsValue body).map fun p => p.marks.length := by
  unfold topLevelDepths topLevelPlaces
  cases resultOf returnsValue body with
  | some value => simp [Stmt.depthsAll_eq, ← value.depths_eq []]
  | none => exact bodyDepths_eq body

mutual

/-- The places at which a statement inside a statement starts or ends, where the code of the whole
starts at `start`. -/
def Stmt.boundaries (start : Nat) : Stmt → List Nat
  | .branch condition body [] =>
    Stmt.boundariesAll (start + (condition.depths 0).length + 1) body
  | .branch condition body (first :: rest) =>
    let inner := start + (condition.depths 0).length + 1
    let otherwise := inner + (Stmt.depthsAll body).length + 1
    Stmt.boundariesAll inner body ++ otherwise :: (first.boundaries otherwise ++
      Stmt.boundariesAll (otherwise + first.depths.length) rest)
  | .loop condition body => Stmt.boundariesAll (start + (condition.depths 0).length + 1) body
  | _ => []

/-- The places at which one of several statements, or a statement inside, starts or ends. -/
def Stmt.boundariesAll (start : Nat) : List Stmt → List Nat
  | [] => [start]
  | s :: rest => start :: (s.boundaries start ++ Stmt.boundariesAll (start + s.depths.length) rest)

end

end Resolved

namespace Code

mutual

/-- The stack is empty where a statement inside a statement starts or ends. -/
theorem boundary_empty {depths : Array Nat} : ∀ (s : Resolved.Stmt) {start place : Nat},
    PartAt depths start s.depths → depths[start + s.depths.length]? = some 0 →
      place ∈ s.boundaries start → depths[place]? = some 0
  | .branch condition body [], start, place, hat, hend, hplace => by
    simp only [Resolved.Stmt.depths, partAt_append, PartAt, List.length_append, List.length_cons,
      ← Nat.add_assoc] at hat hend
    rw [Resolved.Stmt.boundaries] at hplace
    exact boundariesAll_empty body hat.2.2
      (by simpa only [Nat.add_right_comm _ 1] using hend) hplace
  | .branch condition body (first :: rest), start, place, hat, hend, hplace => by
    simp only [Resolved.Stmt.depths, List.append_assoc, List.cons_append, partAt_append, PartAt,
      List.length_append, List.length_cons, ← Nat.add_assoc] at hat hend
    obtain ⟨-, -, hbody, hskip, hfirst, hrest⟩ := hat
    have hend' : depths[start + (condition.depths 0).length + 1 +
        (Resolved.Stmt.depthsAll body).length + 1 + first.depths.length +
        (Resolved.Stmt.depthsAll rest).length]? = some 0 := by
      rw [← hend]
      congr 1
      omega
    have hnext := stmts_entry rest hrest hend'
    simp only [Resolved.Stmt.boundaries, List.mem_append, List.mem_cons] at hplace
    obtain hplace | rfl | hplace | hplace := hplace
    · exact boundariesAll_empty body hbody hskip hplace
    · exact stmt_entry first hfirst
    · exact boundary_empty first hfirst hnext hplace
    · exact boundariesAll_empty rest hrest hend' hplace
  | .loop condition body, start, place, hat, hend, hplace => by
    simp only [Resolved.Stmt.depths, List.append_assoc, List.cons_append, partAt_append, PartAt]
      at hat
    rw [Resolved.Stmt.boundaries] at hplace
    exact boundariesAll_empty body hat.2.2.1 hat.2.2.2.1 hplace
  | .storeLocal .., _, _, _, _, hplace | .storeGlobal .., _, _, _, _, hplace
  | .setField .., _, _, _, _, hplace | .ret none, _, _, _, _, hplace
  | .ret (some _), _, _, _, _, hplace | .expr _, _, _, _, _, hplace => by
    simp [Resolved.Stmt.boundaries] at hplace

/-- The stack is empty where one of several statements, or a statement inside, starts or ends. -/
theorem boundariesAll_empty {depths : Array Nat} : ∀ (body : List Resolved.Stmt)
    {start place : Nat}, PartAt depths start (Resolved.Stmt.depthsAll body) →
      depths[start + (Resolved.Stmt.depthsAll body).length]? = some 0 →
        place ∈ Resolved.Stmt.boundariesAll start body → depths[place]? = some 0
  | [], start, place, _, hend, hplace => by
    rw [Resolved.Stmt.boundariesAll, List.mem_singleton] at hplace
    exact hplace ▸ hend
  | s :: rest, start, place, hat, hend, hplace => by
    simp only [Resolved.Stmt.depthsAll, partAt_append, List.length_append, ← Nat.add_assoc]
      at hat hend
    have hnext := stmts_entry rest hat.2 hend
    simp only [Resolved.Stmt.boundariesAll, List.mem_cons, List.mem_append] at hplace
    obtain rfl | hplace | hplace := hplace
    · exact stmt_entry s hat.1
    · exact boundary_empty s hat.1 hnext hplace
    · exact boundariesAll_empty rest hat.2 hend hplace

end

variable {pool : Pool} {base : Nat}

/-- The depths of a function body are right for its code. -/
theorem BodyLowered.balanced {body : List Resolved.Stmt} {ops : Array Op}
    (h : BodyLowered pool base body ops.toList) :
    Balanced (Resolved.bodyDepths body) ops := by
  rw [Resolved.bodyDepths_eq]
  exact h.marked.balanced

/-- The depths of a top level are right for its code. -/
theorem TopLevelLowered.balanced {returnsValue : Bool} {body : List Resolved.Stmt} {ops : Array Op}
    (h : TopLevelLowered pool base returnsValue body ops.toList) :
    Balanced (Resolved.topLevelDepths returnsValue body) ops := by
  rw [Resolved.topLevelDepths_eq]
  exact h.marked.balanced

end Code

/-- The code of a chunk starts with that of statements, and what follows returns a value. The
operand stack has one depth before each instruction, and is empty where a statement starts or
ends. -/
structure Chunk.Flows (chunk : Chunk) (body : List Resolved.Stmt) (depths : Array Nat) : Prop where
  starts : ∃ pool base inner rest, pool.constants = chunk.constants ∧
    Code.StmtsLowered pool base 0 body inner ∧ chunk.ops.toList = inner ++ rest
  balanced : Balanced depths chunk.ops
  boundaries : ∀ place ∈ Resolved.Stmt.boundariesAll 0 body, depths[place]? = some 0

namespace Code

variable {pool : Pool} {base : Nat}

/-- The code of a function body flows. -/
theorem BodyLowered.flows {body : List Resolved.Stmt} {chunk : Chunk}
    (h : BodyLowered pool base body chunk.ops.toList) (hpool : pool.constants = chunk.constants) :
    chunk.Flows body (Resolved.bodyDepths body) := by
  have hbalanced := h.balanced
  have hat := partAt_toList (Resolved.bodyDepths body)
  simp only [Resolved.bodyDepths, partAt_append, PartAt, Nat.zero_add] at hat
  obtain ⟨inner, lowered, hops⟩ := h
  exact ⟨⟨pool, base, inner, _, hpool, lowered, hops⟩, hbalanced,
    fun _ hplace => boundariesAll_empty body hat.1 (by rw [Nat.zero_add]; exact hat.2.1) hplace⟩

/-- The code of a top level flows. -/
theorem TopLevelLowered.flows {returnsValue : Bool} {body : List Resolved.Stmt} {chunk : Chunk}
    (h : TopLevelLowered pool base returnsValue body chunk.ops.toList)
    (hpool : pool.constants = chunk.constants) :
    ∃ statements depths, chunk.Flows statements depths := by
  have hbalanced := h.balanced
  unfold TopLevelLowered at h
  unfold Resolved.topLevelDepths at hbalanced
  cases hresult : Resolved.resultOf returnsValue body with
  | none =>
    simp only [hresult] at h
    exact ⟨_, _, h.flows hpool⟩
  | some value =>
    simp only [hresult] at h hbalanced
    obtain ⟨inner, last, lowered, hvalue, hops⟩ := h
    rw [List.append_assoc] at hops
    have hat := partAt_toList
      (Resolved.Stmt.depthsAll body.dropLast ++ value.depths 0 ++ [1, 0, 1]).toArray
    simp only [partAt_append, Nat.zero_add] at hat
    refine ⟨_, _, ⟨⟨pool, base, inner, _, hpool, lowered, hops⟩, hbalanced, fun place hplace => ?_⟩⟩
    refine boundariesAll_empty body.dropLast hat.1.1 ?_ hplace
    rw [Nat.zero_add]
    exact depths_entry value hat.1.2

end Code

end ScriptHost
