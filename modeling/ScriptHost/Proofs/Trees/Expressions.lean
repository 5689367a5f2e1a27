import ScriptHost.Proofs.Trees.Calls
/-!
# Following expressions

The code of an expression leaves one value on the operand stack, the one that the interpreter gives.
The induction is on the layout of the code, whose places are those that the machine passes through.
-/

set_option autoImplicit false

namespace ScriptHost.Machine

open Resolved (Activation Eval)
open Code (Lowered LoweredAll)

variable {σ : Type} {setting : Setting σ}

/-- A frame runs code with the numbers of a pool, for an activation. -/
structure Stands (setting : Setting σ) (act : Activation σ) (time : Nat) (pool : Code.Pool)
    (base : Nat) (f : Frame) (callers : List Frame) : Prop extends Surrounds setting act time where
  active : callers.length + 1 = act.active
  this : f.this = act.this
  constants : f.chunk.constants = pool.constants
  bound : Bound setting.program pool base act.allowed

variable {act : Activation σ} {time : Nat} {pool : Code.Pool} {base : Nat} {f : Frame}
  {callers : List Frame}

/-- Arguments on top of the stack are taken in the order in which they were pushed. -/
theorem popArgs_reverse (ip : Nat) (args stack : List Value) :
    (f.at ip (args.reverse ++ stack)).popArgs args.length = .ok (args, f.at ip stack) := by
  have hle : args.length ≤ (f.at ip (args.reverse ++ stack)).stack.length := by
    simp [Frame.at]
  have hlength : args.reverse.length = args.length := List.length_reverse
  have htake : (args.reverse ++ stack).take args.length = args.reverse := by
    rw [← hlength, List.take_left]
  have hdrop : (args.reverse ++ stack).drop args.length = stack := by
    rw [← hlength, List.drop_left]
  simp only [Frame.popArgs, if_pos hle]
  simp only [Frame.at, htake, hdrop, List.reverse_reverse]

/-- A name among the constants is found. -/
theorem Stands.constantName (h : Stands setting act time pool base f callers) {index : Nat}
    {name : String} (known : pool.constants[index]? = some (.str name)) (ip : Nat)
    (stack : List Value) : (f.at ip stack).constantName index = .ok name := by
  have hconstant : (f.at ip stack).chunk.constants[index]? = some (.str name) := by
    rw [← known, ← h.constants]
    rfl
  simp only [Frame.constantName, hconstant]
  rfl

/-- The effect of an operator on both operands. -/
theorem effect_binary {op : BinaryOp} (hand : op ≠ .and) (hor : op ≠ .or) (ip : Nat) (a b : Value)
    (stack : List Value) (world : World σ) :
    effect setting (f.at ip (b :: a :: stack)) world (Code.binaryOp op) =
      .attempt world ((Resolved.binaryValue op a b).map fun v => f.at ip (v :: stack)) .next := by
  have hoperate : ∀ g : Value → Value → Except Fault Value,
      operate₂ (f.at ip (b :: a :: stack)) g = (g a b).map fun v => f.at ip (v :: stack) := by
    intro g
    change (g a b >>= fun v => Pure.pure (f.at ip (v :: stack))) = _
    cases g a b <;> rfl
  cases op with
  | and => exact absurd rfl hand
  | or => exact absurd rfl hor
  | _ => simp only [Code.binaryOp, effect, hoperate, Resolved.binaryValue]

/-- The effect of an operator on one operand. -/
theorem effect_unary (op : UnaryOp) (ip : Nat) (a : Value) (stack : List Value) (world : World σ) :
    effect setting (f.at ip (a :: stack)) world (Code.unaryOp op) =
      .attempt world ((Resolved.unaryValue op a).map fun v => f.at ip (v :: stack)) .next := by
  have hoperate : ∀ g : Value → Except Fault Value,
      operate (f.at ip (a :: stack)) g = (g a).map fun v => f.at ip (v :: stack) := by
    intro g
    change (g a >>= fun v => Pure.pure (f.at ip (v :: stack))) = _
    cases g a <;> rfl
  cases op <;> simp only [Code.unaryOp, effect, hoperate, Resolved.unaryValue]

/-- The value of a field, or the reason why there is none. -/
def fieldValue (heap : Heap) (owner : Value) (name : String) : Except Fault Value :=
  (fieldOwner heap owner name).map fun object => (heap.getField? object name).getD .null

/-- The interpreter reads a field without a change to the world. -/
theorem readField_eq (owner : Value) (name : String) (world : World σ) :
    Eval.readField owner name world = some (fieldValue world.heap owner name, world) := by
  change ((liftM (fieldOwner world.heap owner name) : Eval σ ObjectRef) >>= fun object =>
    (Pure.pure ((world.heap.getField? object name).getD .null) : Eval σ Value)) world = _
  unfold fieldValue
  cases fieldOwner world.heap owner name <;> rfl

/-- The effect of reading a field. -/
theorem Stands.effect_getField (h : Stands setting act time pool base f callers) {index : Nat}
    {name : String} (known : pool.constants[index]? = some (.str name)) (ip : Nat) (owner : Value)
    (stack : List Value) (world : World σ) :
    effect setting (f.at ip (owner :: stack)) world (.getField index) =
      .attempt world ((fieldValue world.heap owner name).map fun v => f.at ip (v :: stack))
        .next := by
  have hread : Machine.readField world.heap (f.at ip (owner :: stack)) index =
      (fieldValue world.heap owner name).map fun v => f.at ip (v :: stack) := by
    change ((f.at ip stack).constantName index >>= _) = _
    rw [h.constantName known]
    change (fieldOwner world.heap owner name >>= fun object =>
      Pure.pure (f.at ip ((world.heap.getField? object name).getD .null :: stack))) = _
    unfold fieldValue
    cases fieldOwner world.heap owner name <;> rfl
  simp only [effect, hread]

/-- The effect of a call of a function. -/
theorem effect_call (ip id : Nat) (args stack : List Value) (world : World σ) :
    effect setting (f.at ip (args.reverse ++ stack)) world (.call id args.length) =
      .attempt world (enter setting.program id none args .value)
        fun callee => .enter (f.at ip stack) callee := by
  have hprepare : prepareCall setting.program (f.at ip (args.reverse ++ stack)) id args.length =
      (enter setting.program id none args .value).map fun callee => (f.at ip stack, callee) := by
    unfold prepareCall
    rw [popArgs_reverse]
    change (enter setting.program id none args .value >>= fun callee =>
      Pure.pure (f.at ip stack, callee)) = _
    cases enter setting.program id none args .value <;> rfl
  simp only [effect, hprepare]
  cases enter setting.program id none args .value <;> rfl

/-- The effect of a call of a method. -/
theorem Stands.effect_callMethod (h : Stands setting act time pool base f callers) {index : Nat}
    {name : String} (known : pool.constants[index]? = some (.str name)) (ip : Nat)
    (receiver : Value) (args stack : List Value) (world : World σ) :
    effect setting (f.at ip (args.reverse ++ receiver :: stack)) world
        (.callMethod index args.length) =
      .attempt world (act.trees.method receiver name) fun found world =>
        .attempt world (enter setting.program found.1 (some found.2) args .value)
          (fun callee => .enter (f.at ip stack) callee) := by
  have hprepare :
      prepareMethod setting.program (f.at ip (args.reverse ++ receiver :: stack)) index
          args.length =
        (act.trees.method receiver name).bind fun found =>
          (enter setting.program found.1 (some found.2) args .value).map fun callee =>
            (f.at ip stack, callee) := by
    unfold prepareMethod
    rw [popArgs_reverse]
    change ((f.at ip stack).constantName index >>= _) = _
    rw [h.constantName known]
    change (method setting.program receiver name >>= _) = _
    rw [method_eq h.program]
    cases act.trees.method receiver name with
    | error e => rfl
    | ok found =>
      change (enter setting.program found.1 (some found.2) args .value >>= fun callee =>
        Pure.pure (f.at ip stack, callee)) = _
      cases hcallee : enter setting.program found.1 (some found.2) args .value with
      | error e => simp only [Except.bind, hcallee]; rfl
      | ok callee => simp only [Except.bind, hcallee]; rfl
  simp only [effect, hprepare]
  cases act.trees.method receiver name with
  | error e => rfl
  | ok found =>
    simp only [Except.bind, Effect.attempt]
    cases enter setting.program found.1 (some found.2) args .value <;> rfl

/-- The effect of the creation of an object. -/
theorem effect_create (ip classId : Nat) (args stack : List Value) (world : World σ) :
    effect setting (f.at ip (args.reverse ++ stack)) world (.create classId args.length) =
      .attempt world (construct setting.program classId args world.heap)
        fun made world => .enter (f.at ip stack) made.1
          { world with heap := world.heap.alloc made.2 } := by
  have hprepare : prepareObject setting.program world.heap (f.at ip (args.reverse ++ stack)) classId
      args.length =
        (construct setting.program classId args world.heap).map fun made =>
          (f.at ip stack, made.1, made.2) := by
    unfold prepareObject
    rw [popArgs_reverse]
    change (construct setting.program classId args world.heap >>= fun made =>
      Pure.pure (f.at ip stack, made.1, made.2)) = _
    cases construct setting.program classId args world.heap <;> rfl
  simp only [effect, hprepare]
  cases construct setting.program classId args world.heap <;> rfl

/-- The effect of a call of a host function. -/
theorem effect_callHost {id : Nat} {binding : HostBinding}
    (hbinding : setting.program.bindings[id]? = some binding) (f : Frame) (ip : Nat)
    (args stack : List Value) (world : World σ) :
    effect setting (f.at ip (args.reverse ++ stack)) world (.callHost id args.length) =
      match callBound setting.catalog binding args world.host with
      | (.ok value, host) => .next (f.at ip (value :: stack)) { world with host }
      | (.error e, host) => .fault e { world with host } := by
  simp only [effect, popArgs_reverse, Effect.attempt, hostEffect, callHost, hbinding]
  cases callBound setting.catalog binding args world.host with
  | mk result host => cases result <;> rfl

/-! ## One rule for each kind of expression -/

/-- Code gives a value where it stands at a place of a frame: it follows the interpreter, and the
machine is then behind the code, with the value on top of the operand stack. -/
def Gives (setting : Setting σ) (time : Nat) (f : Frame) (callers : List Frame) (start : Nat)
    (code : List Op) (x : Eval σ Value) : Prop :=
  PartAt f.chunk.ops start code → ∀ ⦃stack : List Value⦄ ⦃state : State σ⦄,
    state.At f callers start stack → Follows setting time state
      (fun v next => next.At f callers (start + code.length) (v :: stack)) (x state.world)

/-- Code gives so many values where it stands at a place of a frame. The last one is on top. -/
def GivesAll (setting : Setting σ) (time : Nat) (f : Frame) (callers : List Frame) (start : Nat)
    (code : List Op) (count : Nat) (xs : Eval σ (List Value)) : Prop :=
  PartAt f.chunk.ops start code → ∀ ⦃stack : List Value⦄ ⦃state : State σ⦄,
    state.At f callers start stack → Follows setting time state
      (fun values next => next.At f callers (start + code.length) (values.reverse ++ stack) ∧
        values.length = count) (xs state.world)

variable {start : Nat} {op : Op} {l r : List Op} {x y : Eval σ Value}

/-- An instruction that pushes what the world has there. -/
theorem Gives.push (hlimit : setting.limit = none) (value : World σ → Value)
    (heffect : ∀ (stack : List Value) (world : World σ),
      effect setting (f.at (start + 1) stack) world op =
        .next (f.at (start + 1) (value world :: stack)) world) :
    Gives setting time f callers start [op] fun world => some (.ok (value world), world) :=
  fun hcode stack state hat =>
    .push hlimit hat hcode.1 (value state.world) (heffect stack state.world)

/-- An instruction that takes the value of its operand and leaves the world alone. -/
theorem Gives.compute (hlimit : setting.limit = none)
    (hx : Gives setting time f callers start l x) {g : Value → Eval σ Value}
    (checked : Value → World σ → Except Fault Value)
    (hg : ∀ a world, g a world = some (checked a world, world))
    (heffect : ∀ (ip : Nat) (a : Value) (stack : List Value) (world : World σ),
      effect setting (f.at ip (a :: stack)) world op =
        .attempt world ((checked a world).map fun v => f.at ip (v :: stack)) .next) :
    Gives setting time f callers start (l ++ [op]) (x >>= g) := by
  intro hcode stack state hat
  obtain ⟨hl, hop, -⟩ := partAt_append.mp hcode
  refine (hx hl hat).bind fun a next hnext => ?_
  rw [hg, List.length_append]
  exact .compute hlimit hnext hop (heffect _ a stack next.world)

/-- An operator on both operands. -/
theorem Gives.binary (hlimit : setting.limit = none) {op : BinaryOp} (hand : op ≠ .and)
    (hor : op ≠ .or) (hx : Gives setting time f callers start l x)
    (hy : Gives setting time f callers (start + l.length) r y) :
    Gives setting time f callers start (l ++ r ++ [Code.binaryOp op])
      (do Resolved.binaryValue op (← x) (← y)) := by
  intro hcode stack state hat
  simp only [partAt_append, PartAt] at hcode
  obtain ⟨⟨hl, hr⟩, hop, -⟩ := hcode
  refine (hx hl hat).bind fun a next hnext => ?_
  refine (hy hr hnext).bind fun b last hlast => ?_
  rw [List.length_append] at hop
  rw [List.length_append, List.length_append]
  exact .compute hlimit (hlast.cast (Nat.add_assoc ..)) hop
    (effect_binary hand hor _ a b stack last.world)

/-- A conjunction, which leaves out its second operand where the first one does not hold. -/
theorem Gives.and (hlimit : setting.limit = none) (hx : Gives setting time f callers start l x)
    (hy : Gives setting time f callers (start + l.length + 1) r y) :
    Gives setting time f callers start
      (l ++ .jumpIfFalse (start + l.length + 1 + r.length + 1) ::
        r ++ [.jump (start + l.length + 1 + r.length + 1 + 1), .pushFalse])
      (do if ← condition (← x) then y else return .bool false) := by
  intro hcode stack state hat
  simp only [List.append_assoc, List.cons_append, partAt_append, PartAt] at hcode
  obtain ⟨hl, htest, hr, hskip, hfalse, -⟩ := hcode
  have hstop : start + l.length + 1 + r.length + 1 + 1 = start + (l ++
      Op.jumpIfFalse (start + l.length + 1 + r.length + 1) ::
        r ++ [Op.jump (start + l.length + 1 + r.length + 1 + 1), Op.pushFalse]).length := by
    simp only [List.length_append, List.length_cons, List.length_nil]
    omega
  refine (hx hl hat).bind fun value next hnext => ?_
  refine (Follows.test hlimit hnext htest).bind fun holds next hnext => ?_
  cases holds with
  | true =>
    refine (hy hr hnext).more fun v last hlast => ?_
    refine .next hlimit hlast hskip f (start + l.length + 1 + r.length + 1 + 1) (v :: stack) rfl
      fun final hfinal hworld => ?_
    exact .done (hfinal.cast hstop) hworld
  | false =>
    refine .next hlimit hnext hfalse f (start + l.length + 1 + r.length + 1 + 1)
      (.bool false :: stack) rfl fun final hfinal hworld => ?_
    exact .done (hfinal.cast hstop) hworld

/-- A disjunction, which leaves out its second operand where the first one holds. -/
theorem Gives.or (hlimit : setting.limit = none) (hx : Gives setting time f callers start l x)
    (hy : Gives setting time f callers (start + l.length + 3) r y) :
    Gives setting time f callers start
      (l ++ .jumpIfFalse (start + l.length + 3) :: .pushTrue ::
        .jump (start + l.length + 3 + r.length) :: r)
      (do if ← condition (← x) then return .bool true else y) := by
  intro hcode stack state hat
  simp only [partAt_append, PartAt] at hcode
  obtain ⟨hl, htest, htrue, hskip, hr⟩ := hcode
  have hstop : start + l.length + 3 + r.length = start + (l ++
      Op.jumpIfFalse (start + l.length + 3) :: Op.pushTrue ::
        Op.jump (start + l.length + 3 + r.length) :: r).length := by
    simp only [List.length_append, List.length_cons]
    omega
  refine (hx hl hat).bind fun value next hnext => ?_
  refine (Follows.test hlimit hnext htest).bind fun holds next hnext => ?_
  cases holds with
  | true =>
    refine .next hlimit hnext htrue f (start + l.length + 1 + 1) (.bool true :: stack) rfl
      fun between hbetween hworld => ?_
    refine .next hlimit hbetween hskip f (start + l.length + 3 + r.length)
      (.bool true :: stack) rfl fun final hfinal hworld' => ?_
    exact .done (hfinal.cast hstop) (hworld'.trans hworld)
  | false => exact (hy hr hnext).imp fun v last hlast => hlast.cast hstop

variable {count : Nat} {xs : Eval σ (List Value)}

theorem GivesAll.nil : GivesAll setting time f callers start [] 0 (pure []) :=
  fun _ _ _ hat => .pure ⟨hat, rfl⟩

theorem GivesAll.cons (hx : Gives setting time f callers start l x)
    (hxs : GivesAll setting time f callers (start + l.length) r count xs) :
    GivesAll setting time f callers start (l ++ r) (count + 1) (do return (← x) :: (← xs)) := by
  intro hcode stack state hat
  obtain ⟨hl, hr⟩ := partAt_append.mp hcode
  refine (hx hl hat).bind fun value next hnext => ?_
  refine (hxs hr hnext).bind fun values last hlast => ?_
  refine .pure ⟨?_, congrArg (· + 1) hlast.2⟩
  rw [List.length_append, ← Nat.add_assoc, List.reverse_cons, List.append_assoc]
  exact hlast.1

/-- A call of a function. -/
theorem GivesAll.call (h : Stands setting act time pool base f callers) (id : Nat)
    (hargs : GivesAll setting (time + 1) f callers start l count xs) :
    Gives setting (time + 1) f callers start (l ++ [.call id count])
      (do act.call id none (← xs)) := by
  intro hcode stack state hat
  obtain ⟨hl, hop, -⟩ := partAt_append.mp hcode
  refine (hargs hl hat).bind fun values next hnext => ?_
  obtain ⟨hnext, rfl⟩ := hnext
  rw [List.length_append]
  exact call_follows h.toSurrounds h.active hnext hop (effect_call _ id values stack next.world)

/-- A call of a method. Its receiver has the method, or there is no call. -/
theorem GivesAll.callMethod (h : Stands setting act time pool base f callers) {index : Nat}
    {name : String} (known : pool.constants[index]? = some (.str name))
    (hx : Gives setting (time + 1) f callers start l x)
    (hargs : GivesAll setting (time + 1) f callers (start + l.length) r count xs) :
    Gives setting (time + 1) f callers start (l ++ r ++ [.callMethod index count]) (do
      let receiver ← x
      let args ← xs
      let (id, this) ← act.trees.method receiver name
      act.call id (some this) args) := by
  intro hcode stack state hat
  simp only [partAt_append, PartAt] at hcode
  obtain ⟨⟨hl, hr⟩, hop, -⟩ := hcode
  refine (hx hl hat).bind fun object next hnext => ?_
  refine (hargs hr hnext).bind fun values last hlast => ?_
  obtain ⟨hlast, rfl⟩ := hlast
  rw [List.length_append] at hop
  rw [List.length_append, List.length_append]
  have hat' := hlast.cast (Nat.add_assoc ..)
  have heffect := h.effect_callMethod known (start + (l.length + r.length) + 1) object values
    stack last.world
  cases hfound : act.trees.method object name with
  | error e =>
    rw [hfound] at heffect
    exact .fault h.limit hat' hop heffect
  | ok found =>
    rw [hfound] at heffect
    exact call_follows h.toSurrounds h.active hat' hop heffect

/-- A call of a host function. -/
theorem GivesAll.callHost (h : Stands setting act time pool base f callers) {index : Nat}
    {module function : String} (known : pool.hostCalls[index]? = some (module, function))
    (hargs : GivesAll setting (time + 1) f callers start l count xs) :
    Gives setting (time + 1) f callers start (l ++ [.callHost (base + index) count])
      (do Eval.callHost act.catalog ⟨act.allowed.get? module, module, function⟩ (← xs)) := by
  intro hcode stack state hat
  obtain ⟨hl, hop, -⟩ := partAt_append.mp hcode
  refine (hargs hl hat).bind fun values next hnext => ?_
  obtain ⟨hnext, rfl⟩ := hnext
  rw [List.length_append]
  have heffect := effect_callHost (h.bound index module function known) f
    (start + l.length + 1) values stack next.world
  unfold Eval.callHost
  rw [h.catalog]
  generalize callBound setting.catalog _ values next.world.host = called at heffect
  obtain ⟨result, host⟩ := called
  cases result with
  | error e => exact .fault h.limit hnext hop heffect
  | ok value =>
    exact .next h.limit hnext hop f (start + l.length + 1) (value :: stack) heffect
      fun final hfinal hworld => .done hfinal hworld

/-- The creation of an object. -/
theorem GivesAll.create (h : Stands setting act time pool base f callers) (classId : Nat)
    (hargs : GivesAll setting (time + 1) f callers start l count xs) :
    Gives setting (time + 1) f callers start (l ++ [.create classId count])
      (do act.create classId (← xs)) := by
  intro hcode stack state hat
  obtain ⟨hl, hop, -⟩ := partAt_append.mp hcode
  refine (hargs hl hat).bind fun values next hnext => ?_
  obtain ⟨hnext, rfl⟩ := hnext
  rw [List.length_append]
  exact create_follows h.toSurrounds h.active hnext hop
    (effect_create _ classId values stack next.world)

mutual

/-- The code of an expression follows the interpreter. -/
theorem eval_follows (h : Stands setting act time pool base f callers) :
    ∀ {start : Nat} {e : Resolved.Expr} {code : List Op}, Lowered pool base start e code →
      Gives setting (time + 1) f callers start code (e.eval act f.locals)
  | _, _, _, .null | _, _, _, .yes | _, _, _, .no | _, _, _, .loadLocal => by
    rw [Resolved.Expr.eval]
    exact .push h.limit (fun _ => _) fun _ _ => rfl
  | start, _, _, @Lowered.const _ _ _ index value known => by
    rw [Resolved.Expr.eval]
    refine .push h.limit (fun _ => value) fun stack world => ?_
    have hconstant : (f.at (start + 1) stack).chunk.constants[index]? = some value := by
      rw [← known, ← h.constants]
      rfl
    simp only [effect, hconstant]
    rfl
  | _, _, _, @Lowered.loadGlobal _ _ _ id => by
    rw [Resolved.Expr.eval]
    exact .push h.limit (fun world => world.globals[id]?.getD .null) fun _ _ => rfl
  | _, _, _, .loadThis => by
    rw [Resolved.Expr.eval, ← h.this]
    exact .push h.limit (fun _ => _) fun _ _ => rfl
  | _, _, _, @Lowered.getField _ _ _ _ _ name _ owner known => by
    rw [Resolved.Expr.eval]
    exact (eval_follows h owner).compute h.limit (fun a world => fieldValue world.heap a name)
      (readField_eq · name) (h.effect_getField known)
  | _, _, _, .and first second => by
    rw [Resolved.Expr.eval]
    exact (eval_follows h first).and h.limit (eval_follows h second)
  | _, _, _, .or first second => by
    rw [Resolved.Expr.eval]
    exact (eval_follows h first).or h.limit (eval_follows h second)
  | _, _, _, .binary hand hor first second => by
    rw [Resolved.Expr.eval]
    · exact (eval_follows h first).binary h.limit hand hor (eval_follows h second)
    · exact hand
    · exact hor
  | _, _, _, @Lowered.unary _ _ _ op _ _ first => by
    rw [Resolved.Expr.eval]
    exact (eval_follows h first).compute h.limit (fun a _ => Resolved.unaryValue op a)
      (fun _ _ => rfl) (effect_unary op)
  | _, _, _, .call all => by
    rw [Resolved.Expr.eval]
    exact (evalAll_follows h all).call h _
  | _, _, _, .callMethod receiver all known => by
    rw [Resolved.Expr.eval]
    exact (evalAll_follows h all).callMethod h known (eval_follows h receiver)
  | _, _, _, .callHost all known => by
    rw [Resolved.Expr.eval]
    exact (evalAll_follows h all).callHost h known
  | _, _, _, .create all => by
    rw [Resolved.Expr.eval]
    exact (evalAll_follows h all).create h _

/-- The code of expressions one after the other follows the interpreter. -/
theorem evalAll_follows (h : Stands setting act time pool base f callers) :
    ∀ {start : Nat} {args : List Resolved.Expr} {code : List Op},
      LoweredAll pool base start args code →
      GivesAll setting (time + 1) f callers start code args.length
        (Resolved.Expr.evalAll act f.locals args)
  | _, _, _, .nil => by
    rw [Resolved.Expr.evalAll]
    exact .nil
  | _, _, _, .cons first others => by
    rw [Resolved.Expr.evalAll]
    exact .cons (eval_follows h first) (evalAll_follows h others)

end

end ScriptHost.Machine
