import ScriptHost.Proofs.Trees.Expressions
/-!
# Following statements

The code of a statement leaves the operand stack as it was, or returns from its frame. Loops take
one turn of the interpreter for each pass through their code, so that time runs out for the
interpreter no sooner than for the machine.
-/

set_option autoImplicit false

namespace ScriptHost.Machine

open Resolved (Activation Eval Exit)
open Code (StmtLowered StmtsLowered)

variable {σ : Type} {setting : Setting σ} {act : Activation σ} {time : Nat} {pool : Code.Pool}
  {base : Nat} {f : Frame} {callers : List Frame}

/-- The frame with other local variables. -/
abbrev withLocals (f : Frame) (locals : Array Value) : Frame :=
  { f with locals }

/-- Other local variables make no difference to where a frame stands. -/
theorem Stands.withLocals (h : Stands setting act time pool base f callers)
    (locals : Array Value) :
    Stands setting act time pool base (withLocals f locals) callers where
  toSurrounds := h.toSurrounds
  active := h.active
  this := h.this
  constants := h.constants
  bound := h.bound

/-- The state of the machine behind a statement that ended like this. -/
def Leaves (setting : Setting σ) (f : Frame) (callers : List Frame) (stop : Nat)
    (stack : List Value) : Exit → State σ → Prop
  | .next locals, state => state.At (withLocals f locals) callers stop stack
  | .ret value, state => Returns setting f.resume value callers state

/-- What a returning statement leaves does not depend on where its code would have ended. -/
theorem Leaves.stopAt {stop place : Nat} {stack : List Value} {exit : Exit} {state : State σ}
    (h : Leaves setting f callers stop stack exit state) (heq : stop = place) :
    Leaves setting f callers place stack exit state :=
  heq ▸ h

/-- The code of a loop follows the interpreter for as many turns as it takes. -/
theorem repeatWhile_follows (h : Stands setting act time pool base f callers)
    {test : Array Value → Eval σ Bool} {body : Array Value → Eval σ Exit}
    {start inside back stop : Nat} {stack : List Value}
    (htest : ∀ (locals : Array Value) (state : State σ),
      state.At (withLocals f locals) callers start stack →
      Follows setting (time + 1) state
        (fun holds next =>
          next.At (withLocals f locals) callers (cond holds inside stop) stack)
        (test locals state.world))
    (hbody : ∀ (locals : Array Value) (state : State σ),
      state.At (withLocals f locals) callers inside stack →
      Follows setting (time + 1) state (Leaves setting f callers back stack)
        (body locals state.world))
    (hback : f.chunk.ops[back]? = some (.jump start)) (turns : Nat) (hturns : turns ≤ time + 1)
    (locals : Array Value) (state : State σ)
    (hat : state.At (withLocals f locals) callers start stack) :
    Follows setting turns state (Leaves setting f callers stop stack)
      (Resolved.repeatWhile test body turns locals state.world) := by
  induction turns generalizing locals state with
  | zero => exact .late rfl
  | succ turns ih =>
    rw [Resolved.repeatWhile]
    refine ((htest locals state hat).le hturns).bind fun holds next hnext => ?_
    cases holds with
    | false => exact .pure hnext
    | true =>
      refine ((hbody locals next hnext).le hturns).bind fun exit last hlast => ?_
      cases exit with
      | ret value => exact .pure hlast
      | next locals' =>
        refine .next_succ h.limit hlast hback (withLocals f locals') start stack rfl
          fun again hagain hworld => ?_
        rw [← hworld]
        exact ih (Nat.le_of_succ_le hturns) locals' again hagain

/-- The effect of giving a global variable a value. -/
theorem effect_storeGlobal (ip id : Nat) (value : Value) (stack : List Value) (world : World σ) :
    effect setting (f.at ip (value :: stack)) world (.storeGlobal id) =
      .next (f.at ip stack) { world with globals := storeGlobal world.globals id value } :=
  rfl

/-- The interpreter's change to a field, or the reason why there is none. -/
theorem writeField_eq (owner : Value) (name : String) (value : Value) (world : World σ) :
    Eval.writeField owner name value world =
      match fieldOwner world.heap owner name with
      | .error e => some (.error e, world)
      | .ok object =>
        some (.ok ⟨⟩, { world with heap := world.heap.setField object name value }) := by
  change ((liftM (fieldOwner world.heap owner name) : Eval σ ObjectRef) >>= fun object =>
    (set { world with heap := world.heap.setField object name value } : Eval σ PUnit)) world = _
  cases fieldOwner world.heap owner name <;> rfl

/-- The effect of giving a field a value. -/
theorem Stands.effect_setField (h : Stands setting act time pool base f callers) {index : Nat}
    {name : String} (known : pool.constants[index]? = some (.str name)) (ip : Nat)
    (owner value : Value) (stack : List Value) (world : World σ) :
    effect setting (f.at ip (value :: owner :: stack)) world (.setField index) =
      match fieldOwner world.heap owner name with
      | .error e => .fault e world
      | .ok object =>
        .next (f.at ip stack) { world with heap := world.heap.setField object name value } := by
  have hprepare : prepareField world.heap (f.at ip (value :: owner :: stack)) index =
      (fieldOwner world.heap owner name).map fun object =>
        (object, name, value, f.at ip stack) := by
    change ((f.at ip stack).constantName index >>= _) = _
    rw [h.constantName known]
    change (fieldOwner world.heap owner name >>= fun object =>
      Pure.pure (object, name, value, f.at ip stack)) = _
    cases fieldOwner world.heap owner name <;> rfl
  simp only [effect, hprepare]
  cases fieldOwner world.heap owner name <;> rfl

/-! ## One rule for each kind of statement -/

/-- Code carries out a statement where it stands at a place of a frame with these local variables:
it follows the interpreter, and the machine is then behind the code with the operand stack as it
was, or the frame has returned. -/
def CarriesOut (setting : Setting σ) (time : Nat) (f : Frame) (callers : List Frame) (start : Nat)
    (code : List Op) (locals : Array Value) (x : Eval σ Exit) : Prop :=
  PartAt f.chunk.ops start code → ∀ ⦃stack : List Value⦄ ⦃state : State σ⦄,
    state.At (withLocals f locals) callers start stack → Follows setting time state
      (Leaves setting f callers (start + code.length) stack) (x state.world)

section Rules

variable {start : Nat} {locals : Array Value} {l r : List Op} {x y : Eval σ Value}
  {body other : Eval σ Exit}

/-- The value goes to a local variable. -/
theorem Gives.storeLocal (hlimit : setting.limit = none) (slot : Nat)
    (hx : Gives setting time (withLocals f locals) callers start l x) :
    CarriesOut setting time f callers start (l ++ [.storeLocal slot]) locals
      (do return .next (locals.setIfInBounds slot (← x))) := by
  intro hcode stack state hat
  obtain ⟨hl, hop, -⟩ := partAt_append.mp hcode
  refine (hx hl hat).bind fun value next hnext => ?_
  rw [List.length_append]
  exact .next hlimit hnext hop (withLocals f _) _ stack rfl fun _ hfinal hworld =>
    .done hfinal hworld

/-- The value goes to a global variable. -/
theorem Gives.storeGlobal (hlimit : setting.limit = none) (id : Nat)
    (hx : Gives setting time (withLocals f locals) callers start l x) :
    CarriesOut setting time f callers start (l ++ [.storeGlobal id]) locals (do
      let value ← x
      modify fun world => { world with globals := Machine.storeGlobal world.globals id value }
      return .next locals) := by
  intro hcode stack state hat
  obtain ⟨hl, hop, -⟩ := partAt_append.mp hcode
  refine (hx hl hat).bind fun value next hnext => ?_
  rw [List.length_append]
  exact .next hlimit hnext hop (withLocals f locals) _ stack
    (effect_storeGlobal _ id value stack _) fun _ hfinal hworld => .done hfinal hworld

/-- The value goes to a field, if its owner has fields. -/
theorem Gives.setField (h : Stands setting act time pool base f callers) {index : Nat}
    {name : String} (known : pool.constants[index]? = some (.str name))
    (hx : Gives setting (time + 1) (withLocals f locals) callers start l x)
    (hy : Gives setting (time + 1) (withLocals f locals) callers (start + l.length) r y) :
    CarriesOut setting (time + 1) f callers start (l ++ r ++ [.setField index]) locals (do
      let owner ← x
      let value ← y
      Eval.writeField owner name value
      return .next locals) := by
  intro hcode stack state hat
  simp only [partAt_append, PartAt] at hcode
  obtain ⟨⟨hl, hr⟩, hop, -⟩ := hcode
  refine (hx hl hat).bind fun object next hnext => ?_
  refine (hy hr hnext).bind fun value last hlast => ?_
  rw [List.length_append] at hop
  rw [List.length_append, List.length_append]
  have hat' := hlast.cast (Nat.add_assoc ..)
  have heffect := (h.withLocals locals).effect_setField known
    (start + (l.length + r.length) + 1) object value stack last.world
  have hwrite := writeField_eq object name value last.world
  cases howner : fieldOwner last.world.heap object name with
  | error e =>
    rw [howner] at heffect hwrite
    rw [Eval.bind_of_error hwrite]
    exact .fault h.limit hat' hop heffect
  | ok target =>
    rw [howner] at heffect hwrite
    rw [Eval.bind_of_ok hwrite]
    exact .next h.limit hat' hop (withLocals f locals) _ stack heffect
      fun _ hfinal hworld => .done hfinal hworld

/-- A branch without an alternative. -/
theorem Gives.ifThen (hlimit : setting.limit = none)
    (hx : Gives setting time (withLocals f locals) callers start l x)
    (hbody : CarriesOut setting time f callers (start + l.length + 1) r locals body) :
    CarriesOut setting time f callers start
      (l ++ .jumpIfFalse (start + l.length + 1 + r.length) :: r) locals
      (do if ← condition (← x) then body else return .next locals) := by
  intro hcode stack state hat
  simp only [partAt_append, PartAt] at hcode
  obtain ⟨hl, htest, hr⟩ := hcode
  have hstop : start + l.length + 1 + r.length = start + (l ++
      Op.jumpIfFalse (start + l.length + 1 + r.length) :: r).length := by
    simp only [List.length_append, List.length_cons]
    omega
  refine (hx hl hat).bind fun value next hnext => ?_
  refine (Follows.test hlimit hnext htest).bind fun holds next hnext => ?_
  cases holds with
  | true => exact (hbody hr hnext).imp fun _ _ hlast => hlast.stopAt hstop
  | false =>
    rw [if_neg Bool.false_ne_true]
    exact .pure (hnext.cast hstop)

/-- A branch with an alternative, which its code jumps over where the condition holds. -/
theorem Gives.ifElse (hlimit : setting.limit = none) {a : List Op}
    (hx : Gives setting time (withLocals f locals) callers start l x)
    (hbody : CarriesOut setting time f callers (start + l.length + 1) r locals body)
    (hother : CarriesOut setting time f callers (start + l.length + 1 + r.length + 1) a locals
      other) :
    CarriesOut setting time f callers start
      (l ++ .jumpIfFalse (start + l.length + 1 + r.length + 1) :: r ++
        .jump (start + l.length + 1 + r.length + 1 + a.length) :: a) locals
      (do if ← condition (← x) then body else other) := by
  intro hcode stack state hat
  simp only [List.append_assoc, List.cons_append, partAt_append, PartAt] at hcode
  obtain ⟨hl, htest, hr, hskip, ha⟩ := hcode
  have hstop : start + l.length + 1 + r.length + 1 + a.length = start + (l ++
      Op.jumpIfFalse (start + l.length + 1 + r.length + 1) :: r ++
        Op.jump (start + l.length + 1 + r.length + 1 + a.length) :: a).length := by
    simp only [List.length_append, List.length_cons]
    omega
  refine (hx hl hat).bind fun value next hnext => ?_
  refine (Follows.test hlimit hnext htest).bind fun holds next hnext => ?_
  cases holds with
  | true =>
    refine (hbody hr hnext).more fun exit last hlast => ?_
    cases exit with
    | ret value => exact .pure hlast
    | next locals' =>
      exact .next hlimit hlast hskip (withLocals f locals') _ stack rfl
        fun _ hfinal hworld => .done (hfinal.cast hstop) hworld
  | false => exact (hother ha hnext).imp fun _ _ hlast => hlast.stopAt hstop

/-- A loop, whose condition and body the interpreter takes with the local variables of each turn. -/
theorem loop_carriesOut (h : Stands setting act time pool base f callers)
    {test : Array Value → Eval σ Value} {body : Array Value → Eval σ Exit}
    (htest : ∀ locals, Gives setting (time + 1) (withLocals f locals) callers start l (test locals))
    (hbody : ∀ locals,
      CarriesOut setting (time + 1) f callers (start + l.length + 1) r locals (body locals)) :
    CarriesOut setting (time + 1) f callers start
      (l ++ .jumpIfFalse (start + l.length + 1 + r.length + 1) :: r ++ [.jump start]) locals
      (Resolved.repeatWhile (fun locals => do condition (← test locals)) body (time + 1)
        locals) := by
  intro hcode stack state hat
  simp only [List.append_assoc, List.cons_append, partAt_append, PartAt] at hcode
  obtain ⟨hl, hjump, hr, hback, -⟩ := hcode
  have hstop : start + l.length + 1 + r.length + 1 = start + (l ++
      Op.jumpIfFalse (start + l.length + 1 + r.length + 1) :: r ++ [Op.jump start]).length := by
    simp only [List.length_append, List.length_cons, List.length_nil]
    omega
  have htests : ∀ (locals : Array Value) (state : State σ),
      state.At (withLocals f locals) callers start stack →
      Follows setting (time + 1) state
        (fun holds next => next.At (withLocals f locals) callers
          (cond holds (start + l.length + 1) (start + l.length + 1 + r.length + 1)) stack)
        ((do condition (← test locals) : Eval σ Bool) state.world) := by
    intro locals state hat
    refine (htest locals hl hat).bind fun value next hnext => ?_
    exact .test h.limit hnext hjump
  exact (repeatWhile_follows h htests (fun locals state hat => hbody locals hr hat) hback (time + 1)
    (Nat.le_refl _) locals state hat).imp fun _ _ hlast => hlast.stopAt hstop

/-- A return without a value. -/
theorem retNull_carriesOut (hlimit : setting.limit = none) :
    CarriesOut setting time f callers start [.pushNull, .ret] locals (return .ret .null) := by
  intro hcode stack state hat
  refine .next hlimit hat hcode.1 (withLocals f locals) _ (.null :: stack) rfl
    fun next hnext hworld => ?_
  rw [← hworld]
  exact .ret hlimit hnext hcode.2.1 fun executed hstep => ⟨executed, hstep⟩

/-- A return of the value. -/
theorem Gives.ret (hlimit : setting.limit = none)
    (hx : Gives setting time (withLocals f locals) callers start l x) :
    CarriesOut setting time f callers start (l ++ [.ret]) locals (do return .ret (← x)) := by
  intro hcode stack state hat
  obtain ⟨hl, hop, -⟩ := partAt_append.mp hcode
  refine (hx hl hat).bind fun value next hnext => ?_
  exact .ret hlimit hnext hop fun executed hstep => ⟨executed, hstep⟩

/-- The value is dropped. -/
theorem Gives.drop (hlimit : setting.limit = none)
    (hx : Gives setting time (withLocals f locals) callers start l x) :
    CarriesOut setting time f callers start (l ++ [.pop]) locals
      (do let _ ← x; return .next locals) := by
  intro hcode stack state hat
  obtain ⟨hl, hop, -⟩ := partAt_append.mp hcode
  refine (hx hl hat).bind fun value next hnext => ?_
  rw [List.length_append]
  exact .next hlimit hnext hop (withLocals f locals) _ stack rfl fun _ hfinal hworld =>
    .done hfinal hworld

end Rules

mutual

/-- The code of a statement follows the interpreter. -/
theorem exec_follows (h : Stands setting act time pool base f callers)
    (hturns : act.turns = time + 1) :
    ∀ {start : Nat} {s : Resolved.Stmt} {code : List Op}, StmtLowered pool base start s code →
      ∀ locals : Array Value,
        CarriesOut setting (time + 1) f callers start code locals (s.exec act locals)
  | _, _, _, .storeLocal first, locals => by
    rw [Resolved.Stmt.exec]
    exact (eval_follows (h.withLocals locals) first).storeLocal h.limit _
  | _, _, _, .storeGlobal first, locals => by
    rw [Resolved.Stmt.exec]
    exact (eval_follows (h.withLocals locals) first).storeGlobal h.limit _
  | _, _, _, .setField owner first known, locals => by
    rw [Resolved.Stmt.exec]
    exact (eval_follows (h.withLocals locals) owner).setField h known
      (eval_follows (h.withLocals locals) first)
  | _, _, _, .ifThen test first, locals => by
    rw [Resolved.Stmt.exec, Resolved.Stmt.execAll]
    exact (eval_follows (h.withLocals locals) test).ifThen h.limit
      (execAll_follows h hturns first locals)
  | _, _, _, .ifElse _ test first second, locals => by
    rw [Resolved.Stmt.exec]
    exact (eval_follows (h.withLocals locals) test).ifElse h.limit
      (execAll_follows h hturns first locals) (execAll_follows h hturns second locals)
  | _, _, _, .loop test first, locals => by
    rw [Resolved.Stmt.exec, hturns]
    exact loop_carriesOut h (fun locals => eval_follows (h.withLocals locals) test)
      (execAll_follows h hturns first)
  | _, _, _, .retNull, locals => by
    rw [Resolved.Stmt.exec]
    exact retNull_carriesOut h.limit
  | _, _, _, .ret first, locals => by
    rw [Resolved.Stmt.exec]
    exact (eval_follows (h.withLocals locals) first).ret h.limit
  | _, _, _, .expr first, locals => by
    rw [Resolved.Stmt.exec]
    exact (eval_follows (h.withLocals locals) first).drop h.limit

/-- The code of statements one after the other follows the interpreter. -/
theorem execAll_follows (h : Stands setting act time pool base f callers)
    (hturns : act.turns = time + 1) :
    ∀ {start : Nat} {body : List Resolved.Stmt} {code : List Op},
      StmtsLowered pool base start body code → ∀ locals : Array Value,
        CarriesOut setting (time + 1) f callers start code locals
          (Resolved.Stmt.execAll act locals body)
  | _, _, _, .nil, locals => by
    rw [Resolved.Stmt.execAll]
    exact fun _ _ _ hat => .pure hat
  | _, _, _, .cons first others, locals => by
    rw [Resolved.Stmt.execAll]
    intro hcode stack state hat
    obtain ⟨hfirst, hothers⟩ := partAt_append.mp hcode
    rw [List.length_append, ← Nat.add_assoc]
    refine (exec_follows h hturns first locals hfirst hat).bind fun exit next hnext => ?_
    cases exit with
    | ret value => exact .pure hnext
    | next locals' => exact execAll_follows h hturns others locals' hothers hnext

end

end ScriptHost.Machine
