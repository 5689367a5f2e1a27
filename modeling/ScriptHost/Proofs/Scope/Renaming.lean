import ScriptHost.Proofs.Computation
import ScriptHost.Proofs.Grammar.Bare
import ScriptHost.Proofs.Table
import ScriptHost.Scope.Resolve
/-!
# Two walks side by side

Two walks go through the same trees, but the places in them may differ, and so may the numbers that
functions, classes and global variables have. Step by step they find the same: the same local
variables in the same slots, trees that are the same once the numbers are renamed, and diagnostics
that say the same. `Mirrors` says this of two steps. Its lemmas follow the ways in which steps are
put together.
-/

set_option autoImplicit false

namespace ScriptHost

/-- New numbers for functions, classes and global variables. -/
structure Renaming where
  function : Nat → Nat
  classId : Nat → Nat
  global : Nat → Nat

/-- All numbers stay. -/
def Renaming.refl : Renaming where
  function := id
  classId := id
  global := id

namespace Resolved

mutual

/-- An expression with new numbers. -/
def Expr.rename (r : Renaming) : Expr → Expr
  | .const value => .const value
  | .loadLocal slot => .loadLocal slot
  | .loadGlobal id => .loadGlobal (r.global id)
  | .loadThis => .loadThis
  | .getField object name => .getField (object.rename r) name
  | .binary op left right => .binary op (left.rename r) (right.rename r)
  | .unary op operand => .unary op (operand.rename r)
  | .call function args => .call (r.function function) (Expr.renameAll r args)
  | .callMethod object method args => .callMethod (object.rename r) method (Expr.renameAll r args)
  | .callHost module function args => .callHost module function (Expr.renameAll r args)
  | .create classId args => .create (r.classId classId) (Expr.renameAll r args)

/-- Expressions with new numbers. -/
def Expr.renameAll (r : Renaming) : List Expr → List Expr
  | [] => []
  | e :: rest => e.rename r :: Expr.renameAll r rest

end

mutual

/-- A statement with new numbers. -/
def Stmt.rename (r : Renaming) : Stmt → Stmt
  | .storeLocal slot value => .storeLocal slot (value.rename r)
  | .storeGlobal id value => .storeGlobal (r.global id) (value.rename r)
  | .setField object name value => .setField (object.rename r) name (value.rename r)
  | .branch condition body alternative =>
    .branch (condition.rename r) (Stmt.renameAll r body) (Stmt.renameAll r alternative)
  | .loop condition body => .loop (condition.rename r) (Stmt.renameAll r body)
  | .ret value => .ret (value.map (Expr.rename r))
  | .expr value => .expr (value.rename r)

/-- Statements with new numbers. -/
def Stmt.renameAll (r : Renaming) : List Stmt → List Stmt
  | [] => []
  | s :: rest => s.rename r :: Stmt.renameAll r rest

end

theorem Expr.renameAll_eq (r : Renaming) (es : List Expr) :
    Expr.renameAll r es = es.map (Expr.rename r) := by
  induction es with
  | nil => rfl
  | cons e rest ih => rw [Expr.renameAll, ih, List.map_cons]

theorem Stmt.renameAll_eq (r : Renaming) (body : List Stmt) :
    Stmt.renameAll r body = body.map (Stmt.rename r) := by
  induction body with
  | nil => rfl
  | cons s rest ih => rw [Stmt.renameAll, ih, List.map_cons]

end Resolved

/-- A local variable without the place of its declaration. -/
def Local.bare (l : Local) : Local :=
  { l with span := .nowhere }

namespace Body

/-- Scopes without places. -/
def bareScopes (scopes : List (List Local)) : List (List Local) :=
  scopes.map (List.map Local.bare)

/-- Two walks that began at `start` and `start'` have found the same since. -/
structure Alike (start start' body body' : Body) : Prop where
  scopes : bareScopes body.scopes = bareScopes body'.scopes
  nextSlot : body'.nextSlot = body.nextSlot
  maxSlot : ∃ peak, body.maxSlot = max start.maxSlot peak ∧ body'.maxSlot = max start'.maxSlot peak
  diagnostics : ∃ more more', body.diagnostics.toList = start.diagnostics.toList ++ more ∧
    body'.diagnostics.toList = start'.diagnostics.toList ++ more' ∧ SaySame more more'

variable {start start' body body' : Body}

/-- Two diagnostics that say the same have been found. -/
theorem Alike.push (h : Alike start start' body body') {d d' : Diagnostic}
    (hd : d.said = d'.said) :
    Alike start start' { body with diagnostics := body.diagnostics.push d }
      { body' with diagnostics := body'.diagnostics.push d' } where
  scopes := h.scopes
  nextSlot := h.nextSlot
  maxSlot := h.maxSlot
  diagnostics := by
    obtain ⟨more, more', hmore, hmore', hsame⟩ := h.diagnostics
    refine ⟨more ++ [d], more' ++ [d'], ?_, ?_, hsame.append (congrArg (fun s => [s]) hd)⟩
    · rw [Array.toList_push, hmore, List.append_assoc]
    · rw [Array.toList_push, hmore', List.append_assoc]

theorem Alike.warn (h : Alike start start' body body') (level : Nat) (warning : ScopeWarning)
    (span span' : Span) :
    Alike start start' (body.warn level warning span) (body'.warn level warning span') := by
  unfold Body.warn
  split
  · exact h.push rfl
  · exact h

theorem find?_bare (name : String) (scope : List Local) :
    (scope.map Local.bare).find? (·.name == name) =
      (scope.find? (·.name == name)).map Local.bare := by
  rw [List.find?_map]
  rfl

theorem findLocal?_bare (name : String) (body : Body) :
    (body.findLocal? name).map Local.bare =
      (bareScopes body.scopes).findSome? (·.find? (·.name == name)) := by
  unfold findLocal? bareScopes
  induction body.scopes with
  | nil => rfl
  | cons scope rest ih =>
    rw [List.map_cons, List.findSome?_cons, List.findSome?_cons, find?_bare]
    cases scope.find? (·.name == name) with
    | none => exact ih
    | some l => rfl

/-- A name stands for the same variable. -/
theorem Alike.findLocal? (h : Alike start start' body body') (name : String) :
    (body.findLocal? name).map Local.bare = (body'.findLocal? name).map Local.bare := by
  rw [findLocal?_bare, findLocal?_bare, h.scopes]

theorem markFirst_bare (name : String) (scope : List Local) :
    (markFirst name scope).map Local.bare = markFirst name (scope.map Local.bare) := by
  induction scope with
  | nil => rfl
  | cons l rest ih =>
    rw [markFirst, List.map_cons, markFirst]
    change _ = if l.name == name then _ else _
    split
    · rfl
    · rw [List.map_cons, ih]

theorem any_bare (name : String) (scope : List Local) :
    (scope.map Local.bare).any (·.name == name) = scope.any (·.name == name) := by
  rw [List.any_map]
  rfl

theorem markIn_bare (name : String) (scopes : List (List Local)) :
    bareScopes (markIn name scopes) = markIn name (bareScopes scopes) := by
  unfold bareScopes
  induction scopes with
  | nil => rfl
  | cons scope rest ih =>
    rw [markIn, List.map_cons, markIn, any_bare]
    split
    · rw [List.map_cons, markFirst_bare]
    · rw [List.map_cons, ih]

theorem Alike.markUsed (h : Alike start start' body body') (name : String) :
    Alike start start' (body.markUsed name) (body'.markUsed name) :=
  { h with scopes := by rw [Body.markUsed, Body.markUsed, markIn_bare, markIn_bare, h.scopes] }

theorem Alike.enter (h : Alike start start' body body') :
    Alike start start' body.enter body'.enter :=
  { h with scopes := congrArg (List.cons []) h.scopes }

/-- Warns of a variable if it was not used. -/
def leaveOne (level : Nat) (body : Body) (l : Local) : Body :=
  if l.used then body else body.warn level (.unusedVariable l.name) l.span

theorem Alike.leaveAll (level : Nat) : ∀ {scope scope' : List Local} {body body' : Body},
    scope.map Local.bare = scope'.map Local.bare → Alike start start' body body' →
      Alike start start' (scope.foldl (leaveOne level) body) (scope'.foldl (leaveOne level) body')
  | [], [], _, _, _, h => h
  | [], _ :: _, _, _, hscope, _ | _ :: _, [], _, _, hscope, _ => by cases hscope
  | l :: rest, l' :: rest', body, body', hscope, h => by
    obtain ⟨hl, hrest⟩ := List.cons.inj hscope
    have hname : l.name = l'.name := (congrArg Local.name hl :)
    have hused : l.used = l'.used := (congrArg Local.used hl :)
    rw [List.foldl_cons, List.foldl_cons]
    refine Alike.leaveAll level hrest ?_
    unfold leaveOne
    rw [hname, hused]
    split
    · exact h
    · exact h.warn ..

/-- A scope that ends. -/
theorem leave_eq (body : Body) (level : Nat) :
    body.leave level = match body.scopes with
      | [] => body
      | scope :: rest =>
        { scope.reverse.foldl (leaveOne level) body with
          scopes := rest
          nextSlot := (scope.reverse.foldl (leaveOne level) body).nextSlot -
            min scope.length maxLocals } :=
  rfl

theorem Alike.leave (h : Alike start start' body body') (level : Nat) :
    Alike start start' (body.leave level) (body'.leave level) := by
  have hscopes := h.scopes
  rw [leave_eq, leave_eq]
  cases hscope : body.scopes with
  | nil =>
    rw [hscope] at hscopes
    rw [show body'.scopes = [] from List.map_eq_nil_iff.mp hscopes.symm]
    exact h
  | cons scope rest =>
    rw [hscope] at hscopes
    obtain ⟨scope', rest', hscope', hinner, houter⟩ := List.map_eq_cons_iff.mp hscopes.symm
    have hreverse : scope.reverse.map Local.bare = scope'.reverse.map Local.bare := by
      rw [List.map_reverse, List.map_reverse, hinner]
    have hlength : scope'.length = scope.length := by
      simpa using congrArg List.length hinner
    have hleft := Alike.leaveAll level hreverse h
    rw [hscope']
    exact { hleft with
      scopes := houter.symm
      nextSlot := by
        dsimp only
        rw [hleft.nextSlot, hlength] }

theorem alike_refl (start start' : Body)
    (hscopes : bareScopes start.scopes = bareScopes start'.scopes)
    (hnextSlot : start'.nextSlot = start.nextSlot) : Alike start start' start start' where
  scopes := hscopes
  nextSlot := hnextSlot
  maxSlot := ⟨0, by simp, by simp⟩
  diagnostics := ⟨[], [], by simp, by simp, .refl []⟩

/-- What is found in two stretches is found. -/
theorem Alike.trans {later later' : Body} (h : Alike start start' body body')
    (h' : Alike body body' later later') : Alike start start' later later' where
  scopes := h'.scopes
  nextSlot := h'.nextSlot
  maxSlot := by
    obtain ⟨peak, hpeak, hpeak'⟩ := h.maxSlot
    obtain ⟨higher, hhigher, hhigher'⟩ := h'.maxSlot
    exact ⟨max peak higher, by rw [hhigher, hpeak, Nat.max_assoc],
      by rw [hhigher', hpeak', Nat.max_assoc]⟩
  diagnostics := by
    obtain ⟨more, more', hmore, hmore', hsame⟩ := h.diagnostics
    obtain ⟨rest, rest', hrest, hrest', hsameRest⟩ := h'.diagnostics
    exact ⟨more ++ rest, more' ++ rest', by rw [hrest, hmore, List.append_assoc],
      by rw [hrest', hmore', List.append_assoc], hsame.append hsameRest⟩

end Body

/-! ## Steps -/

namespace Resolver

variable {α β α' β' : Type} {start start' : Body}

/-- Two outcomes are the same: the answers are the `same`, or both fail with the same message. -/
def Agree (start start' : Body) (same : α → α' → Prop) :
    EStateM.Result Diagnostic Body α → EStateM.Result Diagnostic Body α' → Prop
  | .ok a body, .ok a' body' => same a a' ∧ Body.Alike start start' body body'
  | .error e body, .error e' body' => e.said = e'.said ∧ Body.Alike start start' body body'
  | _, _ => False

/-- Two steps that are taken side by side come to the same. -/
def Mirrors (start start' : Body) (step : Resolver α) (step' : Resolver α') (same : α → α' → Prop) :
    Prop :=
  ∀ body body', Body.Alike start start' body body' →
    Agree start start' same (step body) (step' body')

namespace Mirrors

variable {same : α → α' → Prop} {last : β → β' → Prop} {step : Resolver α} {step' : Resolver α'}

theorem pure {a : α} {a' : α'} (h : same a a') :
    Mirrors start start' (Pure.pure a) (Pure.pure a') same :=
  fun _ _ hbody => ⟨h, hbody⟩

theorem bind {next : α → Resolver β} {next' : α' → Resolver β'}
    (h : Mirrors start start' step step' same)
    (hnext : ∀ a a', same a a' → Mirrors start start' (next a) (next' a') last) :
    Mirrors start start' (step >>= next) (step' >>= next') last := by
  intro body body' hbody
  have hagree := h body body' hbody
  cases hstep : step body with
  | ok a after =>
    cases hstep' : step' body' with
    | ok a' after' =>
      rw [hstep, hstep'] at hagree
      rw [bind_of_ok hstep, bind_of_ok hstep']
      exact hnext a a' hagree.1 after after' hagree.2
    | error e' after' =>
      rw [hstep, hstep'] at hagree
      exact hagree.elim
  | error e after =>
    cases hstep' : step' body' with
    | ok a' after' =>
      rw [hstep, hstep'] at hagree
      exact hagree.elim
    | error e' after' =>
      rw [hstep, hstep'] at hagree
      rw [bind_of_error hstep, bind_of_error hstep']
      exact hagree

theorem fail {e : ScopeError} {span span' : Span} :
    Mirrors start start' (Resolver.fail e span : Resolver α) (Resolver.fail e span' : Resolver α')
      same :=
  fun _ _ hbody => ⟨rfl, hbody⟩

theorem fail_bind {e : ScopeError} {span span' : Span} {next : α → Resolver β}
    {next' : α' → Resolver β'} :
    Mirrors start start' (Resolver.fail e span >>= next) (Resolver.fail e span' >>= next') last :=
  fun _ _ hbody => ⟨rfl, hbody⟩

/-- What is read of the variables in scope. -/
theorem get {next : Body → Resolver α} {next' : Body → Resolver α'}
    (h : ∀ body body', Body.Alike start start' body body' →
      Mirrors start start' (next body) (next' body') same) :
    Mirrors start start' (MonadState.get >>= next) (MonadState.get >>= next') same :=
  fun body body' hbody => h body body' hbody body body' hbody

theorem modify {f f' : Body → Body} {next : Unit → Resolver α} {next' : Unit → Resolver α'}
    (hf : ∀ body body', Body.Alike start start' body body' →
      Body.Alike start start' (f body) (f' body'))
    (h : Mirrors start start' (next ()) (next' ()) same) :
    Mirrors start start' (MonadStateOf.modifyGet (fun s => ((), f s)) >>= next)
      (MonadStateOf.modifyGet (fun s => ((), f' s)) >>= next') same :=
  fun body body' hbody => h (f body) (f' body') (hf body body' hbody)

/-- A failure is passed over on both sides. -/
theorem recover (h : Mirrors start start' step step' same) :
    Mirrors start start' (Resolver.recover step) (Resolver.recover step') (Option.Rel same) := by
  intro body body' hbody
  have hagree := h body body' hbody
  unfold Resolver.recover
  cases hstep : step body with
  | ok a after =>
    cases hstep' : step' body' with
    | ok a' after' =>
      rw [hstep, hstep'] at hagree
      exact ⟨.some hagree.1, hagree.2⟩
    | error e' after' =>
      rw [hstep, hstep'] at hagree
      exact hagree.elim
  | error e after =>
    cases hstep' : step' body' with
    | ok a' after' =>
      rw [hstep, hstep'] at hagree
      exact hagree.elim
    | error e' after' =>
      rw [hstep, hstep'] at hagree
      exact ⟨.none, hagree.2.push hagree.1⟩

/-- A step for each of some things, one after the other. -/
theorem mapM {γ : Type} {step : γ → Resolver α} {step' : γ → Resolver α'} (g : γ → γ)
    (h : ∀ c, Mirrors start start' (step c) (step' (g c)) same) (cs : List γ) :
    Mirrors start start' (cs.mapM step) ((cs.map g).mapM step') (List.Forall₂ same) := by
  induction cs with
  | nil => exact pure .nil
  | cons c rest ih =>
    rw [List.map_cons, List.mapM_cons, List.mapM_cons]
    exact (h c).bind fun a a' ha => ih.bind fun all all' hall => pure (.cons ha hall)

/-- Both declare the variable in the same slot, or neither can. -/
theorem declareLocal (name : String) (span span' : Span) :
    Mirrors start start' (Resolver.declareLocal name span) (Resolver.declareLocal name span')
      Eq := by
  unfold Resolver.declareLocal
  refine get fun body body' hbody => ?_
  have hscopes := hbody.scopes
  cases hscope : body.scopes with
  | nil =>
    rw [hscope] at hscopes
    rw [show body'.scopes = [] from List.map_eq_nil_iff.mp hscopes.symm]
    exact fail
  | cons scope rest =>
    rw [hscope] at hscopes
    obtain ⟨scope', rest', hscope', hinner, houter⟩ := List.map_eq_cons_iff.mp hscopes.symm
    have hany : scope'.any (·.name == name) = scope.any (·.name == name) := by
      rw [← Body.any_bare, ← Body.any_bare name scope, hinner]
    have hpushed : Body.bareScopes ((⟨name, body.nextSlot, false, span⟩ :: scope) :: rest) =
        Body.bareScopes ((⟨name, body.nextSlot, false, span'⟩ :: scope') :: rest') := by
      unfold Body.bareScopes
      rw [List.map_cons, List.map_cons, List.map_cons, List.map_cons, hinner, houter]
      rfl
    rw [hscope']
    dsimp only
    rw [hany, hbody.nextSlot]
    split
    · exact fail
    · split
      · obtain ⟨peak, hpeak, hpeak'⟩ := hbody.maxSlot
        refine fun _ _ _ => ⟨rfl, hpushed, rfl, ⟨max peak (body.nextSlot + 1), ?_, ?_⟩,
          hbody.diagnostics⟩
        · dsimp only
          rw [hpeak, Nat.max_assoc]
        · dsimp only
          rw [hpeak', Nat.max_assoc]
      · exact fun _ _ _ => ⟨rfl, hpushed, rfl, hbody.maxSlot, hbody.diagnostics⟩

end Mirrors

end Resolver

end ScriptHost
