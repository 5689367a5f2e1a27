import ScriptHost.Proofs.Grammar.Declares
import ScriptHost.Proofs.Program.Names
import ScriptHost.Proofs.Scope.Bare
/-!
# Statements behind declarations

Statements find the same behind the declarations of their own unit as in a unit of their own, built
once the declarations have been linked. In the one case names lead through the tables of the unit
and those of the program, in the other through those of the program alone, where the entries of the
unit have gone in front of what was there before.

The main statement is `resolve_declared`.
-/

set_option autoImplicit false

namespace ScriptHost

/-- A statement of the top level that declares nothing. -/
def Item.Acts : Item → Prop
  | .stmt (.letVar ..) => False
  | .stmt _ => True
  | .space .. | .classDecl _ | .function _ => False

/-- Nothing but statements of the top level, none of which declares anything. -/
def Acts (items : List Item) : Prop :=
  ∀ item ∈ items, item.Acts

theorem Item.Acts.stmt {item : Item} (h : item.Acts) :
    ∃ s, item = .stmt s ∧ ∀ name value span, s ≠ .letVar name value span := by
  cases item with
  | stmt s =>
    refine ⟨s, rfl, fun name value span hs => ?_⟩
    subst hs
    exact h
  | _ => exact h.elim

/-! ## Names -/

namespace Scope.Context

/-- Names lead to the same when the entries of the one table have gone into the other. -/
theorem leads?_insertAll {unit program : Table Nat} {entries : List (String × Nat)}
    (h : ∀ (name : String) (id : Nat), (name, id) ∈ entries ↔ unit.get? name = some id)
    (name : String) : leads? {} (program.insertAll entries) name = leads? unit program name := by
  change (program.insertAll entries).get? name = leads? unit program name
  unfold leads?
  cases hid : unit.get? name with
  | some id =>
    refine program.get?_insertAll_of_only ((h name id).mpr hid) fun other hother => ?_
    have hget := (h name other).mp hother
    rw [hid, Option.some.injEq] at hget
    exact hget.symm
  | none =>
    refine program.get?_insertAll_of_not_mem fun hmem => ?_
    obtain ⟨⟨_, id⟩, hentry, rfl⟩ := List.mem_map.mp hmem
    have hget := (h _ id).mp hentry
    rw [hid] at hget
    cases hget

/-- A function of the program, without its code. -/
def signatureOf (f : Function) : Signature :=
  ⟨f.name, f.arity⟩

/-- What has a number where nothing is declared has it in the program. -/
theorem signature_start (env : Env) (id : Nat) :
    signature { env, declared := .start env.program } id =
      (env.program.functions[id]?.map signatureOf).getD ⟨"", 0⟩ := by
  change (if env.program.functions.size ≤ id then none
    else env.program.functions[id]?.map signatureOf).getD ⟨"", 0⟩ = _
  split
  · rename_i hlarge
    rw [Array.getElem?_eq_none hlarge]
    rfl
  · rfl

theorem classOf?_start (env : Env) (id : Nat) :
    classOf? { env, declared := .start env.program } id = env.program.classes[id]? := by
  change (if env.program.classes.size ≤ id then none else env.program.classes[id]?) = _
  split
  · rename_i hlarge
    rw [Array.getElem?_eq_none hlarge]
  · rfl

end Scope.Context

/-- The environment of texts that come after a unit. -/
def Env.after (env : Env) (unit : CompiledUnit) (allowed : AllowedModules) : Env :=
  { env with program := env.program.append unit allowed }

/-- A unit has the classes and the names that are declared, and these are declared without an
error. -/
structure CompiledUnit.Carries (unit : CompiledUnit) (env : Env) (d : Declarations) : Prop where
  declared : d.Sound env.program
  clean : ¬ Failed d.diagnostics
  classBase : unit.classBase = d.classBase
  classes : unit.classes = d.classes
  functionNames : unit.functionNames = d.functionNames.entries

open Scope.Context

namespace CompiledUnit.Carries

variable {unit : CompiledUnit} {env : Env} {d : Declarations}

theorem leads?_functionNames (h : unit.Carries env d) (allowed : AllowedModules) (name : String) :
    leads? {} (env.program.append unit allowed).functionNames name =
      leads? d.functionNames env.program.functionNames name := by
  refine leads?_insertAll (fun name id => ?_) name
  rw [h.functionNames]
  exact (Table.get?_eq_some_iff h.declared.functionsDistinct).symm

theorem leads?_classNames (h : unit.Carries env d) (allowed : AllowedModules) (name : String) :
    leads? {} (env.program.append unit allowed).classNames name =
      leads? d.classNames env.program.classNames name := by
  refine leads?_insertAll (fun name id => ?_) name
  rw [mem_numbered, h.classes, h.classBase]
  constructor
  · rintro ⟨index, c, hc, rfl, rfl⟩
    exact h.declared.classesNamed h.clean index c hc
  · exact h.declared.classNames name id

/-- What the unit declares has the number that it has in the program, once it is appended. -/
theorem classOf?_append (h : unit.Carries env d) (allowed : AllowedModules) (id : Nat) :
    (env.program.append unit allowed).classes[id]? =
      Scope.Context.classOf? { env, declared := d } id := by
  unfold Scope.Context.classOf?
  rw [Program.append, Array.getElem?_append, ← h.declared.classBase, h.classes]
  dsimp only
  by_cases hid : d.classBase ≤ id
  · rw [if_neg (by omega), if_pos hid]
  · rw [if_pos (by omega), if_neg hid]

end CompiledUnit.Carries

namespace CompiledUnit.BuiltOn

variable {unit : CompiledUnit} {env : Env} {d : Declarations} {resolved : Resolved.Unit}

theorem carries (h : unit.BuiltOn env d resolved) : unit.Carries env d where
  declared := h.declared
  clean := h.walked.clean
  classBase := h.lowered.classBase.trans h.walked.classBase
  classes := h.lowered.classes.trans h.walked.classes
  functionNames := h.lowered.functionNames.trans h.walked.functionNames

theorem signature_append (h : unit.BuiltOn env d resolved) (allowed : AllowedModules) (id : Nat) :
    (((env.program.append unit allowed).functions[id]?.map signatureOf).getD ⟨"", 0⟩) =
      Scope.Context.signature { env, declared := d } id := by
  unfold Scope.Context.signature
  dsimp only
  by_cases hid : d.functionBase ≤ id
  · obtain ⟨index, rfl⟩ := Nat.exists_eq_add_of_le hid
    rw [if_pos hid, Nat.add_sub_cancel_left]
    cases hsignature : d.functions[index]? with
    | some signature =>
      obtain ⟨f, hf, hname, harity⟩ := h.declaredFunction allowed hsignature
      rw [hf, Option.map_some, signatureOf, hname, harity]
    | none =>
      have hnone : (env.program.append unit allowed).functions[d.functionBase + index]? = none := by
        rw [Array.getElem?_eq_none_iff] at hsignature ⊢
        rw [Program.append, Array.size_append, h.size_eq, ← h.declared.functionBase]
        omega
      rw [hnone]
      rfl
  · have hold : id < env.program.functions.size := h.declared.functionBase ▸ Nat.lt_of_not_le hid
    rw [if_neg hid, Program.append, Array.getElem?_append_left hold]
    rfl

/-- Names lead to the same in a unit of their own, once the unit has been linked that declares them,
unless the unit has global variables. -/
theorem renames (h : unit.BuiltOn env d resolved) (allowed : AllowedModules)
    (hglobals : d.globals = {}) (hnew : d.newGlobals = #[]) :
    Renames .refl
      { env := env.after unit allowed, declared := .start (env.after unit allowed).program }
      { env, declared := d } := by
  have hid (found : Option Nat) : found = found.map id := Option.map_id.symm ▸ rfl
  have hnames : (env.program.append unit allowed).globalNames = env.program.globalNames := by
    rw [Program.append, h.lowered.globals, h.walked.globals, hnew]
    rfl
  have hsignature (number : Nat) : signature { env, declared := d } number = signature
      { env := env.after unit allowed, declared := .start (env.after unit allowed).program }
      number := by
    rw [signature_start, ← h.signature_append allowed number]
    rfl
  refine ⟨rfl, rfl, rfl, rfl, rfl, fun name => ?_, fun name => ?_, fun name => ?_,
    fun number _ => hsignature number, fun number _ => ?_,
    fun _ _ function _ _ _ => hsignature function, by rintro _ ⟨⟩⟩
  · exact (h.carries.leads?_functionNames allowed name).symm.trans (hid _)
  · exact (h.carries.leads?_classNames allowed name).symm.trans (hid _)
  · dsimp only
    rw [hglobals, ← hnames]
    exact hid _
  · rw [show Class.rename .refl = id from funext Class.rename_refl, Option.map_id, classOf?_start]
    exact (h.carries.classOf?_append allowed number).symm

end CompiledUnit.BuiltOn

/-! ## Declarations and statements -/

namespace Declarations

/-- Statements declare nothing. -/
theorem addItems_acts (program : Program) (d : Declarations) {items : List Item} (h : Acts items) :
    addItems program [] d items = d := by
  induction items with
  | nil => rw [addItems]
  | cons item rest ih =>
    obtain ⟨hitem, hrest⟩ := List.forall_mem_cons.mp h
    obtain ⟨s, rfl, hs⟩ := hitem.stmt
    have hone : addItem program [] d (.stmt s) = d := by
      cases s with
      | letVar name value span => exact absurd rfl (hs name value span)
      | _ => rfl
    rw [addItems, hone, ih hrest]

end Declarations

theorem Acts.classes {items : List Item} (h : Acts items) : Item.classesAll items = [] := by
  induction items with
  | nil => rfl
  | cons item rest ih =>
    obtain ⟨hitem, hrest⟩ := List.forall_mem_cons.mp h
    obtain ⟨s, rfl, -⟩ := hitem.stmt
    exact ih hrest

namespace Declarations

theorem SameGlobals.trans {d later last : Declarations} (h : d.SameGlobals later)
    (h' : later.SameGlobals last) : d.SameGlobals last :=
  ⟨h'.functionBase.trans h.functionBase, h'.classBase.trans h.classBase,
    h'.globals.trans h.globals, h'.newGlobals.trans h.newGlobals, h'.nextGlobal.trans h.nextGlobal⟩

mutual

/-- Where no statement stands outside of a body, no global variable is declared. -/
theorem sameGlobals_addItem (program : Program) : ∀ (item : Item) (space : List String)
    (d : Declarations), item.statements = [] → d.SameGlobals (addItem program space d item)
  | .space path items _, space, d, h => by
    rw [addItem]
    exact sameGlobals_addItems program items (space ++ path) d h
  | .classDecl c, space, d, _ => by
    rw [addItem]
    obtain ⟨_, hadds⟩ := d.addClass_adds space c
    exact hadds.toSameGlobals
  | .function f, space, d, _ => by
    rw [addItem]
    unfold Declarations.addFunction
    dsimp only
    split <;> exact ⟨rfl, rfl, rfl, rfl, rfl⟩
  | .stmt s, _, _, h => by cases h

theorem sameGlobals_addItems (program : Program) : ∀ (items : List Item) (space : List String)
    (d : Declarations), Item.statementsAll items = [] →
      d.SameGlobals (addItems program space d items)
  | [], _, _, _ => by
    rw [addItems]
    exact ⟨rfl, rfl, rfl, rfl, rfl⟩
  | item :: rest, space, d, h => by
    obtain ⟨hitem, hrest⟩ := List.append_eq_nil_iff.mp h
    rw [addItems]
    exact (sameGlobals_addItem program item space d hitem).trans
      (sameGlobals_addItems program rest space _ hrest)

end

end Declarations

namespace Scope.Progress

/-- A walk has added nothing to the top level but diagnostics. -/
structure Passes (p q : Progress) : Prop where
  topLevel : q.topLevel = p.topLevel
  returnsValue : q.returnsValue = p.returnsValue
  top : ∃ diagnostics, q.top = { p.top with diagnostics }

theorem Passes.refl (p : Progress) : Passes p p :=
  ⟨rfl, rfl, _, rfl⟩

theorem Passes.trans {p q s : Progress} (h : Passes p q) (h' : Passes q s) : Passes p s := by
  obtain ⟨_, htop⟩ := h.top
  obtain ⟨_, htop'⟩ := h'.top
  exact ⟨h'.topLevel.trans h.topLevel, h'.returnsValue.trans h.returnsValue, _, by rw [htop', htop]⟩

theorem passes_addBody (p : Progress) (params : List String)
    (walk : Resolver (List Resolved.Stmt)) : Passes p (p.addBody params walk) :=
  ⟨rfl, rfl, _, rfl⟩

theorem passes_methods (ctx : Context) (methods : List FunctionDecl) (p : Progress) :
    Passes p (methods.foldl (fun p method => p.addFunction ctx method) p) := by
  induction methods generalizing p with
  | nil => exact .refl p
  | cons method rest ih => exact (passes_addBody p _ _).trans (ih _)

mutual

/-- Where no statement stands outside of a body, nothing is added to the top level. -/
theorem passes_addItem : ∀ (item : Item) (ctx : Context) (p : Progress), item.statements = [] →
    Passes p (addItem ctx p item)
  | .space path items _, ctx, p, h => by
    rw [addItem]
    exact passes_addItems items _ p h
  | .classDecl c, ctx, p, _ => by
    rw [addItem]
    have hcount : Passes p { p with classes := p.classes + 1 } := ⟨rfl, rfl, _, rfl⟩
    exact hcount.trans ((passes_addBody _ _ _).trans (passes_methods _ c.methods _))
  | .function f, ctx, p, _ => by
    rw [addItem]
    exact passes_addBody p _ _
  | .stmt s, _, _, h => by cases h

theorem passes_addItems : ∀ (items : List Item) (ctx : Context) (p : Progress),
    Item.statementsAll items = [] → Passes p (addItems ctx p items)
  | [], _, p, _ => .refl p
  | item :: rest, ctx, p, h => by
    obtain ⟨hitem, hrest⟩ := List.append_eq_nil_iff.mp h
    rw [addItems]
    exact (passes_addItem item ctx p hitem).trans (passes_addItems rest ctx _ hrest)

end

end Scope.Progress

namespace Scope.Progress

/-- Statements add no bodies. -/
theorem bodies_addItems_acts (ctx : Context) (p : Progress) {items : List Item} (h : Acts items) :
    (addItems ctx p items).bodies = p.bodies := by
  induction items generalizing p with
  | nil => rfl
  | cons item rest ih =>
    obtain ⟨hitem, hrest⟩ := List.forall_mem_cons.mp h
    obtain ⟨s, rfl, -⟩ := hitem.stmt
    rw [addItems, ih _ hrest, addItem]
    unfold Progress.addStmt
    split
    · dsimp only
      cases resolveStmt ctx s p.top <;> rfl
    · rfl

variable {p p' q q' s : Progress}

/-- Two walks have added the same if a third one has added what each of them has. -/
theorem Adds.sides {classes : Nat} (h : Adds .refl classes p p' q s)
    (h' : Adds .refl classes p' p' q' s) : Adds .refl classes p p' q q' where
  bodies := by
    obtain ⟨more, hmore, hs⟩ := h.bodies
    obtain ⟨more', hmore', hs'⟩ := h'.bodies
    rw [show renameBody .refl = id from funext renameBody_refl, Array.map_id] at hs'
    exact ⟨more, hmore, hmore'.trans (hs'.symm.trans hs)⟩
  classes := ⟨h.classes.1, h'.classes.1⟩
  topLevel := by
    obtain ⟨more, hmore, hs⟩ := h.topLevel
    obtain ⟨more', hmore', hs'⟩ := h'.topLevel
    rw [show Resolved.Stmt.rename .refl = id from funext Resolved.Stmt.rename_refl,
      Array.map_id] at hs'
    exact ⟨more, hmore, hmore'.trans (hs'.symm.trans hs)⟩
  returnsValue := by
    obtain ⟨last, hlast, hs⟩ := h.returnsValue
    obtain ⟨last', hlast', hs'⟩ := h'.returnsValue
    exact ⟨last, hlast, hlast'.trans (hs'.symm.trans hs)⟩
  top :=
    { scopes := h.top.scopes.trans h'.top.scopes.symm
      nextSlot := h'.top.nextSlot.symm.trans h.top.nextSlot
      maxSlot := by
        obtain ⟨peak, hpeak, hs⟩ := h.top.maxSlot
        obtain ⟨peak', hpeak', hs'⟩ := h'.top.maxSlot
        exact ⟨peak, hpeak, hpeak'.trans (hs'.symm.trans hs)⟩
      diagnostics := by
        obtain ⟨more, final, hmore, hs, hsame⟩ := h.top.diagnostics
        obtain ⟨more', final', hmore', hs', hsame'⟩ := h'.top.diagnostics
        obtain rfl : final' = final := List.append_cancel_left (hs'.symm.trans hs)
        exact ⟨more, more', hmore, hmore', hsame.trans hsame'.symm⟩ }

/-- Statements add the same where names lead to the same. -/
theorem adds_acts {ctx ctx' : Context} (hctx : Context.Renames .refl ctx ctx')
    (hctx' : Context.Renames .refl ctx' ctx') (hlevel : Level p p') {items : List Item}
    (h : Acts items) : Adds .refl 0 p p' (addItems ctx p items) (addItems ctx' p' items) := by
  have hnoClass : ¬ ∃ i, i < (Item.classesAll items).length := by
    rw [h.classes]
    exact fun ⟨i, hi⟩ => Nat.not_lt_zero i hi
  have hbare := adds_items items hctx hlevel fun i hi => absurd ⟨i, hi⟩ hnoClass
  have hself : Level p' p' := Body.alike_refl _ _ rfl rfl
  have hbare' := adds_items items hctx' hself fun i hi => absurd ⟨i, hi⟩ hnoClass
  rw [h.classes] at hbare hbare'
  exact hbare.sides hbare'

end Scope.Progress

theorem ofTexts_acts (program : Program) (declared : List Item) {acts : List Item}
    (h : Acts acts) :
    Declarations.ofTexts program [declared ++ acts] = Declarations.ofTexts program [declared] := by
  change Declarations.addItems program [] (.start program) (declared ++ acts) = _
  rw [Declarations.addItems_append, Declarations.addItems_acts _ _ h]
  rfl

/-- Statements at the end of a unit change its top level only, and more may be said about it. -/
theorem resolve_append (declared : List Item) {acts : List Item} (hacts : Acts acts) (env : Env) :
    ∃ topLevel topLevelLocals returnsValue more, resolve [declared ++ acts] env =
      ({ (resolve [declared] env).1 with topLevel, topLevelLocals, returnsValue },
        (resolve [declared] env).2 ++ more) := by
  have hsame (d : Declarations) := renames_of_matches env (.refl d)
  unfold resolve
  rw [ofTexts_acts env.program declared hacts]
  generalize Declarations.ofTexts env.program [declared] = d
  dsimp only [List.foldl_cons, List.foldl_nil]
  rw [Scope.Progress.addItems_append]
  generalize Scope.Progress.addItems { env, declared := d }
    { top := { diagnostics := d.diagnostics } } declared = p
  have hself : Scope.Progress.Level p p := Body.alike_refl _ _ rfl rfl
  have hadds := Scope.Progress.adds_acts (hsame d) (hsame d) hself hacts
  obtain ⟨more, _, hmore, -⟩ := hadds.top.diagnostics
  rw [Scope.Progress.bodies_addItems_acts _ _ hacts, hmore]
  exact ⟨_, _, _, more, rfl⟩

/-- Statements by themselves are a unit without functions, classes and names. -/
theorem resolve_acts {acts : List Item} (hacts : Acts acts) (env : Env) :
    (resolve [acts] env).1 =
      { functionBase := env.program.functions.size
        functions := #[]
        classBase := env.program.classes.size
        classes := #[]
        functionNames := []
        globals := []
        topLevel := (resolve [acts] env).1.topLevel
        topLevelLocals := (resolve [acts] env).1.topLevelLocals
        returnsValue := (resolve [acts] env).1.returnsValue } := by
  obtain ⟨_, _, _, _, hresolved⟩ := resolve_append [] hacts env
  rw [List.nil_append] at hresolved
  rw [hresolved]
  with_unfolding_all rfl

/-- Declarations by themselves are a unit without a top level. -/
theorem resolve_declares {declared : List Item} (hdeclares : Declares declared) (env : Env) :
    (resolve [declared] env).1.topLevel = [] ∧ (resolve [declared] env).1.topLevelLocals = 0 ∧
      (resolve [declared] env).1.returnsValue = false := by
  unfold resolve
  dsimp only [List.foldl_cons, List.foldl_nil]
  obtain ⟨htop, hvalue, _, hbody⟩ := Scope.Progress.passes_addItems declared
    { env, declared := .ofTexts env.program [declared] }
    { top := { diagnostics := (Declarations.ofTexts env.program [declared]).diagnostics } } hdeclares
  rw [htop, hvalue, hbody]
  exact ⟨rfl, rfl, rfl⟩

/-- What a unit of declarations in front of statements is resolved to. -/
theorem resolve_declared {declared acts : List Item} {env : Env} {unit : CompiledUnit}
    (allowed : AllowedModules) (hdeclares : Declares declared) (hacts : Acts acts)
    (h : unit.BuiltOn env (.ofTexts env.program [declared]) (resolve [declared] env).1) :
    (resolve [declared ++ acts] env).1 =
        { (resolve [declared] env).1 with
          topLevel := (resolve [acts] (env.after unit allowed)).1.topLevel
          topLevelLocals := (resolve [acts] (env.after unit allowed)).1.topLevelLocals
          returnsValue := (resolve [acts] (env.after unit allowed)).1.returnsValue } ∧
      SaySame (resolve [declared ++ acts] env).2
        ((resolve [declared] env).2 ++ (resolve [acts] (env.after unit allowed)).2) := by
  generalize hlater : env.after unit allowed = later
  have hd : Declarations.ofTexts env.program [declared] =
      Declarations.addItems env.program [] (.start env.program) declared := rfl
  have hsame := Declarations.sameGlobals_addItems env.program declared []
    (.start env.program) hdeclares
  have hnone : Declarations.ofTexts later.program [acts] = .start later.program :=
    Declarations.addItems_acts later.program (.start later.program) hacts
  have hctx := h.renames allowed hsame.globals hsame.newGlobals
  rw [hd, hlater] at hctx
  unfold resolve
  rw [ofTexts_acts env.program declared hacts, hnone, hd]
  generalize Declarations.addItems env.program [] (.start env.program) declared = d at hctx ⊢
  dsimp only [List.foldl_cons, List.foldl_nil]
  rw [Scope.Progress.addItems_append]
  have hpasses := Scope.Progress.passes_addItems declared { env, declared := d }
    { top := { diagnostics := d.diagnostics } } hdeclares
  generalize Scope.Progress.addItems { env, declared := d }
    { top := { diagnostics := d.diagnostics } } declared = p at hpasses ⊢
  obtain ⟨bodies, classes, _, _, _⟩ := p
  obtain ⟨htop, hvalue, diagnostics, hdiagnostics⟩ := hpasses
  dsimp only at htop hvalue hdiagnostics
  subst htop hvalue hdiagnostics
  generalize hp : ({ bodies, classes, top := { diagnostics } } : Scope.Progress) = p
  have hlevel : Scope.Progress.Level {} p := hp ▸ Body.alike_refl _ _ rfl rfl
  have hadds := Scope.Progress.adds_acts hctx (renames_of_matches env (.refl d)) hlevel hacts
  have hbodies := Scope.Progress.bodies_addItems_acts { env, declared := d } p hacts
  obtain ⟨stmts, hstmts, hstmts'⟩ := hadds.topLevel
  obtain ⟨last, hlast, hlast'⟩ := hadds.returnsValue
  obtain ⟨peak, hpeak, hpeak'⟩ := hadds.top.maxSlot
  obtain ⟨more, more', hmore, hmore', hsameMore⟩ := hadds.top.diagnostics
  rw [show Resolved.Stmt.rename .refl = id from funext Resolved.Stmt.rename_refl,
    Array.map_id] at hstmts'
  have hempty : (Declarations.start later.program).diagnostics = #[] := rfl
  rw [hempty, hbodies, hstmts, hstmts', hlast, hlast', hpeak, hpeak', hmore, hmore']
  subst hp
  refine ⟨rfl, ?_⟩
  dsimp only
  exact (SaySame.refl diagnostics.toList).append hsameMore.symm

end ScriptHost
