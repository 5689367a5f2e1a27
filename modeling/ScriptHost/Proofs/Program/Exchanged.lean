import ScriptHost.Proofs.Code.Room
import ScriptHost.Proofs.Program.Split
import ScriptHost.Proofs.Scope.Exchanged
/-!
# Source texts change places

What can be built from source texts is said in terms of their items alone: `build_texts`. If two
stretches of items change places, a unit can be built from them if and only if it could be before:
`isSome_built_swap`.
-/

set_option autoImplicit false

namespace ScriptHost

open Grammar (SameItems)

/-! ## The items of source texts -/

/-- The items of a source text, if it can be read. -/
def itemsOf (source : String) : List Item :=
  match read source 0 with
  | .ok items => items
  | .error _ => []

/-- What is wrong with a source text. -/
def faultsOf (source : String) : List Diagnostic :=
  match read source 0 with
  | .ok _ => []
  | .error errors => errors

theorem FoundSame.trans {found other last : ReadTexts} (h : FoundSame found other)
    (h' : FoundSame other last) : FoundSame found last :=
  ⟨h.items.trans h'.items, h.diagnostics.trans h'.diagnostics⟩

/-- One more text adds its items or what is wrong with it. -/
theorem foundSame_add (found : ReadTexts) (source : String) (file : Nat) :
    FoundSame (found.add source file)
      { texts := itemsOf source :: found.texts
        diagnostics := found.diagnostics ++ faultsOf source } := by
  have hread := read_bare source file 0
  unfold ReadTexts.add itemsOf faultsOf
  generalize read source file = first at hread
  generalize read source 0 = other at hread
  cases hread with
  | ok hitems =>
    refine ⟨?_, by simpa using .refl _⟩
    dsimp only
    rw [List.reverse_cons, List.reverse_cons, List.flatten_append, List.flatten_append,
      List.flatten_singleton, List.flatten_singleton]
    exact SameItems.append rfl hitems
  | error hsame =>
    refine ⟨?_, ?_⟩
    · simp [SameItems]
    · dsimp only
      rw [Array.toList_appendList, Array.toList_appendList]
      exact SaySame.append (.refl _) hsame

/-- All that has been read are the items of the texts, and all that is wrong is wrong with them. -/
theorem readTexts_found (sources : List String) (found : ReadTexts) (file : Nat)
    (hfile : file + sources.length ≤ maxSourceTexts) :
    FoundSame (readTexts found file sources)
      { texts := (sources.map itemsOf).reverse ++ found.texts
        diagnostics := found.diagnostics ++ sources.flatMap faultsOf } := by
  induction sources generalizing found file with
  | nil => exact ⟨by simp [readTexts, SameItems], by simpa [readTexts] using .refl _⟩
  | cons source rest ih =>
    rw [List.length_cons] at hfile
    have hone := foundSame_add found source file
    have hrest := ih (found.add source file) (file + 1) (by omega)
    rw [readTexts, if_pos (by omega)]
    refine hrest.trans ⟨?_, ?_⟩
    · have hitems := SameItems.append hone.items (rfl : SameItems (rest.flatMap itemsOf) _)
      simpa [List.flatMap] using hitems
    · have hdiagnostics := hone.diagnostics.append (.refl (rest.flatMap faultsOf))
      simpa using hdiagnostics

/-- What is made of items. -/
def built (items : List Item) (env : Env) : Option CompiledUnit :=
  if (resolve [items] env).2.any Diagnostic.isError then none
  else ((resolve [items] env).1.compile env.program.bindings.size).toOption

/-- What can be built from source texts, as long as there are not too many of them. -/
theorem build_texts {sources : List String} (hcount : sources.length ≤ maxSourceTexts)
    (env : Env) : (build sources env).1 =
      if (sources.flatMap faultsOf).isEmpty then built (sources.flatMap itemsOf) env else none := by
  have hfound := readTexts_found sources {} 0 (by omega)
  unfold build built
  generalize readTexts {} 0 sources = found at hfound ⊢
  have hitems : SameItems found.texts.reverse.flatten [sources.flatMap itemsOf].flatten := by
    have hall := hfound.items
    simpa [List.flatMap] using hall
  have hempty : found.diagnostics.isEmpty = (sources.flatMap faultsOf).isEmpty := by
    have hnil := hfound.diagnostics.nil_iff
    rw [Bool.eq_iff_iff, Array.isEmpty_iff, List.isEmpty_iff, ← Array.toList_eq_nil_iff, hnil]
    simp
  obtain ⟨hunit, hsame⟩ := resolve_bare hitems env
  dsimp only
  rw [hempty, ← hunit, ← hsame.any_isError]
  split
  · split
    · rfl
    · cases (resolve found.texts.reverse env).1.compile env.program.bindings.size <;> rfl
  · rfl

/-! ## Two stretches change places -/

theorem failed_iff (diagnostics : Array Diagnostic) :
    Failed diagnostics ↔ diagnostics.toList.any Diagnostic.isError = true := by
  rw [Failed, List.any_eq_true]
  simp only [Array.mem_toList_iff]

namespace Scope.Progress

/-- A walk has found no error, and there is room for all that it has found. -/
structure Good (q : Progress) : Prop where
  clean : ¬ Failed q.top.diagnostics
  bodies : ∀ body ∈ q.bodies.toList, Code.Fits body.1
  topLevel : Code.Fits q.topLevel.toList

/-- A walk through all the items of a unit, on top of its declarations. -/
def walked (ctx : Context) (items : List Item) : Progress :=
  addItems ctx { top := { diagnostics := ctx.declared.diagnostics } } items

/-- The order is nothing to whether a walk is good. -/
theorem Exchanged.good_iff {r : Renaming} {front first second : Nat} {ctx ctx' : Context}
    {items items' : List Item}
    (h : Exchanged r front first second { top := { diagnostics := ctx.declared.diagnostics } }
      { top := { diagnostics := ctx'.declared.diagnostics } } (walked ctx items) (walked ctx' items'))
    (hclean : ¬ Failed ctx.declared.diagnostics) (hclean' : ¬ Failed ctx'.declared.diagnostics) :
    (walked ctx items).Good ↔ (walked ctx' items').Good := by
  have hmap (statements : List Resolved.Stmt) :
      Code.Fits (statements.map (Resolved.Stmt.rename r)) ↔ Code.Fits statements := by
    rw [← Resolved.Stmt.renameAll_eq]
    exact Code.fits_renameAll r statements
  have herrors : Failed (walked ctx items).top.diagnostics ↔
      Failed (walked ctx' items').top.diagnostics := by
    obtain ⟨more, more', hmore, hmore', hsame⟩ := h.errors
    rw [failed_iff, Bool.not_eq_true] at hclean hclean'
    rw [failed_iff, failed_iff, hmore, hmore', List.any_append, List.any_append, hclean, hclean',
      hsame]
  have hbodies : (∀ body ∈ (walked ctx items).bodies.toList, Code.Fits body.1) ↔
      ∀ body ∈ (walked ctx' items').bodies.toList, Code.Fits body.1 := by
    obtain ⟨a, b, c, d, -, -, -, hall, hall'⟩ := h.bodies
    rw [hall, hall']
    simp only [List.forall_mem_append, List.map_append, List.forall_mem_map, renameBody, hmap]
    tauto
  have htop : Code.Fits (walked ctx items).topLevel.toList ↔
      Code.Fits (walked ctx' items').topLevel.toList := by
    obtain ⟨more, more', hmore, hmore', hperm⟩ := h.topLevel
    rw [hmore, hmore']
    exact (hmap more).symm.trans (Code.fits_perm hperm)
  constructor
  · rintro ⟨hgood, hfit, hroom⟩
    exact ⟨mt herrors.mpr hgood, hbodies.mp hfit, htop.mp hroom⟩
  · rintro ⟨hgood, hfit, hroom⟩
    exact ⟨mt herrors.mp hgood, hbodies.mpr hfit, htop.mpr hroom⟩

end Scope.Progress

open Declaration Declarations Scope.Progress

theorem forall_mem_withBody {P : List Resolved.Stmt → Prop} (signatures : List Signature)
    (bodies : List (List Resolved.Stmt × Nat)) (h : signatures.length = bodies.length) :
    (∀ f ∈ List.zipWith Scope.withBody signatures bodies, P f.body) ↔ ∀ body ∈ bodies, P body.1 := by
  induction signatures generalizing bodies with
  | nil => simp [List.eq_nil_of_length_eq_zero h.symm]
  | cons signature rest ih =>
    cases bodies with
    | nil => cases h
    | cons body others =>
      rw [List.zipWith_cons_cons, List.forall_mem_cons, List.forall_mem_cons,
        ih others (Nat.succ.inj h)]
      rfl

/-- Where declarations do not clash, a unit can be built if the walk through it is good. -/
theorem isSome_built {items : List Item} {env : Env} {d : Declarations}
    (hd : d = Declarations.addItems env.program [] (.start env.program) items)
    (h : Tabulates env.program (Item.declarationsAll [] items) d) :
    (built items env).isSome ↔ (walked { env, declared := d } items).Good := by
  have hsize : d.functions.toList.length =
      (walked { env, declared := d } items).bodies.toList.length := by
    rw [h.functions, length_signatures, Array.length_toList]
    have hcounts := (counts_addItems items { env, declared := d }
      { top := { diagnostics := d.diagnostics } } []).bodies
    rw [walked, hcounts]
    exact (Nat.zero_add _).symm
  have hresolve : resolve [items] env =
      ({ functionBase := d.functionBase
         functions := Array.zipWith Scope.withBody d.functions
          (walked { env, declared := d } items).bodies
         classBase := d.classBase
         classes := d.classes
         functionNames := d.functionNames.entries
         globals := d.newGlobals.toList
         topLevel := (walked { env, declared := d } items).topLevel.toList
         topLevelLocals := (walked { env, declared := d } items).top.maxSlot
         returnsValue := (walked { env, declared := d } items).returnsValue },
        (walked { env, declared := d } items).top.diagnostics.toList) := by
    rw [hd]
    rfl
  generalize walked { env, declared := d } items = q at hsize hresolve ⊢
  have hcompile := Code.compile_isOk (resolve [items] env).1 env.program.bindings.size
  have hmembers : (∀ f ∈ (resolve [items] env).1.functions, Code.Fits f.body) ↔
      ∀ body ∈ q.bodies.toList, Code.Fits body.1 := by
    rw [hresolve, ← forall_mem_withBody d.functions.toList q.bodies.toList hsize,
      ← Array.toList_zipWith]
    simp only [Array.mem_toList_iff]
  have hdiagnostics : (resolve [items] env).2 = q.top.diagnostics.toList := by rw [hresolve]
  have htop : (resolve [items] env).1.topLevel = q.topLevel.toList := by rw [hresolve]
  rw [hmembers, htop] at hcompile
  unfold built
  rw [hdiagnostics]
  by_cases herror : q.top.diagnostics.toList.any Diagnostic.isError = true
  · rw [if_pos herror]
    refine iff_of_false Bool.false_ne_true fun hgood => hgood.clean ?_
    exact (failed_iff _).mpr herror
  · have hclean : ¬ Failed q.top.diagnostics := mt (failed_iff _).mp herror
    rw [if_neg herror]
    generalize (resolve [items] env).1.compile env.program.bindings.size = made at hcompile ⊢
    cases made with
    | ok unit =>
      obtain ⟨hfit, hroom⟩ := hcompile.mp ⟨unit, rfl⟩
      exact iff_of_true rfl ⟨hclean, hfit, hroom⟩
    | error e =>
      refine iff_of_false Bool.false_ne_true fun hgood => ?_
      obtain ⟨unit, hunit⟩ := hcompile.mpr ⟨hgood.bodies, hgood.topLevel⟩
      cases hunit

/-- Nothing is built of declarations that clash. -/
theorem built_of_failed {items : List Item} {env : Env}
    (h : Failed (Declarations.addItems env.program [] (.start env.program) items).diagnostics) :
    built items env = none := by
  generalize hd : Declarations.addItems env.program [] (.start env.program) items = d at h
  have hctx := renames_of_matches env (.refl d)
  have hlevel : Level { top := { diagnostics := d.diagnostics } }
      { top := { diagnostics := d.diagnostics } } := Body.alike_refl _ _ rfl rfl
  obtain ⟨more, _, hmore, -⟩ := (adds_items items hctx hlevel fun _ _ => rfl).top.diagnostics
  have herrors : (resolve [items] env).2 = d.diagnostics.toList ++ more := by
    rw [← hmore, ← hd]
    rfl
  unfold built
  rw [herrors, List.any_append, (failed_iff d.diagnostics).mp h, Bool.true_or, if_pos rfl]

/-- A table in which all names lead to the same. -/
def Table.flat (t : Table Nat) : Table Nat :=
  ⟨t.entries.map (Prod.map id fun _ => 0)⟩

theorem Table.names_flat (t : Table Nat) : t.flat.names = t.names := by
  simp [Table.flat, Table.names]

theorem Table.get?_flat (t : Table Nat) (name : String) :
    t.flat.get? name = (t.get? name).map fun _ => 0 :=
  Table.get?_map (fun _ => 0) t.entries name

/-- If all names lead to the same, only the names count. -/
theorem Table.get?_flat_of_perm {t other : Table Nat} (h : t.names.Perm other.names)
    (name : String) : other.flat.get? name = (t.get? name).map fun _ => 0 := by
  have hnone : other.get? name = none ↔ t.get? name = none := by
    rw [get?_eq_none_iff, get?_eq_none_iff, h.mem_iff]
  rw [get?_flat]
  cases hother : other.get? name with
  | none => rw [hnone.mp hother]
  | some id =>
    cases ht : t.get? name with
    | none =>
      rw [hnone.mpr ht] at hother
      cases hother
    | some => rfl

/-- A context in which all global variables share one slot. -/
def flatContext (env : Env) (d : Declarations) : Scope.Context where
  env := { env with program := { env.program with globalNames := env.program.globalNames.flat } }
  declared := { d with globals := d.globals.flat }

section Swap

variable {env : Env} {front first second rest : List Item} {d d' : Declarations}

/-- The numbers of classes go where their declarations go. -/
theorem swapped_classId (global : Nat → Nat) (place : Nat) :
    (swapped env.program (Item.declarationsAll [] front) (Item.declarationsAll [] first)
      (Item.declarationsAll [] second) global).classId (env.program.classes.size + place) =
        env.program.classes.size + swapPlaces (Item.classesAll front).length
          (Item.classesAll first).length (Item.classesAll second).length place := by
  unfold swapped
  dsimp only
  rw [swapPlaces_add, Item.total_classCount_all, Item.total_classCount_all,
    Item.total_classCount_all]

/-- A walk is good if and only if one in the other order is, with all global variables in one slot.
Their own slots depend on the order. -/
theorem good_iff_flat (hclosed : env.program.Closed)
    (hdistinct : Distinct (Item.declarationsAll [] (front ++ (first ++ (second ++ rest)))))
    (h : Tabulates env.program (Item.declarationsAll [] (front ++ (first ++ (second ++ rest)))) d)
    (h' : Tabulates env.program (Item.declarationsAll [] (front ++ (second ++ (first ++ rest)))) d')
    (hclean : ¬ Failed d.diagnostics) (hclean' : ¬ Failed d'.diagnostics) :
    (walked { env, declared := d } (front ++ (first ++ (second ++ rest)))).Good ↔
      (walked (flatContext env d')
        (Item.bareAll (front ++ (second ++ (first ++ rest))))).Good := by
  have hnames : d.globals.names.Perm d'.globals.names := by
    rw [h.globals, h'.globals]
    simp only [Item.declarationsAll_append]
    exact (perm_swapped ..).filterMap _
  have hflat : Tabulates env.program
      (Item.declarationsAll [] (front ++ (second ++ (first ++ rest))))
      { d' with globals := d'.globals.flat } :=
    { h' with globals := (Table.names_flat _).trans h'.globals }
  simp only [Item.declarationsAll_append] at hdistinct h hflat
  have hctx := renames_swapped hclosed hdistinct h hflat (Table.get?_flat_of_perm hnames)
    (Table.get?_flat env.program.globalNames)
  have hnested (diagnostics : Array Diagnostic) : ({ diagnostics } : Body).Nested 0 :=
    ⟨rfl, Nat.le_refl _⟩
  refine Exchanged.good_iff (exchanged_addItems hctx (hnested _) (hnested _) rfl rfl front first
    second rest fun place => ?_) hclean hclean'
  rw [h.classBase, swapped_classId]
  exact congrArg (· + _) h'.classBase.symm

/-- Without a change of places, too. -/
theorem good_iff_flat_self {items : List Item} (hclosed : env.program.Closed)
    (hdistinct : Distinct (Item.declarationsAll [] items))
    (h : Tabulates env.program (Item.declarationsAll [] items) d) (hclean : ¬ Failed d.diagnostics) :
    (walked { env, declared := d } items).Good ↔
      (walked (flatContext env d) (Item.bareAll items)).Good := by
  have hflat := @good_iff_flat env items [] [] [] d d hclosed
  simp only [List.append_nil] at hflat
  exact hflat hdistinct h h hclean hclean

end Swap

/-- Two stretches of items that change places make no difference to whether a unit can be built. -/
theorem isSome_built_swap {env : Env} (hclosed : env.program.Closed)
    (front first second rest : List Item) :
    (built (front ++ (first ++ (second ++ rest))) env).isSome ↔
      (built (front ++ (second ++ (first ++ rest))) env).isSome := by
  have hout := outcome_addItems env.program (front ++ (first ++ (second ++ rest)))
  have hout' := outcome_addItems env.program (front ++ (second ++ (first ++ rest)))
  have hperm : (Item.declarationsAll [] (front ++ (first ++ (second ++ rest)))).Perm
      (Item.declarationsAll [] (front ++ (second ++ (first ++ rest)))) := by
    simp only [Item.declarationsAll_append]
    exact perm_swapped ..
  obtain ⟨hdistinct, htables, hclean⟩ | ⟨hclash, hfailed⟩ := hout
  · obtain ⟨hdistinct', htables', hclean'⟩ | ⟨hclash', -⟩ := hout'
    · -- Both walks are compared with one in which all global variables share a slot.
      have hgood := good_iff_flat hclosed hdistinct htables htables' hclean hclean'
      have hgood' := good_iff_flat_self hclosed hdistinct' htables' hclean'
      rw [isSome_built rfl htables, isSome_built rfl htables', hgood, hgood']
    · exact absurd (hdistinct.perm hperm) hclash'
  · obtain ⟨hdistinct', -, -⟩ | ⟨-, hfailed'⟩ := hout'
    · exact absurd (hdistinct'.perm hperm.symm) hclash
    · rw [built_of_failed hfailed, built_of_failed hfailed']

end ScriptHost
