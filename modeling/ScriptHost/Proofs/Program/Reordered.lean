import ScriptHost.Proofs.Code.Room
import ScriptHost.Proofs.Machine.Renumbered
import ScriptHost.Proofs.Machine.Reordered
import ScriptHost.Proofs.Program.Exchanged
/-!
# Declarations change places

A unit of declarations is built twice, and two stretches of them have changed places in between. Once
they are linked onto the same program the two units make two programs that are the same but for the
numbers of what is new: `reordered_swap`.
-/

set_option autoImplicit false

namespace ScriptHost

/-! ## The code of functions in another order -/

/-- A function with new numbers in its body. -/
def Resolved.Function.rename (r : Renaming) (f : Resolved.Function) : Resolved.Function :=
  { f with body := Resolved.Stmt.renameAll r f.body }

/-- A function is another one, but for the numbers in its code. -/
def Function.Renumbers (r : Renaming) (hosts : Nat → Nat → Prop) (f other : Function) : Prop :=
  ∃ chunk, other = { f with chunk } ∧ f.chunk.Renumbers r hosts chunk

theorem Function.Renumbers.mono {r : Renaming} {hosts wider : Nat → Nat → Prop}
    (hwider : ∀ id id', hosts id id' → wider id id') {f other : Function}
    (h : f.Renumbers r hosts other) : f.Renumbers r wider other := by
  obtain ⟨chunk, hother, hchunk⟩ := h
  exact ⟨chunk, hother, hchunk.toMatches.mono hwider, hchunk.plain⟩

namespace Code

/-- A function has been made on the way to the host calls `after`. -/
def MadeFor (base : Nat) (after : Array (String × String)) (t : Resolved.Function) (f : Function) :
    Prop :=
  ∃ pool pool', function base t pool = .ok f pool' ∧ Lists pool'.hostCalls after

/-- Functions are made one after the other. -/
theorem functions_madeFor {base : Nat} {trees : List Resolved.Function} {before after : Pool}
    {made : List Function} (h : trees.mapM (function base) before = .ok made after) :
    Lists before.hostCalls after.hostCalls ∧
      List.Forall₂ (MadeFor base after.hostCalls) trees made := by
  induction trees generalizing before made with
  | nil =>
    obtain ⟨rfl, rfl⟩ := pure_eq_ok.mp (by simpa only [List.mapM_nil] using h)
    exact ⟨fun _ _ hcall => hcall, .nil⟩
  | cons t rest ih =>
    simp only [List.mapM_cons, bind_eq_ok, pure_eq_ok] at h
    obtain ⟨f, middle, hf, others, _, hothers, rfl, rfl⟩ := h
    obtain ⟨hkept, -⟩ := function_ok hf
    obtain ⟨hkept', hrest⟩ := ih hothers
    exact ⟨fun index call hcall => hkept' index call (hkept index call hcall),
      .cons ⟨before, middle, hf, hkept'⟩ hrest⟩

/-- A function is made into the same code under new numbers. -/
theorem MadeFor.renumbers {base : Nat} {r : Renaming} {after after' : Array (String × String)}
    {t : Resolved.Function} {f f' : Function} (h : MadeFor base after t f)
    (h' : MadeFor base after' (t.rename r) f')
    (hplain : Scope.Unnumbered (Resolved.Stmt.constantsAll t.body)) :
    f.Renumbers r (SameHost base base after after') f' := by
  obtain ⟨pool, _, hf, hkept⟩ := h
  obtain ⟨pool', _, hf', hkept'⟩ := h'
  simp only [function, bind_eq_ok, pure_eq_ok] at hf hf'
  obtain ⟨chunk, _, hchunk, rfl, rfl⟩ := hf
  obtain ⟨chunk', _, hchunk', rfl, rfl⟩ := hf'
  have hconstants := chunk_constants (body_needs base t.body) hchunk
  have hends := chunk_twins (body_twins r base base t.body) t.localCount pool pool'
  change Code.chunk t.localCount (Code.body base (Resolved.Stmt.renameAll r t.body)) pool' = _ at hchunk'
  rw [hchunk, hchunk'] at hends
  cases hends with
  | ok _ _ _ hsame =>
    refine ⟨chunk', rfl, hsame _ fun id id' hid => ?_, fun value hvalue => ?_⟩
    · obtain ⟨index, index', call, hid, hid', hcall, hcall'⟩ := hid
      exact ⟨index, index', call, hid, hid', hkept _ _ hcall, hkept' _ _ hcall'⟩
    · rw [hconstants] at hvalue
      obtain hnone | hvalue := mem_listConstants hvalue
      · simp at hnone
      · exact hplain value hvalue r

/-- Functions of which two stretches have changed places are the same, under new numbers. -/
theorem functions_swapped {base : Nat} {r : Renaming} {a b c d : List Resolved.Function}
    {made made' : List Function} {pool pool' after after' : Pool}
    (h : (a ++ (b ++ (c ++ d))).mapM (function base) pool = .ok made after)
    (h' : ((a ++ (c ++ (b ++ d))).map (Resolved.Function.rename r)).mapM (function base) pool' =
      .ok made' after')
    (hplain : ∀ t ∈ a ++ (b ++ (c ++ d)), Scope.Unnumbered (Resolved.Stmt.constantsAll t.body))
    (place : Nat) :
    Option.Rel (Function.Renumbers r (SameHost base base after.hostCalls after'.hostCalls))
      made[place]? made'[swapPlaces a.length b.length c.length place]? := by
  have hplace := getElem?_forall₂ (functions_madeFor h).2 place
  have hplace' := getElem?_forall₂ (functions_madeFor h').2
    (swapPlaces a.length b.length c.length place)
  rw [List.getElem?_map, getElem?_swapPlaces] at hplace'
  have hconstants (t : Resolved.Function) (ht : (a ++ (b ++ (c ++ d)))[place]? = some t) :
      Scope.Unnumbered (Resolved.Stmt.constantsAll t.body) := hplain t (List.mem_of_getElem? ht)
  generalize (a ++ (b ++ (c ++ d)))[place]? = t? at hplace hplace' hconstants
  generalize made[place]? = f? at hplace ⊢
  generalize made'[swapPlaces a.length b.length c.length place]? = f'? at hplace' ⊢
  cases hplace with
  | none =>
    cases hplace'
    exact .none
  | some hf =>
    cases hplace' with
    | some hf' => exact .some (hf.renumbers hf' (hconstants _ rfl))

end Code

open Declaration Declarations Scope.Progress

/-! ## Bare items -/

mutual

theorem Item.declarations_bare : ∀ (item : Item) (outer : List String),
    item.bare.declarations outer = item.declarations outer
  | .space path items _, outer => by
    rw [Item.bare, Item.declarations, Item.declarations, Item.declarationsAll_bareAll]
  | .classDecl c, outer => by
    rw [Item.bare, Item.declarations, Item.declarations]
    simp [ClassDecl.declaration, ClassDecl.bare, Function.comp_def, FunctionDecl.bare]
  | .function f, outer => rfl
  | .stmt s, outer => by cases s <;> rfl

/-- Places are nothing to what is declared. -/
theorem Item.declarationsAll_bareAll : ∀ (items : List Item) (outer : List String),
    Item.declarationsAll outer (Item.bareAll items) = Item.declarationsAll outer items
  | [], _ => rfl
  | item :: rest, outer => by
    rw [Item.bareAll, Item.declarationsAll, Item.declarationsAll, Item.declarations_bare item,
      Item.declarationsAll_bareAll rest]

end

mutual

theorem Item.statements_bare : ∀ item : Item,
    item.bare.statements = item.statements.map Stmt.bare
  | .space _ items _ => Item.statementsAll_bareAll items
  | .classDecl _ | .function _ | .stmt _ => rfl

theorem Item.statementsAll_bareAll : ∀ items : List Item,
    Item.statementsAll (Item.bareAll items) = (Item.statementsAll items).map Stmt.bare
  | [] => rfl
  | item :: rest => by
    rw [Item.bareAll, Item.statementsAll, Item.statementsAll, Item.statements_bare item,
      Item.statementsAll_bareAll rest, List.map_append]

end

theorem Declares.bareAll {items : List Item} (h : Declares items) :
    Declares (Item.bareAll items) := by
  have hnone : Item.statementsAll items = [] := h
  unfold Declares
  rw [Item.statementsAll_bareAll, hnone]
  rfl

/-- Places are nothing to what is built. -/
theorem built_bareAll (items : List Item) (env : Env) :
    built (Item.bareAll items) env = built items env := by
  obtain ⟨hunit, hsame⟩ := resolve_bareAll items env
  unfold built
  rw [hunit, hsame.any_isError]

/-! ## What has been built -/

section Built

variable {items : List Item} {env : Env} {unit : CompiledUnit}

theorem built_ok (h : built items env = some unit) :
    (resolve [items] env).2.any Diagnostic.isError = false ∧
      (resolve [items] env).1.compile env.program.bindings.size = .ok unit := by
  unfold built at h
  split at h
  · cases h
  · rename_i hclean
    refine ⟨Bool.not_eq_true _ ▸ hclean, ?_⟩
    cases hcompile : (resolve [items] env).1.compile env.program.bindings.size with
    | error e =>
      rw [hcompile] at h
      cases h
    | ok other =>
      rw [hcompile] at h
      cases h
      rfl

/-- What is built has been declared without an error, as it is listed. -/
theorem built_tabulates (h : built items env = some unit) :
    Distinct (Item.declarationsAll [] items) ∧
      Tabulates env.program (Item.declarationsAll [] items) (.ofTexts env.program [items]) ∧
        ¬ Failed (Declarations.ofTexts env.program [items]).diagnostics := by
  obtain hgood | ⟨-, hfailed⟩ := outcome_addItems env.program items
  · exact hgood
  · rw [built_of_failed hfailed] at h
    cases h

theorem built_carries (h : built items env = some unit) :
    unit.Carries env (.ofTexts env.program [items]) := by
  obtain ⟨-, -, hclean⟩ := built_tabulates h
  have hlowered := Code.compile_ok (built_ok h).2
  exact ⟨sound_ofTexts env.program [items], hclean, hlowered.classBase, hlowered.classes,
    hlowered.functionNames⟩

/-- The functions of a unit of declarations are made first, and then there is nothing left to do. -/
theorem built_functions (h : built items env = some unit) (hdeclares : Declares items) :
    ∃ pool : Code.Pool, pool.hostCalls = unit.hostCalls ∧
      (resolve [items] env).1.functions.toList.mapM (Code.function env.program.bindings.size) {} =
        .ok unit.functions.toList pool := by
  have hcompiled := (built_ok h).2
  obtain ⟨htop, hlocals, hvalue⟩ := resolve_declares hdeclares env
  rw [Code.compile_run_of_declares htop hlocals hvalue, Code.functions_run] at hcompiled
  unfold EStateM.map at hcompiled
  cases hmade : (resolve [items] env).1.functions.toList.mapM
      (Code.function env.program.bindings.size) {} with
  | error e pool =>
    rw [hmade] at hcompiled
    cases hcompiled
  | ok functions pool =>
    rw [hmade] at hcompiled
    cases hcompiled
    exact ⟨pool, rfl, rfl⟩

/-- A unit of declarations leaves the global variables alone. -/
theorem built_globalNames (h : built items env = some unit) (hdeclares : Declares items)
    (allowed : AllowedModules) :
    (env.program.append unit allowed).globalNames = env.program.globalNames := by
  have hnew := (sameGlobals_addItems env.program items [] (.start env.program) hdeclares).newGlobals
  have hglobals : unit.globals = [] := by
    rw [(Code.compile_ok (built_ok h).2).globals]
    exact congrArg Array.toList hnew
  rw [Program.append, hglobals]
  rfl

/-- The constants in the bodies hold no numbers of classes. -/
theorem built_unnumbered (h : built items env = some unit) :
    ∀ t ∈ (resolve [items] env).1.functions.toList,
      Scope.Unnumbered (Resolved.Stmt.constantsAll t.body) := by
  intro t ht
  obtain ⟨index, hindex⟩ := Array.mem_iff_getElem?.mp (Array.mem_toList_iff.mp ht)
  obtain ⟨w, -, hresolves⟩ := (resolve_bodies (built_ok h).1).1 index t hindex
  exact hresolves.unnumbered

end Built

/-! ## Functions -/

/-- The functions that items declare, with bodies. -/
def functionsOf (items : List Item) (bodies : List (List Resolved.Stmt × Nat)) :
    List Resolved.Function :=
  List.zipWith Scope.withBody ((Item.declarationsAll [] items).flatMap signatures) bodies

/-- The functions of a unit are what is declared, with the bodies that have been found. -/
theorem resolve_functions {env : Env} {d : Declarations} {items declared : List Item}
    (hd : d = .ofTexts env.program [items])
    (h : Tabulates env.program (Item.declarationsAll [] declared) d) :
    (resolve [items] env).1.functions.toList =
      functionsOf declared (walked { env, declared := d } items).bodies.toList := by
  unfold functionsOf
  rw [← h.functions, hd]
  unfold resolve
  dsimp only [List.foldl_cons, List.foldl_nil]
  rw [Array.toList_zipWith]
  rfl

section Bodies

variable {items : List Item} {bodies : List (List Resolved.Stmt × Nat)}

theorem length_functionsOf
    (h : bodies.length = total functionCount (Item.declarationsAll [] items)) :
    (functionsOf items bodies).length = total functionCount (Item.declarationsAll [] items) := by
  rw [functionsOf, List.length_zipWith, length_signatures, h, Nat.min_self]

theorem functionsOf_append (h : bodies.length = total functionCount (Item.declarationsAll [] items))
    (rest : List Item) (others : List (List Resolved.Stmt × Nat)) :
    functionsOf (items ++ rest) (bodies ++ others) =
      functionsOf items bodies ++ functionsOf rest others := by
  unfold functionsOf
  rw [Item.declarationsAll_append, List.flatMap_append, List.zipWith_append]
  rw [length_signatures, h]

theorem functionsOf_rename (r : Renaming) (items : List Item)
    (bodies : List (List Resolved.Stmt × Nat)) :
    functionsOf items (bodies.map (renameBody r)) =
      (functionsOf items bodies).map (Resolved.Function.rename r) := by
  unfold functionsOf
  rw [List.zipWith_map_right, List.map_zipWith]
  refine congrArg (List.zipWith · _ bodies) ?_
  funext signature body
  unfold Scope.withBody renameBody Resolved.Function.rename
  rw [Resolved.Stmt.renameAll_eq]

end Bodies

section Swap

variable {env : Env} {front first second rest : List Item} {unit unit' : CompiledUnit}

/-- The new numbers when two stretches of declarations change places. -/
def swappedItems (program : Program) (front first second : List Item) : Renaming :=
  swapped program (Item.declarationsAll [] front) (Item.declarationsAll [] first)
    (Item.declarationsAll [] second) id

/-- Names lead to the same in both orders, but for the numbers. -/
theorem renames_swappedItems (hclosed : env.program.Closed) {d d' : Declarations}
    (hdistinct : Distinct (Item.declarationsAll [] (front ++ (first ++ (second ++ rest)))))
    (h : Tabulates env.program (Item.declarationsAll [] (front ++ (first ++ (second ++ rest)))) d)
    (h' : Tabulates env.program (Item.declarationsAll [] (front ++ (second ++ (first ++ rest)))) d')
    (hglobals : d'.globals = d.globals) :
    Scope.Context.Renames (swappedItems env.program front first second) { env, declared := d }
      { env, declared := d' } := by
  simp only [Item.declarationsAll_append] at hdistinct h h'
  have hid (found : Option Nat) : found = found.map id := Option.map_id.symm ▸ rfl
  exact renames_swapped hclosed hdistinct h h' (fun name => hglobals ▸ hid _) fun name => hid _

/-- The functions of the two units are the same, but for the numbers and for their places. -/
theorem functions_exchanged {r : Renaming} {d d' : Declarations}
    (hd : d = .ofTexts env.program [front ++ (first ++ (second ++ rest))])
    (hd' : d' = .ofTexts env.program [Item.bareAll (front ++ (second ++ (first ++ rest)))])
    (h : Tabulates env.program (Item.declarationsAll [] (front ++ (first ++ (second ++ rest)))) d)
    (h' : Tabulates env.program (Item.declarationsAll [] (front ++ (second ++ (first ++ rest)))) d')
    (hctx : Scope.Context.Renames r { env, declared := d } { env, declared := d' })
    (hids : ∀ place, r.classId (env.program.classes.size + place) = env.program.classes.size +
      swapPlaces (Item.classesAll front).length (Item.classesAll first).length
        (Item.classesAll second).length place) :
    ∃ a b c e : List Resolved.Function,
      a.length = total functionCount (Item.declarationsAll [] front) ∧
        b.length = total functionCount (Item.declarationsAll [] first) ∧
        c.length = total functionCount (Item.declarationsAll [] second) ∧
        (resolve [front ++ (first ++ (second ++ rest))] env).1.functions.toList =
          a ++ (b ++ (c ++ e)) ∧
        (resolve [Item.bareAll (front ++ (second ++ (first ++ rest)))] env).1.functions.toList =
          (a ++ (c ++ (b ++ e))).map (Resolved.Function.rename r) := by
  have hstart (d : Declarations) :
      ({ top := { diagnostics := d.diagnostics } } : Scope.Progress).top.Nested 0 :=
    ⟨rfl, Nat.le_refl _⟩
  have hwalked := exchanged_addItems hctx (hstart d) (hstart d') rfl rfl front first second rest
    fun place => by
      rw [h.classBase, h'.classBase, hids]
  obtain ⟨a, b, c, e, ha, hb, hc, hbodies, hbodies'⟩ := hwalked.bodies
  have hlists : (walked { env, declared := d } (front ++ (first ++ (second ++ rest)))).bodies.toList =
      a ++ (b ++ (c ++ e)) := hbodies
  have hlists' : (walked { env, declared := d' }
      (Item.bareAll (front ++ (second ++ (first ++ rest))))).bodies.toList =
        (a ++ (c ++ (b ++ e))).map (renameBody r) := hbodies'
  refine ⟨functionsOf front a, functionsOf first b, functionsOf second c, functionsOf rest e,
    length_functionsOf ha, length_functionsOf hb, length_functionsOf hc, ?_, ?_⟩
  · rw [resolve_functions hd h, hlists, functionsOf_append ha, functionsOf_append hb,
      functionsOf_append hc]
  · rw [resolve_functions hd' h', hlists', functionsOf_rename, functionsOf_append ha,
      functionsOf_append hc, functionsOf_append hb]

/-- Declarations bring in no global variables. -/
theorem globals_of_declares (program : Program) {items : List Item} (hdeclares : Declares items) :
    (Declarations.ofTexts program [items]).globals = {} :=
  (sameGlobals_addItems program items [] (.start program) hdeclares).globals

/-- The functions of the two units are made into the same code, but for the numbers. -/
theorem functions_renumbered (hclosed : env.program.Closed)
    (h : built (front ++ (first ++ (second ++ rest))) env = some unit)
    (h' : built (front ++ (second ++ (first ++ rest))) env = some unit')
    (hdeclares : Declares (front ++ (first ++ (second ++ rest))))
    (hdeclares' : Declares (front ++ (second ++ (first ++ rest)))) (place : Nat) :
    Option.Rel (Function.Renumbers (swappedItems env.program front first second)
        (Code.SameHost env.program.bindings.size env.program.bindings.size unit.hostCalls
          unit'.hostCalls))
      unit.functions[place]?
      unit'.functions[swapPlaces (total functionCount (Item.declarationsAll [] front))
        (total functionCount (Item.declarationsAll [] first))
        (total functionCount (Item.declarationsAll [] second)) place]? := by
  -- The second unit is read without places, so that the two walks can be compared.
  have hbare : built (Item.bareAll (front ++ (second ++ (first ++ rest)))) env = some unit' := by
    rw [built_bareAll]
    exact h'
  obtain ⟨hdistinct, htables, -⟩ := built_tabulates h
  obtain ⟨-, htables', -⟩ := built_tabulates hbare
  rw [Item.declarationsAll_bareAll] at htables'
  have hglobals := (globals_of_declares env.program hdeclares'.bareAll).trans
    (globals_of_declares env.program hdeclares).symm
  have hctx := renames_swappedItems hclosed hdistinct htables htables' hglobals
  obtain ⟨a, b, c, e, ha, hb, hc, hlist, hlist'⟩ :=
    functions_exchanged rfl rfl htables htables' hctx (swapped_classId id)
  obtain ⟨pool, hpool, hmade⟩ := built_functions h hdeclares
  obtain ⟨pool', hpool', hmade'⟩ := built_functions hbare hdeclares'.bareAll
  have hplain := built_unnumbered h
  rw [hlist] at hmade hplain
  rw [hlist'] at hmade'
  have hsame := Code.functions_swapped hmade hmade' hplain place
  rw [ha, hb, hc, hpool, hpool'] at hsame
  rwa [Array.getElem?_toList, Array.getElem?_toList] at hsame

/-- What was there before two units has one number in both programs. -/
theorem sameBinding_of_lt (program : Program) (unit unit' : CompiledUnit) (allowed : AllowedModules)
    {id : Nat} (hid : id < program.bindings.size) :
    (program.append unit allowed).SameBinding (program.append unit' allowed) id id := by
  refine ⟨program.bindings[id], ?_, ?_⟩
  · rw [Program.append, Array.getElem?_append_left hid, Array.getElem?_eq_getElem hid]
  · rw [Program.append, Array.getElem?_append_left hid, Array.getElem?_eq_getElem hid]

/-- A host function that two units call has one binding in both programs, under two numbers. -/
theorem sameBinding_of_sameHost (program : Program) (unit unit' : CompiledUnit)
    (allowed : AllowedModules) {id id' : Nat}
    (h : Code.SameHost program.bindings.size program.bindings.size unit.hostCalls unit'.hostCalls
      id id') :
    (program.append unit allowed).SameBinding (program.append unit' allowed) id id' := by
  obtain ⟨index, index', ⟨module, function⟩, rfl, rfl, hcall, hcall'⟩ := h
  exact ⟨_, bound_append program unit allowed #[] index module function hcall,
    bound_append program unit' allowed #[] index' module function hcall'⟩

/-- There is a function for each one declared. -/
theorem size_built {items : List Item} (h : built items env = some unit) :
    unit.functions.size = total functionCount (Item.declarationsAll [] items) := by
  obtain ⟨-, htables, -⟩ := built_tabulates h
  have hlength := (Code.compile_ok (built_ok h).2).functions.length_eq
  have hcounts := (counts_addItems items { env, declared := .ofTexts env.program [items] }
    { top := { diagnostics := (Declarations.ofTexts env.program [items]).diagnostics } } []).bodies
  rw [resolve_functions rfl htables, length_functionsOf, Array.length_toList] at hlength
  · exact hlength
  · rw [Array.length_toList, walked, hcounts]
    exact Nat.zero_add _

section Numbers

variable {program : Program} {id : Nat}

theorem swappedItems_function_of_lt (hid : id < program.functions.size) :
    (swappedItems program front first second).function id = id :=
  swapPlaces_of_lt (Nat.lt_add_right _ hid)

theorem swappedItems_classId_of_lt (hid : id < program.classes.size) :
    (swappedItems program front first second).classId id = id :=
  swapPlaces_of_lt (Nat.lt_add_right _ hid)

theorem swappedItems_function_add (place : Nat) :
    (swappedItems program front first second).function (program.functions.size + place) =
      program.functions.size + swapPlaces (total functionCount (Item.declarationsAll [] front))
        (total functionCount (Item.declarationsAll [] first))
        (total functionCount (Item.declarationsAll [] second)) place :=
  swapPlaces_add ..

end Numbers

/-- A function of the first program is one of the second, under its new number. -/
theorem function_swapped (hclosed : env.program.CodeClosed)
    (h : built (front ++ (first ++ (second ++ rest))) env = some unit)
    (h' : built (front ++ (second ++ (first ++ rest))) env = some unit')
    (hdeclares : Declares (front ++ (first ++ (second ++ rest))))
    (hdeclares' : Declares (front ++ (second ++ (first ++ rest)))) (allowed : AllowedModules)
    {id : Nat} {f : Function} (hf : (env.program.append unit allowed).functions[id]? = some f) :
    ∃ chunk, (env.program.append unit' allowed).functions[
        (swappedItems env.program front first second).function id]? = some { f with chunk } ∧
      f.chunk.Renumbers (swappedItems env.program front first second)
        ((env.program.append unit allowed).SameBinding (env.program.append unit' allowed)) chunk := by
  by_cases hid : id < env.program.functions.size
  · rw [Program.append, Array.getElem?_append_left hid] at hf
    refine ⟨f.chunk, ?_, ?_⟩
    · rw [swappedItems_function_of_lt hid, Program.append, Array.getElem?_append_left hid]
      exact hf
    · exact (hclosed.code id f hf).renumbers (fun _ => swappedItems_function_of_lt)
        (fun _ => swappedItems_classId_of_lt) (fun _ => rfl) fun _ hbinding =>
          sameBinding_of_lt env.program unit unit' allowed hbinding
  · obtain ⟨place, rfl⟩ := Nat.exists_eq_add_of_le (Nat.le_of_not_lt hid)
    rw [Program.append, Array.getElem?_append_right (Nat.le_add_right ..),
      Nat.add_sub_cancel_left] at hf
    have hplace := functions_renumbered hclosed.toClosed h h' hdeclares hdeclares' place
    rw [hf] at hplace
    rw [swappedItems_function_add]
    generalize swapPlaces _ _ _ place = place' at hplace ⊢
    cases hf' : unit'.functions[place']? with
    | none =>
      rw [hf'] at hplace
      cases hplace
    | some f' =>
      rw [hf'] at hplace
      cases hplace with
      | some hsame =>
        obtain ⟨chunk, rfl, hchunk⟩ := hsame.mono fun _ _ =>
          sameBinding_of_sameHost env.program unit unit' allowed
        refine ⟨chunk, ?_, hchunk⟩
        rw [Program.append, Array.getElem?_append_right (Nat.le_add_right ..),
          Nat.add_sub_cancel_left]
        exact hf'

/-- The two programs are the same, but for the numbers of what is new. -/
theorem reordered_swap (hclosed : env.program.CodeClosed)
    (h : built (front ++ (first ++ (second ++ rest))) env = some unit)
    (h' : built (front ++ (second ++ (first ++ rest))) env = some unit')
    (hdeclares : Declares (front ++ (first ++ (second ++ rest))))
    (hdeclares' : Declares (front ++ (second ++ (first ++ rest)))) (allowed : AllowedModules) :
    env.program.Reordered (env.program.append unit allowed) (env.program.append unit' allowed)
      (swappedItems env.program front first second) := by
  obtain ⟨hdistinct, htables, -⟩ := built_tabulates h
  obtain ⟨-, htables', -⟩ := built_tabulates h'
  have hcarries := built_carries h
  have hcarries' := built_carries h'
  have hglobals := (globals_of_declares env.program hdeclares').trans
    (globals_of_declares env.program hdeclares).symm
  have hctx := renames_swappedItems hclosed.toClosed hdistinct htables htables' hglobals
  have hsize := size_built h
  have hsize' := size_built h'
  have hcount := htables.classCount
  simp only [Item.declarationsAll_append, total_append] at hsize hsize' hcount
  exact
    { functions := fun id f => function_swapped hclosed h h' hdeclares hdeclares' allowed
      noFunction := fun id hid => by
        rw [Program.append, Array.getElem?_eq_none_iff, Array.size_append, hsize] at hid
        constructor
        · exact swapPlaces_of_ge (by omega)
        · rw [Program.append, Array.getElem?_eq_none_iff, Array.size_append, hsize']
          omega
      classes := fun number => by
        rw [hcarries'.classOf?_append allowed, hcarries.classOf?_append allowed]
        simp only [Item.declarationsAll_append] at htables htables'
        exact classOf?_swapped id hclosed.toClosed htables htables' number
      noClass := fun id hid => by
        rw [Program.append, Array.getElem?_eq_none_iff, Array.size_append, hcarries.classes,
          hcount] at hid
        exact swapPlaces_of_ge (by omega)
      bindings := fun _ _ hsame => hsame
      globals := fun _ => rfl
      keptFunctions := fun _ => swappedItems_function_of_lt
      keptClasses := fun _ => swappedItems_classId_of_lt
      functionsApart := swapPlaces_injective ..
      classesApart := swapPlaces_injective ..
      functionNames := fun name =>
        (hcarries'.leads?_functionNames allowed name).trans ((hctx.functionNames name).trans
          (congrArg _ (hcarries.leads?_functionNames allowed name).symm))
      classNames := fun name =>
        (hcarries'.leads?_classNames allowed name).trans ((hctx.classNames name).trans
          (congrArg _ (hcarries.leads?_classNames allowed name).symm))
      globalNames := by
        rw [built_globalNames h hdeclares, built_globalNames h' hdeclares'] }

end Swap

end ScriptHost
